import Pintos.Filesys.Calls

/-!
# Creating a file on a sound file system with room

With a run of free sectors long enough for an inode and its data, and a free slot in the root
directory, `filesys_create` of a valid new name succeeds (`filesys_create_spec`). Its first-fit
allocations come out of the free run (`bitmap_scan_of_free_run`), so what is left of the run
pays for the next file. The new inode and its data are sectors that nothing used, so no other
file changes, and the entry takes the first free slot. A failed create is where
`fsutil_extract` panics; `extract_without_room_panics` shows the call failing on a full device.
-/

namespace Pintos.Filesys

open Bitmap EStateM

variable {s : Fs}

/-! ## The free map -/

/-- Marking more sectors in use keeps the file system sound. -/
theorem Fs.Sound.mark (hs : s.Sound) {b : Bitmap} (hsize : bitmap_size b = bitmap_size s.free_map)
    (hmono : ∀ y, bitmap_test s.free_map y = true → bitmap_test b y = true) :
    ({ s with free_map := b } : Fs).Sound := by
  have hfs : bitmap_file_size b = bitmap_file_size s.free_map := by simp only [bitmap_file_size, hsize]
  refine ⟨⟨hs.disk_size_lt, hsize.trans hs.free_map_size, fun x hx => hmono _ (hs.inode_marked x hx),
    fun x hx j hj => hmono _ (hs.run_marked x hx j hj), hs.on_device, hs.length_nonneg, hs.run_not_inode,
    hs.run_disjoint, hs.files_gt, hfs ▸ hs.free_map_length⟩, hs.mallocs, hs.free_map_file,
    hs.free_map_open, hs.heap_fresh, fun i hi => hmono _ (hs.open_marked i hi), hs.open_cached,
    hs.open_writable⟩

theorem length_bitmapBytes (b : Bitmap) : (bitmapBytes b).length = bitmap_file_size b := by
  simp [bitmapBytes]

/-- `bitmap_write` of a bitmap of the free map's size to the free map's file writes all of it,
to the free map's data sectors only. -/
theorem bitmap_write_spec (hs : s.Sound) {ff : Nat} (hff : s.free_map_file = some ff) {b : Bitmap}
    (hb : bitmap_size b = bitmap_size s.free_map) :
    ∃ D, bitmap_write b (some ff) s = .ok true { s with disk := D } ∧
      ∀ y, ¬(s.diskInode FREE_MAP_SECTOR).Owns y → D y = s.disk y := by
  obtain ⟨ff', hff', hmap⟩ := hs.free_map_file
  rw [hff] at hff'
  cases hff'
  obtain ⟨F, hF, hFi⟩ := Option.map_eq_some_iff.mp hmap
  obtain ⟨i, hi⟩ := Option.isSome_iff_exists.mp hs.free_map_open
  obtain ⟨hmem, hsec⟩ := find?_sector_some hi
  have hd : i.data = s.diskInode FREE_MAP_SECTOR :=
    hsec ▸ (hs.open_cached i hmem (hsec ▸ free_map_mem_inodeSectors s)).1
  have hdev : i.data.OnDevice s.disk_size := hd ▸ hs.on_device _ (free_map_mem_inodeSectors s)
  have hdeny : i.deny_write_cnt = 0 := hs.open_writable i hmem (by rw [hsec]; decide)
  have hfs : bitmap_file_size b = bitmap_file_size s.free_map := by simp only [bitmap_file_size, hb]
  have hi' : s.open_inodes.find? (·.sector = F.inode) = some i := hFi ▸ hi
  obtain ⟨D, hw, hframe, -⟩ := inode_write_at_eq hi' hs.mallocs hdev hdeny
    (show (bitmap_file_size b : Int).toNat ≤ (bitmapBytes b).length by simp [length_bitmapBytes]) 0
  rw [hd] at hw hframe
  have hn : min (bitmap_file_size b : Int).toNat ((s.diskInode FREE_MAP_SECTOR).length.toNat - 0) =
      bitmap_file_size b := by
    have := hs.free_map_length
    omega
  have hwa : file_write_at ff (bitmapBytes b) (bitmap_file_size b) 0 s =
      .ok (bitmap_file_size b) { s with disk := D } := by
    unfold file_write_at
    rw [bind_ok (fileAtFs_ok hF), hw, hn]
  refine ⟨D, ?_, hframe⟩
  unfold bitmap_write
  dsimp only
  rw [bind_ok hwa]
  simp

/-- A first-fit allocation of `cnt ≤ M` sectors from a sound file system with a free run of `M`
sectors from `a` takes the scan's run, marks it, and writes the free map back to its own data
sectors; the file system stays sound with the same files, and `M - cnt` sectors of the run are
still free. -/
theorem free_map_allocate_spec (hs : s.Sound) {a M cnt : Nat} (hrun : FreeRun s.free_map a M) (hcnt : cnt ≤ M) :
    ∃ D, free_map_allocate cnt s = .ok (some (bitmap_scan s.free_map 0 cnt false)) { s with
        free_map := bitmap_set_multiple s.free_map (bitmap_scan s.free_map 0 cnt false) cnt true
        disk := D } ∧
      ({ s with
        free_map := bitmap_set_multiple s.free_map (bitmap_scan s.free_map 0 cnt false) cnt true
        disk := D } : Fs).Sound ∧
      s.FilesAgree { s with
        free_map := bitmap_set_multiple s.free_map (bitmap_scan s.free_map 0 cnt false) cnt true
        disk := D } (fun _ => True) ∧
      bitmap_scan s.free_map 0 cnt false + cnt ≤ s.disk_size ∧
      (∀ j < cnt, bitmap_test s.free_map (bitmap_scan s.free_map 0 cnt false + j) = false) ∧
      FreeRun (bitmap_set_multiple s.free_map (bitmap_scan s.free_map 0 cnt false) cnt true) (a + cnt) (M - cnt) := by
  set p := bitmap_scan s.free_map 0 cnt false
  set b := bitmap_set_multiple s.free_map p cnt true
  have hsize : bitmap_size s.free_map ≤ BITMAP_ERROR := by
    have := hs.disk_size_lt
    rw [← hs.free_map_size] at this
    simp only [BITMAP_ERROR, SIZE_MAX]
    omega
  obtain ⟨hne, -, hrest⟩ := bitmap_scan_of_free_run hsize hrun hcnt
  obtain ⟨-, hfit, hfree, -⟩ := bitmap_scan_spec hne
  rw [Bool.not_false] at hfree
  have hfree' : ∀ j < cnt, bitmap_test s.free_map (p + j) = false := by
    intro j hj
    by_contra hbit
    have : bitmap_contains s.free_map p cnt true = true :=
      (bitmap_contains_iff _ _ _ _).mpr ⟨j, hj, by simpa using hbit⟩
    rw [hfree] at this
    cases this
  have hmark : ({ s with free_map := b } : Fs).Sound := hs.mark (bitmap_size_set_multiple _ _ _ _) fun y hy => by
    rw [bitmap_test_set_multiple]
    split <;> simp [hy]
  obtain ⟨ff, hff, -⟩ := hs.free_map_file
  obtain ⟨D, hw, hframe⟩ := bitmap_write_spec hmark hff (show bitmap_size b = bitmap_size b from rfl)
  obtain ⟨hs', hentries, hinodes, hbytes⟩ :=
    hmark.write_run (free_map_mem_inodeSectors _) (by decide) hframe
  refine ⟨D, ?_, hs', ⟨hentries, hinodes, fun y hy _ => hbytes y (files_subset_inodeSectors hy) ?_⟩,
    hs.free_map_size ▸ hfit, hfree', hrest⟩
  · unfold free_map_allocate bitmap_scan_and_flip
    simp only [get_bind_apply, set_bind_apply, if_pos hne, Bool.not_false]
    rw [if_neg hne]
    simp only [hff] at hw ⊢
    rw [bind_ok hw]
    rfl
  · exact Nat.ne_of_gt (Nat.lt_trans (by decide) (hs.files_gt y hy))

/-! ## Inodes -/

/-- `writeZeros` zeroes its run of the device and no other sector. -/
theorem writeZeros_spec : ∀ (cnt sector : Nat) (s : Fs), sector + cnt ≤ s.disk_size →
    ∃ D, writeZeros sector cnt s = .ok () { s with disk := D } ∧
      ∀ y, ¬(sector ≤ y ∧ y < sector + cnt) → D y = s.disk y
  | 0, sector, s, _ => ⟨s.disk, rfl, fun _ _ => rfl⟩
  | cnt + 1, sector, s, h => by
    obtain ⟨D, hz, hframe⟩ := writeZeros_spec cnt (sector + 1)
      { s with disk := Function.update s.disk sector fun _ => 0 } (by dsimp only; omega)
    refine ⟨D, ?_, fun y hy => ?_⟩
    · unfold writeZeros
      rw [bind_ok (block_write_ok _ (by omega)), hz]
    · rw [hframe y (by omega)]
      exact Function.update_of_ne (by omega) _ _

/-- Writes to sectors the file system does not use leave it sound, with the same files. -/
theorem Fs.Sound.write_unused_agree (hs : s.Sound) {D : Nat → SectorData} (hD : ∀ y, s.Used y → D y = s.disk y) :
    ({ s with disk := D } : Fs).Sound ∧ s.FilesAgree { s with disk := D } (fun _ => True) := by
  obtain ⟨hs', hentries, hinodes, hbytes⟩ := hs.write_unused hD
  exact ⟨hs', hentries, hinodes, fun y hy _ => hbytes y (files_subset_inodeSectors hy)⟩

/-- `inode_create` of an inode at a sector that is marked but that the file system does not use,
with a free run long enough for its data: it takes the data run by first fit, writes the inode and
zeroes the run. The file system stays sound with the same files. -/
theorem inode_create_spec (hs : s.Sound) {x : Nat} (hx : bitmap_test s.free_map x = true) (hxu : ¬s.Used x)
    {length : Int} (h0 : 0 ≤ length) (hmax : length < 2 ^ 31) {a M : Nat} (hrun : FreeRun s.free_map a M)
    (hk : bytes_to_sectors length ≤ M) :
    ∃ D, inode_create x length s = .ok true { s with
        free_map := bitmap_set_multiple s.free_map (bitmap_scan s.free_map 0 (bytes_to_sectors length) false)
          (bytes_to_sectors length) true
        disk := D } ∧
      ({ s with
        free_map := bitmap_set_multiple s.free_map (bitmap_scan s.free_map 0 (bytes_to_sectors length) false)
          (bytes_to_sectors length) true
        disk := D } : Fs).Sound ∧
      s.FilesAgree { s with
        free_map := bitmap_set_multiple s.free_map (bitmap_scan s.free_map 0 (bytes_to_sectors length) false)
          (bytes_to_sectors length) true
        disk := D } (fun _ => True) ∧
      ({ s with disk := D } : Fs).diskInode x =
        ⟨bitmap_scan s.free_map 0 (bytes_to_sectors length) false, length, INODE_MAGIC⟩ ∧
      bitmap_scan s.free_map 0 (bytes_to_sectors length) false + bytes_to_sectors length ≤ s.disk_size ∧
      (∀ j < bytes_to_sectors length,
        bitmap_test s.free_map (bitmap_scan s.free_map 0 (bytes_to_sectors length) false + j) = false) ∧
      FreeRun (bitmap_set_multiple s.free_map (bitmap_scan s.free_map 0 (bytes_to_sectors length) false)
        (bytes_to_sectors length) true) (a + bytes_to_sectors length) (M - bytes_to_sectors length) := by
  set k := bytes_to_sectors length
  set p := bitmap_scan s.free_map 0 k false
  obtain ⟨D₁, halloc, hs₁, hagree₁, hfit, hfree, hrest⟩ := free_map_allocate_spec hs hrun hk
  set s₁ : Fs := { s with free_map := bitmap_set_multiple s.free_map p k true, disk := D₁ }
  -- nothing the two writes touch is used: the inode's sector by assumption, the run since it was free
  have hxu₁ : ¬s₁.Used x := fun h => hxu ((hagree₁.used_iff x).mp h)
  have hxlt : x < s.disk_size := hs.free_map_size ▸ lt_bitmap_size_of_test hx
  have hxrun : ¬(p ≤ x ∧ x < p + k) := by
    rintro ⟨h₁, h₂⟩
    have := hfree (x - p) (by omega)
    rw [Nat.add_sub_cancel' h₁, hx] at this
    cases this
  set s₂ : Fs := { s₁ with disk := Function.update s₁.disk x (InodeDisk.toSector ⟨p, length, INODE_MAGIC⟩) }
  obtain ⟨hs₂, hagree₂⟩ := hs₁.write_unused_agree (show ∀ y, s₁.Used y →
      Function.update s₁.disk x (InodeDisk.toSector ⟨p, length, INODE_MAGIC⟩) y = s₁.disk y from fun y hy =>
    Function.update_of_ne (show y ≠ x from fun h => hxu₁ (h ▸ hy)) _ _)
  obtain ⟨D₃, hz, hzframe⟩ := writeZeros_spec k p s₂ (by dsimp only [s₂, s₁]; omega)
  obtain ⟨hs₃, hagree₃⟩ := hs₂.write_unused_agree (show ∀ y, s₂.Used y → D₃ y = s₂.disk y from
    fun y hy => hzframe y fun hin => by
      have := hfree (y - p) (by omega)
      rw [Nat.add_sub_cancel' hin.1] at this
      exact hs.not_used_of_free this ((hagree₁.trans hagree₂).used_iff y |>.mp hy))
  have hlen : p < 2 ^ 32 := by have := hs.disk_size_lt; omega
  refine ⟨D₃, ?_, hs₃, ⟨?_, ?_, ?_⟩, ?_, hs.free_map_size ▸ hfit, hfree, hrest⟩
  · unfold inode_create
    rw [if_neg (by omega)]
    dsimp only
    rw [bind_ok (allocOk_nil hs.mallocs)]
    simp only [Bool.not_true, Bool.false_eq_true, if_false]
    rw [bind_ok halloc]
    dsimp only
    rw [bind_ok (block_write_ok _ (by dsimp only [s₁]; omega)), bind_ok hz]
    rfl
  · exact (hagree₁.trans hagree₂ |>.trans hagree₃).entries
  · exact (hagree₁.trans hagree₂ |>.trans hagree₃).inodes
  · exact (hagree₁.trans hagree₂ |>.trans hagree₃).bytes
  · show InodeDisk.ofSector (D₃ x) = _
    rw [hzframe x hxrun]
    show InodeDisk.ofSector (Function.update s₁.disk x _ x) = _
    rw [Function.update_self]
    exact ofSector_toSector hlen (show -2 ^ 31 ≤ length by omega) hmax (show INODE_MAGIC < 2 ^ 32 by decide)

/-! ## Files -/

/-- `filesys_create` of a valid name that the root directory does not have, on a sound file
system with a free run for the inode and its data and with a free slot in the root directory,
succeeds. The entry `name ↦ x` takes the first free slot, for a new inode `x` of `initial_size`
bytes that nothing had opened; no other entry, inode or file changes, the file system stays
sound, and what is left of the run stays free. -/
theorem filesys_create_spec (hs : s.Sound) {a M : Nat} (hrun : FreeRun s.free_map a M)
    {name : List UInt8} {initial_size : Int} (h0 : 0 ≤ initial_size) (hmax : initial_size < 2 ^ 31)
    (hk : 1 + bytes_to_sectors initial_size ≤ M) (hadd : Addable s.rootEntries name) (hnul : 0 ∉ name) :
    ∃ s' x, filesys_create name initial_size s = .ok true s' ∧ s'.Sound ∧
      s'.rootEntries = s.rootEntries.set (s.rootEntries.findIdx (!·.in_use)) ⟨x, name, true⟩ ∧
      x ∉ s.inodeSectors ∧ (s'.diskInode x).length = initial_size ∧
      (∀ y ∈ s.inodeSectors, s'.diskInode y = s.diskInode y) ∧
      (∀ y ∈ s.files, fileBytes s' (s.diskInode y) = fileBytes s (s.diskInode y)) ∧
      FreeRun s'.free_map (a + (1 + bytes_to_sectors initial_size)) (M - (1 + bytes_to_sectors initial_size)) ∧
      s'.open_inodes.find? (·.sector = x) = none ∧ s'.file_heap = s.file_heap ∧ s'.file_next = s.file_next := by
  obtain ⟨l₁, hroot, hs₁, ⟨r, hr, -⟩, hother₁⟩ := dir_open_root_spec hs
  obtain ⟨s₂, halloc, hs₂, hagree₂, ho₂, hf₂, hz₂, hh₂, hn₂, hfit₂, hfree₂, hrest₂⟩ :
      ∃ s₂ : Fs, free_map_allocate 1 { s with open_inodes := l₁ } =
          .ok (some (bitmap_scan s.free_map 0 1 false)) s₂ ∧ s₂.Sound ∧ s.FilesAgree s₂ (fun _ => True) ∧
        s₂.open_inodes = l₁ ∧ s₂.free_map = bitmap_set_multiple s.free_map (bitmap_scan s.free_map 0 1 false) 1 true ∧
        s₂.disk_size = s.disk_size ∧ s₂.file_heap = s.file_heap ∧ s₂.file_next = s.file_next ∧
        bitmap_scan s.free_map 0 1 false + 1 ≤ s.disk_size ∧
        (∀ j < 1, bitmap_test s.free_map (bitmap_scan s.free_map 0 1 false + j) = false) ∧
        FreeRun (bitmap_set_multiple s.free_map (bitmap_scan s.free_map 0 1 false) 1 true) (a + 1) (M - 1) := by
    obtain ⟨D₂, halloc, hs₂, hagree₂, hfit₂, hfree₂, hrest₂⟩ :=
      free_map_allocate_spec hs₁ hrun (show 1 ≤ M by omega)
    exact ⟨_, halloc, hs₂, (Fs.FilesAgree.of_disk (show ({ s with open_inodes := l₁ } : Fs).disk = s.disk from rfl) _).trans hagree₂, rfl, rfl, rfl, rfl, rfl, hfit₂, hfree₂,
      hrest₂⟩
  generalize bitmap_scan s.free_map 0 1 false = x at *
  have hxfree : bitmap_test s.free_map x = false := hfree₂ 0 Nat.one_pos
  have hxm₂ : bitmap_test s₂.free_map x = true := by
    rw [hf₂, bitmap_test_set_multiple, if_pos ⟨le_rfl, by omega, by rw [hs.free_map_size]; omega⟩]
  have hxu : ¬s.Used x := hs.not_used_of_free hxfree
  have hxu₂ : ¬s₂.Used x := fun h => hxu ((hagree₂.used_iff x).mp h)
  obtain ⟨s₃, hcreate, hs₃, hagree₃, ho₃, hf₃, hino₃, hz₃, hh₃, hn₃, hfit₃, hfree₃, hrest₃⟩ :
      ∃ s₃ : Fs, inode_create x initial_size s₂ = .ok true s₃ ∧ s₃.Sound ∧
        s₂.FilesAgree s₃ (fun _ => True) ∧ s₃.open_inodes = s₂.open_inodes ∧
        s₃.free_map = bitmap_set_multiple s₂.free_map (bitmap_scan s₂.free_map 0 (bytes_to_sectors initial_size) false)
          (bytes_to_sectors initial_size) true ∧
        s₃.diskInode x = ⟨bitmap_scan s₂.free_map 0 (bytes_to_sectors initial_size) false, initial_size, INODE_MAGIC⟩ ∧
        s₃.disk_size = s₂.disk_size ∧ s₃.file_heap = s₂.file_heap ∧ s₃.file_next = s₂.file_next ∧
        bitmap_scan s₂.free_map 0 (bytes_to_sectors initial_size) false + bytes_to_sectors initial_size ≤ s₂.disk_size ∧
        (∀ j < bytes_to_sectors initial_size,
          bitmap_test s₂.free_map (bitmap_scan s₂.free_map 0 (bytes_to_sectors initial_size) false + j) = false) ∧
        FreeRun s₃.free_map (a + 1 + bytes_to_sectors initial_size) (M - 1 - bytes_to_sectors initial_size) := by
    obtain ⟨D₃, hcreate, hs₃, hagree₃, hino₃, hfit₃, hfree₃, hrest₃⟩ :=
      inode_create_spec hs₂ hxm₂ hxu₂ h0 hmax (hf₂ ▸ hrest₂) (by omega)
    exact ⟨_, hcreate, hs₃, hagree₃, rfl, rfl, hino₃, rfl, rfl, rfl, hfit₃, hfree₃, hrest₃⟩
  generalize bitmap_scan s₂.free_map 0 (bytes_to_sectors initial_size) false = p at *
  have hagree : s.FilesAgree s₃ (fun _ => True) := hagree₂.trans hagree₃
  have hxu₃ : ¬s₃.Used x := fun h => hxu ((hagree.used_iff x).mp h)
  have hxm₃ : bitmap_test s₃.free_map x = true := by
    rw [hf₃, bitmap_test_set_multiple]
    split
    · rfl
    · exact hxm₂
  have hr₃ : s₃.open_inodes.find? (·.sector = ROOT_DIR_SECTOR) = some r := by rw [ho₃, ho₂]; exact hr
  obtain ⟨hrd, hdev, hlen, hdeny⟩ := root_open_facts hs₃ hr₃
  have hx32 : x < 2 ^ 32 := by have := hs.disk_size_lt; omega
  obtain ⟨D₄, hadd₄, hframe₄, hentries₄⟩ :=
    @dir_add_eq _ ⟨ROOT_DIR_SECTOR, 0⟩ _ hr₃ hs₃.mallocs hdev hlen hdeny name _ hnul hx32
  have hes : dirEntries s₃ r.data = s.rootEntries := by rw [hrd]; exact hagree.entries
  rw [hes, decide_eq_true hadd] at hadd₄
  rw [hes, addEntry, if_pos hadd] at hentries₄
  rw [hrd] at hframe₄
  have hj := findIdx_free_lt hadd.2.2.2
  have hroot₄ : ({ s₃ with disk := D₄ } : Fs).diskInode ROOT_DIR_SECTOR = r.data := by
    rw [hrd]
    show InodeDisk.ofSector (D₄ ROOT_DIR_SECTOR) = _
    rw [hframe₄ _ (hs₃.run_not_inode _ (root_mem_inodeSectors _) _ (root_mem_inodeSectors _))]
    rfl
  have hentries : ({ s₃ with disk := D₄ } : Fs).rootEntries =
      s₃.rootEntries.set (s.rootEntries.findIdx (!·.in_use)) ⟨x, name, true⟩ := by
    rw [hagree.entries, ← hentries₄]
    simp only [Fs.rootEntries, hroot₄]
  have hrun : ∀ j < bytes_to_sectors initial_size, ¬s₃.Used (p + j) := fun j hj h =>
    hs₂.not_used_of_free (hfree₃ j hj) ((hagree₃.used_iff _).mp h)
  have hclosed : ∀ i ∈ s₃.open_inodes, i.sector ≠ x := by
    rw [ho₃, ho₂]
    exact hs₁.not_open_of_free hxfree
  obtain ⟨hs₄, -, hd₄, hb₄⟩ := hs₃.add_entry hframe₄
    (show s.rootEntries.findIdx (!·.in_use) < s₃.rootEntries.length by rw [hagree.entries]; exact hj)
    (by simpa [hagree.entries] using findIdx_free hj)
    hentries hxm₃ hxu₃
    (by
      rw [hino₃]
      intro j hj
      dsimp only at hj ⊢
      rw [hf₃, bitmap_test_set_multiple, if_pos ⟨by omega, by omega, by rw [hs₂.free_map_size]; omega⟩])
    (by rw [hino₃]; exact hrun)
    (by
      rw [hino₃]
      rintro ⟨h₁, h₂⟩
      dsimp only at h₁ h₂
      have := hfree₃ (x - p) (by omega)
      rw [Nat.add_sub_cancel' h₁, hxm₂] at this
      cases this)
    (by rw [hino₃, hz₃]; exact hfit₃) (by rw [hino₃]; exact h0) hclosed
  have hr₄ : ({ s₃ with disk := D₄ } : Fs).open_inodes.find? (·.sector = ROOT_DIR_SECTOR) = some r := hr₃
  obtain ⟨l₅, hclose, hs₅, hother₅⟩ := dir_close_spec hs₄ hr₄
  have hx1 : x ≠ ROOT_DIR_SECTOR := fun h => hxu (h ▸ .inl (root_mem_inodeSectors s))
  refine ⟨_, x, ?_, hs₅, ?_, fun h => hxu (.inl h), ?_, fun y hy => ?_, fun y hy => ?_, ?_, ?_, hh₃.trans hh₂,
    hn₃.trans hn₂⟩
  · unfold filesys_create
    rw [bind_ok hroot]
    simp only [bind_ok halloc, bind_ok hcreate, if_true, bind_ok hadd₄, pure_bind_apply, Bool.not_true,
      Bool.false_eq_true, false_and, if_false]
    rw [bind_ok hclose]
    rfl
  · show ({ s₃ with disk := D₄ } : Fs).rootEntries = _
    rw [hentries, hagree.entries]
  · show (({ s₃ with disk := D₄ } : Fs).diskInode x).length = _
    rw [hd₄ x (.inr rfl), hino₃]
  · show ({ s₃ with disk := D₄ } : Fs).diskInode y = _
    rw [hd₄ y (.inl (hagree.inodeSectors_eq ▸ hy)), hagree.inodes y hy]
  · show fileBytes { s₃ with disk := D₄ } (s.diskInode y) = _
    have hy₃ : y ∈ s₃.files := hagree.files_eq ▸ hy
    have hi := hagree.inodes y (files_subset_inodeSectors hy)
    calc fileBytes { s₃ with disk := D₄ } (s.diskInode y)
        = fileBytes { s₃ with disk := D₄ } (s₃.diskInode y) := by rw [hi]
      _ = fileBytes s₃ (s₃.diskInode y) := hb₄ y (.inl hy₃)
      _ = fileBytes s (s.diskInode y) := by rw [hi]; exact hagree.bytes y hy trivial
  · show FreeRun s₃.free_map _ _
    rw [show a + (1 + bytes_to_sectors initial_size) = a + 1 + bytes_to_sectors initial_size by omega,
      show M - (1 + bytes_to_sectors initial_size) = M - 1 - bytes_to_sectors initial_size by omega]
    exact hrest₃
  · show l₅.find? (·.sector = x) = none
    rw [hother₅ x hx1, show ({ s₃ with disk := D₄ } : Fs).open_inodes = l₁ by rw [← ho₂, ← ho₃],
      hother₁ x hx1]
    exact List.find?_eq_none.mpr fun i hi h => hs.not_open_of_free hxfree i hi (by simpa using h)

end Pintos.Filesys
