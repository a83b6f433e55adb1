import Pintos.Filesys.Layout

/-!
# The calls of a file's life on a sound file system

From a sound file system (`Fs.Sound`) every call that creating, writing, reading and closing a
file makes returns what its contract says, and the file system is sound again after it:
* opening and closing an inode or the root directory changes only `open_inodes`
  (`inode_open_spec`, `inode_close_spec`, `dir_open_root_spec`, `dir_close_spec`);
* `filesys_open` of a name in the root directory opens that file at position 0
  (`filesys_open_spec`);
* `file_read` returns the file's bytes from the position on (`file_read_spec`), and `file_write`
  copies the buffer over them, touching no other file (`file_write_spec`).

What a call leaves of the files is `Fs.FilesAgree`: the same entries, inodes and bytes.
-/

namespace Pintos.Filesys

open Bitmap EStateM

/-! ## The same files -/

/-- `s'` has the entries and inodes of `s`, and the bytes of the files of `s` that `keep` holds
of; the free map's own data may differ. -/
structure Fs.FilesAgree (s s' : Fs) (keep : Nat → Prop) : Prop where
  entries : s'.rootEntries = s.rootEntries
  inodes : ∀ y ∈ s.inodeSectors, s'.diskInode y = s.diskInode y
  bytes : ∀ y ∈ s.files, keep y → fileBytes s' (s.diskInode y) = fileBytes s (s.diskInode y)

namespace Fs.FilesAgree

variable {s s' s'' : Fs} {keep keep' : Nat → Prop}

theorem of_disk (h : s'.disk = s.disk) (keep : Nat → Prop) : s.FilesAgree s' keep where
  entries := by simp only [Fs.rootEntries, Fs.diskInode, dirEntries, fileBytes, h]
  inodes _ _ := by simp only [Fs.diskInode, h]
  bytes _ _ _ := by simp only [fileBytes, h]

theorem mono (h : s.FilesAgree s' keep) (hk : ∀ y, keep' y → keep y) : s.FilesAgree s' keep' :=
  ⟨h.entries, h.inodes, fun y hy hky => h.bytes y hy (hk y hky)⟩

theorem files_eq (h : s.FilesAgree s' keep) : s'.files = s.files := by
  simp only [Fs.files, h.entries]

theorem inodeSectors_eq (h : s.FilesAgree s' keep) : s'.inodeSectors = s.inodeSectors := by
  simp only [Fs.inodeSectors, h.files_eq]

theorem trans (h : s.FilesAgree s' keep) (h' : s'.FilesAgree s'' keep) : s.FilesAgree s'' keep where
  entries := h'.entries.trans h.entries
  inodes y hy := by rw [h'.inodes y (h.inodeSectors_eq ▸ hy), h.inodes y hy]
  bytes y hy hk := by
    have hy' : y ∈ s'.files := by rw [h.files_eq]; exact hy
    rw [← h.inodes y (files_subset_inodeSectors hy), h'.bytes y hy' hk, h.inodes y (files_subset_inodeSectors hy),
      h.bytes y hy hk]

/-- A name whose file's bytes are kept names the same bytes. -/
theorem fileNamed_eq (h : s.FilesAgree s' keep) {name : List UInt8}
    (hk : ∀ p, findEntryFrom s.rootEntries name 0 = some p → keep p.1.inode_sector) :
    s'.fileNamed name = s.fileNamed name := by
  unfold Fs.fileNamed
  rw [h.entries]
  refine Option.map_congr fun p hp => ?_
  have hy : p.1.inode_sector ∈ s.files := mem_files_of_found hp
  rw [h.inodes _ (files_subset_inodeSectors hy), h.bytes _ hy (hk p hp)]

theorem used_iff (h : s.FilesAgree s' keep) (y : Nat) : s'.Used y ↔ s.Used y := by
  simp only [Fs.Used, h.inodeSectors_eq]
  constructor
  · rintro (hy | ⟨x, hx, hown⟩)
    · exact .inl hy
    · exact .inr ⟨x, hx, h.inodes x hx ▸ hown⟩
  · rintro (hy | ⟨x, hx, hown⟩)
    · exact .inl hy
    · exact .inr ⟨x, hx, (h.inodes x hx).symm ▸ hown⟩

end Fs.FilesAgree

/-! ## Open inodes -/

variable {s : Fs}

/-- A new list of open inodes, each one of the old ones up to its open count or a fresh copy of
an inode the file system uses, keeps the file system sound while the free map stays open. -/
theorem Fs.Sound.of_open_inodes (hs : s.Sound) {l : List Inode}
    (hl : ∀ i' ∈ l, (∃ i ∈ s.open_inodes, i'.sector = i.sector ∧ i'.data = i.data ∧
        i'.removed = i.removed ∧ i'.deny_write_cnt = i.deny_write_cnt) ∨
      (i'.sector ∈ s.inodeSectors ∧ i'.data = s.diskInode i'.sector ∧ i'.removed = false ∧
        i'.deny_write_cnt = 0))
    (hfm : (l.find? (·.sector = FREE_MAP_SECTOR)).isSome) : ({ s with open_inodes := l } : Fs).Sound := by
  refine ⟨hs.toLayout.congr rfl rfl rfl, hs.mallocs, hs.free_map_file, hfm, hs.heap_fresh, ?_, ?_, ?_⟩
  · intro i' hi'
    rcases hl i' hi' with ⟨i, hi, hsec, -⟩ | ⟨hx, -, -, -⟩
    · rw [hsec]; exact hs.open_marked _ hi
    · exact hs.inode_marked _ hx
  · intro i' hi' hmem
    rcases hl i' hi' with ⟨i, hi, hsec, hd, hr, -⟩ | ⟨-, hd, hr, -⟩
    · rw [hsec] at hmem ⊢
      rw [hd, hr]
      exact hs.open_cached _ hi hmem
    · exact ⟨hd, hr⟩
  · intro i' hi' hle
    rcases hl i' hi' with ⟨i, hi, hsec, -, -, hw⟩ | ⟨-, -, -, hw⟩
    · rw [hw]; exact hs.open_writable _ hi (hsec ▸ hle)
    · exact hw

/-- A change to some inodes of `open_inodes` that keeps their sectors finds what it found, changed. -/
theorem find?_map_sector (l : List Inode) {f : Inode → Inode} (hf : ∀ i, (f i).sector = i.sector) (y : Nat) :
    (l.map f).find? (·.sector = y) = (l.find? (·.sector = y)).map f := by
  rw [List.find?_map]
  congr 2
  funext i
  simp [hf]

theorem find?_sector_some {l : List Inode} {y : Nat} {i : Inode} (h : l.find? (·.sector = y) = some i) :
    i ∈ l ∧ i.sector = y := by
  refine ⟨List.mem_of_find?_eq_some h, ?_⟩
  simpa using List.find?_some h

theorem Fs.Sound.not_open_of_free (hs : s.Sound) {x : Nat} (hx : bitmap_test s.free_map x = false) :
    ∀ i ∈ s.open_inodes, i.sector ≠ x := by
  rintro i hi rfl
  rw [hs.open_marked i hi] at hx
  cases hx

/-- `modifyInode x` with a change of the open count only. -/
theorem modifyInode_open_cnt (x n : Nat) :
    modifyInode x (fun i' => { i' with open_cnt := n }) s =
      .ok () { s with open_inodes := s.open_inodes.map fun i' =>
        if i'.sector = x then { i' with open_cnt := n } else i' } := rfl

/-- A list of open inodes after a change of the open count of `x`'s copies. -/
theorem open_cnt_map_spec (hs : s.Sound) (x n : Nat) :
    let l := s.open_inodes.map fun i' => if i'.sector = x then { i' with open_cnt := n } else i'
    ({ s with open_inodes := l } : Fs).Sound ∧
      (∀ y, y ≠ x → l.find? (·.sector = y) = s.open_inodes.find? (·.sector = y)) ∧
      ∀ i, s.open_inodes.find? (·.sector = x) = some i → l.find? (·.sector = x) = some { i with open_cnt := n } := by
  intro l
  have hsec : ∀ i' : Inode,
      ((fun i' : Inode => if i'.sector = x then { i' with open_cnt := n } else i') i').sector = i'.sector := by
    intro i'; dsimp only; split <;> rfl
  have hfind := find?_map_sector s.open_inodes hsec
  refine ⟨hs.of_open_inodes (fun i' hi' => .inl ?_) ?_, fun y hy => ?_, fun i hi => ?_⟩
  · obtain ⟨i, hi, rfl⟩ := List.mem_map.mp hi'
    refine ⟨i, hi, ?_⟩
    split <;> exact ⟨rfl, rfl, rfl, rfl⟩
  · rw [hfind, Option.isSome_map]
    exact hs.free_map_open
  · rw [hfind]
    cases hf : s.open_inodes.find? (·.sector = y) with
    | none => rfl
    | some i =>
      have := (find?_sector_some hf).2
      simp only [Option.map_some, this, if_neg hy]
  · rw [hfind, hi, Option.map_some, if_pos (find?_sector_some hi).2]

/-- Opening an inode the file system uses finds it with what its sector holds; only
`open_inodes` changes, and no other sector's open inode. A fresh copy has no write denied. -/
theorem inode_open_spec (hs : s.Sound) {x : Nat} (hx : x ∈ s.inodeSectors) :
    ∃ l, inode_open x s = .ok (some x) { s with open_inodes := l } ∧
      ({ s with open_inodes := l } : Fs).Sound ∧
      (∃ i, l.find? (·.sector = x) = some i ∧ i.data = s.diskInode x ∧
        (s.open_inodes.find? (·.sector = x) = none → i.deny_write_cnt = 0)) ∧
      ∀ y, y ≠ x → l.find? (·.sector = y) = s.open_inodes.find? (·.sector = y) := by
  unfold inode_open
  rw [get_bind_apply]
  cases hf : s.open_inodes.find? (·.sector = x) with
  | some i =>
    obtain ⟨hs', hother, hx'⟩ := open_cnt_map_spec hs x (i.open_cnt + 1)
    refine ⟨_, ?_, hs', ⟨_, hx' i hf, ?_, fun h => by cases h⟩, hother⟩
    · simp only [inode_reopen]
      rw [bind_ok (inodeAt_ok hf), bind_ok (modifyInode_open_cnt _ _)]
      rfl
    · obtain ⟨hi, rfl⟩ := find?_sector_some hf
      exact (hs.open_cached i hi hx).1
  | none =>
    have hlt : x < s.disk_size := hs.free_map_size ▸ lt_bitmap_size_of_test (hs.inode_marked x hx)
    refine ⟨⟨x, 1, false, 0, s.diskInode x⟩ :: s.open_inodes, ?_, hs.of_open_inodes ?_ ?_,
      ⟨⟨x, 1, false, 0, s.diskInode x⟩, by simp, rfl, fun _ => rfl⟩, fun y hy => by simp [Ne.symm hy]⟩
    · dsimp only
      rw [bind_ok (allocOk_nil hs.mallocs)]
      simp only [Bool.not_true, Bool.false_eq_true, if_false]
      rw [bind_ok (block_read_ok hlt)]
      rfl
    · intro i' hi'
      rcases List.mem_cons.mp hi' with rfl | hi'
      · exact .inr ⟨hx, rfl, rfl, rfl⟩
      · exact .inl ⟨i', hi', rfl, rfl, rfl, rfl⟩
    · rw [List.find?_cons]
      split
      · rfl
      · exact hs.free_map_open

/-- Closing an open inode the file system uses, other than the free map's, changes only
`open_inodes`, and no other sector's open inode: it is not removed, so nothing is freed. -/
theorem inode_close_spec (hs : s.Sound) {x : Nat} (hx : x ∈ s.inodeSectors) (h0 : x ≠ FREE_MAP_SECTOR)
    {i : Inode} (hi : s.open_inodes.find? (·.sector = x) = some i) :
    ∃ l, inode_close (some x) s = .ok () { s with open_inodes := l } ∧
      ({ s with open_inodes := l } : Fs).Sound ∧
      ∀ y, y ≠ x → l.find? (·.sector = y) = s.open_inodes.find? (·.sector = y) := by
  obtain ⟨hmem, rfl⟩ := find?_sector_some hi
  have hrem : i.removed = false := (hs.open_cached i hmem hx).2
  unfold inode_close
  dsimp only
  rw [bind_ok (inodeAt_ok hi)]
  split
  · -- the last opener: the inode leaves the list
    have hfind : ∀ y, y ≠ i.sector → (s.open_inodes.filter (·.sector ≠ i.sector)).find? (·.sector = y) =
        s.open_inodes.find? (·.sector = y) := by
      intro y hy
      rw [List.find?_filter]
      congr 1
      funext i'
      by_cases h : i'.sector = y
      · simp [h, hy]
      · simp [h]
    refine ⟨_, ?_, hs.of_open_inodes (fun i' hi' => .inl ⟨i', (List.mem_filter.mp hi').1, rfl, rfl, rfl, rfl⟩) ?_,
      hfind⟩
    · simp only [modify_bind_apply, hrem, Bool.false_eq_true, if_false]
      rfl
    · rw [hfind _ (Ne.symm h0)]
      exact hs.free_map_open
  · -- one opener fewer
    obtain ⟨hs', hother, -⟩ := open_cnt_map_spec hs i.sector (i.open_cnt - 1)
    exact ⟨_, modifyInode_open_cnt _ _, hs', hother⟩

/-! ## The root directory -/

/-- `dir_open_root` opens the root inode with what its sector holds, writable. -/
theorem dir_open_root_spec (hs : s.Sound) :
    ∃ l, dir_open_root s = .ok (some ⟨ROOT_DIR_SECTOR, 0⟩) { s with open_inodes := l } ∧
      ({ s with open_inodes := l } : Fs).Sound ∧
      (∃ i, l.find? (·.sector = ROOT_DIR_SECTOR) = some i ∧ i.data = s.diskInode ROOT_DIR_SECTOR) ∧
      ∀ y, y ≠ ROOT_DIR_SECTOR → l.find? (·.sector = y) = s.open_inodes.find? (·.sector = y) := by
  obtain ⟨l, hopen, hs', ⟨i, hi, hd, -⟩, hother⟩ := inode_open_spec hs (root_mem_inodeSectors s)
  refine ⟨l, ?_, hs', ⟨i, hi, hd⟩, hother⟩
  unfold dir_open_root dir_open
  rw [bind_ok hopen, bind_ok (allocOk_nil hs'.mallocs)]
  rfl

theorem dir_close_spec (hs : s.Sound) {i : Inode} (hi : s.open_inodes.find? (·.sector = ROOT_DIR_SECTOR) = some i) :
    ∃ l, dir_close (some ⟨ROOT_DIR_SECTOR, 0⟩) s = .ok () { s with open_inodes := l } ∧
      ({ s with open_inodes := l } : Fs).Sound ∧
      ∀ y, y ≠ ROOT_DIR_SECTOR → l.find? (·.sector = y) = s.open_inodes.find? (·.sector = y) :=
  inode_close_spec hs (root_mem_inodeSectors s) (by decide) hi

/-- The open root directory's inode, as `lookup_eq` and `dir_add_eq` want it. -/
theorem root_open_facts (hs : s.Sound) {i : Inode} (hi : s.open_inodes.find? (·.sector = ROOT_DIR_SECTOR) = some i) :
    i.data = s.diskInode ROOT_DIR_SECTOR ∧ i.data.OnDevice s.disk_size ∧ i.data.length < 2 ^ 31 ∧
      i.deny_write_cnt = 0 := by
  obtain ⟨hmem, hsec⟩ := find?_sector_some hi
  have hd := (hs.open_cached i hmem (hsec ▸ root_mem_inodeSectors s)).1
  rw [hsec] at hd
  refine ⟨hd, hd ▸ hs.on_device _ (root_mem_inodeSectors s), hd ▸ Fs.Layout.length_lt ROOT_DIR_SECTOR, ?_⟩
  exact hs.open_writable i hmem (hsec ▸ le_rfl)

/-! ## Files -/

/-- `file_open` of an open inode takes the next block of the heap, at position 0. -/
theorem file_open_spec (hs : s.Sound) (x : Nat) :
    file_open (some x) s = .ok (some s.file_next) { s with
      file_heap := Function.update s.file_heap s.file_next (some ⟨x, 0, false⟩)
      file_next := s.file_next + 1 } := by
  unfold file_open
  rw [bind_ok (allocOk_nil hs.mallocs)]
  rfl

theorem Fs.Sound.free_map_file_lt (hs : s.Sound) {ff : Nat} (hff : s.free_map_file = some ff) :
    ff < s.file_next := by
  obtain ⟨ff', hff', hmap⟩ := hs.free_map_file
  rw [hff] at hff'
  cases hff'
  by_contra hge
  rw [hs.heap_fresh ff (Nat.le_of_not_lt hge)] at hmap
  cases hmap

/-- A block of an inode other than the free map's is not the free map's block. -/
theorem heap_inode_ne {a : Nat} {F : File} (hF : s.file_heap a = some F) (hx : F.inode ≠ FREE_MAP_SECTOR) :
    (s.file_heap a).map (·.inode) ≠ some FREE_MAP_SECTOR := by
  rw [hF]
  intro h
  exact hx (Option.some.inj h)

/-- A new block at the end of the heap keeps the file system sound. -/
theorem Fs.Sound.push_heap (hs : s.Sound) (F : File) :
    ({ s with
      file_heap := Function.update s.file_heap s.file_next (some F)
      file_next := s.file_next + 1 } : Fs).Sound := by
  refine ⟨hs.toLayout.congr rfl rfl rfl, hs.mallocs, ?_, hs.free_map_open, fun b hb => ?_, hs.open_marked,
    hs.open_cached, hs.open_writable⟩
  · obtain ⟨ff, hff, hmap⟩ := hs.free_map_file
    refine ⟨ff, hff, ?_⟩
    dsimp only
    rw [Function.update_of_ne (Nat.ne_of_lt (hs.free_map_file_lt hff))]
    exact hmap
  · dsimp only at hb ⊢
    rw [Function.update_of_ne (by omega)]
    exact hs.heap_fresh b (by omega)

/-- A change to a block of the heap that keeps the free map's file in place keeps the file
system sound. -/
theorem Fs.Sound.update_heap (hs : s.Sound) {a : Nat} (ha : a < s.file_next) {v : Option File}
    (hv : (s.file_heap a).map (·.inode) = some FREE_MAP_SECTOR → v.map (·.inode) = some FREE_MAP_SECTOR) :
    ({ s with file_heap := Function.update s.file_heap a v } : Fs).Sound := by
  refine ⟨hs.toLayout.congr rfl rfl rfl, hs.mallocs, ?_, hs.free_map_open, fun b hb => ?_, hs.open_marked,
    hs.open_cached, hs.open_writable⟩
  · obtain ⟨ff, hff, hmap⟩ := hs.free_map_file
    refine ⟨ff, hff, ?_⟩
    dsimp only
    by_cases h : ff = a
    · subst h
      rw [Function.update_self]
      exact hv hmap
    · rw [Function.update_of_ne h]
      exact hmap
  · dsimp only at hb ⊢
    rw [Function.update_of_ne (by omega)]
    exact hs.heap_fresh b hb

theorem Fs.Sound.lt_of_heap (hs : s.Sound) {a : Nat} {F : File} (hF : s.file_heap a = some F) :
    a < s.file_next := by
  by_contra hge
  rw [hs.heap_fresh a (Nat.le_of_not_lt hge)] at hF
  cases hF

/-- `filesys_open` of a name in the root directory opens its file at position 0, in the next
block of the heap. The file's inode is open with what its sector holds, writable if it was not
open before; no inode but the root's and the file's changes in `open_inodes`. -/
theorem filesys_open_spec (hs : s.Sound) {name : List UInt8} {e : DirEntry} {ofs : Nat}
    (hfind : findEntryFrom s.rootEntries name 0 = some (e, ofs)) :
    ∃ l, filesys_open name s = .ok (some s.file_next) { s with
        open_inodes := l
        file_heap := Function.update s.file_heap s.file_next (some ⟨e.inode_sector, 0, false⟩)
        file_next := s.file_next + 1 } ∧
      ({ s with
        open_inodes := l
        file_heap := Function.update s.file_heap s.file_next (some ⟨e.inode_sector, 0, false⟩)
        file_next := s.file_next + 1 } : Fs).Sound ∧
      (∃ i, l.find? (·.sector = e.inode_sector) = some i ∧ i.data = s.diskInode e.inode_sector ∧
        (s.open_inodes.find? (·.sector = e.inode_sector) = none → i.deny_write_cnt = 0)) ∧
      ∀ y, y ≠ e.inode_sector → y ≠ ROOT_DIR_SECTOR →
        l.find? (·.sector = y) = s.open_inodes.find? (·.sector = y) := by
  have hfile : e.inode_sector ∈ s.files := mem_files_of_found hfind
  have hx1 : e.inode_sector ≠ ROOT_DIR_SECTOR := Nat.ne_of_gt (hs.files_gt _ hfile)
  obtain ⟨l₁, hroot, hs₁, ⟨r, hr, -⟩, hother₁⟩ := dir_open_root_spec hs
  obtain ⟨hrd, hdev, hlen, -⟩ := root_open_facts hs₁ hr
  have hlookup := @lookup_eq _ ⟨ROOT_DIR_SECTOR, 0⟩ _ hr hs₁.mallocs hdev hlen name
  rw [hrd] at hlookup
  obtain ⟨l₂, hopen, hs₂, ⟨i, hi, hid, hnew⟩, hother₂⟩ :=
    inode_open_spec hs₁ (files_subset_inodeSectors hfile)
  have hr₂ : l₂.find? (·.sector = ROOT_DIR_SECTOR) = some r := (hother₂ _ (Ne.symm hx1)).trans hr
  obtain ⟨l₃, hclose, hs₃, hother₃⟩ := dir_close_spec hs₂ hr₂
  refine ⟨l₃, ?_, ?_, ⟨i, (hother₃ _ hx1).trans hi, hid, fun h => hnew ((hother₁ _ hx1).trans h)⟩,
    fun y hy hy1 => by rw [hother₃ y hy1, hother₂ y hy, hother₁ y hy1]⟩
  · have hl : lookup ⟨ROOT_DIR_SECTOR, 0⟩ name { s with open_inodes := l₁ } =
        .ok (some (e, ofs)) { s with open_inodes := l₁ } := by
      rw [hlookup]
      exact congrArg (fun o => Result.ok o _) hfind
    have hdl : dir_lookup ⟨ROOT_DIR_SECTOR, 0⟩ name { s with open_inodes := l₁ } =
        .ok (some e.inode_sector) { s with open_inodes := l₂ } := by
      unfold dir_lookup
      rw [bind_ok hl]
      exact hopen
    unfold filesys_open
    rw [bind_ok hroot]
    dsimp only
    rw [bind_ok hdl, bind_ok hclose, file_open_spec hs₃]
  · exact hs₃.push_heap _

/-! ## Reading, writing and closing a file -/

section File

variable {f : Nat} {F : File} {i : Inode}

theorem file_length_spec (hF : s.file_heap f = some F) (hi : s.open_inodes.find? (·.sector = F.inode) = some i) :
    file_length f s = .ok i.data.length s := by
  unfold file_length inode_length
  rw [bind_ok (fileAtFs_ok hF), bind_ok (inodeAt_ok hi)]
  rfl

/-- `file_read` returns the file's bytes from its position on, as many as asked for and the file
has, and moves the position past them. -/
theorem file_read_spec (hs : s.Sound) (hF : s.file_heap f = some F)
    (hi : s.open_inodes.find? (·.sector = F.inode) = some i) (hdev : i.data.OnDevice s.disk_size) (size : Int) :
    file_read f size s = .ok (((fileBytes s i.data).drop F.pos.toNat).take size.toNat) { s with
        file_heap := Function.update s.file_heap f
          (some { F with pos := F.pos + (((fileBytes s i.data).drop F.pos.toNat).take size.toNat).length }) } ∧
      ({ s with
        file_heap := Function.update s.file_heap f
          (some { F with pos := F.pos + (((fileBytes s i.data).drop F.pos.toNat).take size.toNat).length }) } :
        Fs).Sound := by
  refine ⟨?_, hs.update_heap (hs.lt_of_heap hF) fun h => ?_⟩
  · unfold file_read
    rw [bind_ok (fileAtFs_ok hF), bind_ok (inode_read_at_eq hi hs.mallocs hdev _ _), bind_ok (modifyFile_apply _ _ _),
      hF]
    rfl
  · rw [hF] at h
    exact h

/-- `file_write` to a file other than the root directory, whose inode is open and writable,
copies the part of the buffer that fits over the file's bytes from its position on and moves the
position past it; no entry, no inode and no other file changes. -/
theorem file_write_spec (hs : s.Sound) (hF : s.file_heap f = some F)
    (hi : s.open_inodes.find? (·.sector = F.inode) = some i) (hx : F.inode ∈ s.inodeSectors)
    (hroot : F.inode ≠ ROOT_DIR_SECTOR) (hdeny : i.deny_write_cnt = 0) {buffer : List UInt8} {size : Int}
    (hb : size.toNat ≤ buffer.length) :
    ∃ D, file_write f buffer size s =
        .ok (min size.toNat ((s.diskInode F.inode).length.toNat - F.pos.toNat))
          { s with
            disk := D
            file_heap := Function.update s.file_heap f
              (some { F with pos := F.pos + min size.toNat ((s.diskInode F.inode).length.toNat - F.pos.toNat) }) } ∧
      ({ s with
        disk := D
        file_heap := Function.update s.file_heap f
          (some { F with pos := F.pos + min size.toNat ((s.diskInode F.inode).length.toNat - F.pos.toNat) }) } : Fs).Sound ∧
      s.FilesAgree { s with
        disk := D
        file_heap := Function.update s.file_heap f
          (some { F with pos := F.pos + min size.toNat ((s.diskInode F.inode).length.toNat - F.pos.toNat) }) }
        (· ≠ F.inode) ∧
      fileBytes { s with disk := D } (s.diskInode F.inode) =
        overwrite (fileBytes s (s.diskInode F.inode)) F.pos.toNat
          (buffer.take (min size.toNat ((s.diskInode F.inode).length.toNat - F.pos.toNat))) := by
  obtain ⟨hmem, hsec⟩ := find?_sector_some hi
  have hd : i.data = s.diskInode F.inode := hsec ▸ (hs.open_cached i hmem (hsec ▸ hx)).1
  have hdev : i.data.OnDevice s.disk_size := hd ▸ hs.on_device _ hx
  obtain ⟨D, hw, hframe, hbytes⟩ := inode_write_at_eq hi hs.mallocs hdev hdeny hb F.pos.toNat
  rw [hd] at hw hframe hbytes
  obtain ⟨hs', hentries, hinodes, hothers⟩ := hs.write_run hx hroot hframe
  refine ⟨D, ?_, hs'.update_heap (hs.lt_of_heap hF) fun h => by rw [hF] at h; exact h,
    ⟨hentries, hinodes, fun y hy hne => hothers y (files_subset_inodeSectors hy) hne⟩, hbytes⟩
  unfold file_write
  rw [bind_ok (fileAtFs_ok hF), bind_ok hw, bind_ok (modifyFile_apply _ _ _)]
  simp only [hF]
  rfl

/-- `file_close` of a file on an inode the file system uses, other than the free map's, whose
writes it has not denied: the inode is closed and the block freed. -/
theorem file_close_spec (hs : s.Sound) (hF : s.file_heap f = some F) (hdw : F.deny_write = false)
    (hi : s.open_inodes.find? (·.sector = F.inode) = some i) (hx : F.inode ∈ s.inodeSectors)
    (h0 : F.inode ≠ FREE_MAP_SECTOR) :
    ∃ l, file_close (some f) s = .ok () { s with
        open_inodes := l
        file_heap := Function.update s.file_heap f none } ∧
      ({ s with open_inodes := l, file_heap := Function.update s.file_heap f none } : Fs).Sound ∧
      ∀ y, y ≠ F.inode → l.find? (·.sector = y) = s.open_inodes.find? (·.sector = y) := by
  obtain ⟨l, hclose, hs', hother⟩ := inode_close_spec hs hx h0 hi
  refine ⟨l, ?_, ?_, hother⟩
  · have hallow : file_allow_write f s = .ok () s := by
      unfold file_allow_write
      rw [bind_ok (fileAtFs_ok hF)]
      simp [hdw]
    unfold file_close
    dsimp only
    rw [bind_ok hallow, bind_ok (fileAtFs_ok hF), bind_ok hclose]
    rfl
  · exact hs'.update_heap (hs.lt_of_heap hF) fun h => absurd h (heap_inode_ne hF h0)

end File

end Pintos.Filesys
