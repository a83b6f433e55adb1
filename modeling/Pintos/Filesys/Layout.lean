import Pintos.Filesys.DirMap

/-!
# A file system between calls

The root directory names files (`Fs.fileNamed`). Between two calls of the file system's entry
points its structures fit together (`Fs.Sound`):
* every inode in use and every one of its data sectors is marked in the free map;
* no data sector belongs to two inodes or holds an inode;
* each open inode that the file system uses holds what its sector holds;
* the free map's file is open and writable.

Three kinds of write keep this, and they are the writes of a file's creation and of writing its
bytes. A write to the run of an inode other than the root's changes no inode, no entry and no
other file (`Sound.write_run`). Writes to sectors that nothing uses change nothing the file
system reads (`Sound.write_unused`). A new entry for an inode allocated from free sectors keeps
the file system sound (`Sound.add_entry`).
-/

namespace Pintos.Filesys

open Bitmap

/-! ## What the root directory names -/

/-- The root directory's entries, read from the device. -/
def Fs.rootEntries (s : Fs) : List DirEntry := dirEntries s (s.diskInode ROOT_DIR_SECTOR)

/-- The inode sectors of the files in the root directory. -/
def Fs.files (s : Fs) : List Nat := (s.rootEntries.filter (·.in_use)).map (·.inode_sector)

/-- Every inode the file system uses: the free map's, the root directory's, and its files'. -/
def Fs.inodeSectors (s : Fs) : List Nat := FREE_MAP_SECTOR :: ROOT_DIR_SECTOR :: s.files

/-- The bytes of the file that the root directory calls `name`. -/
def Fs.fileNamed (s : Fs) (name : List UInt8) : Option (List UInt8) :=
  (findEntryFrom s.rootEntries name 0).map fun p => fileBytes s (s.diskInode p.1.inode_sector)

/-- The sectors the file system uses: its inodes and their data. -/
def Fs.Used (s : Fs) (y : Nat) : Prop :=
  y ∈ s.inodeSectors ∨ ∃ x ∈ s.inodeSectors, (s.diskInode x).Owns y

theorem mem_files {s : Fs} {x : Nat} : x ∈ s.files ↔ ∃ e ∈ s.rootEntries, e.in_use ∧ e.inode_sector = x := by
  simp [Fs.files, and_assoc]

theorem mem_inodeSectors {s : Fs} {x : Nat} :
    x ∈ s.inodeSectors ↔ x = FREE_MAP_SECTOR ∨ x = ROOT_DIR_SECTOR ∨ x ∈ s.files := by
  simp [Fs.inodeSectors]

theorem free_map_mem_inodeSectors (s : Fs) : FREE_MAP_SECTOR ∈ s.inodeSectors := by
  simp [Fs.inodeSectors]

theorem root_mem_inodeSectors (s : Fs) : ROOT_DIR_SECTOR ∈ s.inodeSectors := by
  simp [Fs.inodeSectors]

theorem files_subset_inodeSectors {s : Fs} {x : Nat} (h : x ∈ s.files) : x ∈ s.inodeSectors := by
  simp [Fs.inodeSectors, h]

/-! ## The first entry of a name -/

section Find

variable {p : DirEntry × Nat → Bool}

theorem find?_zipIdx_set_of_not :
    ∀ {es : List DirEntry} {j k : Nat} {e : DirEntry} (hj : j < es.length),
      p (es[j], k + j) = false → p (e, k + j) = false →
      ((es.set j e).zipIdx k).find? p = (es.zipIdx k).find? p
  | a :: es, 0, k, e, _, hold, hnew => by
    simp only [List.set_cons_zero, List.zipIdx_cons, List.find?_cons]
    simp only [List.getElem_cons_zero, Nat.add_zero] at hold hnew
    rw [hold, hnew]
  | a :: es, j + 1, k, e, hj, hold, hnew => by
    simp only [List.set_cons_succ, List.zipIdx_cons, List.find?_cons]
    have hj' : j < es.length := by simpa using hj
    rw [find?_zipIdx_set_of_not hj'
      (show p (es[j], k + 1 + j) = false by simpa [Nat.add_assoc, Nat.add_comm 1] using hold)
      (by simpa [Nat.add_assoc, Nat.add_comm 1] using hnew)]

theorem find?_zipIdx_set_of_none :
    ∀ {es : List DirEntry} {j k : Nat} {e : DirEntry}, j < es.length →
      (es.zipIdx k).find? p = none → p (e, k + j) = true →
      ((es.set j e).zipIdx k).find? p = some (e, k + j)
  | [], _, _, _, hj, _, _ => absurd hj (Nat.not_lt_zero _)
  | a :: es, 0, k, e, _, hnone, hnew => by
    rw [Nat.add_zero] at hnew ⊢
    simp [hnew]
  | a :: es, j + 1, k, e, hj, hnone, hnew => by
    simp only [List.zipIdx_cons, List.find?_cons] at hnone
    split at hnone
    · cases hnone
    rename_i ha
    simp only [List.set_cons_succ, List.zipIdx_cons, List.find?_cons, ha]
    rw [find?_zipIdx_set_of_none (by simpa using hj) hnone
      (show p (e, k + 1 + j) = true by simpa [Nat.add_assoc, Nat.add_comm 1] using hnew)]
    congr 2
    omega

end Find

/-- The entry found for a name is an entry of the list, in use, with that name. -/
theorem findEntryFrom_some {es : List DirEntry} {name : List UInt8} {e : DirEntry} {ofs : Nat}
    (h : findEntryFrom es name 0 = some (e, ofs)) : e ∈ es ∧ e.in_use = true ∧ e.name = name := by
  simp only [findEntryFrom, List.drop_zero, Option.map_eq_some_iff] at h
  obtain ⟨⟨e', k⟩, hfind, he⟩ := h
  simp only [Prod.mk.injEq] at he
  obtain ⟨rfl, -⟩ := he
  have hp := List.find?_some hfind
  simp only [Bool.decide_and, Bool.and_eq_true, decide_eq_true_eq] at hp
  exact ⟨List.fst_mem_of_mem_zipIdx (List.mem_of_find?_eq_some hfind), hp.1, hp.2.symm⟩

/-- The entry found for a name is one of a file. -/
theorem mem_files_of_found {s : Fs} {name : List UInt8} {p : DirEntry × Nat}
    (h : findEntryFrom s.rootEntries name 0 = some p) : p.1.inode_sector ∈ s.files := by
  obtain ⟨he, huse, -⟩ := findEntryFrom_some (show findEntryFrom _ name 0 = some (p.1, p.2) from h)
  exact mem_files.mpr ⟨p.1, he, huse, rfl⟩

theorem findEntryFrom_set_of_ne {es : List DirEntry} {j : Nat} {e : DirEntry} {name : List UInt8}
    (hj : j < es.length) (hfree : es[j].in_use = false) (hne : e.name ≠ name) :
    findEntryFrom (es.set j e) name 0 = findEntryFrom es name 0 := by
  simp only [findEntryFrom, List.drop_zero]
  rw [find?_zipIdx_set_of_not hj (by simp [hfree]) (by simp [Ne.symm hne])]

/-- Filling a slot with a name that is not there makes that slot the name's entry. -/
theorem findEntryFrom_set_of_none {es : List DirEntry} {j : Nat} {x : Nat} {name : List UInt8}
    (hj : j < es.length) (hnone : findEntryFrom es name 0 = none) :
    findEntryFrom (es.set j ⟨x, name, true⟩) name 0 = some (⟨x, name, true⟩, DIR_ENTRY_SIZE * j) := by
  simp only [findEntryFrom, List.drop_zero, Option.map_eq_none_iff] at hnone ⊢
  rw [find?_zipIdx_set_of_none hj hnone (by simp), Option.map_some, Nat.zero_add]

/-! ## The invariant -/

/-- What the device and the free map hold between calls. -/
structure Fs.Layout (s : Fs) : Prop where
  /-- Sector numbers fit a `block_sector_t`. -/
  disk_size_lt : s.disk_size < 2 ^ 32
  free_map_size : bitmap_size s.free_map = s.disk_size
  inode_marked : ∀ x ∈ s.inodeSectors, bitmap_test s.free_map x = true
  run_marked : ∀ x ∈ s.inodeSectors, ∀ j < bytes_to_sectors (s.diskInode x).length,
    bitmap_test s.free_map ((s.diskInode x).start + j) = true
  on_device : ∀ x ∈ s.inodeSectors, (s.diskInode x).OnDevice s.disk_size
  length_nonneg : ∀ x ∈ s.inodeSectors, 0 ≤ (s.diskInode x).length
  run_not_inode : ∀ x ∈ s.inodeSectors, ∀ y ∈ s.inodeSectors, ¬(s.diskInode x).Owns y
  run_disjoint : ∀ x ∈ s.inodeSectors, ∀ y ∈ s.inodeSectors, ∀ j < bytes_to_sectors (s.diskInode x).length,
    (s.diskInode y).Owns ((s.diskInode x).start + j) → x = y
  /-- The root directory names neither the free map nor itself. -/
  files_gt : ∀ x ∈ s.files, ROOT_DIR_SECTOR < x
  free_map_length : bitmap_file_size s.free_map ≤ (s.diskInode FREE_MAP_SECTOR).length.toNat

/-- What memory holds between calls, over a sound layout. Every allocation succeeds. -/
structure Fs.Sound (s : Fs) : Prop extends s.Layout where
  mallocs : s.mallocs = []
  free_map_file : ∃ ff, s.free_map_file = some ff ∧ (s.file_heap ff).map (·.inode) = some FREE_MAP_SECTOR
  free_map_open : (s.open_inodes.find? (·.sector = FREE_MAP_SECTOR)).isSome
  heap_fresh : ∀ a, s.file_next ≤ a → s.file_heap a = none
  open_marked : ∀ i ∈ s.open_inodes, bitmap_test s.free_map i.sector = true
  open_cached : ∀ i ∈ s.open_inodes, i.sector ∈ s.inodeSectors →
    i.data = s.diskInode i.sector ∧ i.removed = false
  open_writable : ∀ i ∈ s.open_inodes, i.sector ≤ ROOT_DIR_SECTOR → i.deny_write_cnt = 0

namespace Fs.Layout

/-- The layout is a property of the device and the free map only. -/
theorem congr {s s' : Fs} (hs : s.Layout) (hd : s'.disk = s.disk) (hz : s'.disk_size = s.disk_size)
    (hf : s'.free_map = s.free_map) : s'.Layout := by
  have hino : ∀ y, s'.diskInode y = s.diskInode y := fun y => by simp only [Fs.diskInode, hd]
  have hfiles : s'.files = s.files := by
    simp only [Fs.files, Fs.rootEntries, dirEntries, fileBytes, hino, hd]
  have hsec : s'.inodeSectors = s.inodeSectors := by simp only [Fs.inodeSectors, hfiles]
  obtain ⟨h₁, h₂, h₃, h₄, h₅, h₆, h₇, h₈, h₉, h₁₀⟩ := hs
  refine ⟨?_, ?_, ?_, ?_, ?_, ?_, ?_, ?_, ?_, ?_⟩ <;> simp only [hino, hsec, hfiles, hf, hz] <;> assumption

variable {s : Fs} (hs : s.Layout)
include hs

theorem marked_of_used {y : Nat} (hy : s.Used y) : bitmap_test s.free_map y = true := by
  rcases hy with hy | ⟨x, hx, hown⟩
  · exact hs.inode_marked y hy
  · have := hs.run_marked x hx (y - (s.diskInode x).start) (by simp only [InodeDisk.Owns] at hown; omega)
    rwa [Nat.add_sub_cancel' hown.1] at this

theorem not_used_of_free {y : Nat} (hy : bitmap_test s.free_map y = false) : ¬s.Used y :=
  fun h => by rw [hs.marked_of_used h] at hy; cases hy

theorem eq_of_owns {x y z : Nat} (hx : x ∈ s.inodeSectors) (hy : y ∈ s.inodeSectors)
    (hxz : (s.diskInode x).Owns z) (hyz : (s.diskInode y).Owns z) : x = y := by
  have := hs.run_disjoint x hx y hy (z - (s.diskInode x).start) (by simp only [InodeDisk.Owns] at hxz; omega)
  rw [Nat.add_sub_cancel' hxz.1] at this
  exact this hyz

omit hs in
/-- An inode's length is an `off_t`. -/
theorem length_lt (x : Nat) : (s.diskInode x).length < 2 ^ 31 := by
  have hw := leValue_lt [s.disk x 4, s.disk x 5, s.disk x 6, s.disk x 7]
  simp only [List.length_cons, List.length_nil] at hw
  simp only [Fs.diskInode, InodeDisk.ofSector, toInt32]
  split <;> omega

end Fs.Layout

/-! ## Writing the data of one inode -/

section Writes

variable {s : Fs} {D : Nat → SectorData}

theorem diskInode_update_disk (y : Nat) : ({ s with disk := D } : Fs).diskInode y = InodeDisk.ofSector (D y) :=
  rfl

/-- The root directory's entries are read from its inode and its run only. -/
theorem rootEntries_congr (h1 : D ROOT_DIR_SECTOR = s.disk ROOT_DIR_SECTOR)
    (hrun : ∀ y, (s.diskInode ROOT_DIR_SECTOR).Owns y → D y = s.disk y) :
    ({ s with disk := D } : Fs).rootEntries = s.rootEntries := by
  simp only [Fs.rootEntries, diskInode_update_disk, h1]
  rw [dirEntries_eq, dirEntries_eq]
  exact congrArg entriesOf (fileBytes_congr hrun)

/-- A new device that holds the same inodes and the same entries keeps the file system sound. -/
theorem Fs.Sound.of_disk (hs : s.Sound) (hsec : ({ s with disk := D } : Fs).files = s.files)
    (hino : ∀ y ∈ s.inodeSectors, D y = s.disk y) : ({ s with disk := D } : Fs).Sound := by
  have hsec' : ({ s with disk := D } : Fs).inodeSectors = s.inodeSectors := by
    simp only [Fs.inodeSectors, hsec]
  have hd : ∀ y ∈ s.inodeSectors, ({ s with disk := D } : Fs).diskInode y = s.diskInode y :=
    fun y hy => by rw [diskInode_update_disk, hino y hy]; rfl
  refine ⟨⟨hs.disk_size_lt, hs.free_map_size, ?_, ?_, ?_, ?_, ?_, ?_, ?_, ?_⟩, hs.mallocs,
    hs.free_map_file, hs.free_map_open, hs.heap_fresh, hs.open_marked, ?_, hs.open_writable⟩
  all_goals simp only [hsec, hsec']
  · exact hs.inode_marked
  · intro x hx; rw [hd x hx]; exact hs.run_marked x hx
  · intro x hx; rw [hd x hx]; exact hs.on_device x hx
  · intro x hx; rw [hd x hx]; exact hs.length_nonneg x hx
  · intro x hx y hy; rw [hd x hx]; exact hs.run_not_inode x hx y hy
  · intro x hx y hy; rw [hd x hx, hd y hy]; exact hs.run_disjoint x hx y hy
  · exact hs.files_gt
  · rw [hd _ (free_map_mem_inodeSectors s)]; exact hs.free_map_length
  · intro i hi hsec
    rw [hd _ hsec]
    exact hs.open_cached i hi hsec

/-- A write to the run of an inode other than the root directory's changes no inode, no entry
and no other file's bytes, and keeps the file system sound. -/
theorem Fs.Sound.write_run (hs : s.Sound) {x : Nat} (hx : x ∈ s.inodeSectors) (hroot : x ≠ ROOT_DIR_SECTOR)
    (hD : ∀ y, ¬(s.diskInode x).Owns y → D y = s.disk y) :
    ({ s with disk := D } : Fs).Sound ∧ ({ s with disk := D } : Fs).rootEntries = s.rootEntries ∧
      (∀ y ∈ s.inodeSectors, ({ s with disk := D } : Fs).diskInode y = s.diskInode y) ∧
      ∀ y ∈ s.inodeSectors, y ≠ x →
        fileBytes { s with disk := D } (s.diskInode y) = fileBytes s (s.diskInode y) := by
  have hino : ∀ y ∈ s.inodeSectors, D y = s.disk y := fun y hy => hD y (hs.run_not_inode x hx y hy)
  have hother : ∀ y ∈ s.inodeSectors, y ≠ x → ∀ z, (s.diskInode y).Owns z → D z = s.disk z :=
    fun y hy hne z hz => hD z fun hxz => hne (hs.eq_of_owns hx hy hxz hz).symm
  have hentries : ({ s with disk := D } : Fs).rootEntries = s.rootEntries :=
    rootEntries_congr (hino _ (root_mem_inodeSectors s))
      (hother _ (root_mem_inodeSectors s) (Ne.symm hroot))
  have hfiles : ({ s with disk := D } : Fs).files = s.files := by simp only [Fs.files, hentries]
  refine ⟨hs.of_disk hfiles hino, hentries, fun y hy => ?_, fun y hy hne => fileBytes_congr (hother y hy hne)⟩
  rw [diskInode_update_disk, hino y hy]
  rfl

/-- Writes to sectors that the file system does not use change nothing it reads. -/
theorem Fs.Sound.write_unused (hs : s.Sound) (hD : ∀ y, s.Used y → D y = s.disk y) :
    ({ s with disk := D } : Fs).Sound ∧ ({ s with disk := D } : Fs).rootEntries = s.rootEntries ∧
      (∀ y ∈ s.inodeSectors, ({ s with disk := D } : Fs).diskInode y = s.diskInode y) ∧
      ∀ y ∈ s.inodeSectors, fileBytes { s with disk := D } (s.diskInode y) = fileBytes s (s.diskInode y) := by
  have hino : ∀ y ∈ s.inodeSectors, D y = s.disk y := fun y hy => hD y (.inl hy)
  have hrun : ∀ y ∈ s.inodeSectors, ∀ z, (s.diskInode y).Owns z → D z = s.disk z :=
    fun y hy z hz => hD z (.inr ⟨y, hy, hz⟩)
  have hentries : ({ s with disk := D } : Fs).rootEntries = s.rootEntries :=
    rootEntries_congr (hino _ (root_mem_inodeSectors s)) (hrun _ (root_mem_inodeSectors s))
  have hfiles : ({ s with disk := D } : Fs).files = s.files := by simp only [Fs.files, hentries]
  refine ⟨hs.of_disk hfiles hino, hentries, fun y hy => ?_, fun y hy => fileBytes_congr (hrun y hy)⟩
  rw [diskInode_update_disk, hino y hy]
  rfl

end Writes

/-! ## A new entry -/

/-- The files of a directory after a free slot takes an entry for `x`. -/
theorem mem_files_set {es : List DirEntry} {j x y : Nat} {name : List UInt8} (hj : j < es.length)
    (hfree : es[j].in_use = false) :
    y ∈ ((es.set j ⟨x, name, true⟩).filter (·.in_use)).map (·.inode_sector) ↔
      y = x ∨ y ∈ (es.filter (·.in_use)).map (·.inode_sector) := by
  simp only [List.mem_map, List.mem_filter]
  constructor
  · rintro ⟨e, ⟨he, huse⟩, rfl⟩
    rcases List.mem_or_eq_of_mem_set he with he | rfl
    · exact .inr ⟨e, ⟨he, huse⟩, rfl⟩
    · exact .inl rfl
  · rintro (rfl | ⟨e, ⟨he, huse⟩, rfl⟩)
    · exact ⟨_, ⟨List.mem_set hj _, rfl⟩, rfl⟩
    · -- an entry in use is not the free slot, so the slot's new entry leaves it in place
      obtain ⟨i, hi, rfl⟩ := List.mem_iff_getElem.mp he
      have hij : j ≠ i := by rintro rfl; rw [hfree] at huse; cases huse
      refine ⟨es[i], ⟨?_, huse⟩, rfl⟩
      rw [← List.getElem_set_ne hij (by simpa using hi)]
      exact List.getElem_mem _

section Entry

variable {s : Fs} {D : Nat → SectorData} {j x : Nat} {name : List UInt8}

/-- The root directory after a free slot `j` takes the entry `name ↦ x`, written to its run only,
for an inode `x` whose sector and run were free when they were allocated: the file system stays
sound, with `x` one more of its files, and no inode and no other file changes. -/
theorem Fs.Sound.add_entry (hs : s.Sound) (hD : ∀ y, ¬(s.diskInode ROOT_DIR_SECTOR).Owns y → D y = s.disk y)
    (hj : j < s.rootEntries.length) (hfree : s.rootEntries[j].in_use = false)
    (hentries : ({ s with disk := D } : Fs).rootEntries = s.rootEntries.set j ⟨x, name, true⟩)
    (hxm : bitmap_test s.free_map x = true) (hxu : ¬s.Used x)
    (hrun_m : ∀ k < bytes_to_sectors (s.diskInode x).length, bitmap_test s.free_map ((s.diskInode x).start + k) = true)
    (hrun_u : ∀ k < bytes_to_sectors (s.diskInode x).length, ¬s.Used ((s.diskInode x).start + k))
    (hrun_x : ¬(s.diskInode x).Owns x) (hdev : (s.diskInode x).OnDevice s.disk_size)
    (hlen : 0 ≤ (s.diskInode x).length) (hclosed : ∀ i ∈ s.open_inodes, i.sector ≠ x) :
    ({ s with disk := D } : Fs).Sound ∧
      (∀ y, y ∈ ({ s with disk := D } : Fs).inodeSectors ↔ y ∈ s.inodeSectors ∨ y = x) ∧
      (∀ y, y ∈ s.inodeSectors ∨ y = x → ({ s with disk := D } : Fs).diskInode y = s.diskInode y) ∧
      ∀ y, y ∈ s.files ∨ y = x →
        fileBytes { s with disk := D } (s.diskInode y) = fileBytes s (s.diskInode y) := by
  set s' : Fs := { s with disk := D }
  have hsec : ∀ y, y ∈ s'.inodeSectors ↔ y ∈ s.inodeSectors ∨ y = x := by
    intro y
    simp only [mem_inodeSectors, Fs.files, hentries, mem_files_set hj hfree]
    tauto
  have hroot_not : ∀ y, y ∈ s.inodeSectors ∨ y = x → ¬(s.diskInode ROOT_DIR_SECTOR).Owns y := by
    rintro y (hy | rfl)
    · exact hs.run_not_inode _ (root_mem_inodeSectors s) y hy
    · exact fun h => hxu (.inr ⟨_, root_mem_inodeSectors s, h⟩)
  have hd : ∀ y, y ∈ s.inodeSectors ∨ y = x → s'.diskInode y = s.diskInode y := fun y hy => by
    show InodeDisk.ofSector (D y) = _
    rw [hD y (hroot_not y hy)]
    rfl
  have hbytes : ∀ y, y ∈ s.files ∨ y = x → fileBytes s' (s.diskInode y) = fileBytes s (s.diskInode y) := by
    rintro y hy
    refine fileBytes_congr fun z hz => hD z fun hroot => ?_
    rcases hy with hy | rfl
    · have := hs.eq_of_owns (files_subset_inodeSectors hy) (root_mem_inodeSectors s) hz hroot
      exact absurd this (Nat.ne_of_gt (hs.files_gt y hy))
    · obtain ⟨k, hk, rfl⟩ : ∃ k < bytes_to_sectors (s.diskInode y).length, z = (s.diskInode y).start + k :=
        ⟨z - (s.diskInode y).start, by simp only [InodeDisk.Owns] at hz; omega, by
          simp only [InodeDisk.Owns] at hz; omega⟩
      exact hrun_u k hk (.inr ⟨_, root_mem_inodeSectors s, hroot⟩)
  have hrun_z : ∀ z, (s.diskInode x).Owns z → ¬s.Used z := by
    intro z hz
    obtain ⟨k, hk, rfl⟩ : ∃ k < bytes_to_sectors (s.diskInode x).length, z = (s.diskInode x).start + k :=
      ⟨z - (s.diskInode x).start, by simp only [InodeDisk.Owns] at hz; omega, by
        simp only [InodeDisk.Owns] at hz; omega⟩
    exact hrun_u k hk
  refine ⟨⟨⟨hs.disk_size_lt, hs.free_map_size, ?_, ?_, ?_, ?_, ?_, ?_, ?_, ?_⟩, hs.mallocs,
    hs.free_map_file, hs.free_map_open, hs.heap_fresh, hs.open_marked, ?_, hs.open_writable⟩,
    hsec, hd, hbytes⟩
  · intro y hy
    rcases (hsec y).mp hy with hy | rfl
    · exact hs.inode_marked y hy
    · exact hxm
  · intro y hy
    rw [hd y ((hsec y).mp hy)]
    rcases (hsec y).mp hy with hy | rfl
    · exact hs.run_marked y hy
    · exact hrun_m
  · intro y hy
    rw [hd y ((hsec y).mp hy)]
    rcases (hsec y).mp hy with hy | rfl
    · exact hs.on_device y hy
    · exact hdev
  · intro y hy
    rw [hd y ((hsec y).mp hy)]
    rcases (hsec y).mp hy with hy | rfl
    · exact hs.length_nonneg y hy
    · exact hlen
  · intro a ha b hb
    rw [hd a ((hsec a).mp ha)]
    rcases (hsec a).mp ha with ha | rfl <;> rcases (hsec b).mp hb with hb | rfl
    · exact hs.run_not_inode a ha b hb
    · exact fun h => hxu (.inr ⟨a, ha, h⟩)
    · exact fun h => hrun_z b h (.inl hb)
    · exact hrun_x
  · intro a ha b hb k hk hown
    rw [hd a ((hsec a).mp ha)] at hk hown
    rw [hd b ((hsec b).mp hb)] at hown
    rcases (hsec a).mp ha with ha | rfl <;> rcases (hsec b).mp hb with hb | rfl
    · exact hs.run_disjoint a ha b hb k hk hown
    · exact absurd (.inr ⟨a, ha, ⟨Nat.le_add_right _ _, Nat.add_lt_add_left hk _⟩⟩) (hrun_z _ hown)
    · exact absurd (.inr ⟨b, hb, hown⟩) (hrun_u k hk)
    · rfl
  · intro y hy
    have hy' : y ∈ s'.inodeSectors := by simp [Fs.inodeSectors, hy]
    rcases (hsec y).mp hy' with hy'' | rfl
    · rcases mem_inodeSectors.mp hy'' with rfl | rfl | hf
      · -- the new entries name what the old ones named, and `x`
        simp only [Fs.files, hentries, mem_files_set hj hfree] at hy
        rcases hy with rfl | hy
        · exact absurd (.inl (free_map_mem_inodeSectors s)) hxu
        · exact hs.files_gt _ hy
      · simp only [Fs.files, hentries, mem_files_set hj hfree] at hy
        rcases hy with rfl | hy
        · exact absurd (.inl (root_mem_inodeSectors s)) hxu
        · exact hs.files_gt _ hy
      · exact hs.files_gt y hf
    · -- `x` is neither the free map's inode nor the root's, which are in use
      have h0 : y ≠ FREE_MAP_SECTOR := fun h => hxu (h ▸ .inl (free_map_mem_inodeSectors s))
      have h1 : y ≠ ROOT_DIR_SECTOR := fun h => hxu (h ▸ .inl (root_mem_inodeSectors s))
      simp only [FREE_MAP_SECTOR, ROOT_DIR_SECTOR] at h0 h1 ⊢
      omega
  · rw [hd _ (.inl (free_map_mem_inodeSectors s))]
    exact hs.free_map_length
  · intro i hi hy
    rcases (hsec _).mp hy with hy | hy
    · rw [hd _ (.inl hy)]
      exact hs.open_cached i hi hy
    · exact absurd hy (hclosed i hi)

end Entry

end Pintos.Filesys
