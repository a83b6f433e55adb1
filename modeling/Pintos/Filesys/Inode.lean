import Pintos.Filesys.Disk

/-!
# The free map, inodes and files (`filesys/free-map.c`, `filesys/inode.c`, `filesys/file.c`)

The free map is a bitmap of the device's sectors in memory, written back through
`free_map_file` after every change; `free_map_allocate` undoes its change when that write
fails. `inode_create` takes one run of data sectors from it, and `inode_close` of the last
opener of a removed inode gives back the inode's sector and its run. `file_deny_write` and
`file_allow_write` change `deny_write_cnt` of the file's inode at most once per file.
-/

namespace Pintos.Filesys

open Bitmap

/-! ## The free map -/

/-- `bitmap_file_size`: the bytes of the bitmap's `elem_type` words. -/
def bitmap_file_size (b : Bitmap) : Nat := 4 * ((bitmap_size b + 31) / 32)

/-- The bytes of the bitmap's words in memory: bit `i` is bit `i % 8` of byte `i / 8`. -/
def bitmapBytes (b : Bitmap) : List UInt8 :=
  (List.range (bitmap_file_size b)).map fun j =>
    ((List.range 8).foldl (fun acc k => if bitmap_test b (8 * j + k) then acc + 2 ^ k else acc) 0).toUInt8

/-- The bitmap of `bit_cnt` bits that the bytes `bs` hold. -/
def bitmapOfBytes (bit_cnt : Nat) (bs : List UInt8) : Bitmap :=
  ⟨(List.range bit_cnt).map fun i => (bs.getD (i / 8) 0).toNat.testBit (i % 8)⟩

/-- `file_write_at (file, buffer, size, file_ofs)`. -/
def file_write_at (file : Nat) (buffer : List UInt8) (size : Int) (file_ofs : Nat) : FsM Nat := do
  let f ← fileAtFs file
  inode_write_at f.inode buffer size file_ofs

/-- `file_read_at (file, buffer, size, file_ofs)`. -/
def file_read_at (file : Nat) (size : Int) (file_ofs : Nat) : FsM (List UInt8) := do
  let f ← fileAtFs file
  inode_read_at f.inode size file_ofs

/-- `bitmap_write (b, file)`; a null `file` is dereferenced. -/
def bitmap_write (b : Bitmap) (file : Option Nat) : FsM Bool := do
  match file with
  | none => throw .undefined
  | some file =>
    let size := bitmap_file_size b
    let n ← file_write_at file (bitmapBytes b) size 0
    return n = size

/-- `bitmap_read (b, file)`. -/
def bitmap_read (b : Bitmap) (file : Option Nat) : FsM (Option Bitmap) := do
  if bitmap_size b = 0 then return some b
  match file with
  | none => throw .undefined
  | some file =>
    let size := bitmap_file_size b
    let bs ← file_read_at file size 0
    return if bs.length = size then some (bitmapOfBytes (bitmap_size b) bs) else none

/-- `free_map_allocate (cnt, sectorp)`: the first run of `cnt` free sectors, or `none`. -/
def free_map_allocate (cnt : Nat) : FsM (Option Nat) := do
  let s ← get
  let (sector, b) := bitmap_scan_and_flip s.free_map 0 cnt false
  set { s with free_map := b }
  if sector = BITMAP_ERROR then return none
  match s.free_map_file with
  | none => return some sector
  | some file =>
    if ← bitmap_write b (some file) then return some sector
    else
      modify fun s => { s with free_map := bitmap_set_multiple s.free_map sector cnt false }
      return none

/-- `free_map_release (sector, cnt)`: the run must be in use. -/
def free_map_release (sector cnt : Nat) : FsM Unit := do
  let s ← get
  if !bitmap_all s.free_map sector cnt then throw .panic
  let b := bitmap_set_multiple s.free_map sector cnt false
  set { s with free_map := b }
  let _ ← bitmap_write b s.free_map_file

/-! ## Inodes -/

/-- The loop of `inode_create` that zeroes `cnt` sectors from `sector`. -/
def writeZeros (sector : Nat) : Nat → FsM Unit
  | 0 => pure ()
  | cnt + 1 => do
    block_write sector fun _ => 0
    writeZeros (sector + 1) cnt

/-- `inode_create (sector, length)`. -/
def inode_create (sector : Nat) (length : Int) : FsM Bool := do
  if length < 0 then throw .panic
  if !(← allocOk) then return false
  let sectors := bytes_to_sectors length
  match ← free_map_allocate sectors with
  | none => return false
  | some start =>
    block_write sector (InodeDisk.toSector ⟨start, length, INODE_MAGIC⟩)
    writeZeros start sectors
    return true

/-- `inode_reopen (inode)`. -/
def inode_reopen (inode : Option Nat) : FsM (Option Nat) := do
  if let some p := inode then
    let i ← inodeAt p
    modifyInode p fun i' => { i' with open_cnt := i.open_cnt + 1 }
  return inode

/-- `inode_open (sector)`: the inode already open for `sector`, reopened, or a new one read
from the device and pushed to the front of `open_inodes`. The new inode is read before it is
pushed; the two orders differ only in a state the device's `PANIC` leaves. -/
def inode_open (sector : Nat) : FsM (Option Nat) := do
  let s ← get
  match s.open_inodes.find? (·.sector = sector) with
  | some _ => inode_reopen (some sector)
  | none =>
    if !(← allocOk) then return none
    let d ← block_read sector
    modify fun s =>
      { s with open_inodes := ⟨sector, 1, false, 0, InodeDisk.ofSector d⟩ :: s.open_inodes }
    return some sector

/-- `inode_close (inode)`: the last close takes the inode off `open_inodes` and, if it was
removed, releases its sector and its data. -/
def inode_close (inode : Option Nat) : FsM Unit := do
  match inode with
  | none => pure ()
  | some p =>
    let i ← inodeAt p
    if i.open_cnt - 1 = 0 then
      modify fun s => { s with open_inodes := s.open_inodes.filter (·.sector ≠ p) }
      if i.removed then
        free_map_release i.sector 1
        free_map_release i.data.start (bytes_to_sectors i.data.length)
    else modifyInode p fun i' => { i' with open_cnt := i.open_cnt - 1 }

/-- `inode_remove (inode)`. -/
def inode_remove (inode : Nat) : FsM Unit := do
  let _ ← inodeAt inode
  modifyInode inode fun i => { i with removed := true }

/-- `inode_deny_write (inode)`. -/
def inode_deny_write (inode : Nat) : FsM Unit := do
  let i ← inodeAt inode
  modifyInode inode fun i' => { i' with deny_write_cnt := i.deny_write_cnt + 1 }
  if i.deny_write_cnt + 1 > i.open_cnt then throw .panic

/-- `inode_allow_write (inode)`. -/
def inode_allow_write (inode : Nat) : FsM Unit := do
  let i ← inodeAt inode
  if i.deny_write_cnt = 0 ∨ i.deny_write_cnt > i.open_cnt then throw .panic
  modifyInode inode fun i' => { i' with deny_write_cnt := i.deny_write_cnt - 1 }

/-! ## Files -/

/-- `file_open (inode)`: a new `struct file` at position 0, at the next block address. -/
def file_open (inode : Option Nat) : FsM (Option Nat) := do
  let ok ← allocOk
  match inode with
  | some i =>
    if ok then
      let s ← get
      set { s with file_heap := Function.update s.file_heap s.file_next (some ⟨i, 0, false⟩),
                   file_next := s.file_next + 1 }
      return some s.file_next
    else
      inode_close inode
      return none
  | none => return none

/-- `file_deny_write (file)`. -/
def file_deny_write (file : Nat) : FsM Unit := do
  let f ← fileAtFs file
  if !f.deny_write then
    modifyFile file fun f => { f with deny_write := true }
    inode_deny_write f.inode

/-- `file_allow_write (file)`. -/
def file_allow_write (file : Nat) : FsM Unit := do
  let f ← fileAtFs file
  if f.deny_write then
    modifyFile file fun f => { f with deny_write := false }
    inode_allow_write f.inode

/-- `file_close (file)`. -/
def file_close (file : Option Nat) : FsM Unit := do
  match file with
  | none => pure ()
  | some file =>
    file_allow_write file
    let f ← fileAtFs file
    inode_close (some f.inode)
    modify fun s => { s with file_heap := Function.update s.file_heap file none }

/-- `file_read (file, buffer, size)`; a position is never negative (`file_seek` asserts it). -/
def file_read (file : Nat) (size : Int) : FsM (List UInt8) := do
  let f ← fileAtFs file
  let bs ← inode_read_at f.inode size f.pos.toNat
  modifyFile file fun f => { f with pos := f.pos + bs.length }
  return bs

/-- `file_write (file, buffer, size)`. -/
def file_write (file : Nat) (buffer : List UInt8) (size : Int) : FsM Nat := do
  let f ← fileAtFs file
  let n ← inode_write_at f.inode buffer size f.pos.toNat
  modifyFile file fun f => { f with pos := f.pos + n }
  return n

/-- `file_length (file)`. -/
def file_length (file : Nat) : FsM Int := do
  inode_length (← fileAtFs file).inode

/-! ## Starting the free map -/

/-- `bitmap_create (bit_cnt)`: two allocations, the bits' only when there are bits. -/
def bitmap_create_fs (bit_cnt : Nat) : FsM (Option Bitmap) := do
  if !(← allocOk) then return none
  let ok ← allocOk
  return if ok ∨ bit_cnt = 0 then some (bitmap_create bit_cnt) else none

/-- `free_map_init ()`: every sector free but the free map's and the root directory's. -/
def free_map_init : FsM Unit := do
  match ← bitmap_create_fs (← get).disk_size with
  | none => throw .panic
  | some b =>
    modify fun s =>
      { s with free_map := bitmap_mark (bitmap_mark b FREE_MAP_SECTOR) ROOT_DIR_SECTOR }

/-- `free_map_create ()`. -/
def free_map_create : FsM Unit := do
  if !(← inode_create FREE_MAP_SECTOR (bitmap_file_size (← get).free_map)) then throw .panic
  let file ← file_open (← inode_open FREE_MAP_SECTOR)
  if file.isNone then throw .panic
  modify fun s => { s with free_map_file := file }
  if !(← bitmap_write (← get).free_map file) then throw .panic

/-- `free_map_open ()`. -/
def free_map_open : FsM Unit := do
  let file ← file_open (← inode_open FREE_MAP_SECTOR)
  if file.isNone then throw .panic
  modify fun s => { s with free_map_file := file }
  match ← bitmap_read (← get).free_map file with
  | none => throw .panic
  | some b => modify fun s => { s with free_map := b }

/-- `free_map_close ()`: the pointer is left as it was. -/
def free_map_close : FsM Unit := do
  file_close (← get).free_map_file

end Pintos.Filesys

namespace Pintos.Filesys

open Bitmap EStateM

/-! ## The free map's spec -/

section FreeMap

variable {β : Type} {v : Fs → β}

theorem file_write_at_keeps (hm : ∀ s bs, v { s with mallocs := bs } = v s)
    (hd : ∀ s d, v { s with disk := d } = v s) (file : Nat) (buffer : List UInt8) (size : Int)
    (ofs : Nat) : Keeps v (file_write_at file buffer size ofs) :=
  Keeps.bind (fileAtFs_keeps _) fun _ => inode_write_at_keeps hm hd _ _ _ _

theorem bitmap_write_keeps (hm : ∀ s bs, v { s with mallocs := bs } = v s)
    (hd : ∀ s d, v { s with disk := d } = v s) (b : Bitmap) (file : Option Nat) :
    Keeps v (bitmap_write b file) := by
  unfold bitmap_write
  split
  · exact Keeps.throw v _
  · exact Keeps.bind (file_write_at_keeps hm hd _ _ _ _) fun _ => Keeps.pure v _

theorem free_map_allocate_keeps (hm : ∀ s bs, v { s with mallocs := bs } = v s)
    (hd : ∀ s d, v { s with disk := d } = v s) (hf : ∀ s b, v { s with free_map := b } = v s)
    (cnt : Nat) : Keeps v (free_map_allocate cnt) := by
  intro s
  simp only [free_map_allocate, get_bind_apply, set_bind_apply]
  rw [← hf s (bitmap_scan_and_flip s.free_map 0 cnt false).2]
  split
  · rfl
  · cases s.free_map_file with
    | none => rfl
    | some file =>
      refine Keeps.bind (bitmap_write_keeps hm hd _ _) (fun ok => ?_) _
      exact Keeps.ite (Keeps.pure v _)
        (Keeps.bind (Keeps.modify fun s => hf s _) fun _ => Keeps.pure v _)

theorem free_map_release_keeps (hm : ∀ s bs, v { s with mallocs := bs } = v s)
    (hd : ∀ s d, v { s with disk := d } = v s) (hf : ∀ s b, v { s with free_map := b } = v s)
    (sector cnt : Nat) : Keeps v (free_map_release sector cnt) := by
  intro s
  simp only [free_map_release, get_bind_apply]
  split
  · rfl
  · simp only [set_bind_apply]
    rw [← hf s (bitmap_set_multiple s.free_map sector cnt false)]
    exact Keeps.bind (bitmap_write_keeps hm hd _ _) (fun _ => Keeps.pure v _) _

end FreeMap

/-- The free map changes only through its own functions. -/
theorem bitmap_write_free_map (b : Bitmap) (file : Option Nat) :
    Keeps Fs.free_map (bitmap_write b file) :=
  bitmap_write_keeps (fun _ _ => rfl) (fun _ _ => rfl) b file

/-- A successful allocation takes a run of `cnt` sectors that were free, and marks exactly that
run used. -/
theorem free_map_allocate_some {s s' : Fs} {cnt sector : Nat}
    (h : free_map_allocate cnt s = .ok (some sector) s') :
    sector + cnt ≤ bitmap_size s.free_map ∧ (∀ j < cnt, bitmap_test s.free_map (sector + j) = false) ∧
      s'.free_map = bitmap_set_multiple s.free_map sector cnt true := by
  unfold free_map_allocate bitmap_scan_and_flip at h
  obtain ⟨idx, hidx⟩ : ∃ i, bitmap_scan s.free_map 0 cnt false = i := ⟨_, rfl⟩
  by_cases hs : idx = BITMAP_ERROR
  · simp [hidx, hs] at h
  obtain ⟨-, hfit, hfree, -⟩ := bitmap_scan_spec (by rw [hidx]; exact hs)
  rw [hidx] at hfit hfree
  have hrun : ∀ j < cnt, bitmap_test s.free_map (idx + j) = false := by
    intro j hj
    by_contra hne
    have : bitmap_contains s.free_map idx cnt true = true :=
      (bitmap_contains_iff _ _ _ _).mpr ⟨j, hj, by simpa using hne⟩
    simp_all
  simp only [hidx, hs, ne_eq, not_false_eq_true, ↓reduceIte, Bool.not_false, get_bind_apply,
    set_bind_apply] at h
  set b := bitmap_set_multiple s.free_map idx cnt true with hb
  -- the write back to `free_map_file` keeps the new map, or the run is given back and the call fails
  cases hf : s.free_map_file with
  | none =>
    simp only [hf, pure_apply, Result.ok.injEq, Option.some.injEq] at h
    obtain ⟨rfl, rfl⟩ := h
    exact ⟨hfit, hrun, rfl⟩
  | some file =>
    simp only [hf] at h
    cases hw : bitmap_write b (some file) { s with free_map := b, free_map_file := some file } with
    | ok ok s₂ =>
      rw [bind_ok hw] at h
      cases ok
      · simp at h
      · simp only [if_true, pure_apply, Result.ok.injEq, Option.some.injEq] at h
        obtain ⟨rfl, rfl⟩ := h
        exact ⟨hfit, hrun, (bitmap_write_free_map _ _).ok hw⟩
    | error e s₂ => rw [bind_error hw] at h; cases h

/-- A release marks its run free and changes no other bit. -/
theorem free_map_release_ok {s s' : Fs} {sector cnt : Nat}
    (h : free_map_release sector cnt s = .ok () s') :
    s'.free_map = bitmap_set_multiple s.free_map sector cnt false := by
  unfold free_map_release at h
  by_cases hall : bitmap_all s.free_map sector cnt = true
  · simp only [hall, Bool.not_true, get_bind_apply] at h
    simp only [Bool.false_eq_true, if_false, set_bind_apply] at h
    cases hw : bitmap_write (bitmap_set_multiple s.free_map sector cnt false) s.free_map_file
        { s with free_map := bitmap_set_multiple s.free_map sector cnt false } with
    | ok _ s₂ =>
      rw [bind_ok hw] at h
      simp only [pure_apply, Result.ok.injEq] at h
      rw [← h.2]
      exact (bitmap_write_free_map _ _).ok hw
    | error e s₂ => rw [bind_error hw] at h; cases h
  · simp [hall] at h

/-! ## Creating inodes -/

theorem writeZeros_keeps {β : Type} {v : Fs → β} (hd : ∀ s d, v { s with disk := d } = v s) :
    ∀ sector cnt, Keeps v (writeZeros sector cnt)
  | _, 0 => Keeps.pure v _
  | _, _ + 1 => Keeps.bind (block_write_keeps hd _ _) fun _ => writeZeros_keeps hd _ _

theorem inode_create_keeps {β : Type} {v : Fs → β} (hm : ∀ s bs, v { s with mallocs := bs } = v s)
    (hd : ∀ s d, v { s with disk := d } = v s) (hf : ∀ s b, v { s with free_map := b } = v s)
    (sector : Nat) (length : Int) : Keeps v (inode_create sector length) := by
  unfold inode_create
  refine Keeps.ite (Keeps.throw v _) ?_
  refine Keeps.bind (allocOk_keeps hm) fun ok => Keeps.ite (Keeps.pure v _) ?_
  refine Keeps.bind (free_map_allocate_keeps hm hd hf _) fun r => ?_
  split
  · exact Keeps.pure v _
  · exact Keeps.bind (block_write_keeps hd _ _) fun _ =>
      Keeps.bind (writeZeros_keeps hd _ _) fun _ => Keeps.pure v _

/-- `inode_create` succeeds only after the free map gave it its run of data sectors. -/
theorem inode_create_true {s s' : Fs} {sector : Nat} {length : Int}
    (h : inode_create sector length s = .ok true s') :
    ∃ start, start + bytes_to_sectors length ≤ bitmap_size s.free_map ∧
      (∀ j < bytes_to_sectors length, bitmap_test s.free_map (start + j) = false) ∧
      s'.free_map = bitmap_set_multiple s.free_map start (bytes_to_sectors length) true := by
  unfold inode_create at h
  split at h
  · cases h
  obtain ⟨ok, s₁, hok, h⟩ := bind_eq_ok.mp h
  have hs₁ : s₁.free_map = s.free_map := (allocOk_keeps (v := Fs.free_map) fun _ _ => rfl).ok hok
  cases ok
  · simp at h
  simp only [Bool.not_true, Bool.false_eq_true, if_false] at h
  obtain ⟨r, s₂, halloc, h⟩ := bind_eq_ok.mp h
  cases r with
  | none => simp at h
  | some start =>
    obtain ⟨hfit, hrun, hmap⟩ := free_map_allocate_some halloc
    obtain ⟨_, s₃, hw, h⟩ := bind_eq_ok.mp h
    obtain ⟨_, s₄, hz, h⟩ := bind_eq_ok.mp h
    simp only [pure_apply, Result.ok.injEq] at h
    rw [← h.2, (writeZeros_keeps (v := Fs.free_map) (fun _ _ => rfl) _ _).ok hz,
      (block_write_keeps (v := Fs.free_map) (fun _ _ => rfl) _ _).ok hw, hmap, hs₁]
    rw [hs₁] at hfit hrun
    exact ⟨start, hfit, hrun, rfl⟩

/-! ## Opening and closing inodes -/

section OpenClose

variable {β : Type} {v : Fs → β}

theorem modifyInode_keeps (ho : ∀ s l, v { s with open_inodes := l } = v s) (sector : Nat)
    (f : Inode → Inode) : Keeps v (modifyInode sector f) :=
  Keeps.modify fun s => ho s _

theorem inode_reopen_keeps (ho : ∀ s l, v { s with open_inodes := l } = v s) (inode : Option Nat) :
    Keeps v (inode_reopen inode) := by
  unfold inode_reopen
  split
  · exact Keeps.bind (inodeAt_keeps _) fun _ =>
      Keeps.bind (modifyInode_keeps ho _ _) fun _ => Keeps.pure v _
  · exact Keeps.pure v _

theorem inode_open_keeps (hm : ∀ s bs, v { s with mallocs := bs } = v s)
    (ho : ∀ s l, v { s with open_inodes := l } = v s) (sector : Nat) :
    Keeps v (inode_open sector) := by
  unfold inode_open
  refine Keeps.bind (Keeps.get v) fun s => ?_
  cases hf : s.open_inodes.find? (·.sector = sector) with
  | some _ => exact inode_reopen_keeps ho _
  | none =>
    refine Keeps.bind (allocOk_keeps hm) fun ok => ?_
    split
    · exact Keeps.pure v _
    · exact Keeps.bind (block_read_keeps _) fun _ =>
        Keeps.bind (Keeps.modify fun s => ho s _) fun _ => Keeps.pure v _

/-- `inode_close` changes `open_inodes`, the free map and the device only. -/
theorem inode_close_keeps (hm : ∀ s bs, v { s with mallocs := bs } = v s)
    (hd : ∀ s d, v { s with disk := d } = v s) (hf : ∀ s b, v { s with free_map := b } = v s)
    (ho : ∀ s l, v { s with open_inodes := l } = v s) (inode : Option Nat) :
    Keeps v (inode_close inode) := by
  unfold inode_close
  split
  · exact Keeps.pure v _
  · refine Keeps.bind (inodeAt_keeps _) fun i => Keeps.ite ?_ (modifyInode_keeps ho _ _)
    refine Keeps.bind (Keeps.modify fun s => ho s _) fun _ => Keeps.ite ?_ (Keeps.pure v _)
    exact Keeps.bind (free_map_release_keeps hm hd hf _ _) fun _ => free_map_release_keeps hm hd hf _ _

theorem inode_deny_write_keeps (ho : ∀ s l, v { s with open_inodes := l } = v s) (inode : Nat) :
    Keeps v (inode_deny_write inode) :=
  Keeps.bind (inodeAt_keeps _) fun _ => Keeps.bind (modifyInode_keeps ho _ _) fun _ =>
    Keeps.ite (Keeps.throw v _) (Keeps.pure v _)

theorem inode_allow_write_keeps (ho : ∀ s l, v { s with open_inodes := l } = v s) (inode : Nat) :
    Keeps v (inode_allow_write inode) :=
  Keeps.bind (inodeAt_keeps _) fun _ => Keeps.ite (Keeps.throw v _) (modifyInode_keeps ho _ _)

theorem inode_remove_keeps (ho : ∀ s l, v { s with open_inodes := l } = v s) (inode : Nat) :
    Keeps v (inode_remove inode) :=
  Keeps.bind (inodeAt_keeps _) fun _ => modifyInode_keeps ho _ _

end OpenClose

/-- `inode_open` hands back the inode of the sector it was asked for. -/
theorem inode_open_some {s s' : Fs} {sector p : Nat} (h : inode_open sector s = .ok (some p) s') :
    p = sector := by
  unfold inode_open at h
  simp only [get_bind_apply] at h
  cases hf : s.open_inodes.find? (·.sector = sector) with
  | some _ =>
    simp only [hf, inode_reopen] at h
    obtain ⟨_, _, -, h⟩ := bind_eq_ok.mp h
    obtain ⟨_, _, -, h⟩ := bind_eq_ok.mp h
    simp only [pure_apply, Result.ok.injEq, Option.some.injEq] at h
    exact h.1.symm
  | none =>
    simp only [hf] at h
    obtain ⟨ok, _, -, h⟩ := bind_eq_ok.mp h
    cases ok
    · simp at h
    · obtain ⟨_, _, -, h⟩ := bind_eq_ok.mp h
      obtain ⟨_, _, -, h⟩ := bind_eq_ok.mp h
      simp only [pure_apply, Result.ok.injEq, Option.some.injEq] at h
      exact h.1.symm

/-- Closing an inode that is not marked removed gives nothing back to the free map. -/
theorem inode_close_free_map {s s' : Fs} {p : Nat} {i : Inode}
    (hi : s.open_inodes.find? (·.sector = p) = some i) (hr : i.removed = false)
    (h : inode_close (some p) s = .ok () s') : s'.free_map = s.free_map := by
  unfold inode_close at h
  dsimp only at h
  rw [bind_ok (inodeAt_ok hi)] at h
  split at h
  · simp only [modify_bind_apply, hr, Bool.false_eq_true, if_false, pure_apply,
      Result.ok.injEq] at h
    rw [← h.2]
  · simp only [modifyInode, modify_apply, Result.ok.injEq] at h
    rw [← h.2]

end Pintos.Filesys
