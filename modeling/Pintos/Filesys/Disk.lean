import Pintos.Lib.Bytes
import Pintos.Userprog.Syscall

/-!
# The file system's state (`devices/block.c`, `filesys/inode.c`, `filesys/file.c`)

The file system device is an array of 512-byte sectors; `block_read` and `block_write` check
the sector number against the device's size and panic past it. The state of the file system
code is the device, the free map in memory, the `free_map_file` pointer, the list
`open_inodes` of in-memory inodes, and the heap of `struct file` blocks. An in-memory inode is
found by its sector, which `inode_open` keeps unique, so a `struct inode *` is that sector; a
`struct file *` is the address of its block.

Every `malloc` and `calloc` of the file system code (inodes, files, directories, the
bounce buffers of `inode_read_at` and `inode_write_at`) takes the allocator's next answer from
`mallocs`; once the list is used up, every allocation succeeds.
-/

namespace Pintos.Filesys

/-- `BLOCK_SECTOR_SIZE`. -/
def BLOCK_SECTOR_SIZE : Nat := 512

/-- `FREE_MAP_SECTOR`: the free map's inode. -/
def FREE_MAP_SECTOR : Nat := 0

/-- `ROOT_DIR_SECTOR`: the root directory's inode. -/
def ROOT_DIR_SECTOR : Nat := 1

/-- `INODE_MAGIC`. -/
def INODE_MAGIC : Nat := 0x494e4f44

/-- The bytes of one sector, by offset. -/
abbrev SectorData := Nat → UInt8

/-- `struct inode_disk`; its `unused` words are zero. -/
structure InodeDisk where
  start : Nat
  length : Int
  magic : Nat
  deriving DecidableEq, Repr

/-- The word that holds an `int`. -/
def int32Word (i : Int) : Nat := (i % 2 ^ 32).toNat

/-- The sector that `block_write` stores for a `struct inode_disk`. -/
def InodeDisk.toSector (d : InodeDisk) : SectorData := fun i =>
  (leBytes 4 d.start ++ leBytes 4 (int32Word d.length) ++ leBytes 4 d.magic).getD i 0

/-- The `struct inode_disk` that `block_read` fills in from a sector. -/
def InodeDisk.ofSector (d : SectorData) : InodeDisk :=
  ⟨leValue [d 0, d 1, d 2, d 3], toInt32 (leValue [d 4, d 5, d 6, d 7]),
    leValue [d 8, d 9, d 10, d 11]⟩

/-- `struct inode`. -/
structure Inode where
  sector : Nat
  open_cnt : Nat
  removed : Bool
  deny_write_cnt : Nat
  data : InodeDisk
  deriving DecidableEq, Repr

/-- The file system code's state. -/
structure Fs where
  disk : Nat → SectorData
  disk_size : Nat
  free_map : Bitmap
  free_map_file : Option Nat
  open_inodes : List Inode
  file_heap : Nat → Option File
  file_next : Nat
  mallocs : List Bool

/-- A path of the file system code. -/
abbrev FsM := EStateM Fault Fs

/-- `malloc` or `calloc` returns a block. -/
def allocOk : FsM Bool := modifyGet fun s =>
  match s.mallocs with
  | [] => (true, s)
  | b :: bs => (b, { s with mallocs := bs })

/-! ## The device -/

/-- `block_read (fs_device, sector, buffer)`. -/
def block_read (sector : Nat) : FsM SectorData := do
  let s ← get
  if sector ≥ s.disk_size then throw .panic
  return s.disk sector

/-- `block_write (fs_device, sector, buffer)`. -/
def block_write (sector : Nat) (d : SectorData) : FsM Unit := do
  let s ← get
  if sector ≥ s.disk_size then throw .panic
  set { s with disk := Function.update s.disk sector d }

/-- `n` bytes of a sector from offset `ofs`. -/
def sectorBytes (d : SectorData) (ofs n : Nat) : List UInt8 := (List.range n).map fun i => d (ofs + i)

/-- The sector `d` with `n` bytes from `src` copied in at offset `ofs`. -/
def patch (d : SectorData) (ofs n : Nat) (src : List UInt8) : SectorData := fun i =>
  if ofs ≤ i ∧ i < ofs + n then src.getD (i - ofs) 0 else d i

/-! ## Inodes in memory -/

/-- `bytes_to_sectors (size)` of a non-negative size. -/
def bytes_to_sectors (size : Int) : Nat := (size.toNat + BLOCK_SECTOR_SIZE - 1) / BLOCK_SECTOR_SIZE

/-- `byte_to_sector (inode, pos)`: `-1` past the end. -/
def byte_to_sector (d : InodeDisk) (pos : Nat) : Nat :=
  if (pos : Int) < d.length then d.start + pos / BLOCK_SECTOR_SIZE else 2 ^ 32 - 1

/-- `*inode` for the open inode of `sector`; one that has been freed is not there. -/
def inodeAt (sector : Nat) : FsM Inode := do
  match (← get).open_inodes.find? (·.sector = sector) with
  | some i => return i
  | none => throw .undefined

/-- Change the open inode of `sector`. -/
def modifyInode (sector : Nat) (f : Inode → Inode) : FsM Unit :=
  modify fun s => { s with open_inodes := s.open_inodes.map fun i => if i.sector = sector then f i else i }

/-- `*file` for the `struct file` block at `file`. -/
def fileAtFs (file : Nat) : FsM File := do
  match (← get).file_heap file with
  | some f => return f
  | none => throw .undefined

/-- Change the `struct file` at `file`. -/
def modifyFile (file : Nat) (f : File → File) : FsM Unit :=
  modify fun s => { s with file_heap := fun a => if a = file then (s.file_heap a).map f else s.file_heap a }

/-! ## Reading and writing an inode's data -/

/-- The loop of `inode_read_at`: `size` bytes left from `offset`, and whether the bounce buffer
is allocated. Each round reads the rest of the sector, of the inode or of the request,
whichever is least; `while (size > 0)` stops with the chunk, which is at most `size`. Every
round reads a byte at least, so `fuel = size` rounds are enough. -/
def readLoop (d : InodeDisk) : Nat → Nat → Nat → Bool → FsM (List UInt8)
  | 0, _, _, _ => return []
  | fuel + 1, size, offset, bounce =>
    let sector_ofs := offset % BLOCK_SECTOR_SIZE
    let sector_left := BLOCK_SECTOR_SIZE - sector_ofs
    let chunk_size : Int := min (size : Int) (min (d.length - offset) sector_left)
    if 0 < chunk_size then do
      let sector_idx := byte_to_sector d offset
      let c := chunk_size.toNat
      if sector_ofs = 0 ∧ c = BLOCK_SECTOR_SIZE then
        let data ← block_read sector_idx
        let rest ← readLoop d fuel (size - c) (offset + c) bounce
        return sectorBytes data 0 c ++ rest
      else
        -- a partial sector goes through the bounce buffer, allocated the first time
        let ok ← if bounce then pure true else allocOk
        if ok then
          let data ← block_read sector_idx
          let rest ← readLoop d fuel (size - c) (offset + c) true
          return sectorBytes data sector_ofs c ++ rest
        else return []
    else return []

/-- The loop of `inode_write_at`, with `buffer` the bytes still to write. A partial sector is
read into the bounce buffer first when the chunk leaves bytes of it on either side. -/
def writeLoop (d : InodeDisk) : Nat → List UInt8 → Nat → Nat → Bool → FsM Nat
  | 0, _, _, _, _ => return 0
  | fuel + 1, buffer, size, offset, bounce =>
    let sector_ofs := offset % BLOCK_SECTOR_SIZE
    let sector_left := BLOCK_SECTOR_SIZE - sector_ofs
    let chunk_size : Int := min (size : Int) (min (d.length - offset) sector_left)
    if 0 < chunk_size then do
      let sector_idx := byte_to_sector d offset
      let c := chunk_size.toNat
      if sector_ofs = 0 ∧ c = BLOCK_SECTOR_SIZE then
        block_write sector_idx (patch (fun _ => 0) 0 c buffer)
        let rest ← writeLoop d fuel (buffer.drop c) (size - c) (offset + c) bounce
        return c + rest
      else
        let ok ← if bounce then pure true else allocOk
        if ok then
          let old ← if 0 < sector_ofs ∨ c < sector_left then block_read sector_idx
            else pure fun _ => 0
          block_write sector_idx (patch old sector_ofs c buffer)
          let rest ← writeLoop d fuel (buffer.drop c) (size - c) (offset + c) true
          return c + rest
        else return 0
    else return 0

/-- `inode_read_at (inode, buffer, size, offset)`: the bytes read, as many as it returns. Every
caller's offset is a file position or a directory offset, which is never negative. -/
def inode_read_at (inode : Nat) (size : Int) (offset : Nat) : FsM (List UInt8) := do
  let i ← inodeAt inode
  readLoop i.data size.toNat size.toNat offset false

/-- `inode_write_at (inode, buffer, size, offset)`: nothing while writes are denied. -/
def inode_write_at (inode : Nat) (buffer : List UInt8) (size : Int) (offset : Nat) : FsM Nat := do
  let i ← inodeAt inode
  if i.deny_write_cnt ≠ 0 then return 0
  writeLoop i.data size.toNat buffer size.toNat offset false

/-- The bytes of the file whose inode is `d`, as its data sectors hold them. -/
def fileBytes (s : Fs) (d : InodeDisk) : List UInt8 :=
  (List.range d.length.toNat).map fun pos =>
    s.disk (d.start + pos / BLOCK_SECTOR_SIZE) (pos % BLOCK_SECTOR_SIZE)

/-- The inode stored in `sector` of the device. -/
def Fs.diskInode (s : Fs) (sector : Nat) : InodeDisk := InodeDisk.ofSector (s.disk sector)

/-- `inode_length`. -/
def inode_length (inode : Nat) : FsM Int := do
  return (← inodeAt inode).data.length

/-! ## Spec lemmas of the state accessors -/

@[simp] theorem allocOk_nil {s : Fs} (h : s.mallocs = []) : allocOk s = .ok true s := by
  simp [allocOk, h]

@[simp] theorem allocOk_cons {s : Fs} {b : Bool} {bs : List Bool} (h : s.mallocs = b :: bs) :
    allocOk s = .ok b { s with mallocs := bs } := by
  simp [allocOk, h]

theorem block_read_ok {s : Fs} {sector : Nat} (h : sector < s.disk_size) :
    block_read sector s = .ok (s.disk sector) s := by
  simp [block_read, EStateM.bind_ok (EStateM.get_apply s), Nat.not_le.mpr h]

theorem block_write_ok {s : Fs} {sector : Nat} (d : SectorData) (h : sector < s.disk_size) :
    block_write sector d s = .ok () { s with disk := Function.update s.disk sector d } := by
  simp [block_write, EStateM.bind_ok (EStateM.get_apply s), Nat.not_le.mpr h]

theorem inodeAt_ok {s : Fs} {sector : Nat} {i : Inode}
    (h : s.open_inodes.find? (·.sector = sector) = some i) : inodeAt sector s = .ok i s := by
  simp [inodeAt, EStateM.bind_ok (EStateM.get_apply s), h]

theorem fileAtFs_ok {s : Fs} {file : Nat} {f : File} (h : s.file_heap file = some f) :
    fileAtFs file s = .ok f s := by
  simp [fileAtFs, EStateM.bind_ok (EStateM.get_apply s), h]

theorem fileAtFs_eq_ok {s s' : Fs} {file : Nat} {f : File} (h : fileAtFs file s = .ok f s') :
    s.file_heap file = some f ∧ s' = s := by
  cases hf : s.file_heap file with
  | none => simp [fileAtFs, EStateM.bind_ok (EStateM.get_apply s), hf] at h
  | some f' =>
    rw [fileAtFs_ok hf, EStateM.Result.ok.injEq] at h
    exact ⟨h.1 ▸ rfl, h.2.symm⟩

theorem modifyFile_apply (s : Fs) (file : Nat) (g : File → File) :
    modifyFile file g s =
      .ok () { s with file_heap := Function.update s.file_heap file ((s.file_heap file).map g) } := by
  simp only [modifyFile, EStateM.modify_apply, EStateM.Result.ok.injEq, true_and]
  congr 1
  funext a
  by_cases h : a = file
  · subst h
    simp
  · simp [h]

/-! ## What the reads and writes leave alone

A view of the state that does not look at the allocator's answers is kept by every read; one
that does not look at the device either is kept by every write. -/

section Frame

open EStateM

variable {β : Type} {v : Fs → β}

theorem allocOk_keeps (hm : ∀ s bs, v { s with mallocs := bs } = v s) : Keeps v allocOk := by
  intro s
  simp only [allocOk, modifyGet_apply]
  cases h : s.mallocs <;> simp [hm]

theorem block_read_keeps (sector : Nat) : Keeps v (block_read sector) := by
  intro s
  simp only [block_read]
  by_cases h : sector ≥ s.disk_size <;> simp [h]

theorem block_write_keeps (hd : ∀ s d, v { s with disk := d } = v s) (sector : Nat)
    (data : SectorData) : Keeps v (block_write sector data) := by
  intro s
  simp only [block_write]
  by_cases h : sector ≥ s.disk_size <;> simp [h, hd]

theorem inodeAt_keeps (sector : Nat) : Keeps v (inodeAt sector) := by
  intro s
  simp only [inodeAt]
  cases h : s.open_inodes.find? (·.sector = sector) <;> simp [h]

theorem fileAtFs_keeps (file : Nat) : Keeps v (fileAtFs file) := by
  intro s
  simp only [fileAtFs]
  cases h : s.file_heap file <;> simp [h]

theorem readLoop_keeps (hm : ∀ s bs, v { s with mallocs := bs } = v s) (d : InodeDisk) :
    ∀ fuel size offset bounce, Keeps v (readLoop d fuel size offset bounce)
  | 0, _, _, _ => Keeps.pure v _
  | fuel + 1, size, offset, bounce => by
    have ih := readLoop_keeps hm d fuel
    simp only [readLoop]
    split
    · split
      · exact Keeps.bind (block_read_keeps _) fun _ => Keeps.bind (ih _ _ _) fun _ => Keeps.pure v _
      · split
        all_goals
          refine Keeps.bind (by first | exact Keeps.pure v _ | exact allocOk_keeps hm) fun ok => ?_
          split
          · exact Keeps.bind (block_read_keeps _) fun _ => Keeps.bind (ih _ _ _) fun _ =>
              Keeps.pure v _
          · exact Keeps.pure v _
    · exact Keeps.pure v _

theorem inode_read_at_keeps (hm : ∀ s bs, v { s with mallocs := bs } = v s) (inode : Nat)
    (size : Int) (offset : Nat) : Keeps v (inode_read_at inode size offset) :=
  Keeps.bind (inodeAt_keeps _) fun _ => readLoop_keeps hm _ _ _ _ _

theorem writeLoop_keeps (hm : ∀ s bs, v { s with mallocs := bs } = v s)
    (hd : ∀ s d, v { s with disk := d } = v s) (d : InodeDisk) :
    ∀ fuel buffer size offset bounce, Keeps v (writeLoop d fuel buffer size offset bounce)
  | 0, _, _, _, _ => Keeps.pure v _
  | fuel + 1, buffer, size, offset, bounce => by
    have ih := writeLoop_keeps hm hd d fuel
    simp only [writeLoop]
    split
    · split
      · exact Keeps.bind (block_write_keeps hd _ _) fun _ => Keeps.bind (ih _ _ _ _) fun _ =>
          Keeps.pure v _
      · split
        all_goals
          refine Keeps.bind (by first | exact Keeps.pure v _ | exact allocOk_keeps hm) fun ok => ?_
          split
          · -- the sector is read first unless the chunk covers it
            split
            all_goals
              refine Keeps.bind (by first | exact block_read_keeps _ | exact Keeps.pure v _)
                fun _ => ?_
              exact Keeps.bind (block_write_keeps hd _ _) fun _ => Keeps.bind (ih _ _ _ _) fun _ =>
                Keeps.pure v _
          · exact Keeps.pure v _
    · exact Keeps.pure v _

theorem inode_write_at_keeps (hm : ∀ s bs, v { s with mallocs := bs } = v s)
    (hd : ∀ s d, v { s with disk := d } = v s) (inode : Nat) (buffer : List UInt8) (size : Int)
    (offset : Nat) : Keeps v (inode_write_at inode buffer size offset) :=
  Keeps.bind (inodeAt_keeps _) fun _ =>
    Keeps.ite (Keeps.pure v _) (writeLoop_keeps hm hd _ _ _ _ _ _)

end Frame

theorem int32Word_lt (i : Int) : int32Word i < 2 ^ 32 := by
  unfold int32Word
  omega

theorem toInt32_int32Word {i : Int} (hlo : -2 ^ 31 ≤ i) (hhi : i < 2 ^ 31) :
    toInt32 (int32Word i) = i := by
  unfold toInt32 int32Word
  split <;> omega

/-- An on-disk inode whose fields fit reads back as written. -/
theorem ofSector_toSector {d : InodeDisk} (hs : d.start < 2 ^ 32) (hlo : -2 ^ 31 ≤ d.length)
    (hhi : d.length < 2 ^ 31) (hm : d.magic < 2 ^ 32) : InodeDisk.ofSector d.toSector = d := by
  have e₁ : [d.toSector 0, d.toSector 1, d.toSector 2, d.toSector 3] = leBytes 4 d.start := by
    simp [InodeDisk.toSector, leBytes]
  have e₂ : [d.toSector 4, d.toSector 5, d.toSector 6, d.toSector 7] =
      leBytes 4 (int32Word d.length) := by
    simp [InodeDisk.toSector, leBytes]
  have e₃ : [d.toSector 8, d.toSector 9, d.toSector 10, d.toSector 11] = leBytes 4 d.magic := by
    simp [InodeDisk.toSector, leBytes]
  simp only [InodeDisk.ofSector, e₁, e₂, e₃, leValue_leBytes 4 _ hs, leValue_leBytes 4 _ hm,
    leValue_leBytes 4 _ (int32Word_lt _), toInt32_int32Word hlo hhi]

end Pintos.Filesys
