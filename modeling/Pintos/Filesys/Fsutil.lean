import Pintos.Filesys.Ustar
import Pintos.Filesys.DirMap

/-!
# `fsutil_append` and `fsutil_extract` (`filesys/fsutil.c`)

`fsutil_append` copies a file of the file system to the scratch device as a ustar member: a
header, the data a sector at a time padded with zeros, and the two-sector end-of-archive
marker, which it does not move past. `fsutil_extract` reads the members back from sector 0,
creates and fills each regular file, and stops at the marker. Every failure on the way is a
`PANIC`. The two `static` sector counters are part of the state.
-/

namespace Pintos.Filesys

open EStateM

/-- What `fsutil_append` and `fsutil_extract` work on: the file system, the scratch block
device, and the `static` sector counter of each. -/
structure Util where
  fs : Fs
  scratch : Nat → SectorData
  scratch_size : Nat
  append_sector : Nat
  extract_sector : Nat

abbrev UtilM := EStateM Fault Util

/-- A file system call, on the file system part of the state. -/
def liftFs {α : Type} (x : FsM α) : UtilM α := fun u =>
  match x u.fs with
  | .ok a s => .ok a { u with fs := s }
  | .error e s => .error e { u with fs := s }

/-- `block_read (scratch, sector, buffer)`. -/
def scratch_read (sector : Nat) : UtilM SectorData := do
  let u ← get
  if sector ≥ u.scratch_size then throw .panic
  return u.scratch sector

/-- `block_write (scratch, sector, buffer)`. -/
def scratch_write (sector : Nat) (d : SectorData) : UtilM Unit := do
  let u ← get
  if sector ≥ u.scratch_size then throw .panic
  set { u with scratch := Function.update u.scratch sector d }

/-- A 512-byte buffer as a sector. -/
def bufferSector (buffer : List UInt8) : SectorData := fun i => buffer.getD i 0

/-- The loop of `fsutil_append` that copies `size` bytes of `src` a sector at a time, each
padded with zeros. -/
def appendLoop (src : Nat) : Nat → Int → UtilM Unit
  | 0, _ => pure ()
  | fuel + 1, size => do
    if size ≤ 0 then return
    let chunk_size : Int := if size > BLOCK_SECTOR_SIZE then BLOCK_SECTOR_SIZE else size
    let u ← get
    if u.append_sector ≥ u.scratch_size then throw .panic
    let bs ← liftFs (file_read src chunk_size)
    if (bs.length : Int) ≠ chunk_size then throw .panic
    scratch_write u.append_sector (bufferSector bs)
    modify fun u => { u with append_sector := u.append_sector + 1 }
    appendLoop src fuel (size - chunk_size)

/-- `fsutil_append (argv)` for the file `file_name`: its header, its data, and the
end-of-archive marker, which the next append writes over. -/
def fsutil_append (file_name : List UInt8) : UtilM Unit := do
  if !(← liftFs allocOk) then throw .panic
  let some src ← liftFs (filesys_open file_name) | throw .panic
  let size ← liftFs (file_length src)
  match ustar_make_header file_name .regular size with
  | .error e => throw e
  | .ok none => throw .panic
  | .ok (some header) =>
    scratch_write (← get).append_sector (bufferSector header)
    modify fun u => { u with append_sector := u.append_sector + 1 }
    appendLoop src size.toNat size
    let sector := (← get).append_sector
    scratch_write sector (bufferSector [])
    scratch_write (sector + 1) (bufferSector [])
    liftFs (file_close (some src))

/-- The loop of `fsutil_extract` that copies `size` bytes into `dst` a sector at a time. -/
def copyLoop (dst : Nat) : Nat → Int → UtilM Unit
  | 0, _ => pure ()
  | fuel + 1, size => do
    if size ≤ 0 then return
    let chunk_size : Int := if size > BLOCK_SECTOR_SIZE then BLOCK_SECTOR_SIZE else size
    let data ← scratch_read (← get).extract_sector
    modify fun u => { u with extract_sector := u.extract_sector + 1 }
    let n ← liftFs (file_write dst (sectorBytes data 0 BLOCK_SECTOR_SIZE) chunk_size)
    if (n : Int) ≠ chunk_size then throw .panic
    copyLoop dst fuel (size - chunk_size)

/-- The loop of `fsutil_extract`, a header at a time. Each round reads a sector at least, and a
read past the device panics, so a round for each sector of the device is enough. -/
def extractLoop : Nat → UtilM Unit
  | 0 => pure ()
  | fuel + 1 => do
    let header ← scratch_read (← get).extract_sector
    modify fun u => { u with extract_sector := u.extract_sector + 1 }
    match ustar_parse_header (sectorBytes header 0 USTAR_HEADER_SIZE) with
    | .error _ => throw .panic
    | .ok (_, .eof, _) => pure ()
    | .ok (_, .directory, _) => extractLoop fuel
    | .ok (none, .regular, _) => throw .undefined
    | .ok (some file_name, .regular, size) =>
      if !(← liftFs (filesys_create file_name size)) then throw .panic
      let some dst ← liftFs (filesys_open file_name) | throw .panic
      copyLoop dst size.toNat size
      liftFs (file_close (some dst))
      extractLoop fuel

/-- `fsutil_extract (argv)`: the archive into the file system, then the first two sectors of
the scratch device zeroed. -/
def fsutil_extract : UtilM Unit := do
  let header_ok ← liftFs allocOk
  let data_ok ← liftFs allocOk
  if !header_ok ∨ !data_ok then throw .panic
  extractLoop ((← get).scratch_size + 1)
  scratch_write 0 (bufferSector [])
  scratch_write 1 (bufferSector [])

/-! ## Runs of the commands -/

theorem liftFs_ok {α : Type} {x : FsM α} {u : Util} {a : α} {s : Fs} (h : x u.fs = .ok a s) :
    liftFs x u = .ok a { u with fs := s } := by
  simp only [liftFs, h]

theorem scratch_read_ok {u : Util} {sector : Nat} (hs : sector < u.scratch_size) :
    scratch_read sector u = .ok (u.scratch sector) u := by
  simp [scratch_read, Nat.not_le.mpr hs]

theorem scratch_write_ok {u : Util} {sector : Nat} (d : SectorData) (hs : sector < u.scratch_size) :
    scratch_write sector d u = .ok () { u with scratch := Function.update u.scratch sector d } := by
  simp [scratch_write, Nat.not_le.mpr hs]

/-- A buffer written as a sector reads back whole. -/
theorem sectorBytes_bufferSector (buffer : List UInt8) :
    sectorBytes (bufferSector buffer) 0 buffer.length = buffer := by
  apply List.ext_getElem (by simp [sectorBytes])
  intro i _ h₂
  simp [sectorBytes, bufferSector, List.getElem?_eq_getElem h₂]

theorem length_of_ustar_make_header {name header : List UInt8} {type : UstarType} {size : Int}
    (h : ustar_make_header name type size = .ok (some header)) :
    header.length = USTAR_HEADER_SIZE := by
  unfold ustar_make_header at h
  by_cases htype : type ≠ .regular ∧ type ≠ .directory
  · simp [htype, throw, throwThe, MonadExceptOf.throw, bind, Except.bind] at h
  · by_cases hlong : (strip_antisocial_prefixes name).length > 99
    · simp [htype, hlong, pure, Except.pure] at h
    · simp only [htype, hlong, if_false, pure, Except.pure, bind, Except.bind, Except.ok.injEq,
        Option.some.injEq] at h
      subst h
      apply length_headerBytes
      · omega
      · simp

/-- `fsutil_append` of an empty file writes its header at the counter's sector and the
end-of-archive marker after it, and moves the counter past the header only. -/
theorem fsutil_append_empty {name : List UInt8} {u : Util} {fs₁ fs₂ fs₃ : Fs} {src : Nat}
    {header : List UInt8} (hal : allocOk u.fs = .ok true u.fs)
    (hopen : filesys_open name u.fs = .ok (some src) fs₁) (hlen : file_length src fs₁ = .ok 0 fs₂)
    (hmake : ustar_make_header name .regular 0 = .ok (some header))
    (hroom : u.append_sector + 2 < u.scratch_size) (hclose : file_close (some src) fs₂ = .ok () fs₃) :
    fsutil_append name u = .ok () { u with
      fs := fs₃,
      scratch := Function.update (Function.update (Function.update u.scratch u.append_sector
        (bufferSector header)) (u.append_sector + 1) (bufferSector [])) (u.append_sector + 2)
        (bufferSector []),
      append_sector := u.append_sector + 1 } := by
  unfold fsutil_append
  rw [bind_ok (liftFs_ok hal)]
  simp only [Bool.not_true, Bool.false_eq_true, if_false]
  rw [bind_ok (liftFs_ok hopen)]
  dsimp only
  rw [bind_ok (liftFs_ok hlen)]
  simp only [hmake, get_bind_apply]
  rw [bind_ok (scratch_write_ok _ (by dsimp only; omega))]
  simp only [modify_bind_apply, Int.toNat_zero, appendLoop, pure_bind_apply, get_bind_apply]
  rw [bind_ok (scratch_write_ok _ (by dsimp only; omega))]
  rw [bind_ok (scratch_write_ok _ (by dsimp only; omega))]
  simp only [liftFs, hclose]

/-- `fsutil_extract` stops the kernel at the first member when it is a regular file that the
file system cannot create. -/
theorem fsutil_extract_create_fails {u : Util} {name : List UInt8} {size : Int} {fs₁ : Fs}
    (hal : allocOk u.fs = .ok true u.fs) (hsec : u.extract_sector < u.scratch_size)
    (hhdr : ustar_parse_header (sectorBytes (u.scratch u.extract_sector) 0 USTAR_HEADER_SIZE) =
      .ok (some name, .regular, size))
    (hcreate : filesys_create name size u.fs = .ok false fs₁) :
    (fsutil_extract u).error? = some .panic := by
  unfold fsutil_extract
  rw [bind_ok (liftFs_ok hal), bind_ok (liftFs_ok hal)]
  simp only [Bool.not_true, Bool.false_eq_true, or_self, if_false, get_bind_apply]
  have hloop : extractLoop (u.scratch_size + 1) u =
      .error .panic { u with fs := fs₁, extract_sector := u.extract_sector + 1 } := by
    -- Lean generates no equations for `extractLoop` (its nested match), so the first round is
    -- unfolded from the definition
    conv => lhs; delta extractLoop
    dsimp only
    conv => lhs; delta extractLoop._f
    dsimp only
    simp only [get_bind_apply]
    rewrite [bind_ok (scratch_read_ok hsec)]
    simp only [modify_bind_apply]
    rewrite [hhdr]
    dsimp only
    have hcreate' : filesys_create name size
        ({ u with extract_sector := u.extract_sector + 1 } : Util).fs = .ok false fs₁ := hcreate
    rewrite [bind_ok (liftFs_ok hcreate')]
    rfl
  show ((extractLoop (u.scratch_size + 1) >>= _) u).error? = _
  rw [bind_error hloop]
  rfl

/-! ## Extracting into a file system without room -/

/-- The file system after `create ("a", 0)` on a formatted device of 5 sectors: `"a"`'s inode
takes the one free sector. -/
def fsWithA : Fs :=
  (filesys_create fileA 0 ((formatted (fun _ _ => 0) 5 []).getD (fsBoot (fun _ _ => 0) 5 []))).state

/-- A formatted device of 4 sectors: the free map's inode and data, the root directory's
inode and data. No sector is free. -/
def fsFull : Fs := (formatted (fun _ _ => 0) 4 []).getD (fsBoot (fun _ _ => 0) 4 [])

/-- `"a"` appended to an empty scratch device of 3 sectors, and the same scratch device seen
from the 4-sector file system. -/
def archivedA : Util := (fsutil_append fileA ⟨fsWithA, fun _ _ => 0, 3, 0, 0⟩).state

def extractIntoFull : Util := { archivedA with fs := fsFull }

/-- The archive of one empty file `"a"` fits the scratch device, and `fsutil_extract` into a
file system without `"a"` panics instead of recreating it: the device has no free sector for
the inode, so `filesys_create` fails. -/
theorem extract_without_room_panics :
    fsutil_append fileA ⟨fsWithA, fun _ _ => 0, 3, 0, 0⟩ = .ok () archivedA ∧
    formatted (fun _ _ => 0) 4 [] = some fsFull ∧
    (List.range 4).all (Bitmap.bitmap_test fsFull.free_map ·) ∧
    (dirEntries fsFull (fsFull.diskInode ROOT_DIR_SECTOR)).all (!·.in_use) ∧
    fsutil_extract extractIntoFull = .error .panic (fsutil_extract extractIntoFull).state := by
  have hfmt : (formatted (fun _ _ => 0) 4 []).isSome = true := by decide +kernel
  obtain ⟨s₀, hs₀⟩ := Option.isSome_iff_exists.mp hfmt
  have happend : (fsutil_append fileA ⟨fsWithA, fun _ _ => 0, 3, 0, 0⟩).value? = some () := by
    decide +kernel
  have hfull : (List.range 4).all (Bitmap.bitmap_test fsFull.free_map ·) := by decide +kernel
  have hroot : (dirEntries fsFull (fsFull.diskInode ROOT_DIR_SECTOR)).all (!·.in_use) := by decide +kernel
  obtain ⟨header, hmake, hparse⟩ := ustar_parse_make_header (Or.inl rfl) (show 0 ∉ fileA by decide)
    (show (strip_antisocial_prefixes fileA).length ≤ 99 by decide)
    (fun _ => (⟨le_rfl, by decide⟩ : (0 : Int) ≤ 0 ∧ (0 : Int) ≤ INT_MAX))
  have hal : ∀ fs : Fs, fs.mallocs = [] → allocOk fs = .ok true fs := fun fs h => by
    simp only [allocOk, modifyGet_apply, h]
  have hopen := Result.eq_ok_of_value?
    (show (filesys_open fileA fsWithA).value? = some (some 2) by decide +kernel)
  have hlen := Result.eq_ok_of_value?
    (show (file_length 2 (filesys_open fileA fsWithA).state).value? = some 0 by decide +kernel)
  have hclose := Result.eq_ok_of_value? (show (file_close (some 2)
    (file_length 2 (filesys_open fileA fsWithA).state).state).value? = some () by decide +kernel)
  have hcreate := Result.eq_ok_of_value?
    (show (filesys_create fileA 0 fsFull).value? = some false by decide +kernel)
  have halA : allocOk fsWithA = .ok true fsWithA := hal fsWithA (by decide +kernel)
  -- the concrete file systems stay folded: `dsimp` reads the fields of the state without
  -- unfolding `fsWithA`
  have hrun : fsutil_append fileA ⟨fsWithA, fun _ _ => 0, 3, 0, 0⟩ = _ :=
    fsutil_append_empty (by dsimp only; exact halA) (by dsimp only; exact hopen) hlen hmake
      (by dsimp only; decide) hclose
  have hsector : extractIntoFull.scratch extractIntoFull.extract_sector = bufferSector header := by
    simp [extractIntoFull, archivedA, hrun]
  have hhdr : ustar_parse_header (sectorBytes (extractIntoFull.scratch extractIntoFull.extract_sector)
      0 USTAR_HEADER_SIZE) = .ok (some fileA, .regular, 0) := by
    rw [hsector, ← length_of_ustar_make_header hmake, sectorBytes_bufferSector, hparse,
      show strip_antisocial_prefixes fileA = fileA by decide]
    rfl
  have hpanic : (fsutil_extract extractIntoFull).error? = some .panic :=
    fsutil_extract_create_fails (by dsimp only [extractIntoFull]; exact hal fsFull (by decide +kernel))
      (by simp [extractIntoFull, archivedA, hrun]) hhdr (by dsimp only [extractIntoFull]; exact hcreate)
  exact ⟨Result.eq_ok_of_value? happend, by simp [fsFull, hs₀], hfull, hroot, Result.eq_error_of_error? hpanic⟩

end Pintos.Filesys
