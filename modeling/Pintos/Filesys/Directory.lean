import Pintos.Filesys.Inode

/-!
# Directories (`filesys/directory.c`)

A directory is a file of 20-byte `struct dir_entry` records. `lookup`, the free-slot search of
`dir_add` and `dir_readdir` read one entry at a time with `inode_read_at` and stop at the
first short read, which they take for the end of the file. Each entry is smaller than a
sector, so every read goes through a bounce buffer, and a read whose bounce buffer cannot be
allocated is short too.

The scans are bounded by the entries an `off_t` can address (`lookupFuel`); past the end of a
file every read is short, so the bound only cuts runs that had already ended.
-/

namespace Pintos.Filesys

/-- `NAME_MAX`. -/
def NAME_MAX : Nat := 14

/-- `struct dir_entry`. -/
structure DirEntry where
  inode_sector : Nat
  name : List UInt8
  in_use : Bool
  deriving DecidableEq, Repr

/-- `sizeof (struct dir_entry)`: a sector number, `NAME_MAX + 1` name bytes and a flag. -/
def DIR_ENTRY_SIZE : Nat := 20

/-- The bytes of an entry whose name fits: the name is followed by zeros. -/
def DirEntry.toBytes (e : DirEntry) : List UInt8 :=
  leBytes 4 e.inode_sector ++ e.name ++ List.replicate (NAME_MAX + 1 - e.name.length) 0 ++
    [if e.in_use then 1 else 0]

/-- The entry that 20 bytes hold; the name is the string up to its null byte. -/
def DirEntry.ofBytes (bs : List UInt8) : DirEntry :=
  ⟨leValue (bs.take 4), ((bs.drop 4).take (NAME_MAX + 1)).takeWhile (· ≠ 0), bs.getD 19 0 ≠ 0⟩

/-- `struct dir`. -/
structure Dir where
  inode : Nat
  pos : Nat
  deriving DecidableEq, Repr

/-- The entries of the directory file whose inode is `d`, in order. -/
def dirEntries (s : Fs) (d : InodeDisk) : List DirEntry :=
  (List.range (d.length.toNat / DIR_ENTRY_SIZE)).map fun k =>
    DirEntry.ofBytes (((fileBytes s d).drop (DIR_ENTRY_SIZE * k)).take DIR_ENTRY_SIZE)

/-- The entries an `off_t` can address: more than any scan reads. -/
def lookupFuel : Nat := 2 ^ 31 / DIR_ENTRY_SIZE + 1

/-- `dir_create (sector, entry_cnt)`. -/
def dir_create (sector entry_cnt : Nat) : FsM Bool :=
  inode_create sector (entry_cnt * DIR_ENTRY_SIZE)

/-- `dir_open (inode)`, which takes over the inode. -/
def dir_open (inode : Option Nat) : FsM (Option Dir) := do
  let ok ← allocOk
  match inode with
  | some i =>
    if ok then return some ⟨i, 0⟩
    else
      inode_close inode
      return none
  | none => return none

/-- `dir_open_root ()`. -/
def dir_open_root : FsM (Option Dir) := do
  dir_open (← inode_open ROOT_DIR_SECTOR)

/-- `dir_close (dir)`. -/
def dir_close (dir : Option Dir) : FsM Unit := do
  if let some d := dir then inode_close (some d.inode)

/-- The loop of `lookup` from offset `ofs`. -/
def lookupLoop (dir : Dir) (name : List UInt8) : Nat → Nat → FsM (Option (DirEntry × Nat))
  | _, 0 => return none
  | ofs, n + 1 => do
    let bs ← inode_read_at dir.inode DIR_ENTRY_SIZE ofs
    if bs.length ≠ DIR_ENTRY_SIZE then return none
    let e := DirEntry.ofBytes bs
    if e.in_use ∧ name = e.name then return some (e, ofs)
    lookupLoop dir name (ofs + DIR_ENTRY_SIZE) n

/-- `lookup (dir, name, ep, ofsp)`: the in-use entry of `name` and its offset. -/
def lookup (dir : Dir) (name : List UInt8) : FsM (Option (DirEntry × Nat)) :=
  lookupLoop dir name 0 lookupFuel

/-- `dir_lookup (dir, name, inode)`: the inode of `name`'s entry, opened. -/
def dir_lookup (dir : Dir) (name : List UInt8) : FsM (Option Nat) := do
  match ← lookup dir name with
  | some (e, _) => inode_open e.inode_sector
  | none => return none

/-- The free-slot loop of `dir_add`: the offset of the first entry not in use, or where the
first short read happened. -/
def slotLoop (dir : Dir) : Nat → Nat → FsM Nat
  | ofs, 0 => return ofs
  | ofs, n + 1 => do
    let bs ← inode_read_at dir.inode DIR_ENTRY_SIZE ofs
    if bs.length ≠ DIR_ENTRY_SIZE then return ofs
    if !(DirEntry.ofBytes bs).in_use then return ofs
    slotLoop dir (ofs + DIR_ENTRY_SIZE) n

/-- `dir_add (dir, name, inode_sector)`. The entry is written at the slot the loop stopped at;
at the end of the file `inode_write_at` writes nothing, since files do not grow. The bytes of
the name field past its null byte, which `strlcpy` leaves as they were, are zero here; no
reader looks past the null byte. -/
def dir_add (dir : Dir) (name : List UInt8) (inode_sector : Nat) : FsM Bool := do
  if name = [] ∨ name.length > NAME_MAX then return false
  if (← lookup dir name).isSome then return false
  let ofs ← slotLoop dir 0 lookupFuel
  let e : DirEntry := ⟨inode_sector, name, true⟩
  let n ← inode_write_at dir.inode e.toBytes DIR_ENTRY_SIZE ofs
  return n = DIR_ENTRY_SIZE

/-- `dir_remove (dir, name)`: clear the entry, then mark the inode removed. -/
def dir_remove (dir : Dir) (name : List UInt8) : FsM Bool := do
  match ← lookup dir name with
  | none => return false
  | some (e, ofs) =>
    let inode ← inode_open e.inode_sector
    match inode with
    | none => return false
    | some i =>
      let n ← inode_write_at dir.inode { e with in_use := false }.toBytes DIR_ENTRY_SIZE ofs
      if n ≠ DIR_ENTRY_SIZE then
        inode_close inode
        return false
      inode_remove i
      inode_close inode
      return true

/-- The loop of `dir_readdir`, which moves `dir->pos` past every entry it reads. -/
def readdirLoop : Dir → Nat → FsM (Dir × Option (List UInt8))
  | dir, 0 => return (dir, none)
  | dir, n + 1 => do
    let bs ← inode_read_at dir.inode DIR_ENTRY_SIZE dir.pos
    if bs.length ≠ DIR_ENTRY_SIZE then return (dir, none)
    let dir := { dir with pos := dir.pos + DIR_ENTRY_SIZE }
    let e := DirEntry.ofBytes bs
    if e.in_use then return (dir, some (e.name.take NAME_MAX))
    readdirLoop dir n

/-- `dir_readdir (dir, name)`: the next name in use, and the directory moved past it. -/
def dir_readdir (dir : Dir) : FsM (Dir × Option (List UInt8)) :=
  readdirLoop dir lookupFuel

/-! ## What the directory functions leave alone -/

section Frame

open EStateM

variable {β : Type} {v : Fs → β} (hm : ∀ s bs, v { s with mallocs := bs } = v s)
include hm

theorem lookupLoop_keeps (dir : Dir) (name : List UInt8) :
    ∀ ofs n, Keeps v (lookupLoop dir name ofs n)
  | _, 0 => Keeps.pure v _
  | _, n + 1 => by
    simp only [lookupLoop]
    refine Keeps.bind (inode_read_at_keeps hm _ _ _) fun _ => ?_
    refine Keeps.ite (Keeps.pure v _) (Keeps.ite (Keeps.pure v _) ?_)
    exact lookupLoop_keeps dir name _ n

theorem lookup_keeps (dir : Dir) (name : List UInt8) : Keeps v (lookup dir name) :=
  lookupLoop_keeps hm dir name _ _

theorem slotLoop_keeps (dir : Dir) : ∀ ofs n, Keeps v (slotLoop dir ofs n)
  | _, 0 => Keeps.pure v _
  | _, n + 1 => by
    simp only [slotLoop]
    refine Keeps.bind (inode_read_at_keeps hm _ _ _) fun _ => ?_
    exact Keeps.ite (Keeps.pure v _) (Keeps.ite (Keeps.pure v _) (slotLoop_keeps dir _ n))

theorem readdirLoop_keeps : ∀ dir n, Keeps v (readdirLoop dir n)
  | _, 0 => Keeps.pure v _
  | _, n + 1 => by
    simp only [readdirLoop]
    refine Keeps.bind (inode_read_at_keeps hm _ _ _) fun _ => ?_
    exact Keeps.ite (Keeps.pure v _) (Keeps.ite (Keeps.pure v _) (readdirLoop_keeps _ n))

/-- `dir_add` writes the device and nothing else. -/
theorem dir_add_keeps (hd : ∀ s d, v { s with disk := d } = v s) (dir : Dir) (name : List UInt8)
    (sector : Nat) : Keeps v (dir_add dir name sector) := by
  unfold dir_add
  refine Keeps.ite (Keeps.pure v _) ?_
  refine Keeps.bind (lookup_keeps hm _ _) fun _ => Keeps.ite (Keeps.pure v _) ?_
  exact Keeps.bind (slotLoop_keeps hm _ _ _) fun _ =>
    Keeps.bind (inode_write_at_keeps hm hd _ _ _ _) fun _ => Keeps.pure v _

section Opens

variable (hd : ∀ s d, v { s with disk := d } = v s) (hf : ∀ s b, v { s with free_map := b } = v s)
  (ho : ∀ s l, v { s with open_inodes := l } = v s)
include hd hf ho

theorem dir_open_keeps (inode : Option Nat) : Keeps v (dir_open inode) := by
  unfold dir_open
  refine Keeps.bind (allocOk_keeps hm) fun ok => ?_
  split
  · exact Keeps.ite (Keeps.pure v _)
      (Keeps.bind (inode_close_keeps hm hd hf ho _) fun _ => Keeps.pure v _)
  · exact Keeps.pure v _

theorem dir_open_root_keeps : Keeps v dir_open_root :=
  Keeps.bind (inode_open_keeps hm ho _) fun _ => dir_open_keeps hm hd hf ho _

theorem dir_close_keeps (dir : Option Dir) : Keeps v (dir_close dir) := by
  unfold dir_close
  split
  · exact inode_close_keeps hm hd hf ho _
  · exact Keeps.pure v _

omit hd hf in
theorem dir_lookup_keeps (dir : Dir) (name : List UInt8) : Keeps v (dir_lookup dir name) := by
  unfold dir_lookup
  refine Keeps.bind (lookup_keeps hm _ _) fun r => ?_
  split
  · exact inode_open_keeps hm ho _
  · exact Keeps.pure v _

/-- `dir_remove` opens, writes and closes inodes only. -/
theorem dir_remove_keeps (dir : Dir) (name : List UInt8) : Keeps v (dir_remove dir name) := by
  unfold dir_remove
  refine Keeps.bind (lookup_keeps hm _ _) fun r => ?_
  split
  · exact Keeps.pure v _
  · refine Keeps.bind (inode_open_keeps hm ho _) fun inode => ?_
    split
    · exact Keeps.pure v _
    · refine Keeps.bind (inode_write_at_keeps hm hd _ _ _ _) fun n => Keeps.ite ?_ ?_
      · exact Keeps.bind (inode_close_keeps hm hd hf ho _) fun _ => Keeps.pure v _
      · exact Keeps.bind (inode_remove_keeps ho _) fun _ =>
          Keeps.bind (inode_close_keeps hm hd hf ho _) fun _ => Keeps.pure v _

end Opens

end Frame

/-- Opening the root directory gives the root inode and leaves the free map alone. -/
theorem dir_open_root_some {s s' : Fs} {d : Dir} (h : dir_open_root s = .ok (some d) s') :
    d.inode = ROOT_DIR_SECTOR ∧ s'.free_map = s.free_map := by
  unfold dir_open_root at h
  obtain ⟨inode, s₁, hopen, h⟩ := EStateM.bind_eq_ok.mp h
  have h₁ : s₁.free_map = s.free_map :=
    (inode_open_keeps (v := Fs.free_map) (fun _ _ => rfl) (fun _ _ => rfl) _).ok hopen
  unfold dir_open at h
  obtain ⟨ok, s₂, hok, h⟩ := EStateM.bind_eq_ok.mp h
  have h₂ : s₂.free_map = s₁.free_map := (allocOk_keeps (v := Fs.free_map) fun _ _ => rfl).ok hok
  -- the directory is returned only when `calloc` succeeded, so nothing was closed
  cases inode with
  | none => simp at h
  | some i =>
    cases ok
    · simp only [Bool.false_eq_true, if_false] at h
      obtain ⟨_, _, -, h⟩ := EStateM.bind_eq_ok.mp h
      simp at h
    · simp only [if_true, EStateM.pure_apply, EStateM.Result.ok.injEq, Option.some.injEq] at h
      obtain ⟨rfl, rfl⟩ := h
      exact ⟨inode_open_some hopen, h₂.trans h₁⟩

end Pintos.Filesys
