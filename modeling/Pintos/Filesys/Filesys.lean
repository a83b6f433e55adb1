import Pintos.Filesys.Directory

/-!
# The file system's entry points (`filesys/filesys.c`)

Every call opens the root directory and closes it before it returns. `filesys_create` takes
the inode's sector from the free map, lets `inode_create` take the data run, and adds the
entry; when any of the three fails after the sector was taken, it gives back that sector.
-/

namespace Pintos.Filesys

/-- `filesys_create (name, initial_size)`. The three steps run while the ones before them
succeed; `inode_sector` stays 0 until `free_map_allocate` sets it. -/
def filesys_create (name : List UInt8) (initial_size : Int) : FsM Bool := do
  let dir ← dir_open_root
  let (success, inode_sector) ← do
    match dir with
    | none => pure (false, 0)
    | some d =>
      match ← free_map_allocate 1 with
      | none => pure (false, 0)
      | some sector =>
        if ← inode_create sector initial_size then pure (← dir_add d name sector, sector)
        else pure (false, sector)
  if !success ∧ inode_sector ≠ 0 then free_map_release inode_sector 1
  dir_close dir
  return success

/-- `filesys_open (name)`. -/
def filesys_open (name : List UInt8) : FsM (Option Nat) := do
  let dir ← dir_open_root
  let inode ← match dir with
    | some d => dir_lookup d name
    | none => pure none
  dir_close dir
  file_open inode

/-- `filesys_remove (name)`. -/
def filesys_remove (name : List UInt8) : FsM Bool := do
  let dir ← dir_open_root
  let success ← match dir with
    | some d => dir_remove d name
    | none => pure false
  dir_close dir
  return success

/-! ## What the entry points leave alone -/

section Frame

open EStateM

variable {β : Type} {v : Fs → β} (hm : ∀ s bs, v { s with mallocs := bs } = v s)
  (hd : ∀ s d, v { s with disk := d } = v s) (hf : ∀ s b, v { s with free_map := b } = v s)
  (ho : ∀ s l, v { s with open_inodes := l } = v s)
include hm hd hf ho

/-- `filesys_create` makes and frees no `struct file`. -/
theorem filesys_create_keeps (name : List UInt8) (initial_size : Int) :
    Keeps v (filesys_create name initial_size) := by
  unfold filesys_create
  dsimp only
  refine Keeps.bind (dir_open_root_keeps hm hd hf ho) fun dir => ?_
  -- every path ends in the cleanup: the sector goes back on failure, and the directory is closed
  have tail : ∀ x : Bool × Nat, Keeps v (if (!x.1) = true ∧ x.2 ≠ 0 then do
      free_map_release x.2 1
      dir_close dir
      pure x.1
    else do
      dir_close dir
      pure x.1) := fun _ =>
    Keeps.ite (Keeps.bind (free_map_release_keeps hm hd hf _ _) fun _ =>
      Keeps.bind (dir_close_keeps hm hd hf ho _) fun _ => Keeps.pure v _)
      (Keeps.bind (dir_close_keeps hm hd hf ho _) fun _ => Keeps.pure v _)
  split
  · exact Keeps.bind (Keeps.pure v _) tail
  · refine Keeps.bind (free_map_allocate_keeps hm hd hf _) fun r => ?_
    split
    · exact Keeps.bind (Keeps.pure v _) tail
    · refine Keeps.bind (inode_create_keeps hm hd hf _ _) fun ok => Keeps.ite ?_ ?_
      · exact Keeps.bind (dir_add_keeps hm hd _ _ _) fun _ => Keeps.bind (Keeps.pure v _) tail
      · exact Keeps.bind (Keeps.pure v _) tail

/-- `filesys_remove` makes and frees no `struct file`. -/
theorem filesys_remove_keeps (name : List UInt8) : Keeps v (filesys_remove name) := by
  unfold filesys_remove
  dsimp only
  refine Keeps.bind (dir_open_root_keeps hm hd hf ho) fun dir => ?_
  split
  · exact Keeps.bind (dir_remove_keeps hm hd hf ho _ _) fun _ =>
      Keeps.bind (dir_close_keeps hm hd hf ho _) fun _ => Keeps.pure v _
  · exact Keeps.bind (Keeps.pure v _) fun _ =>
      Keeps.bind (dir_close_keeps hm hd hf ho _) fun _ => Keeps.pure v _

end Frame

/-- `do_format ()`: the free map's file, then a root directory of 16 entries. -/
def do_format : FsM Unit := do
  free_map_create
  if !(← dir_create ROOT_DIR_SECTOR 16) then throw .panic
  free_map_close

/-- `filesys_init (format)`, after `inode_init` has emptied `open_inodes`. -/
def filesys_init (format : Bool) : FsM Unit := do
  modify fun s => { s with open_inodes := [] }
  free_map_init
  if format then do_format
  free_map_open

/-- `filesys_done ()`. -/
def filesys_done : FsM Unit := free_map_close

/-- The state at boot: a device of `size` sectors holding `disk`, nothing open, and the
allocator's answers. -/
def fsBoot (disk : Nat → SectorData) (size : Nat) (mallocs : List Bool) : Fs :=
  ⟨disk, size, ⟨[]⟩, none, [], fun _ => none, 0, mallocs⟩

/-- The operations of the file system's callers. -/
inductive FsOp
  | create (name : List UInt8) (initial_size : Int)
  | remove (name : List UInt8)
  | «open» (name : List UInt8)
  | close (file : Nat)

/-- One call; a call that panics or reads freed memory has no step. -/
def fsStep (s : Fs) : FsOp → Option Fs
  | .create name size => match filesys_create name size s with
    | .ok _ s' => some s'
    | .error _ _ => none
  | .remove name => match filesys_remove name s with
    | .ok _ s' => some s'
    | .error _ _ => none
  | .open name => match filesys_open name s with
    | .ok _ s' => some s'
    | .error _ _ => none
  | .close file => match file_close (some file) s with
    | .ok _ s' => some s'
    | .error _ _ => none

/-- Run the calls in order. -/
def fsRun (s : Fs) : List FsOp → Option Fs
  | [] => some s
  | op :: ops => (fsStep s op).bind fun s' => fsRun s' ops

/-- A freshly formatted file system: `filesys_init (true)` on a device of `size` sectors. -/
def formatted (disk : Nat → SectorData) (size : Nat) (mallocs : List Bool) : Option Fs :=
  match filesys_init true (fsBoot disk size mallocs) with
  | .ok _ s => some s
  | .error _ _ => none

end Pintos.Filesys
