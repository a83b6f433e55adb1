import Pintos.Vm.System
import Pintos.Lib.EState

/-!
# System calls (`userprog/syscall.c`)

`syscall_handler`, `check_ptr` and the `sys_*` functions, over the VM state and the threads'
open files. The kernel reaches a user address through the caller's page directory. Above
`PHYS_BASE` every directory maps the kernel, so a kernel-mode access there never faults; an
access to a user page that is not present, or a write to a read-only one (`start.S` sets
`CR0_WP`), faults, and the kernel-mode branch of `page_fault` grows the stack or kills the
thread. `Kernel.reads` logs every address the kernel reads on a user process's behalf; it is
what the pointer checks are about, not state of the code.

The bodies that stay in the descriptor table (`filesize`, `seek`, `tell`, `close`), the console
(`write` to fd 1, `read` from fd 0) and `open` are modelled. `filesys_open`, `filesys_create`
and `filesys_remove` return what the label says, after `inode_create`'s `ASSERT` on the size.
`process_execute`, `process_wait` and the reads and writes of open files end the model with
their decoded arguments (`SysCall`).
-/

namespace Pintos

open Vm

/-! ## Numbers and words (`lib/syscall-nr.h`) -/

def SYS_HALT : Int := 0
def SYS_EXIT : Int := 1
def SYS_EXEC : Int := 2
def SYS_WAIT : Int := 3
def SYS_CREATE : Int := 4
def SYS_REMOVE : Int := 5
def SYS_OPEN : Int := 6
def SYS_FILESIZE : Int := 7
def SYS_READ : Int := 8
def SYS_WRITE : Int := 9
def SYS_SEEK : Int := 10
def SYS_TELL : Int := 11
def SYS_CLOSE : Int := 12

/-- The size of `syscalls[]`. -/
def MAX_SYSCALL : Int := 20

/-- The stack limit of `page_fault`, 8 MB. -/
def MAX_STACK_SIZE : Nat := 0x800000

/-- The little-endian 32-bit word of four bytes. -/
def word32 (b₀ b₁ b₂ b₃ : UInt8) : Nat :=
  b₀.toNat + 2 ^ 8 * b₁.toNat + 2 ^ 16 * b₂.toNat + 2 ^ 24 * b₃.toNat

/-- A 32-bit word read as an `int` or `off_t`. -/
def toInt32 (w : Nat) : Int := if w < 2 ^ 31 then w else (w : Int) - 2 ^ 32

/-- What an `int` holds of `i`: the i386 keeps it modulo `2 ^ 32`, as a signed word. -/
def int32 (i : Int) : Int := toInt32 (i % 2 ^ 32).toNat

/-! ## Open files -/

/-- `struct open_file`. -/
structure OpenFile where
  fd : Int
  file : Nat
  deriving DecidableEq, Repr

/-- `struct file`. -/
structure File where
  inode : Nat
  pos : Int
  deny_write : Bool
  deriving DecidableEq, Repr

/-- A thread's `files` list and `file_fd`. -/
structure ProcFiles where
  files : List OpenFile
  file_fd : Int
  deriving DecidableEq, Repr

/-- What `init_thread` sets: no open file, and `2` after the console's descriptors. -/
def ProcFiles.init : ProcFiles := ⟨[], 2⟩

/-- `tmp->fd = t->file_fd++; tmp->file = opened; list_push_back (&t->files, &tmp->elem)`: the
record gets the counter, and the `int` counter moves on. -/
def ProcFiles.push (pf : ProcFiles) (opened : Nat) : ProcFiles :=
  ⟨pf.files ++ [⟨pf.file_fd, opened⟩], int32 (pf.file_fd + 1)⟩

/-- The kernel as the system calls see it: the VM state, each thread's open files, the
`struct file` blocks, the inodes' lengths, what has been written to the console, and the log of
the addresses read on behalf of user processes. -/
structure Kernel where
  vm : Vm
  procFiles : Tid → ProcFiles
  file_heap : Nat → Option File
  inode_length : Nat → Int
  console : List UInt8
  reads : List Nat

/-- A kernel path of the model, which keeps its state when it stops. -/
abbrev KernelM := EStateM Fault Kernel

/-- Run a VM function on the kernel's VM state. -/
def liftVm {α : Type} (f : Vm → Vm × Except Fault α) : KernelM α := fun k =>
  match f k.vm with
  | (vm, .ok a) => .ok a { k with vm }
  | (vm, .error e) => .error e { k with vm }

/-! ## Kernel-mode accesses to user memory -/

/-- A kernel-mode access to `va` for thread `t` that does not fault, and the kernel address it
reaches: `va` itself above `PHYS_BASE`; below it the entry of `va` must be present, and writable
for a write, and the processor sets its accessed bit, and for a write its dirty bit. -/
def kernelAccess (s : Vm) (t : Tid) (va : Nat) (write : Bool) : Option (Vm × Nat) :=
  if PHYS_BASE ≤ va then some (s, va)
  else
    match (s.thread t).bind (·.pagedir) with
    | none => none
    | some pd =>
      let e := pd.entry va
      if h : pd.hasTable va ∧ e.present = true ∧ (!write || e.writable) = true then
        some (s.setPagedir t (pd.write va { e with accessed := true, dirty := e.dirty || write } h.1),
          e.kpage + pg_ofs va)
      else none

/-- What the kernel-mode branch of `page_fault` uses besides the state: the `esp` of its frame,
which it takes when `current_esp` is `NULL`, and for each page the `malloc` block of
`vm_alloc_page` and the allocations of `vm_do_claim_page` when it grows the stack there. -/
structure FaultAlloc where
  esp : Nat
  block : Nat → Option SuppPage
  claim : Nat → ClaimAlloc

/-- The kernel-mode branch of `page_fault` for a fault at the user address `fault_addr`: grow
the stack when the address is within 32 bytes below `esp` and 8 MB below `PHYS_BASE`, or
`sys_exit (-1)`. -/
def page_fault_kernel (s : Vm) (t : Tid) (fault_addr : Nat) (o : FaultAlloc) :
    Vm × Except Fault Unit :=
  let esp := match (s.thread t).map (·.current_esp) with
    | some 0 | none => o.esp
    | some esp => esp
  let upage := pg_round_down fault_addr
  if ptr_sub esp 32 ≤ fault_addr ∧ fault_addr < PHYS_BASE ∧ PHYS_BASE - upage ≤ MAX_STACK_SIZE then
    match vm_alloc_page s t .VM_STACK upage true (o.block upage) with
    | (s, .ok true) =>
      if (s.page ⟨t, upage⟩).isNone then (s, .error .killed)
      else if ¬ FreshOpt s (o.claim upage).alloc.frame then (s, .error .undefined)
      else
        match vm_do_claim_page s ⟨t, upage⟩ t (o.claim upage) with
        | (s, .ok true) => (s, .ok ())
        | (s, .ok false) => (s, .error .killed)
        | (s, .error e) => (s, .error e)
    | (s, .ok false) => (s, .error .killed)
    | (s, .error e) => (s, .error e)
  else (s, .error .killed)

/-- A kernel-mode access that may fault: the fault handler runs, and when it has grown the
stack the instruction runs again. -/
def access (t : Tid) (o : FaultAlloc) (va : Nat) (write : Bool) : KernelM Nat := fun k =>
  match kernelAccess k.vm t va write with
  | some (vm, ka) => .ok ka { k with vm }
  | none =>
    match page_fault_kernel k.vm t va o with
    | (vm, .ok ()) =>
      match kernelAccess vm t va write with
      | some (vm, ka) => .ok ka { k with vm }
      | none => .error .undefined { k with vm }
    | (vm, .error e) => .error e { k with vm }

/-- A byte read of `va` on behalf of the user, logged. -/
def readByte (t : Tid) (o : FaultAlloc) (va : Nat) : KernelM UInt8 := do
  let ka ← access t o va false
  modifyGet fun k => (k.vm.mem ka, { k with reads := k.reads ++ [va] })

/-- A byte write of `va` on behalf of the user. -/
def writeByte (t : Tid) (o : FaultAlloc) (va : Nat) (b : UInt8) : KernelM Unit := do
  let ka ← access t o va true
  modify fun k => { k with vm := { k.vm with mem := Function.update k.vm.mem ka b } }

/-- `*(uint32_t *) va`. -/
def readWord (t : Tid) (o : FaultAlloc) (va : Nat) : KernelM Nat := do
  let b₀ ← readByte t o va
  let b₁ ← readByte t o (ptr_add va 1)
  let b₂ ← readByte t o (ptr_add va 2)
  let b₃ ← readByte t o (ptr_add va 3)
  return word32 b₀ b₁ b₂ b₃

/-! ## `check_ptr` and the buffer's pages -/

/-- `check_ptr (vaddr)`: `invalid_access` (`exit (-1)`) unless `vaddr` is a user address whose
page is present in the caller's directory. -/
def check_ptr (t : Tid) (vaddr : Nat) : KernelM Unit := do
  let k ← get
  if vaddr = 0 ∨ is_user_vaddr vaddr = false then throw .killed
  match (k.vm.thread t).bind (·.pagedir) with
  | none => throw .undefined
  | some pd => if (pagedir_get_page pd vaddr).isNone then throw .killed

/-- A claim with the label's allocations, whose frame must be a fresh block. -/
def freshClaim {α : Type} (o : ClaimAlloc) (f : Vm → Vm × Except Fault α) : KernelM α := do
  let k ← get
  if ¬ FreshOpt k.vm o.alloc.frame then throw .undefined
  liftVm f

/-- The loop of `preload_and_pin_pages (addr, size)` from `upage` up to `end_`, one page a
round: load the page unless it is present, and pin it. The fuel is a bound on the rounds,
above the pages of the address space. -/
def preloadLoop (t : Tid) (claim : Nat → ClaimAlloc) (end_ : Nat) : Nat → Nat → KernelM Unit
  | _, 0 => throw .undefined
  | upage, fuel + 1 => do
    if upage < end_ then
      let k ← get
      match (k.vm.thread t).bind (·.pagedir) with
      | none => throw .undefined
      | some pd =>
        if (pagedir_get_page pd upage).isNone then
          let _ ← freshClaim (claim upage) fun s => vm_load_page s t upage (claim upage)
        freshClaim (claim upage) fun s => vm_pin_page s t upage (claim upage)
        preloadLoop t claim end_ (ptr_add upage PGSIZE) fuel

/-- The loop of `unpin_preloaded_pages (addr, size)`. -/
def unpinLoop (t : Tid) (end_ : Nat) : Nat → Nat → KernelM Unit
  | _, 0 => throw .undefined
  | upage, fuel + 1 => do
    if upage < end_ then
      liftVm fun s => vm_unpin_page s t upage
      unpinLoop t end_ (ptr_add upage PGSIZE) fuel

/-- Rounds enough for every page of the address space. -/
def pageRounds : Nat := WORD_MOD / PGSIZE + 1

/-- `preload_and_pin_pages (addr, size)`. -/
def preload_and_pin_pages (t : Tid) (claim : Nat → ClaimAlloc) (addr size : Nat) :
    KernelM Unit :=
  preloadLoop t claim (ptr_add addr size) (pg_round_down addr) pageRounds

/-- `unpin_preloaded_pages (addr, size)`. -/
def unpin_preloaded_pages (t : Tid) (addr size : Nat) : KernelM Unit :=
  unpinLoop t (ptr_add addr size) (pg_round_down addr) pageRounds

/-! ## The bodies -/

/-- The decoded calls that leave this model, for `process_execute`, `process_wait` and the
reads and writes of open files. -/
inductive SysCall
  | exec (cmd_line : Nat)
  | wait (pid : Int)
  | read (fd : Int) (buffer size : Nat)
  | write (fd : Int) (buffer size : Nat)
  deriving DecidableEq, Repr

/-- How a system call ends for the caller. -/
inductive SysResult
  /-- back to user mode, with `f->eax` set or left as it was -/
  | ret (eax : Option Int)
  /-- `sys_exit (status)` -/
  | exit (status : Int)
  /-- `shutdown_power_off ()` -/
  | halt
  /-- handed to a part of the kernel outside this model -/
  | call (c : SysCall)
  deriving DecidableEq, Repr

/-- What a system call's label says: the fault handler's allocations, those of the claims of
`preload_and_pin_pages` by page, the keys `input_getc` returns in order, and what the file
system returns (`filesys_open`'s `struct file` block and its inode, whether
`filesys_create` gets a sector and then succeeds, whether `filesys_remove` succeeds), and
whether `malloc` of `sys_open` succeeds. -/
structure SysOracle where
  fault : FaultAlloc
  claim : Nat → ClaimAlloc
  input : Nat → UInt8
  fsOpen : Option (Nat × Nat)
  fsSector : Bool
  fsCreate : Bool
  fsRemove : Bool
  mallocOk : Bool

/-- `find_file (fd)`: the first open file of the caller with this descriptor. -/
def find_file (k : Kernel) (t : Tid) (fd : Int) : Option OpenFile :=
  (k.procFiles t).files.find? (·.fd = fd)

/-- The `struct file` block at `file`; reading a freed one is undefined. -/
def fileAt (file : Nat) : KernelM File := do
  match (← get).file_heap file with
  | some f => return f
  | none => throw .undefined

/-- `putbuf (buffer, n)`: the console gets the bytes read from the buffer in order. -/
def putbuf (t : Tid) (o : FaultAlloc) : Nat → Nat → KernelM Unit
  | _, 0 => pure ()
  | buffer, n + 1 => do
    let b ← readByte t o buffer
    modify fun k => { k with console := k.console ++ [b] }
    putbuf t o (ptr_add buffer 1) n

/-- `for (i = 0; i < size; i++) buffer[i] = input_getc ();` from key `i` on. -/
def getcLoop (t : Tid) (o : FaultAlloc) (input : Nat → UInt8) (buffer : Nat) (i : Nat) :
    Nat → KernelM Unit
  | 0 => pure ()
  | n + 1 => do
    writeByte t o (ptr_add buffer i) (input i)
    getcLoop t o input buffer (i + 1) n

/-- `args[i]`: check `args + i`, then read it. -/
def arg (t : Tid) (o : FaultAlloc) (esp i : Nat) : KernelM Nat :=
  readWord t o (ptr_add esp (4 * i))

/-- `sys_exec`. -/
def sys_exec (t : Tid) (esp : Nat) (o : SysOracle) : KernelM SysResult := do
  check_ptr t (ptr_add esp 4)
  let cmd_line ← arg t o.fault esp 1
  check_ptr t cmd_line
  return .call (.exec cmd_line)

/-- `sys_wait`. -/
def sys_wait (t : Tid) (esp : Nat) (o : SysOracle) : KernelM SysResult := do
  check_ptr t (ptr_add esp 4)
  let pid := toInt32 (← arg t o.fault esp 1)
  return .call (.wait pid)

/-- The checks `sys_read` and `sys_write` make on their arguments, and the preload of the
buffer: the descriptor, the buffer and the size. -/
def bufferArgs (t : Tid) (esp : Nat) (o : SysOracle) : KernelM (Int × Nat × Nat) := do
  check_ptr t (ptr_add esp 4)
  check_ptr t (ptr_add esp 8)
  check_ptr t (ptr_add esp 12)
  let fd := toInt32 (← arg t o.fault esp 1)
  let buffer ← arg t o.fault esp 2
  let size ← arg t o.fault esp 3
  check_ptr t buffer
  if size > 0 then check_ptr t (ptr_sub (ptr_add buffer size) 1)
  preload_and_pin_pages t o.claim buffer size
  return (fd, buffer, size)

/-- `sys_write`. -/
def sys_write (t : Tid) (esp : Nat) (o : SysOracle) : KernelM SysResult := do
  let (fd, buffer, size) ← bufferArgs t esp o
  if fd = 1 then
    putbuf t o.fault buffer size
    unpin_preloaded_pages t buffer size
    return .ret (some size)
  else
    match find_file (← get) t fd with
    | some _ => return .call (.write fd buffer size)
    | none =>
      unpin_preloaded_pages t buffer size
      return .ret (some 0)

/-- `sys_read`. -/
def sys_read (t : Tid) (esp : Nat) (o : SysOracle) : KernelM SysResult := do
  let (fd, buffer, size) ← bufferArgs t esp o
  if fd = 0 then
    getcLoop t o.fault o.input buffer 0 size
    unpin_preloaded_pages t buffer size
    return .ret (some size)
  else
    match find_file (← get) t fd with
    | some _ => return .call (.read fd buffer size)
    | none =>
      unpin_preloaded_pages t buffer size
      return .ret (some (-1))

/-- `filesys_create (name, initial_size)`: `inode_create` asserts `length >= 0` once a sector is
allocated. -/
def filesys_create (initial_size : Int) (o : SysOracle) : KernelM Bool := do
  if !o.fsSector then return false
  if initial_size < 0 then throw .panic
  return o.fsCreate

/-- `sys_create`. -/
def sys_create (t : Tid) (esp : Nat) (o : SysOracle) : KernelM SysResult := do
  check_ptr t (ptr_add esp 4)
  check_ptr t (ptr_add esp 8)
  let file ← arg t o.fault esp 1
  let initial_size ← arg t o.fault esp 2
  check_ptr t file
  let ok ← filesys_create (toInt32 initial_size) o
  return .ret (some (if ok then 1 else 0))

/-- `sys_remove`. -/
def sys_remove (t : Tid) (esp : Nat) (o : SysOracle) : KernelM SysResult := do
  check_ptr t (ptr_add esp 4)
  let file ← arg t o.fault esp 1
  check_ptr t file
  return .ret (some (if o.fsRemove then 1 else 0))

/-- `sys_open`. `filesys_open` returns a fresh `struct file` at position 0, and the
`open_file` record goes to the back of the list with the next descriptor. A failed `malloc`
is written through, and the fault at address 0 kills the caller. -/
def sys_open (t : Tid) (esp : Nat) (o : SysOracle) : KernelM SysResult := do
  check_ptr t (ptr_add esp 4)
  let file ← arg t o.fault esp 1
  check_ptr t file
  match o.fsOpen with
  | none => return .ret (some (-1))
  | some (opened, inode) =>
    let k ← get
    if (k.file_heap opened).isSome then throw .undefined
    set { k with file_heap := Function.update k.file_heap opened (some ⟨inode, 0, false⟩) }
    if !o.mallocOk then throw .killed
    let k ← get
    let pf := k.procFiles t
    set { k with procFiles := Function.update k.procFiles t (pf.push opened) }
    return .ret (some pf.file_fd)

/-- `sys_filesize`. -/
def sys_filesize (t : Tid) (esp : Nat) (o : SysOracle) : KernelM SysResult := do
  check_ptr t (ptr_add esp 4)
  let fd := toInt32 (← arg t o.fault esp 1)
  match find_file (← get) t fd with
  | some of => return .ret (some ((← get).inode_length (← fileAt of.file).inode))
  | none => return .ret (some (-1))

/-- `file_seek (file, new_pos)`. -/
def file_seek (file : Nat) (new_pos : Int) : KernelM Unit := do
  let f ← fileAt file
  if new_pos < 0 then throw .panic
  modify fun k =>
    { k with file_heap := Function.update k.file_heap file (some { f with pos := new_pos }) }

/-- `sys_seek`: `position` is `unsigned`, and `file_seek` takes it as an `off_t`. -/
def sys_seek (t : Tid) (esp : Nat) (o : SysOracle) : KernelM SysResult := do
  check_ptr t (ptr_add esp 4)
  check_ptr t (ptr_add esp 8)
  let fd := toInt32 (← arg t o.fault esp 1)
  let position ← arg t o.fault esp 2
  match find_file (← get) t fd with
  | some of =>
    file_seek of.file (toInt32 position)
    return .ret none
  | none => return .ret none

/-- `sys_tell`. -/
def sys_tell (t : Tid) (esp : Nat) (o : SysOracle) : KernelM SysResult := do
  check_ptr t (ptr_add esp 4)
  let fd := toInt32 (← arg t o.fault esp 1)
  match find_file (← get) t fd with
  | some of => return .ret (some (← fileAt of.file).pos)
  | none => return .ret (some (-1))

/-- `file_close (file)`: the block is freed. -/
def file_close (file : Nat) : KernelM Unit := do
  let _ ← fileAt file
  modify fun k => { k with file_heap := Function.update k.file_heap file none }

/-- `sys_close`: close the file and drop its record from the list. -/
def sys_close (t : Tid) (esp : Nat) (o : SysOracle) : KernelM SysResult := do
  check_ptr t (ptr_add esp 4)
  let fd := toInt32 (← arg t o.fault esp 1)
  match find_file (← get) t fd with
  | some of =>
    file_close of.file
    modify fun k =>
      let pf : ProcFiles := { k.procFiles t with files := (k.procFiles t).files.erase of }
      { k with procFiles := Function.update k.procFiles t pf }
    return .ret none
  | none => return .ret none

/-! ## The handler -/

/-- `syscalls[syscall_num] (f)`, for a number in `[0, MAX_SYSCALL)` other than `SYS_EXIT`; the
entries past `SYS_CLOSE` are `NULL`. -/
def dispatch (t : Tid) (esp : Nat) (syscall_num : Int) (o : SysOracle) : KernelM SysResult :=
  if syscall_num = SYS_HALT then return .halt
  else if syscall_num = SYS_EXEC then sys_exec t esp o
  else if syscall_num = SYS_WAIT then sys_wait t esp o
  else if syscall_num = SYS_CREATE then sys_create t esp o
  else if syscall_num = SYS_REMOVE then sys_remove t esp o
  else if syscall_num = SYS_OPEN then sys_open t esp o
  else if syscall_num = SYS_FILESIZE then sys_filesize t esp o
  else if syscall_num = SYS_READ then sys_read t esp o
  else if syscall_num = SYS_WRITE then sys_write t esp o
  else if syscall_num = SYS_SEEK then sys_seek t esp o
  else if syscall_num = SYS_TELL then sys_tell t esp o
  else if syscall_num = SYS_CLOSE then sys_close t esp o
  else throw .killed

/-- What `syscall_handler` does once it has read the number: reject it outside
`[0, MAX_SYSCALL)`, record `current_esp`, and run `sys_exit` or the table's entry. -/
def handleNumber (t : Tid) (esp : Nat) (syscall_num : Int) (o : SysOracle) :
    KernelM SysResult := do
  if syscall_num < 0 ∨ syscall_num ≥ MAX_SYSCALL then throw .killed
  modify fun k => { k with vm := k.vm.setThread t fun th => { th with current_esp := esp } }
  if syscall_num = SYS_EXIT then
    check_ptr t (ptr_add esp 4)
    let status := toInt32 (← readWord t o.fault (ptr_add esp 4))
    return .exit status
  dispatch t esp syscall_num o

/-- `syscall_handler (f)` for thread `t` with `f->esp = esp`. -/
def syscall_handler (t : Tid) (esp : Nat) (o : SysOracle) : KernelM SysResult := do
  check_ptr t esp
  let syscall_num := toInt32 (← readWord t o.fault esp)
  handleNumber t esp syscall_num o

/-! ## The system -/

/-- `thread_exit` of `t` for this model: `process_exit`, then each open file is closed. -/
def kernelExit (k : Kernel) (t : Tid) : Option Kernel :=
  match exitThread k.vm t with
  | (vm, .ok ()) =>
    some { k with vm, procFiles := Function.update k.procFiles t ProcFiles.init,
                      file_heap := fun a =>
                        if (k.procFiles t).files.any (·.file = a) then none else k.file_heap a }
  | _ => none

/-- The labels of the system: a step of the VM system, or a system call of `t`. -/
inductive KernelOp
  | vm (op : VmOp)
  | syscall (t : Tid) (esp : Nat) (o : SysOracle)

/-- One step of the system. A call that halts, panics, or leaves the model has no step. -/
def kernelStep (k : Kernel) : KernelOp → Option Kernel
  | .vm op =>
    (vmStep k.vm op).map fun vm =>
      match op with
      | .spawn t => { k with vm, procFiles := Function.update k.procFiles t ProcFiles.init }
      | _ => { k with vm }
  | .syscall t esp o =>
    if (k.vm.thread t).isNone then none
    else
      match syscall_handler t esp o k with
      | .ok (.ret _) k => some k
      | .ok (.exit _) k => kernelExit k t
      | .error .killed k => kernelExit k t
      | _ => none

/-- The step relation of the system. -/
def KernelStep (k : Kernel) (op : KernelOp) (k' : Kernel) : Prop := kernelStep k op = some k'

/-- Run the labels in order. -/
def kernelRun (k : Kernel) : List KernelOp → Option Kernel
  | [] => some k
  | op :: ops => (kernelStep k op).bind fun k' => kernelRun k' ops

theorem run_of_kernelRun : ∀ {k k' : Kernel} {ops : List KernelOp}, kernelRun k ops = some k' →
    Lts.Run KernelStep k ops k'
  | k, k', [], h => by
    cases h
    exact .nil k
  | k, k', op :: ops, h => by
    unfold kernelRun at h
    cases hs : kernelStep k op with
    | none => simp [hs] at h
    | some k₁ =>
      rw [hs, Option.bind_some] at h
      exact .cons hs (run_of_kernelRun h)

/-- The boot states: a booted VM, no open file, nothing printed or read. -/
def KernelInit (k : Kernel) : Prop :=
  VmInit k.vm ∧ k.procFiles = (fun _ => ProcFiles.init) ∧ k.file_heap = (fun _ => none) ∧
    k.console = [] ∧ k.reads = []

/-- The states some run of the system reaches. -/
def KernelReachable : Kernel → Prop := Lts.Reachable KernelInit KernelStep

end Pintos
