import Pintos.Userprog.Syscall

/-!
# The user-mode branch of `page_fault` (`userprog/exception.c`)

A fault from user mode at a user address whose page is not present is a stack access when it
lies within 32 bytes below the frame's `esp`, or when it lies in the top 8 MB of user memory and
the byte at `eip` is a `pusha`, a `push` of a register or a `mov` (`stackOpcodes`). A stack
access grows the stack by one page if the page is within 8 MB of `PHYS_BASE`; otherwise, or
when the growth fails, the page is looked up in the supplemental table and claimed, and a
missing page kills the process.

The opcode test makes the growth depend on the instruction: any `mov` that faults anywhere in
the top 8 MB grows the stack. `pt-grow-bad` reads 4096 bytes below `esp` with `movl`, opcode
`0x8b`, and expects `exit (-1)`; the handler grows the stack instead
(`page_fault_user_grows_below_window`). Away from such instructions the window is what decides
(`page_fault_user_kills_of_not_stack`).
-/

namespace Pintos

open Vm

/-- The opcodes `page_fault` takes for stack accesses: `pusha`, `push` of each register, and
the two forms of `mov`. -/
def stackOpcodes : List UInt8 := [0x60, 0x50, 0x51, 0x52, 0x53, 0x54, 0x55, 0x56, 0x57, 0x89, 0x8b]

/-- `user && eip && is_user_vaddr (eip) && pagedir_get_page (pagedir, eip)`, then the opcode
test on `*eip`: the read goes through the user mapping and sets its accessed bit. -/
def eipOpcode (s : Vm) (t : Tid) (eip : Nat) : Vm × Bool :=
  if eip = 0 ∨ is_user_vaddr eip = false then (s, false)
  else
    match kernelAccess s t eip false with
    | none => (s, false)
    | some (s, ka) => (s, decide (s.mem ka ∈ stackOpcodes))

/-- What the user-mode branch uses besides the state: the `malloc` block of `vm_alloc_page` for
a new stack page, the allocations of the claim that follows it, and those of the claim of a page
found in the table. -/
structure UserFaultAlloc where
  block : Option SuppPage
  grow : ClaimAlloc
  load : ClaimAlloc

/-- `vm_alloc_page (VM_STACK, upage, true)`, then `spt_find_page` and `vm_do_claim_page`;
`false` when the handler goes on to the table lookup. -/
def growStack (s : Vm) (t : Tid) (upage : Nat) (o : UserFaultAlloc) : Vm × Except Fault Bool :=
  match vm_alloc_page s t .VM_STACK upage true o.block with
  | (s, .ok true) =>
    if (s.page ⟨t, upage⟩).isNone then (s, .ok false)
    else if ¬ FreshOpt s o.grow.alloc.frame then (s, .error .undefined)
    else vm_do_claim_page s ⟨t, upage⟩ t o.grow
  | res => res

/-- The user-mode branch of `page_fault` for thread `t`, at `fault_addr`, with the frame's
`esp` and `eip`. -/
def page_fault_user (s : Vm) (t : Tid) (fault_addr : Nat) (not_present : Bool) (esp eip : Nat)
    (o : UserFaultAlloc) : Vm × Except Fault Unit :=
  if is_user_vaddr fault_addr = false ∨ not_present = false then (s, .error .killed)
  else
    let upage := pg_round_down fault_addr
    let (s, stack_access) :=
      if esp ≠ 0 ∧ ptr_sub esp 32 ≤ fault_addr ∧ fault_addr < PHYS_BASE then (s, true)
      else if PHYS_BASE - MAX_STACK_SIZE ≤ fault_addr ∧ fault_addr < PHYS_BASE then
        eipOpcode s t eip
      else (s, false)
    let grown :=
      if stack_access ∧ PHYS_BASE - upage ≤ MAX_STACK_SIZE then growStack s t upage o
      else (s, .ok false)
    match grown with
    | (s, .ok true) => (s, .ok ())
    | (s, .error e) => (s, .error e)
    | (s, .ok false) =>
      match s.page ⟨t, upage⟩ with
      | none => (s, .error .killed)
      | some _ =>
        if ¬ FreshOpt s o.load.alloc.frame then (s, .error .undefined)
        else
          match vm_do_claim_page s ⟨t, upage⟩ t o.load with
          | (s, .ok true) => (s, .ok ())
          | (s, .ok false) => (s, .error .killed)
          | (s, .error e) => (s, .error e)

/-! ## Faults outside the stack -/

/-- A kernel read of a present user page sets its accessed bit and changes no page record. -/
theorem kernelAccess_page {s s' : Vm} {t : Tid} {va ka : Nat} {write : Bool}
    (h : kernelAccess s t va write = some (s', ka)) : s'.page = s.page := by
  unfold kernelAccess at h
  split at h
  · cases h
    rfl
  split at h
  · cases h
  dsimp only at h
  split at h
  · cases h
    funext r
    exact setPagedir_page s t _ r
  · cases h

theorem eipOpcode_page (s : Vm) (t : Tid) (eip : Nat) : (eipOpcode s t eip).1.page = s.page := by
  unfold eipOpcode
  split
  · rfl
  split
  · rfl
  · rename_i heq
    exact kernelAccess_page heq

/-- A fault outside the window below `esp`, at an instruction that is not a stack access, on a
page the table does not have, kills the process. -/
theorem page_fault_user_kills_of_not_stack {s : Vm} {t : Tid} {a esp eip : Nat}
    {o : UserFaultAlloc} (hpage : s.page ⟨t, pg_round_down a⟩ = none)
    (hwin : ¬ (esp ≠ 0 ∧ ptr_sub esp 32 ≤ a ∧ a < PHYS_BASE))
    (hop : (eipOpcode s t eip).2 = false) :
    (page_fault_user s t a true esp eip o).2 = .error .killed := by
  unfold page_fault_user
  by_cases hu : is_user_vaddr a = false ∨ (true : Bool) = false
  · rw [if_pos hu]
  rw [if_neg hu, if_neg hwin]
  by_cases htop : PHYS_BASE - MAX_STACK_SIZE ≤ a ∧ a < PHYS_BASE
  · -- the top 8 MB: the opcode test fails, and the table still has no page
    rw [if_pos htop]
    rcases hread : eipOpcode s t eip with ⟨s₁, b⟩
    have hb : b = false := by rw [hread] at hop; exact hop
    have hpage₁ : s₁.page ⟨t, pg_round_down a⟩ = none := by
      rw [← hpage, ← eipOpcode_page s t eip, hread]
    subst hb
    simp [hpage₁]
  · rw [if_neg htop]
    simp [hpage]

/-! ## `pt-grow-bad` -/

/-- A three-page pool, an 8-sector swap device, and file 7 holding the instruction
`movl -4096(%esp), %eax`. -/
def growBadBoot : Vm :=
  bootVm (init_pool 0xc0280000 3 (by decide) (by decide)) (fun _ => 0) (some 8)
    (fun f => if f = 7 then [0x8b, 0x84, 0x24, 0x00, 0xf0, 0xff, 0xff] else []) (fun _ _ => 0)

/-- Thread 1's code page at `0x08048000`, read from file 7, and its first stack page, both
faulted in. -/
def growBadRun : List VmOp :=
  [.spawn 1,
   .installFilesys 1 0x08048000 7 0 7 (PGSIZE - 7) false (some 0xc0102000) true,
   .claim 1 0x08048000 ⟨⟨some 0xc0101000, true⟩, true⟩,
   .allocPage 1 .VM_STACK (PHYS_BASE - PGSIZE) true (some SuppPage.zero),
   .claim 1 (PHYS_BASE - PGSIZE) ⟨⟨some 0xc0101100, true⟩, true⟩]

def growBadPre : Vm := (vmRun growBadBoot growBadRun).getD growBadBoot

def growBadAlloc : UserFaultAlloc :=
  ⟨some SuppPage.zero, ⟨⟨some 0xc0101200, true⟩, true⟩, ⟨⟨some 0xc0101300, true⟩, true⟩⟩

/-- From boot, the `movl` at `0x08048000` reads 4096 bytes below `esp = PHYS_BASE - 16`, on a
page neither in the table nor in the window below `esp`: the handler takes the `mov` opcode for a
stack access and grows the stack there instead of killing the process. -/
theorem page_fault_user_grows_below_window : ∃ s₁ s₂ : Vm, VmReachable s₁ ∧
    s₁.page ⟨1, PHYS_BASE - 2 * PGSIZE⟩ = none ∧
    ¬ (ptr_sub (PHYS_BASE - 16) 32 ≤ PHYS_BASE - 16 - 4096) ∧
    (eipOpcode s₁ 1 0x08048000).2 = true ∧
    page_fault_user s₁ 1 (PHYS_BASE - 16 - 4096) true (PHYS_BASE - 16) 0x08048000 growBadAlloc =
      (s₂, .ok ()) ∧
    (s₂.page ⟨1, PHYS_BASE - 2 * PGSIZE⟩).map (·.type) = some .VM_STACK ∧
    s₂.present 1 (PHYS_BASE - 2 * PGSIZE) = true := by
  have hrun : vmRun growBadBoot growBadRun = some growBadPre := by rfl
  have hfault : page_fault_user growBadPre 1 (PHYS_BASE - 16 - 4096) true (PHYS_BASE - 16)
      0x08048000 growBadAlloc = ((page_fault_user growBadPre 1 (PHYS_BASE - 16 - 4096) true
        (PHYS_BASE - 16) 0x08048000 growBadAlloc).1, .ok ()) := by rfl
  exact ⟨growBadPre, _, VmReachable.of_vmRun (vmInit_bootVm _ _ _ _ _ _ _ _) hrun, by decide,
    by decide, by decide, hfault, by decide, by decide⟩

end Pintos
