import Pintos.Vm.Page
import Pintos.Lib.Run

/-!
# The virtual-memory system as a transition system

The operations user processes drive the VM code with, one label each: a process starts
(`start_process` with its table and directory), registers pages (`vm_alloc_page` from
`setup_stack` and stack growth, `vm_supt_install_filesys` from `load_segment`), faults a page
in (`vm_do_claim_page` from `page_fault`, `setup_stack` and `preload_and_pin_pages`), touches
a present page from user mode, and exits (`process_exit`, then the scheduler frees the
thread).

`vmStep` is executable: it returns the next state, or `none` when the kernel stops (a
`Fault.panic` or `Fault.undefined`) or the label is not enabled. A `Fault.killed` is
`sys_exit (-1)`, which runs `process_exit` for the current thread. The oracles of a label (the
results of `malloc`) are constrained by `FreshBlock`: `malloc` returns a block outside the user
pool that no live record occupies.
-/

namespace Pintos

open Vm Bitmap

/-- `a` can be the address of a fresh `malloc` block: not `NULL`, not a page of the user pool,
and not the address of a live frame record or `file_page` block. -/
def FreshBlock (s : Vm) (a : Nat) : Prop :=
  a ≠ 0 ∧ s.user_pool.page_from_pool a = false ∧ a ∉ s.frame_table.map (·.addr) ∧
    s.file_pages a = none

instance (s : Vm) (a : Nat) : Decidable (FreshBlock s a) :=
  inferInstanceAs (Decidable (_ ∧ _ ∧ _ ∧ _))

/-- The oracle `o` returns `NULL` or a fresh block. -/
def FreshOpt (s : Vm) : Option Nat → Prop
  | none => True
  | some a => FreshBlock s a

instance (s : Vm) : (o : Option Nat) → Decidable (FreshOpt s o)
  | none => isTrue trivial
  | some a => inferInstanceAs (Decidable (FreshBlock s a))

/-- The end of `thread_exit` for thread `t`: `process_exit`, and the thread's record goes. -/
def exitThread (s : Vm) (t : Tid) : Vm × Except Fault Unit :=
  match process_exit s t with
  | (s, .ok ()) => ({ s with threads := s.threads.filter (·.tid ≠ t) }, .ok ())
  | res => res

/-- How a kernel path by thread `t` ends for the system: its state when it returns, the state
after `sys_exit (-1)` when it kills `t`, and nothing when the kernel stops. -/
def settle {β : Type} (t : Tid) : Vm × Except Fault β → Option Vm
  | (s, .ok _) => some s
  | (s, .error .killed) =>
    match exitThread s t with
    | (s, .ok ()) => some s
    | _ => none
  | (_, .error _) => none

/-- A user-mode access to `va` by thread `t` whose page is present: the processor sets the
entry's accessed bit, and for a write its dirty bit and the byte. A write to a read-only page
faults, and `page_fault` kills the process. -/
def userAccess (s : Vm) (t : Tid) (va : Nat) (write : Option UInt8) : Option Vm :=
  match (s.thread t).bind (·.pagedir) with
  | none => none
  | some pd =>
    let e := pd.entry va
    if h : pd.hasTable va ∧ e.present = true then
      if write.isSome ∧ e.writable = false then settle t (s, (.error .killed : Except Fault Unit))
      else
        let s := s.setPagedir t
          (pd.write va { e with accessed := true, dirty := e.dirty || write.isSome } h.1)
        match write with
        | none => some s
        | some b => some { s with mem := Function.update s.mem (e.kpage + pg_ofs va) b }
    else none

/-- The labels of the system. -/
inductive VmOp
  /-- a new process `t` with an empty table and directory -/
  | spawn (t : Tid)
  /-- `vm_alloc_page (type, upage, writable)` by `t`, with `malloc`'s block -/
  | allocPage (t : Tid) (type : VmType) (upage : Nat) (writable : Bool) (block : Option SuppPage)
  /-- `vm_supt_install_filesys` by `t`, with the `file_page` address and the page block -/
  | installFilesys (t : Tid) (upage file ofs readBytes zeroBytes : Nat) (writable : Bool)
      (aux : Option Nat) (block : Bool)
  /-- `vm_do_claim_page` of `t`'s page at `va`, whose entry is not present -/
  | claim (t : Tid) (va : Nat) (o : ClaimAlloc)
  /-- a user-mode read (`none`) or write of `va` by `t` -/
  | access (t : Tid) (va : Nat) (write : Option UInt8)
  /-- `t` exits -/
  | exit (t : Tid)

/-- `va`'s entry in thread `t`'s directory is present. -/
def Vm.present (s : Vm) (t : Tid) (va : Nat) : Bool :=
  match (s.thread t).bind (·.pagedir) with
  | some pd => (pd.entry va).present
  | none => false

/-- One step of the system. -/
def vmStep (s : Vm) : VmOp → Option Vm
  | .spawn t =>
    if (s.thread t).isSome then none
    else some { s with threads := s.threads ++ [⟨t, some Pagedir.empty, some [], 0⟩] }
  | .allocPage t type upage writable block =>
    if (s.thread t).isNone then none
    else settle t (vm_alloc_page s t type upage writable block)
  | .installFilesys t upage file ofs readBytes zeroBytes writable aux block =>
    if (s.thread t).isNone ∨ ¬ FreshOpt s aux then none
    else settle t (vm_supt_install_filesys s t upage file ofs readBytes zeroBytes writable aux block)
  | .claim t va o =>
    if (s.thread t).isNone ∨ s.present t va ∨ ¬ FreshOpt s o.alloc.frame then none
    else settle t (vm_do_claim_page s ⟨t, pg_round_down va⟩ t o)
  | .access t va write => if (s.thread t).isNone then none else userAccess s t va write
  | .exit t =>
    if (s.thread t).isNone then none
    else settle t (exitThread s t)

/-- The step relation of the system. -/
def VmStep (s : Vm) (op : VmOp) (s' : Vm) : Prop := vmStep s op = some s'

/-- Run the labels in order. -/
def vmRun (s : Vm) : List VmOp → Option Vm
  | [] => some s
  | op :: ops => (vmStep s op).bind fun s' => vmRun s' ops

theorem run_of_vmRun : ∀ {s t : Vm} {ops : List VmOp}, vmRun s ops = some t →
    Lts.Run VmStep s ops t
  | s, t, [], h => by
    cases h
    exact .nil s
  | s, t, op :: ops, h => by
    unfold vmRun at h
    cases hs : vmStep s op with
    | none => simp [hs] at h
    | some s' =>
      rw [hs, Option.bind_some] at h
      exact .cons hs (run_of_vmRun h)

/-! ## Exit -/

theorem thread_dropThread (s : Vm) (t : Tid) :
    ({ s with threads := s.threads.filter (·.tid ≠ t) } : Vm).thread t = none := by
  unfold Vm.thread
  apply List.find?_eq_none.mpr
  intro th hth
  simpa using (List.mem_filter.mp hth).2

/-- An exit whose table points at no frame's `kva` leaves the frame table as it was, drops the
thread, and frees every present page of its directory. -/
theorem exitThread_of_no_kva {s s' : Vm} {t : Tid} (h : exitThread s t = (s', .ok ()))
    (hkva : ∀ p ∈ ((s.thread t).bind (·.spt)).getD [], ∀ fr ∈ s.frame_table,
      p.frame ≠ some fr.kva) :
    s'.frame_table = s.frame_table ∧ s'.thread t = none ∧
      ∀ pd, (s.thread t).bind (·.pagedir) = some pd → ∀ k ∈ pd.presentPages, k ≠ 0 →
        s'.user_pool.free k := by
  obtain ⟨s₁, hdrop, hft₁, -, hpd₁⟩ := dropSpt_of_no_kva hkva
  unfold exitThread at h
  split at h
  · rename_i s₂ hexit
    cases h
    have key : s₂.frame_table = s.frame_table ∧ ∀ pd, (s.thread t).bind (·.pagedir) = some pd →
        ∀ k ∈ pd.presentPages, k ≠ 0 → s₂.user_pool.free k := by
      unfold process_exit at hexit
      rw [hdrop] at hexit
      dsimp only at hexit
      rw [← hpd₁]
      cases hpd : (s₁.thread t).bind (·.pagedir) with
      | none =>
        rw [hpd] at hexit
        cases hexit
        exact ⟨hft₁, fun _ h => nomatch h⟩
      | some pd =>
        rw [hpd] at hexit
        obtain ⟨hft, -, -, hfree⟩ := freeUserPages_ok hexit
        refine ⟨hft.trans hft₁, ?_⟩
        rintro _ ⟨⟩ k hk hne
        exact hfree k hk hne
    exact ⟨key.1, thread_dropThread s₂ t, key.2⟩
  · rename_i hne
    exact (hne s' h).elim

/-! ## Boot -/

/-- The state after `palloc_init`, `vm_frame_init` and `vm_swap_init`, before the first
process: `pool` is the user pool, `device` the swap partition's size in sectors, if there is
one, `files` the contents of the files and `disk` the swap partition's slots. -/
def bootVm (pool : Pool) (mem : Mem) (device : Option Nat) (files : Nat → List UInt8)
    (disk : Nat → PageData) : Vm :=
  vm_swap_init (vm_frame_init
    ⟨[], none, pool, mem, 0, ⟨[]⟩, false, fun _ => none, disk, fun _ => none, files, []⟩) device

/-- The user pool of the example runs starts at `0xc0280000`, on a page boundary. -/
theorem pg_ofs_example_pool : pg_ofs 0xc0280000 = 0 := by decide

theorem one_lt_BITMAP_ERROR : 1 < BITMAP_ERROR := by decide

theorem two_lt_BITMAP_ERROR : 2 < BITMAP_ERROR := by decide

/-- The boot states: every page of the user pool is free. -/
def VmInit (s : Vm) : Prop :=
  ∃ pool mem device files disk, (∀ i, bitmap_test pool.used_map i = false) ∧
    s = bootVm pool mem device files disk

/-- The states some run of the system reaches. -/
def VmReachable : Vm → Prop := Lts.Reachable VmInit VmStep

theorem vmInit_bootVm (base page_cnt : Nat) (h : pg_ofs base = 0) (hcnt : page_cnt < BITMAP_ERROR)
    (mem : Mem) (device : Option Nat) (files : Nat → List UInt8) (disk : Nat → PageData) :
    VmInit (bootVm (init_pool base page_cnt h hcnt) mem device files disk) :=
  ⟨_, _, _, _, _, init_pool_free base page_cnt h hcnt, rfl⟩

theorem VmReachable.of_vmRun {s s' : Vm} {ops : List VmOp} (hinit : VmInit s)
    (h : vmRun s ops = some s') : VmReachable s' :=
  Lts.Reachable.of_run hinit (run_of_vmRun h)

end Pintos
