import Pintos.Vm.System

/-!
# Who owns a physical frame

`FrameOwnership` ties the four structures that record a user page's frame: palloc's user pool,
the global `frame_table`, each process's supplemental table and its page directory. A pool page
is free with no frame record, or in use as the `kva` of exactly one record; a record linked to
a page is pointed back to by it, the page lives in the owner's table, and the owner is a live
process with a directory; a page's frame pointer names a record of the table.

Exit breaks it. `page_destroy` hands `vm_frame_free` the record's address where it expects a
`kva`, so no record leaves the table, while `pagedir_destroy` returns every present page to
the pool: `exit_breaks_frame_ownership` says that whenever the exiting thread holds a linked
frame, the state after its exit violates the invariant.
-/

namespace Pintos

open Vm Bitmap

/-- The frame records whose `kva` is `k`. -/
def Vm.framesAt (s : Vm) (k : Nat) : List Frame := s.frame_table.filter (·.kva = k)

/-- The ownership invariant of user frames. -/
structure FrameOwnership (s : Vm) : Prop where
  pool : ∀ idx < bitmap_size s.user_pool.used_map,
    (bitmap_test s.user_pool.used_map idx = false ∧ s.framesAt (s.user_pool.page idx) = []) ∨
    (bitmap_test s.user_pool.used_map idx = true ∧ (s.framesAt (s.user_pool.page idx)).length = 1)
  linked : ∀ fr ∈ s.frame_table, ∀ r, fr.page = some r →
    r.tid = fr.owner ∧ (∃ p, s.page r = some p ∧ p.frame = some fr.addr) ∧
      ∃ th, s.thread fr.owner = some th ∧ th.pagedir.isSome
  listed : ∀ r p a, s.page r = some p → p.frame = some a → a ∈ s.frame_table.map (·.addr)

/-- Exiting a thread that holds a frame linked to one of its pages leaves the record in the
table with a dead owner, so the state after the exit breaks the invariant. The hypothesis on
the thread's pages is that their frame pointers, heap addresses, are no frame's `kva`. -/
theorem exit_breaks_frame_ownership {s s' : Vm} {t : Tid} (h : exitThread s t = (s', .ok ()))
    (hkva : ∀ p ∈ ((s.thread t).bind (·.spt)).getD [], ∀ fr ∈ s.frame_table,
      p.frame ≠ some fr.kva)
    {fr : Frame} (hfr : fr ∈ s.frame_table) (hown : fr.owner = t) {r : PageRef}
    (hpage : fr.page = some r) : ¬ FrameOwnership s' := by
  obtain ⟨hft, hdead, -⟩ := exitThread_of_no_kva h hkva
  intro hinv
  have hfr' : fr ∈ s'.frame_table := by
    rw [hft]
    exact hfr
  obtain ⟨-, -, th, hth, -⟩ := hinv.linked fr hfr' r hpage
  rw [hown, hdead] at hth
  cases hth

/-! ## A failing run

One process, one pool page at `0xc0280000`: the process starts, registers its first stack
page (`setup_stack`), faults it in, and exits. The frame record at heap address `0xc0101000`
stays in the table with its page freed.
-/

/-- Boot with a one-page user pool. -/
def ownershipBoot : Vm :=
  bootVm (init_pool 0xc0280000 1 pg_ofs_example_pool one_lt_BITMAP_ERROR) (fun _ => 0) none
    (fun _ => []) (fun _ _ => 0)

/-- Start thread 1, register its stack page and fault it in. -/
def ownershipRun : List VmOp :=
  [.spawn 1, .allocPage 1 .VM_STACK (PHYS_BASE - PGSIZE) true (some SuppPage.zero),
   .claim 1 (PHYS_BASE - PGSIZE) ⟨⟨some 0xc0101000, true⟩, true⟩]

/-- The state before the exit. -/
def ownershipPre : Vm := (vmRun ownershipBoot ownershipRun).getD ownershipBoot

/-- The frame of the stack page. -/
def stackFrame : Frame := ⟨0xc0101000, 0xc0280000, some ⟨1, PHYS_BASE - PGSIZE⟩, 1, false⟩

theorem exit_breaks_frame_ownership_of_stack_page :
    exitThread ownershipPre 1 = ((exitThread ownershipPre 1).1, .ok ()) ∧
      (∀ p ∈ ((ownershipPre.thread 1).bind (·.spt)).getD [], ∀ fr ∈ ownershipPre.frame_table,
        p.frame ≠ some fr.kva) ∧
      stackFrame ∈ ownershipPre.frame_table ∧ stackFrame.owner = 1 ∧
      stackFrame.page = some ⟨1, PHYS_BASE - PGSIZE⟩ ∧
      ¬ FrameOwnership (exitThread ownershipPre 1).1 := by
  have h : exitThread ownershipPre 1 = ((exitThread ownershipPre 1).1, .ok ()) := by rfl
  have hkva : ∀ p ∈ ((ownershipPre.thread 1).bind (·.spt)).getD [],
      ∀ fr ∈ ownershipPre.frame_table, p.frame ≠ some fr.kva := by decide
  have hfr : stackFrame ∈ ownershipPre.frame_table := by decide
  exact ⟨h, hkva, hfr, rfl, rfl, exit_breaks_frame_ownership h hkva hfr rfl rfl⟩

/-- The state after the exit is reachable, and there the stack page is free in the pool while
it is still the `kva` of a frame record. -/
theorem frame_ownership_fails : ∃ s, VmReachable s ∧ ¬ FrameOwnership s := by
  have hrun : vmRun ownershipBoot (ownershipRun ++ [.exit 1]) =
      some ((vmRun ownershipBoot (ownershipRun ++ [.exit 1])).getD ownershipBoot) := by rfl
  refine ⟨_, VmReachable.of_vmRun (vmInit_bootVm _ _ _ _ _ _ _ _) hrun, fun hinv => ?_⟩
  rcases hinv.pool 0 (by decide) with ⟨-, hnone⟩ | ⟨hused, -⟩
  · exact absurd hnone (by decide)
  · exact absurd hused (by decide)

end Pintos
