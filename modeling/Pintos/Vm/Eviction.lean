import Pintos.Vm.System

/-!
# What eviction keeps of a file page

`evict_frame` writes nothing back for a `VM_FILE` page: it clears the page's entry and its frame
pointer and leaves the bytes to be read again from the file. The only record of where a segment
page lives in which file is the `file_page` block that its initializer reads, and the first
successful load frees that block and drops the initializer (`claimLoad_lazy_loaders`), while
`page->file` keeps the `NULL` that `vm_alloc_page_with_initializer` stored.

Such a page is never loaded again. `claim_unbacked_file_page_fails`: `vm_do_claim_page` finds no
frame, or it reaches `file_read_at` on the `NULL` file and the process is killed. The run at the
end of the file plays this out from boot: a data page is loaded and written, a second page of
the segment evicts it from a one-page pool, and faulting it back in kills the process.

The frame an eviction frees is handed on as it is. A fresh anonymous or stack page reads as
zero when `palloc_get_page` gives its frame, since `PAL_ZERO` clears it and nothing before the
mapping writes it (`claim_fresh_page_zero_of_palloc`); when the pool is full, `vm_frame_allocate`
reuses `victim->kva` without clearing it, and the new page shows the victim's bytes. From
boot, a second process grows its stack into the frame of the first one's written data page
(`fresh_stack_page_reads_evicted_bytes`).
-/

namespace Pintos

open Vm

/-- A file page without initializer and without file is never brought back. -/
theorem claim_unbacked_file_page_fails {s : Vm} {r : PageRef} {page : SuppPage} (cur : Tid)
    (o : ClaimAlloc) (hpage : s.page r = some page) (htype : page.type = .VM_FILE)
    (hinit : page.initializer = none) (hfile : page.file = none) :
    (vm_do_claim_page s r cur o).2 ≠ .ok true := by
  unfold vm_do_claim_page
  rw [hpage]
  dsimp only
  split
  · simp
  have hL := vm_frame_allocate_loaders s PAL_USER_ZERO cur o.alloc
  split
  · rename_i s₁ fr heq
    rw [heq] at hL
    have hr : (claimLink s₁ r fr cur).loaders r = some (.VM_FILE, none, none) := by
      rw [claimLink_loaders, show s₁.loaders = s.loaders from hL]
      simp [loaders, hpage, htype, hinit, hfile]
    obtain ⟨p, hp, hfields⟩ := loaders_eq_some.mp hr
    simp only [Prod.mk.injEq] at hfields
    rw [claimLoad_of_unbacked fr.kva hp hfields.1 hfields.2.2 hfields.2.1]
    simp
  · simp
  · simp

/-! ## A data page lost from boot -/

/-- One pool page, memory swap, and file 7 of sixteen bytes. -/
def evictionBoot : Vm :=
  bootVm (init_pool 0xc0280000 1 pg_ofs_example_pool one_lt_BITMAP_ERROR) (fun _ => 0) none
    (fun f => if f = 7 then List.replicate 16 0x11 else []) (fun _ _ => 0)

/-- `load_segment` registers two writable pages of file 7, the first is faulted in and the
process writes `0x42` to its first byte. -/
def segmentRun : List VmOp :=
  [.spawn 1,
   .installFilesys 1 0x08048000 7 0 16 (PGSIZE - 16) true (some 0xc0102000) true,
   .installFilesys 1 0x08049000 7 0 16 (PGSIZE - 16) true (some 0xc0102100) true,
   .claim 1 0x08048000 ⟨⟨some 0xc0101000, true⟩, true⟩,
   .access 1 0x08048000 (some 0x42)]

/-- The fault on the second page, which evicts the first. -/
def evictOp : VmOp := .claim 1 0x08049000 ⟨⟨some 0xc0101100, true⟩, true⟩

/-- The fault on the first page again. -/
def reclaimOp : VmOp := .claim 1 0x08048000 ⟨⟨some 0xc0101200, true⟩, true⟩

/-- The state with the first page written. -/
def evictionPre : Vm := (vmRun evictionBoot segmentRun).getD evictionBoot

/-- The state after the eviction. -/
def evictionMid : Vm := (vmStep evictionPre evictOp).getD evictionPre

/-- The evicted page's record. -/
def evictedPage : SuppPage := (evictionMid.page ⟨1, 0x08048000⟩).getD SuppPage.zero

theorem claim_unbacked_file_page_fails_after_eviction :
    evictionMid.page ⟨1, 0x08048000⟩ = some evictedPage ∧ evictedPage.type = .VM_FILE ∧
      evictedPage.initializer = none ∧ evictedPage.file = none ∧
      (vm_do_claim_page evictionMid ⟨1, 0x08048000⟩ 1 ⟨⟨some 0xc0101200, true⟩, true⟩).2 ≠
        .ok true := by
  have hpage : evictionMid.page ⟨1, 0x08048000⟩ = some evictedPage := by rfl
  have htype : evictedPage.type = .VM_FILE := by rfl
  have hinit : evictedPage.initializer = none := by rfl
  have hfile : evictedPage.file = none := by rfl
  exact ⟨hpage, htype, hinit, hfile, claim_unbacked_file_page_fails 1 _ hpage htype hinit hfile⟩

/-- From boot, the written page is resident, the next fault evicts it, and faulting it back in
kills its process. -/
theorem file_page_lost_after_eviction : ∃ s₁ s₂ s₃ : Vm, VmReachable s₁ ∧
    s₁.present 1 0x08048000 = true ∧ s₁.mem 0xc0280000 = 0x42 ∧
    VmStep s₁ evictOp s₂ ∧ s₂.present 1 0x08048000 = false ∧
    VmStep s₂ reclaimOp s₃ ∧ s₃.thread 1 = none := by
  have hrun : vmRun evictionBoot segmentRun = some evictionPre := by rfl
  have hevict : vmStep evictionPre evictOp = some evictionMid := by rfl
  have hreclaim : vmStep evictionMid reclaimOp =
      some ((vmStep evictionMid reclaimOp).getD evictionMid) := by rfl
  refine ⟨evictionPre, evictionMid, _,
    VmReachable.of_vmRun (vmInit_bootVm _ _ _ _ _ _ _ _) hrun,
    by decide, by decide, hevict, by decide, hreclaim, by decide⟩

/-! ## A fresh page in a reused frame -/

/-- On the palloc path a fresh anonymous or stack page reads as zero: `PAL_ZERO` clears the
page, and linking, the empty load and the mapping write no memory. -/
theorem claim_fresh_page_zero_of_palloc {s s' : Vm} {r : PageRef} {page : SuppPage} {cur : Tid}
    {o : ClaimAlloc} {kva : Nat} (hpage : s.page r = some page) (htype : page.type ≠ .VM_FILE)
    (hinit : page.initializer = none) (hswap : page.in_swap = false)
    (hpal : (palloc_get_page s.user_pool s.mem PAL_USER_ZERO).1 = some kva)
    (h : vm_do_claim_page s r cur o = (s', .ok true)) :
    (∃ pd, (s'.thread cur).bind (·.pagedir) = some pd ∧ (pd.entry page.va).present = true ∧
      (pd.entry page.va).kpage = kva) ∧ ∀ i < PGSIZE, s'.mem (kva + i) = 0 := by
  unfold vm_do_claim_page at h
  rw [hpage] at h
  dsimp only at h
  split at h
  · cases h
  rw [vm_frame_allocate_of_palloc rfl hpal] at h
  have hmem := palloc_get_page_mem hpal
  rw [if_pos (show PAL_USER_ZERO.zero = true from rfl)] at hmem
  cases ha : o.alloc.frame with
  | none =>
    rw [ha] at h
    split at h
    · rename_i hnew
      exact absurd (congrArg Prod.snd hnew) (newFrame_none_ne _ _ _ _)
    all_goals simp at h
  | some a =>
    rw [ha] at h
    unfold newFrame at h
    dsimp only at h
    set s₁ : Vm := { s with
      frame_table := s.frame_table ++ [⟨a, kva, none, cur, false⟩]
      user_pool := (palloc_get_page s.user_pool s.mem PAL_USER_ZERO).2.1
      mem := (palloc_get_page s.user_pool s.mem PAL_USER_ZERO).2.2 } with hs₁
    have hpage₁ : s₁.page r = some page := hpage
    rw [claimLoad_fresh kva (claimLink_page hpage₁ _ cur) htype hinit hswap] at h
    obtain ⟨hmem', page', pd, hpage', hpd, hpresent, hkpage⟩ := claimInstall_ok h
    rw [claimLink_page hpage₁ _ cur, Option.some.injEq] at hpage'
    subst hpage'
    refine ⟨⟨pd, hpd, hpresent, hkpage⟩, fun i hi => ?_⟩
    rw [hmem', claimLink_mem, hs₁]
    dsimp only
    rw [hmem, memset_apply, if_pos ⟨Nat.le_add_right kva i, by omega⟩]

/-- Thread 1 loads a data page of file 7 into the only pool page and writes `0x42` to it;
thread 2 then registers its first stack page. -/
def growRun : List VmOp :=
  [.spawn 1,
   .installFilesys 1 0x08048000 7 0 16 (PGSIZE - 16) true (some 0xc0102000) true,
   .claim 1 0x08048000 ⟨⟨some 0xc0101000, true⟩, true⟩,
   .access 1 0x08048000 (some 0x42),
   .spawn 2, .allocPage 2 .VM_STACK (PHYS_BASE - PGSIZE) true (some SuppPage.zero)]

def growPre : Vm := (vmRun evictionBoot growRun).getD evictionBoot

/-- Thread 2's fault on its stack page. -/
def growOp : VmOp := .claim 2 (PHYS_BASE - PGSIZE) ⟨⟨some 0xc0101100, true⟩, true⟩

/-- Thread 2's stack page before the fault. -/
def freshStack : SuppPage := (growPre.page ⟨2, PHYS_BASE - PGSIZE⟩).getD SuppPage.zero

/-- From boot, thread 2's fresh stack page, faulted in while the pool is full, is mapped at the
frame of thread 1's data page and reads the byte thread 1 wrote. -/
theorem fresh_stack_page_reads_evicted_bytes : ∃ s₁ s₂ : Vm, VmReachable s₁ ∧
    s₁.page ⟨2, PHYS_BASE - PGSIZE⟩ = some freshStack ∧ freshStack.type = .VM_STACK ∧
    freshStack.initializer = none ∧ freshStack.in_swap = false ∧ freshStack.frame = none ∧
    ((s₁.thread 1).bind (·.pagedir)).map (fun pd => (pd.entry 0x08048000).kpage) =
      some 0xc0280000 ∧ s₁.mem 0xc0280000 = 0x42 ∧
    (palloc_get_page s₁.user_pool s₁.mem PAL_USER_ZERO).1 = none ∧
    VmStep s₁ growOp s₂ ∧ s₂.present 2 (PHYS_BASE - PGSIZE) = true ∧
    ((s₂.thread 2).bind (·.pagedir)).map (fun pd => (pd.entry (PHYS_BASE - PGSIZE)).kpage) =
      some 0xc0280000 ∧ s₂.mem 0xc0280000 = 0x42 := by
  have hrun : vmRun evictionBoot growRun = some growPre := by rfl
  have hgrow : vmStep growPre growOp = some ((vmStep growPre growOp).getD growPre) := by rfl
  exact ⟨growPre, _, VmReachable.of_vmRun (vmInit_bootVm _ _ _ _ _ _ _ _) hrun, rfl,
    by decide, by decide, by decide, by decide, by decide, by decide, by decide, hgrow,
    by decide, by decide, by decide⟩

end Pintos
