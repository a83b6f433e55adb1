import Pintos.Vm.System

/-!
# Swap-slot accounting

`vm_swap_init` sets every bit of `swap_available`, and `swap_out` takes a slot by scanning for a
clear one. While every bit is set and no page is in swap, `swap_out` finds no slot and changes
nothing, `swap_in` is never reached, and no other operation of the system touches the bitmap or
puts a page in swap. So `SwapInv` holds in every reachable state (`swapInv_reachable`): the
lemmas below carry it through the call graph, from `swap_out` up to `vmStep`.

Its consequence is `swap_out_fails_of_reachable`: in every reachable state `swap_out` of any
page returns `false` and leaves the state as it was, although every slot is free by the
convention of `vm_swap_init` and `vm_swap_free`.
-/

namespace Pintos

open Vm Bitmap

/-- Every slot bit is set and no page is in swap. -/
structure SwapInv (s : Vm) : Prop where
  all_set : AllSet s.swap_available
  not_in_swap : s.AllPages (·.in_swap = false)

namespace SwapInv

variable {s : Vm}

theorem of_eq {s' : Vm} (h : SwapInv s) (hsw : s'.swap_available = s.swap_available)
    (ht : s'.threads = s.threads) : SwapInv s' :=
  ⟨hsw ▸ h.all_set, h.not_in_swap.of_threads ht⟩

theorem setThread (h : SwapInv s) (t : Tid) {f : VmThread → VmThread}
    (hspt : ∀ th, (f th).spt = th.spt) : SwapInv (s.setThread t f) :=
  ⟨h.all_set, h.not_in_swap.setThread t fun th hth => by rw [hspt]; exact hth⟩

theorem setPagedir (h : SwapInv s) (t : Tid) (pd : Pagedir) : SwapInv (s.setPagedir t pd) :=
  h.setThread t fun _ => rfl

theorem updPage (h : SwapInv s) (r : PageRef) {f : SuppPage → SuppPage}
    (hf : ∀ p, p.in_swap = false → (f p).in_swap = false) : SwapInv (s.updPage r f) :=
  ⟨h.all_set, h.not_in_swap.updPage r hf⟩

theorem updFrame (h : SwapInv s) (a : Nat) (f : Frame → Frame) : SwapInv (s.updFrame a f) :=
  h.of_eq rfl rfl

theorem setPinned (h : SwapInv s) (kva : Nat) (pinned : Bool) :
    SwapInv (Pintos.setPinned s kva pinned) :=
  h.of_eq (setPinned_swap_available _ _ _) (setPinned_threads _ _ _)

/-- A new page that is not in swap keeps the invariant. -/
theorem sptInsert (h : SwapInv s) (t : Tid) {page : SuppPage} (hp : page.in_swap = false) :
    SwapInv (Pintos.sptInsert s t page) := by
  refine ⟨h.all_set, h.not_in_swap.setThread t fun th hth q hq => ?_⟩
  cases hspt : th.spt with
  | none => simp [hspt] at hq
  | some spt =>
    simp only [hspt, Option.map_some, Option.getD_some, List.mem_cons] at hq hth
    rcases hq with rfl | hq
    · exact hp
    · exact hth q hq

/-- The page `r` is not in swap. -/
theorem page (h : SwapInv s) {r : PageRef} {p : SuppPage} (hp : s.page r = some p) :
    p.in_swap = false :=
  h.not_in_swap.page hp

end SwapInv

variable {s : Vm}

/-! ## The swap and frame operations -/

/-- Under the invariant `swap_out` changes nothing. -/
theorem swap_out_of_swapInv (h : SwapInv s) (r : PageRef) (block : Bool) :
    (swap_out s r block).1 = s := by
  cases hp : s.page r with
  | none =>
    unfold swap_out
    rw [hp]
  | some page => rw [swap_out_fails_of_all_set block hp h.all_set]

theorem swapInv_freeUserPage (h : SwapInv s) (kva : Nat) : SwapInv (freeUserPage s kva).1 := by
  unfold freeUserPage
  split
  · exact h.of_eq rfl rfl
  · exact h

theorem swapInv_vm_frame_free (h : SwapInv s) (kva : Nat) : SwapInv (vm_frame_free s kva).1 := by
  unfold vm_frame_free
  split
  · exact h
  split
  · exact h
  · apply swapInv_freeUserPage
    exact h.of_eq rfl rfl

theorem swapInv_evictContents (h : SwapInv s) (r : PageRef) (type : VmType) (block : Bool) :
    SwapInv (evictContents s r type block).1 := by
  cases type with
  | VM_ANON | VM_STACK =>
    show SwapInv (swap_out s r block).1
    rw [swap_out_of_swapInv h]
    exact h
  | VM_FILE => exact h.updPage r fun _ _ => rfl

theorem swapInv_vm_frame_allocate (h : SwapInv s) (flags : PallocFlags) (cur : Tid)
    (alloc : Alloc) : SwapInv (vm_frame_allocate s flags cur alloc).1 :=
  vm_frame_allocate_preserves SwapInv (fun _ _ _ h => h.of_eq rfl rfl)
    (fun _ h => (select_victim_spec SwapInv (fun _ _ _ _ h => h.of_eq rfl rfl)
      (fun _ _ _ h => h.setPagedir _ _) h rfl).1)
    (fun _ _ _ h => evict_frame_preserves SwapInv (fun _ _ _ h => h.setPagedir _ _)
      (fun _ _ _ _ h => swapInv_evictContents h _ _ _) (fun _ r h => h.updPage r fun _ hp => hp)
      h _ _)
    (fun _ _ h => h.of_eq rfl rfl)
    (fun _ _ _ _ h => newFrame_preserves SwapInv (fun _ _ h => swapInv_freeUserPage h _)
      (fun _ _ h => h.of_eq rfl rfl) h _ _ _)
    h flags cur alloc

/-! ## Claiming a page -/

theorem swapInv_claimLink (h : SwapInv s) (r : PageRef) (fr : Frame) (cur : Tid) :
    SwapInv (claimLink s r fr cur) := by
  unfold claimLink vm_frame_pin
  dsimp only
  refine SwapInv.updPage (SwapInv.setPinned (SwapInv.updFrame (SwapInv.updPage h r ?_) _ _) _ _) r ?_
  all_goals exact fun _ hp => hp

/-- Under the invariant `claimLoad` never reaches `swap_in`: a page it loads by type is not in
swap, so an anonymous page is left as it is. -/
theorem swapInv_claimLoad (h : SwapInv s) (r : PageRef) (kva : Nat) :
    SwapInv (claimLoad s r kva).1 := by
  unfold claimLoad
  split
  · exact h
  rename_i page hpage
  split
  · obtain ⟨mem, fp, hlazy⟩ := lazy_load_segment_frame s r page.aux
    have h₁ : SwapInv (lazy_load_segment s r page.aux).1 := by
      rw [hlazy]
      exact h.of_eq rfl rfl
    generalize lazy_load_segment s r page.aux = res at h₁ ⊢
    obtain ⟨s₁, _ | _ | _⟩ := res
    · exact h₁
    · exact h₁
    · exact h₁.updPage r fun _ hp => hp
  · exact h
  · have hswap := h.page hpage
    split
    · simp only [hswap, Bool.false_eq_true, if_false]
      exact h
    · simp only [hswap, Bool.false_eq_true, if_false]
      exact h
    · obtain ⟨mem, hread⟩ := file_read_at_frame s page.file kva page.read_bytes page.ofs
      have h₁ : SwapInv (file_read_at s page.file kva page.read_bytes page.ofs).1 := by
        rw [hread]
        exact h.of_eq rfl rfl
      generalize file_read_at s page.file kva page.read_bytes page.ofs = res at h₁ ⊢
      obtain ⟨s₁, _ | n⟩ := res
      · exact h₁
      · dsimp only
        split
        · exact h₁
        · exact h₁.of_eq rfl rfl

theorem swapInv_claimFail (h : SwapInv s) (r : PageRef) (kva : Nat) :
    SwapInv (claimFail s r kva).1 := by
  unfold claimFail
  dsimp only
  have h₀ : SwapInv ((vm_frame_unpin s kva).updPage r fun p => { p with pinned := false }) :=
    (h.setPinned kva false).updPage r fun _ hp => hp
  have h₁ := swapInv_vm_frame_free h₀ kva
  generalize vm_frame_free _ kva = res at h₁ ⊢
  obtain ⟨s₁, _ | _⟩ := res
  · exact h₁
  · exact h₁.updPage r fun _ hp => hp

theorem swapInv_claimInstall (h : SwapInv s) (r : PageRef) (kva : Nat) (cur : Tid)
    (ptPage : Bool) : SwapInv (claimInstall s r kva cur ptPage).1 := by
  unfold claimInstall
  split
  · split
    · exact h
    split
    · exact h
    · exact swapInv_claimFail h r kva
    · exact ((h.setPagedir cur _).setPinned kva false).updPage r fun _ hp => hp
  · exact h
  · exact h

theorem swapInv_vm_do_claim_page (h : SwapInv s) (r : PageRef) (cur : Tid) (o : ClaimAlloc) :
    SwapInv (vm_do_claim_page s r cur o).1 :=
  vm_do_claim_page_preserves SwapInv (fun _ _ _ h => swapInv_vm_frame_allocate h _ _ _)
    (fun _ _ _ _ h => swapInv_claimLink h _ _ _) (fun _ _ _ h => swapInv_claimLoad h _ _)
    (fun _ _ _ _ _ h => swapInv_claimInstall h _ _ _ _) (fun _ _ _ h => swapInv_claimFail h _ _)
    h r cur o

/-! ## Registering a page -/

theorem swapInv_allocPage (h : SwapInv s) (t : Tid) (upage : Nat) {page : Option SuppPage}
    (hp : ∀ p ∈ page, p.in_swap = false) : SwapInv (allocPage s t upage page).1 := by
  unfold allocPage
  split
  · exact h
  split
  · exact h
  split
  · exact h
  · rename_i p
    exact h.sptInsert t (hp p rfl)

theorem swapInv_vm_alloc_page (h : SwapInv s) (t : Tid) (type : VmType) (upage : Nat)
    (writable : Bool) (block : Option SuppPage) :
    SwapInv (vm_alloc_page s t type upage writable block).1 := by
  apply swapInv_allocPage h
  intro p hp
  obtain ⟨old, -, rfl⟩ := Option.mem_map.mp hp
  rfl

theorem swapInv_vm_supt_install_filesys (h : SwapInv s) (t : Tid)
    (upage file offset read_bytes zero_bytes : Nat) (writable : Bool) (aux : Option Nat)
    (block : Bool) :
    SwapInv (vm_supt_install_filesys s t upage file offset read_bytes zero_bytes writable aux
      block).1 := by
  unfold vm_supt_install_filesys vm_alloc_page_with_initializer
  split
  · exact h
  · dsimp only
    refine swapInv_allocPage ?_ t _ ?_
    · exact h.of_eq rfl rfl
    intro p hp
    split at hp
    · cases hp
      rfl
    · cases hp

/-! ## Exit -/

theorem swapInv_supplemental_page_table_destroy :
    ∀ {s : Vm} (pages : List SuppPage), SwapInv s →
      SwapInv (supplemental_page_table_destroy s pages).1
  | _, [], h => h
  | s, page :: rest, h => by
    unfold supplemental_page_table_destroy
    have h₁ : SwapInv (page_destroy s page).1 := by
      unfold page_destroy
      split
      · exact h
      · exact swapInv_vm_frame_free h _
    generalize page_destroy s page = res at h₁ ⊢
    obtain ⟨s₁, _ | _⟩ := res
    · exact h₁
    · exact swapInv_supplemental_page_table_destroy rest h₁

theorem swapInv_freeUserPages : ∀ {s : Vm} (ks : List Nat), SwapInv s →
    SwapInv (freeUserPages s ks).1
  | _, [], h => h
  | s, kva :: rest, h => by
    unfold freeUserPages
    have h₁ := swapInv_freeUserPage h kva
    generalize freeUserPage s kva = res at h₁ ⊢
    obtain ⟨s₁, _ | _⟩ := res
    · exact h₁
    · exact swapInv_freeUserPages rest h₁

theorem swapInv_process_exit (h : SwapInv s) (t : Tid) : SwapInv (process_exit s t).1 := by
  have h₁ : SwapInv (dropSpt s t).1 := by
    unfold dropSpt
    split
    · exact h
    · rename_i spt _
      have h₂ := swapInv_supplemental_page_table_destroy spt h
      generalize supplemental_page_table_destroy s spt = res at h₂ ⊢
      obtain ⟨s₂, _ | _⟩ := res
      · exact h₂
      · refine ⟨h₂.all_set, h₂.not_in_swap.setThread t fun _ _ p hp => ?_⟩
        simp at hp
  unfold process_exit
  generalize dropSpt s t = res at h₁ ⊢
  obtain ⟨s₁, _ | _⟩ := res
  · exact h₁
  · dsimp only
    split
    · exact h₁
    · exact swapInv_freeUserPages _ (h₁.setThread t fun _ => rfl)

theorem swapInv_exitThread (h : SwapInv s) (t : Tid) : SwapInv (exitThread s t).1 := by
  unfold exitThread
  have h₁ := swapInv_process_exit h t
  generalize process_exit s t = res at h₁ ⊢
  obtain ⟨s₁, _ | _⟩ := res
  · exact h₁
  · exact ⟨h₁.all_set, fun th hth => h₁.not_in_swap th (List.mem_filter.mp hth).1⟩

/-! ## The system -/

theorem swapInv_settle {β : Type} (t : Tid) {res : Vm × Except Fault β} {s' : Vm}
    (h : SwapInv res.1) (hs : settle t res = some s') : SwapInv s' := by
  obtain ⟨s₁, e | b⟩ := res
  · -- a killed thread exits; a panic or a bad access stops the kernel
    cases e with
    | killed =>
      have h₂ := swapInv_exitThread h t
      simp only [settle] at hs
      split at hs
      · rename_i s₂ heq
        cases hs
        rw [heq] at h₂
        exact h₂
      · cases hs
    | panic | undefined => cases hs
  · cases hs
    exact h

theorem swapInv_userAccess (h : SwapInv s) (t : Tid) (va : Nat) (write : Option UInt8) {s' : Vm}
    (hs : userAccess s t va write = some s') : SwapInv s' := by
  unfold userAccess at hs
  split at hs
  · cases hs
  dsimp only at hs
  split at hs
  · split at hs
    · exact swapInv_settle t h hs
    · split at hs
      · cases hs
        exact h.setPagedir _ _
      · cases hs
        exact (h.setPagedir _ _).of_eq rfl rfl
  · cases hs

/-- One step keeps the invariant. -/
theorem swapInv_step {s s' : Vm} {op : VmOp} (h : SwapInv s) (hs : VmStep s op s') :
    SwapInv s' := by
  unfold VmStep at hs
  cases op with
  | spawn t =>
    rw [vmStep] at hs
    split at hs
    · cases hs
    · cases hs
      refine ⟨h.all_set, fun th hth => ?_⟩
      rcases List.mem_append.mp hth with hth | hth
      · exact h.not_in_swap th hth
      · simp at hth
        subst hth
        simp
  | allocPage t type upage writable block =>
    rw [vmStep] at hs
    split at hs
    · cases hs
    · exact swapInv_settle t (swapInv_vm_alloc_page h _ _ _ _ _) hs
  | installFilesys t upage file ofs readBytes zeroBytes writable aux block =>
    rw [vmStep] at hs
    split at hs
    · cases hs
    · exact swapInv_settle t (swapInv_vm_supt_install_filesys h _ _ _ _ _ _ _ _ _) hs
  | claim t va o =>
    rw [vmStep] at hs
    split at hs
    · cases hs
    · exact swapInv_settle t (swapInv_vm_do_claim_page h _ _ _) hs
  | access t va write =>
    rw [vmStep] at hs
    split at hs
    · cases hs
    · exact swapInv_userAccess h t va write hs
  | exit t =>
    rw [vmStep] at hs
    split at hs
    · cases hs
    · exact swapInv_settle t (swapInv_exitThread h t) hs

theorem swapInv_boot (pool : Pool) (mem : Mem) (device : Option Nat) (files : Nat → List UInt8)
    (disk : Nat → PageData) : SwapInv (bootVm pool mem device files disk) := by
  refine ⟨fun i hi => ?_, fun th hth => nomatch hth⟩
  simp only [bootVm, vm_swap_init] at hi ⊢
  rw [bitmap_size_set_all] at hi
  exact bitmap_test_set_all _ true hi

/-- Every reachable state satisfies the invariant. -/
theorem swapInv_reachable {s : Vm} (hs : VmReachable s) : SwapInv s :=
  Lts.Reachable.invariant (fun ⟨_, _, _, _, _, _, hinit⟩ => hinit ▸ swapInv_boot _ _ _ _ _)
    (fun hst h => swapInv_step h hst) hs

/-- In every reachable state `swap_out` of a page takes no slot and fails. -/
theorem swap_out_fails_of_reachable {s : Vm} (hs : VmReachable s) {r : PageRef}
    {page : SuppPage} (hpage : s.page r = some page) (block : Bool) :
    swap_out s r block = (s, .ok false) :=
  swap_out_fails_of_all_set block hpage (swapInv_reachable hs).all_set

/-- One pool page and a swap partition of eight sectors: one slot. -/
def swapBoot : Vm :=
  bootVm (init_pool 0xc0280000 1 pg_ofs_example_pool one_lt_BITMAP_ERROR) (fun _ => 0) (some 8)
    (fun _ => []) (fun _ _ => 0)

/-- Thread 1's stack page, registered and faulted in. -/
def stackRun : List VmOp :=
  [.spawn 1, .allocPage 1 .VM_STACK (PHYS_BASE - PGSIZE) true (some SuppPage.zero),
   .claim 1 (PHYS_BASE - PGSIZE) ⟨⟨some 0xc0101000, true⟩, true⟩]

/-- The state with the stack page resident. -/
def stackResident : Vm := (vmRun swapBoot stackRun).getD swapBoot

/-- The stack page's record. -/
def residentStack : SuppPage := (stackResident.page ⟨1, PHYS_BASE - PGSIZE⟩).getD SuppPage.zero

theorem stackResident_reachable : VmReachable stackResident := by
  have hrun : vmRun swapBoot stackRun = some stackResident := by rfl
  exact VmReachable.of_vmRun (vmInit_bootVm _ _ _ _ _ _ _ _) hrun

theorem swap_out_fails_of_reachable_stack_page :
    VmReachable stackResident ∧ stackResident.page ⟨1, PHYS_BASE - PGSIZE⟩ = some residentStack ∧
      swap_out stackResident ⟨1, PHYS_BASE - PGSIZE⟩ true = (stackResident, .ok false) := by
  have hpage : stackResident.page ⟨1, PHYS_BASE - PGSIZE⟩ = some residentStack := by rfl
  exact ⟨stackResident_reachable, hpage,
    swap_out_fails_of_reachable stackResident_reachable hpage true⟩

/-- A reachable state with one swap slot, set as `vm_swap_init` leaves a free slot, no page in
swap, and a resident stack page that `swap_out` cannot move. -/
theorem swap_slot_accounting_fails : ∃ s r page, VmReachable s ∧ s.page r = some page ∧
    page.frame.isSome ∧ s.swap_size = 1 ∧ bitmap_test s.swap_available 0 = true ∧
    (∀ r' p', s.page r' = some p' → p'.in_swap = false) ∧ swap_out s r true = (s, .ok false) := by
  refine ⟨stackResident, ⟨1, PHYS_BASE - PGSIZE⟩, residentStack, stackResident_reachable, rfl,
    by decide, by decide, by decide,
    fun _ _ hp => (swapInv_reachable stackResident_reachable).page hp, by rfl⟩

end Pintos
