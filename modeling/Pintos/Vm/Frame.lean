import Pintos.Vm.Swap

/-!
# Victim selection, eviction and frame allocation (`vm/frame.c`)

`select_victim` is the clock loop: at most `2 * list_size (&frame_table)` steps, each reading
the frame under `clock_hand`, moving the hand to `list_next`, and returning the first frame
that is neither pinned nor accessed (an accessed one loses its bit). The hand is a frame's
address, `none` for `list_end`; a hand naming a freed frame reads freed memory. `fr->page->va`
through a frame whose `page` is `NULL` is a kernel access to an unmapped user address, which
`page_fault` turns into `exit (-1)`.

`evict_frame` unmaps the victim's page in its owner's directory and moves its contents out:
`swap_out` for `VM_ANON` and `VM_STACK`, nothing for `VM_FILE` (the write-back is a `TODO` in
the source). `vm_frame_allocate` takes a page from the user pool, or else evicts a victim and
reuses its `kva`, and appends a new frame record for it. Its `malloc` results are the fields of
`Alloc`.
-/

namespace Pintos

open Vm

/-- What the `malloc` calls under `vm_frame_allocate` return: the address of the new frame
record (`NULL` is `none`), and whether `swap_out`'s page copy gets a block. -/
structure Alloc where
  frame : Option Nat
  swapBlock : Bool
  deriving DecidableEq, Repr

namespace Vm

/-- Set thread `t`'s `pagedir`. -/
def setPagedir (s : Vm) (t : Tid) (pd : Pagedir) : Vm :=
  s.setThread t fun th => { th with pagedir := some pd }

end Vm

/-- `fr->page` and `fr->owner->pagedir`, read through the frame record for its page `r`: a freed
page or a dead owner is memory the code no longer owns, and `lookup_page` asserts that the
directory is not `NULL`. -/
def ownerMapping (s : Vm) (fr : Frame) (r : PageRef) : Except Fault (SuppPage × Pagedir) :=
  match s.page r, s.thread fr.owner with
  | some page, some th =>
    match th.pagedir with
    | none => .error .panic
    | some pd => .ok (page, pd)
  | _, _ => .error .undefined

/-- The body of `select_victim`'s loop, run `fuel` more times. -/
def victimLoop (s : Vm) : Nat → Vm × Except Fault (Option Frame)
  | 0 => (s, .ok none)
  | fuel + 1 =>
    -- `if (clock_hand == list_end (&frame_table)) clock_hand = list_begin (&frame_table)`
    match s.clock_hand <|> s.frame_table.head?.map (·.addr) with
    | none => (s, .error .undefined)
    | some a =>
      match s.frame a with
      | none => (s, .error .undefined)
      | some fr =>
        let s := { s with clock_hand := s.frame_table.nextKey (·.addr) a }
        if fr.pinned then victimLoop s fuel
        else
          match fr.page with
          | none => (s, .error .killed)
          | some r =>
            match ownerMapping s fr r with
            | .error e => (s, .error e)
            | .ok (page, pd) =>
              if pagedir_is_accessed pd page.va then
                victimLoop (s.setPagedir fr.owner (pagedir_set_accessed pd page.va false)) fuel
              else (s, .ok (some fr))

/-- `select_victim ()`. -/
def select_victim (s : Vm) : Vm × Except Fault (Option Frame) :=
  if s.frame_table.length = 0 then (s, .ok none)
  else victimLoop s (s.frame_table.length * 2)

/-- The `switch (page->type)` of `evict_frame`: where the contents of the page `r` go. -/
def evictContents (s : Vm) (r : PageRef) (type : VmType) (block : Bool) :
    Vm × Except Fault Bool :=
  match type with
  | .VM_ANON | .VM_STACK => swap_out s r block
  -- the dirty test guards an empty statement: a dirty page's bytes are dropped
  | .VM_FILE => (s.updPage r fun p => { p with in_swap := false }, .ok true)

/-- `evict_frame (victim)`. -/
def evict_frame (s : Vm) (victim : Frame) (block : Bool) : Vm × Except Fault Bool :=
  match victim.page with
  | none => (s, .error .panic)
  | some r =>
    match ownerMapping s victim r with
    | .error e => (s, .error e)
    | .ok (page, pd) =>
      match evictContents (s.setPagedir victim.owner (pagedir_clear_page pd page.va)) r
          page.type block with
      | (s, .ok true) => (s.updPage r fun p => { p with frame := none }, .ok true)
      | res => res

/-- The end of `vm_frame_allocate`: append a record for `kva` at the address `malloc` gave,
or give `kva` back to the pool when `malloc` failed. -/
def newFrame (s : Vm) (kva : Nat) (cur : Tid) (addr : Option Nat) :
    Vm × Except Fault (Option Frame) :=
  match addr with
  | none =>
    match freeUserPage s kva with
    | (s, .ok ()) => (s, .ok none)
    | (s, .error e) => (s, .error e)
  | some a =>
    let fr : Frame := ⟨a, kva, none, cur, false⟩
    ({ s with frame_table := s.frame_table ++ [fr] }, .ok (some fr))

/-- `vm_frame_allocate (flags, upage)` called by thread `cur`. `upage` is not read. -/
def vm_frame_allocate (s : Vm) (flags : PallocFlags) (cur : Tid) (alloc : Alloc) :
    Vm × Except Fault (Option Frame) :=
  if !flags.user then (s, .error .panic)
  else
    let got := palloc_get_page s.user_pool s.mem flags
    let s := { s with user_pool := got.2.1, mem := got.2.2 }
    match got.1 with
    | some kva => newFrame s kva cur alloc.frame
    | none =>
      match select_victim s with
      | (s, .ok (some victim)) =>
        match evict_frame s victim alloc.swapBlock with
        | (s, .ok true) =>
          -- `list_remove (&victim->elem); free (victim)`; the victim's page is not cleared
          newFrame { s with frame_table := s.frame_table.eraseP (·.addr = victim.addr) }
            victim.kva cur alloc.frame
        | (s, .ok false) => (s, .ok none)
        | (s, .error e) => (s, .error e)
      | (s, .ok none) => (s, .ok none)
      | (s, .error e) => (s, .error e)

/-! ## Field lemmas -/

namespace Vm

variable (s : Vm) (t : Tid) (pd : Pagedir)

@[simp] theorem setPagedir_frame_table : (s.setPagedir t pd).frame_table = s.frame_table := rfl

@[simp] theorem setPagedir_clock_hand : (s.setPagedir t pd).clock_hand = s.clock_hand := rfl

@[simp] theorem setPagedir_frameKeys : (s.setPagedir t pd).frameKeys = s.frameKeys := rfl

@[simp] theorem setPagedir_user_pool : (s.setPagedir t pd).user_pool = s.user_pool := rfl

@[simp] theorem setPagedir_swap_available :
    (s.setPagedir t pd).swap_available = s.swap_available := rfl

theorem thread_setPagedir (t' : Tid) : (s.setPagedir t pd).thread t' =
    if t' = t then (s.thread t).map (fun th => { th with pagedir := some pd }) else s.thread t' :=
  thread_setThread _ _ _ (fun _ => rfl)

@[simp] theorem setPagedir_page (r : PageRef) : (s.setPagedir t pd).page r = s.page r := by
  unfold page
  rw [thread_setPagedir]
  split
  · rename_i h
    rw [h]
    cases s.thread t <;> rfl
  · rfl

@[simp] theorem setPagedir_loaders : (s.setPagedir t pd).loaders = s.loaders := by
  funext r
  simp [loaders]

end Vm

theorem frame_addr {s : Vm} {a : Nat} {fr : Frame} (h : s.frame a = some fr) : fr.addr = a := by
  simpa using List.find?_some h

theorem frame_mem {s : Vm} {a : Nat} {fr : Frame} (h : s.frame a = some fr) :
    fr ∈ s.frame_table :=
  List.mem_of_find?_eq_some h

theorem ownerMapping_eq_ok {s : Vm} {fr : Frame} {r : PageRef} {page : SuppPage} {pd : Pagedir} :
    ownerMapping s fr r = .ok (page, pd) ↔
      s.page r = some page ∧ ∃ th, s.thread fr.owner = some th ∧ th.pagedir = some pd := by
  unfold ownerMapping
  split
  · rename_i page' th hpage hth
    split <;> simp_all
  · rename_i hne
    constructor
    · nofun
    · rintro ⟨hp, th, ht, -⟩
      exact (hne page th hp ht).elim

/-! ## The clock loop -/

section

variable (P : Vm → Prop)
  (hhand : ∀ s a fr, s.frame a = some fr → P s →
    P { s with clock_hand := s.frame_table.nextKey (·.addr) a })
  (hpd : ∀ s t pd, P s → P (s.setPagedir t pd))
include hhand hpd

/-- A property kept by moving the hand past a frame and by rewriting an owner's directory holds
when the loop stops; a frame it returns was under the hand, unpinned, with a page that was
not accessed, and the hand now names the frame after it. -/
theorem victimLoop_spec : ∀ (n : Nat) {s s' : Vm} {res : Except Fault (Option Frame)}, P s →
    victimLoop s n = (s', res) → P s' ∧ ∀ fr, res = .ok (some fr) →
      ∃ s₀ : Vm, s₀.frame fr.addr = some fr ∧ fr.pinned = false ∧
        s' = { s₀ with clock_hand := s₀.frame_table.nextKey (·.addr) fr.addr } ∧
        ∃ r page pd, fr.page = some r ∧ ownerMapping s' fr r = .ok (page, pd) ∧
          pagedir_is_accessed pd page.va = false
  | 0, s, s', res, hs, h => by
    cases h
    exact ⟨hs, by simp⟩
  | n + 1, s, s', res, hs, h => by
    unfold victimLoop at h
    split at h
    · cases h
      exact ⟨hs, by simp⟩
    rename_i a _
    split at h
    · cases h
      exact ⟨hs, by simp⟩
    rename_i fr hfr
    have hs₁ := hhand s a fr hfr hs
    dsimp only at h
    split at h
    · exact victimLoop_spec n hs₁ h
    rename_i hpin
    split at h
    · cases h
      exact ⟨hs₁, by simp⟩
    rename_i r hr
    split at h
    · cases h
      exact ⟨hs₁, by simp⟩
    rename_i page pd hmap
    split at h
    · exact victimLoop_spec n (hpd _ _ _ hs₁) h
    rename_i hacc
    cases h
    refine ⟨hs₁, fun fr' hfr' => ?_⟩
    obtain rfl : fr = fr' := by simpa using hfr'
    have ha := frame_addr hfr
    subst ha
    exact ⟨s, hfr, by simpa using hpin, rfl, r, page, pd, hr, hmap, by simpa using hacc⟩

theorem select_victim_spec {s s' : Vm} {res : Except Fault (Option Frame)} (hs : P s)
    (h : select_victim s = (s', res)) : P s' ∧ ∀ fr, res = .ok (some fr) →
      ∃ s₀ : Vm, s₀.frame fr.addr = some fr ∧ fr.pinned = false ∧
        s' = { s₀ with clock_hand := s₀.frame_table.nextKey (·.addr) fr.addr } ∧
        ∃ r page pd, fr.page = some r ∧ ownerMapping s' fr r = .ok (page, pd) ∧
          pagedir_is_accessed pd page.va = false := by
  unfold select_victim at h
  split at h
  · cases h
    exact ⟨hs, by simp⟩
  · exact victimLoop_spec P hhand hpd _ hs h

end

theorem select_victim_loaders (s : Vm) : (select_victim s).1.loaders = s.loaders :=
  (select_victim_spec (fun s' => s'.loaders = s.loaders) (fun _ _ _ _ h => h)
    (fun _ _ _ h => by simpa using h) rfl rfl).1

/-! ## Eviction -/

theorem evictContents_frameKeys (s : Vm) (r : PageRef) (type : VmType) (block : Bool) :
    (evictContents s r type block).1.frameKeys = s.frameKeys := by
  cases type <;> simp [evictContents, swap_out_frameKeys]

theorem evictContents_loaders (s : Vm) (r : PageRef) (type : VmType) (block : Bool) :
    (evictContents s r type block).1.loaders = s.loaders := by
  cases type with
  | VM_ANON | VM_STACK => exact swap_out_loaders s r block
  | VM_FILE => exact updPage_loaders _ _ (fun _ => rfl) (fun _ => rfl)

/-- A property kept by rewriting a directory, by `evictContents` and by clearing a page's frame
pointer is kept by `evict_frame`. -/
theorem evict_frame_preserves (P : Vm → Prop) (hpd : ∀ s t pd, P s → P (s.setPagedir t pd))
    (hev : ∀ s r type block, P s → P (evictContents s r type block).1)
    (hclr : ∀ s r, P s → P (s.updPage r fun p => { p with frame := none }))
    {s : Vm} (hs : P s) (victim : Frame) (block : Bool) : P (evict_frame s victim block).1 := by
  unfold evict_frame
  split
  · exact hs
  rename_i r _
  split
  · exact hs
  rename_i page pd _
  have hc := hev _ r page.type block (hpd s victim.owner (pagedir_clear_page pd page.va) hs)
  split
  · rename_i s' heq
    rw [heq] at hc
    exact hclr s' r hc
  · exact hc

/-- `evict_frame` changes no page's loader: it only clears the victim page's frame pointer. -/
theorem evict_frame_loaders (s : Vm) (victim : Frame) (block : Bool) :
    (evict_frame s victim block).1.loaders = s.loaders :=
  evict_frame_preserves (fun s' => s'.loaders = s.loaders)
    (fun _ _ _ h => (setPagedir_loaders _ _ _).trans h)
    (fun _ _ _ _ h => (evictContents_loaders _ _ _ _).trans h)
    (fun _ r h => (updPage_loaders r (fun p => { p with frame := none }) (fun _ => rfl)
      (fun _ => rfl)).trans h) rfl victim block

/-- `evict_frame` changes no frame record's place and does not move the hand. -/
theorem evict_frame_frameKeys (s : Vm) (victim : Frame) (block : Bool) :
    (evict_frame s victim block).1.frameKeys = s.frameKeys :=
  evict_frame_preserves (fun s' => s'.frameKeys = s.frameKeys) (fun _ _ _ h => h)
    (fun _ _ _ _ h => (evictContents_frameKeys _ _ _ _).trans h) (fun _ _ h => h) rfl victim block

/-- A failed `swap_out` comes after the unmapping: when `evict_frame` returns `false`, the
victim's page is absent from its owner's directory while its record, `page->frame` included, is
as it was. -/
theorem evict_frame_unmaps_of_false {s s' : Vm} {victim : Frame} {block : Bool} {r : PageRef}
    {page : SuppPage} {pd : Pagedir} (hr : victim.page = some r)
    (hm : ownerMapping s victim r = .ok (page, pd))
    (h : evict_frame s victim block = (s', .ok false)) :
    s'.page r = some page ∧
      (s'.thread victim.owner).bind (·.pagedir) = some (pagedir_clear_page pd page.va) := by
  obtain ⟨hpage, th, hth, -⟩ := ownerMapping_eq_ok.mp hm
  unfold evict_frame at h
  rw [hr] at h
  dsimp only at h
  rw [hm] at h
  dsimp only at h
  split at h
  · cases h
  have hsw : evictContents (s.setPagedir victim.owner (pagedir_clear_page pd page.va)) r
      page.type block = (s', .ok false) := h
  -- the file branch always succeeds, so `swap_out` failed after the unmapping
  have hthr : s'.threads =
      (s.setPagedir victim.owner (pagedir_clear_page pd page.va)).threads := by
    cases ht : page.type with
    | VM_FILE => simp [evictContents, ht] at hsw
    | VM_ANON => exact swap_out_threads_of_false (by simpa [evictContents, ht] using hsw)
    | VM_STACK => exact swap_out_threads_of_false (by simpa [evictContents, ht] using hsw)
  refine ⟨by rw [Vm.page_of_threads hthr, setPagedir_page, hpage], ?_⟩
  rw [Vm.thread_of_threads hthr, thread_setPagedir, if_pos rfl, hth]
  rfl

/-! ## Allocation -/

/-- A property kept by `freeUserPage` and by appending a frame record is kept by `newFrame`. -/
theorem newFrame_preserves (P : Vm → Prop) (hfree : ∀ s kva, P s → P (freeUserPage s kva).1)
    (happ : ∀ s fr, P s → P { s with frame_table := s.frame_table ++ [fr] })
    {s : Vm} (hs : P s) (kva : Nat) (cur : Tid) (addr : Option Nat) :
    P (newFrame s kva cur addr).1 := by
  cases addr with
  | none =>
    have hf := hfree s kva hs
    unfold newFrame
    generalize freeUserPage s kva = res at hf ⊢
    obtain ⟨s', _ | _⟩ := res
    all_goals exact hf
  | some a => exact happ s _ hs

theorem newFrame_loaders (s : Vm) (kva : Nat) (cur : Tid) (addr : Option Nat) :
    (newFrame s kva cur addr).1.loaders = s.loaders :=
  newFrame_preserves (fun s' => s'.loaders = s.loaders)
    (fun _ _ h => (loaders_of_threads (freeUserPage_threads _ _)).trans h)
    (fun _ _ h => (loaders_of_threads rfl).trans h) rfl kva cur addr

/-- Without a frame record `newFrame` returns no frame. -/
theorem newFrame_none_ne (s : Vm) (kva : Nat) (cur : Tid) (fr : Frame) :
    (newFrame s kva cur none).2 ≠ .ok (some fr) := by
  unfold newFrame
  dsimp only
  split <;> simp

/-- `vm_frame_allocate` when the pool has a page: no victim, and the new record gets it. -/
theorem vm_frame_allocate_of_palloc {s : Vm} {flags : PallocFlags} {cur : Tid} {alloc : Alloc}
    {kva : Nat} (hu : flags.user = true)
    (hpal : (palloc_get_page s.user_pool s.mem flags).1 = some kva) :
    vm_frame_allocate s flags cur alloc = newFrame { s with
      user_pool := (palloc_get_page s.user_pool s.mem flags).2.1,
      mem := (palloc_get_page s.user_pool s.mem flags).2.2 } kva cur alloc.frame := by
  simp [vm_frame_allocate, hu, hpal]

/-- A property kept by each stage of `vm_frame_allocate` is kept by the whole: taking a pool
page, selecting and evicting a victim, unlinking its record and making the new one. -/
theorem vm_frame_allocate_preserves (P : Vm → Prop)
    (hpool : ∀ s pool mem, P s → P { s with user_pool := pool, mem := mem })
    (hsel : ∀ s, P s → P (select_victim s).1)
    (hev : ∀ s victim block, P s → P (evict_frame s victim block).1)
    (herase : ∀ s a, P s → P { s with frame_table := s.frame_table.eraseP (·.addr = a) })
    (hnew : ∀ s kva cur addr, P s → P (newFrame s kva cur addr).1)
    {s : Vm} (hs : P s) (flags : PallocFlags) (cur : Tid) (alloc : Alloc) :
    P (vm_frame_allocate s flags cur alloc).1 := by
  unfold vm_frame_allocate
  split
  · exact hs
  dsimp only
  generalize palloc_get_page s.user_pool s.mem flags = got
  have h₀ := hpool s got.2.1 got.2.2 hs
  split
  · exact hnew _ _ _ _ h₀
  have h₁ := hsel _ h₀
  split
  · rename_i s₁ victim hs₁
    rw [hs₁] at h₁
    have h₂ := hev s₁ victim alloc.swapBlock h₁
    split
    · rename_i s₂ hs₂
      rw [hs₂] at h₂
      exact hnew _ _ _ _ (herase s₂ victim.addr h₂)
    all_goals
      rename_i hs₂
      rw [hs₂] at h₂
      exact h₂
  all_goals
    rename_i hs₁
    rw [hs₁] at h₁
    exact h₁

/-- Allocating a frame, evicting or not, changes no page's loader. -/
theorem vm_frame_allocate_loaders (s : Vm) (flags : PallocFlags) (cur : Tid) (alloc : Alloc) :
    (vm_frame_allocate s flags cur alloc).1.loaders = s.loaders :=
  vm_frame_allocate_preserves (fun s' => s'.loaders = s.loaders)
    (fun _ _ _ h => (loaders_of_threads rfl).trans h)
    (fun _ h => (select_victim_loaders _).trans h)
    (fun _ _ _ h => (evict_frame_loaders _ _ _).trans h)
    (fun _ _ h => (loaders_of_threads rfl).trans h)
    (fun _ _ _ _ h => (newFrame_loaders _ _ _ _).trans h) rfl flags cur alloc

end Pintos
