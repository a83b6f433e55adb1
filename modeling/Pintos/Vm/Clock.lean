import Pintos.Vm.System

/-!
# The clock hand and the frames `select_victim` examines (`vm/frame.c`)

`HandOk` is the representation invariant of the hand: the frame records have distinct
addresses, and `clock_hand` is `list_end` or the element of a record in the table.
`vm_frame_init`, `select_victim` and `vm_frame_allocate` keep it, eviction included, because
`select_victim` moves the hand past the victim before `vm_frame_allocate` unlinks it
(`HandOk.vm_frame_allocate`). `vm_frame_free` keeps it only when the record it removes is not
the one under the hand; when it is, the hand dangles and the next `select_victim` reads the
freed record (`vm_frame_free_leaves_hand_dangling`).

`vm_frame_allocate` also publishes its new record at the back of the table with `page == NULL`
and `pinned == false`, and its caller links and pins it only after the frame lock is released.
A second allocation that runs in between and has to evict walks the hand to that record, past
pinned ones, and dereferences its `NULL` page
(`vm_frame_allocate_exposes_unlinked_frame`).
-/

namespace Pintos

open Vm

/-- The frame records have distinct addresses, and the hand is at `list_end` or names one. -/
structure HandOk (s : Vm) : Prop where
  nodup : (s.frame_table.map (·.addr)).Nodup
  valid : List.CursorValid (·.addr) s.frame_table s.clock_hand

instance (s : Vm) : Decidable (HandOk s) :=
  decidable_of_iff (_ ∧ _) ⟨fun ⟨h₁, h₂⟩ => ⟨h₁, h₂⟩, fun ⟨h₁, h₂⟩ => ⟨h₁, h₂⟩⟩

namespace HandOk

variable {s : Vm}

/-- The invariant reads the addresses and the hand only. -/
theorem of_frameKeys {s' : Vm} (hs : HandOk s) (h : s'.frameKeys = s.frameKeys) : HandOk s' := by
  simp only [frameKeys, Prod.mk.injEq] at h
  obtain ⟨hmap, hhand⟩ := h
  refine ⟨hmap ▸ hs.nodup, ?_⟩
  rw [hhand]
  exact hs.valid.of_map_eq hmap

theorem init (s : Vm) : HandOk (vm_frame_init s) := ⟨List.nodup_nil, trivial⟩

/-- `clock_hand = list_next (clock_hand)` lands on a record or at the end. -/
theorem moveHand (hs : HandOk s) (a : Nat) :
    HandOk { s with clock_hand := s.frame_table.nextKey (·.addr) a } :=
  ⟨hs.nodup, List.nextKey_valid _ a⟩

/-- `list_remove` of a record that is not under the hand. -/
theorem erase (hs : HandOk s) {a : Nat} (hne : s.clock_hand ≠ some a) :
    HandOk { s with frame_table := s.frame_table.eraseP (·.addr = a) } := by
  refine ⟨(List.eraseP_sublist.map _).nodup hs.nodup, ?_⟩
  cases hc : s.clock_hand with
  | none => trivial
  | some k =>
    have hv := hs.valid
    rw [hc] at hv
    show List.CursorValid _ (s.frame_table.eraseP _) (some k)
    refine hv.eraseP_of_find? fun fr hfr hk => hne ?_
    rw [hc, ← hk]
    simpa using (List.find?_some hfr).symm

/-- `list_push_back` of a record at a fresh address. -/
theorem append (hs : HandOk s) {fr : Frame} (hfresh : fr.addr ∉ s.frame_table.map (·.addr)) :
    HandOk { s with frame_table := s.frame_table ++ [fr] } := by
  refine ⟨?_, hs.valid.append _⟩
  rw [List.map_append, List.nodup_append]
  refine ⟨hs.nodup, List.nodup_singleton _, ?_⟩
  intro a ha b hb hab
  rw [List.map_singleton, List.mem_singleton] at hb
  rw [hab, hb] at ha
  exact hfresh ha

theorem freeUserPage (hs : HandOk s) (kva : Nat) : HandOk (Pintos.freeUserPage s kva).1 := by
  unfold Pintos.freeUserPage
  split
  · exact hs.of_frameKeys rfl
  · exact hs

theorem newFrame (hs : HandOk s) {kva : Nat} {cur : Tid} {addr : Option Nat}
    (hfresh : ∀ a, addr = some a → a ∉ s.frame_table.map (·.addr)) :
    HandOk (Pintos.newFrame s kva cur addr).1 := by
  cases addr with
  | none =>
    have hf := hs.freeUserPage kva
    unfold Pintos.newFrame
    generalize Pintos.freeUserPage s kva = res at hf ⊢
    obtain ⟨s', _ | _⟩ := res
    all_goals exact hf
  | some a => exact hs.append (hfresh a rfl)

theorem select_victim (hs : HandOk s) : HandOk (Pintos.select_victim s).1 :=
  (select_victim_spec HandOk (fun _ a _ _ h => h.moveHand a)
    (fun _ t pd h => h.of_frameKeys (setPagedir_frameKeys _ t pd)) hs rfl).1

/-- The victim `select_victim` returns is no longer under the hand, and the table is as it was. -/
theorem select_victim_victim (hs : HandOk s) {s' : Vm} {fr : Frame}
    (h : Pintos.select_victim s = (s', .ok (some fr))) :
    s'.clock_hand ≠ some fr.addr ∧ s'.frame_table = s.frame_table := by
  have hspec := select_victim_spec (fun s' => HandOk s' ∧ s'.frame_table = s.frame_table)
    (fun _ a _ _ h => ⟨h.1.moveHand a, h.2⟩)
    (fun _ t pd h => ⟨h.1.of_frameKeys (setPagedir_frameKeys _ t pd), h.2⟩) ⟨hs, rfl⟩ h
  obtain ⟨⟨hs', htab⟩, hvictim⟩ := hspec
  obtain ⟨s₀, -, -, rfl, -⟩ := hvictim fr rfl
  exact ⟨List.nextKey_ne hs'.nodup, htab⟩

/-- `vm_frame_allocate`, with a fresh block for the new record, keeps the hand valid on both of
its paths. -/
theorem vm_frame_allocate (hs : HandOk s) {flags : PallocFlags} {cur : Tid} {alloc : Alloc}
    (hfresh : FreshOpt s alloc.frame) : HandOk (Pintos.vm_frame_allocate s flags cur alloc).1 := by
  have hfresh' : ∀ a, alloc.frame = some a → a ∉ s.frame_table.map (·.addr) := by
    intro a ha
    rw [ha] at hfresh
    exact hfresh.2.2.1
  unfold Pintos.vm_frame_allocate
  split
  · exact hs
  dsimp only
  generalize palloc_get_page s.user_pool s.mem flags = got
  have h₀ : HandOk { s with user_pool := got.2.1, mem := got.2.2 } := hs.of_frameKeys rfl
  split
  · exact h₀.newFrame hfresh'
  split
  · rename_i s₁ victim hs₁
    have ⟨hne, htab⟩ := h₀.select_victim_victim hs₁
    have h₁ : HandOk s₁ := by simpa [hs₁] using h₀.select_victim
    have hkeys := evict_frame_frameKeys s₁ victim alloc.swapBlock
    split
    · -- the victim is unlinked; the new record's block is fresh for the shorter table
      rename_i s₂ hs₂
      rw [hs₂] at hkeys
      have h₂ : HandOk s₂ := h₁.of_frameKeys hkeys
      simp only [frameKeys, Prod.mk.injEq] at hkeys
      have hne₂ : s₂.clock_hand ≠ some victim.addr := hkeys.2 ▸ hne
      refine (h₂.erase hne₂).newFrame fun a ha hmem => hfresh' a ha ?_
      have hsub := (List.eraseP_sublist (p := fun f : Frame => decide (f.addr = victim.addr))
        (l := s₂.frame_table)).map (·.addr)
      rw [hkeys.1, htab] at hsub
      exact hsub.subset hmem
    all_goals
      rename_i hs₂
      rw [hs₂] at hkeys
      exact h₁.of_frameKeys hkeys
  all_goals
    rename_i hs₁
    simpa [hs₁] using h₀.select_victim

/-- `vm_frame_free` keeps the hand valid when the record it removes is not under the hand. -/
theorem vm_frame_free (hs : HandOk s) {kva : Nat}
    (hhand : ∀ fr, s.frame_table.find? (·.kva = kva) = some fr → s.clock_hand ≠ some fr.addr) :
    HandOk (Pintos.vm_frame_free s kva).1 := by
  rcases hfree : Pintos.vm_frame_free s kva with ⟨s', r⟩
  show HandOk s'
  have htab := vm_frame_free_frame_table hfree
  have hhand' := vm_frame_free_clock_hand hfree
  refine ⟨?_, ?_⟩
  · rw [htab]
    split
    · exact hs.nodup
    · exact (List.eraseP_sublist.map _).nodup hs.nodup
  · rw [htab, hhand']
    split
    · exact hs.valid
    · cases hc : s.clock_hand with
      | none => trivial
      | some k =>
        have hv := hs.valid
        rw [hc] at hv hhand
        exact hv.eraseP_of_find? fun fr hfr hk => hhand fr hfr (by rw [hk])

end HandOk

/-- In a table with distinct addresses, the lookup of a record's address finds it. -/
theorem frame_of_mem {s : Vm} {f : Frame} (hnd : (s.frame_table.map (·.addr)).Nodup)
    (hf : f ∈ s.frame_table) : s.frame f.addr = some f :=
  List.find?_key_of_mem hnd hf

/-! ## The frame under the hand -/

/-- `victimLoop` of a hand that names no record reads the freed record. -/
theorem victimLoop_of_dangling {s : Vm} {a n : Nat} (hhand : s.clock_hand = some a)
    (hnone : s.frame a = none) : victimLoop s (n + 1) = (s, .error .undefined) := by
  unfold victimLoop
  simp [hhand, hnone]

/-- `vm_frame_free` of the record under the hand unlinks it and leaves the hand where it was:
the hand names no record, and the next `select_victim` reads the freed one. -/
theorem vm_frame_free_leaves_hand_dangling {s : Vm} {kva : Nat} {fr : Frame} (hs : HandOk s)
    (hk : kva ≠ 0) (hfind : s.frame_table.find? (·.kva = kva) = some fr)
    (hhand : s.clock_hand = some fr.addr) :
    ¬ HandOk (vm_frame_free s kva).1 ∧ ((vm_frame_free s kva).1.frame_table ≠ [] →
      select_victim (vm_frame_free s kva).1 = ((vm_frame_free s kva).1, .error .undefined)) := by
  rcases hfree : vm_frame_free s kva with ⟨s', r⟩
  show ¬ HandOk s' ∧ (s'.frame_table ≠ [] → select_victim s' = (s', .error .undefined))
  have htab := vm_frame_free_frame_table hfree
  rw [if_neg hk] at htab
  have hhand' : s'.clock_hand = some fr.addr := (vm_frame_free_clock_hand hfree).trans hhand
  have hinvalid : ¬ List.CursorValid (·.addr) s'.frame_table s'.clock_hand := by
    rw [htab, hhand']
    exact List.not_cursorValid_eraseP hs.nodup hfind rfl
  refine ⟨fun h => hinvalid h.valid, fun hne => ?_⟩
  have hnone : s'.frame fr.addr = none := by
    unfold Vm.frame
    rw [List.find?_eq_none]
    intro f hf hfa
    exact hinvalid (hhand' ▸ ⟨f, hf, by simpa using hfa⟩)
  have hlen : s'.frame_table.length * 2 = (s'.frame_table.length * 2 - 1) + 1 := by
    have := List.length_pos_of_ne_nil hne
    omega
  unfold select_victim
  rw [if_neg (by simpa using hne), hlen]
  exact victimLoop_of_dangling hhand' hnone

/-- A user pool of two pages. -/
def handBoot : Vm :=
  bootVm (init_pool 0xc0280000 2 pg_ofs_example_pool two_lt_BITMAP_ERROR) (fun _ => 0) (some 8)
    (fun _ => []) (fun _ _ => 0)

/-- Threads 1 and 2 fault in their stack pages, which fills the pool; thread 1 then faults on
an anonymous page, and `select_victim` takes thread 1's stack frame and leaves the hand on
thread 2's, but `swap_out` finds no slot and the claim fails. -/
def handRun : List VmOp :=
  [.spawn 1, .allocPage 1 .VM_STACK (PHYS_BASE - PGSIZE) true (some SuppPage.zero),
   .claim 1 (PHYS_BASE - PGSIZE) ⟨⟨some 0xc0101000, true⟩, true⟩,
   .spawn 2, .allocPage 2 .VM_STACK (PHYS_BASE - PGSIZE) true (some SuppPage.zero),
   .claim 2 (PHYS_BASE - PGSIZE) ⟨⟨some 0xc0102000, true⟩, true⟩,
   .allocPage 1 .VM_ANON 0x08048000 true (some SuppPage.zero),
   .claim 1 0x08048000 ⟨⟨some 0xc0101100, true⟩, true⟩]

def handPre : Vm := (vmRun handBoot handRun).getD handBoot

/-- Thread 2's stack frame, under the hand in `handPre`. -/
def handFrame : Frame := ⟨0xc0102000, 0xc0281000, some ⟨2, PHYS_BASE - PGSIZE⟩, 2, false⟩

theorem vm_frame_free_leaves_hand_dangling_at_hand :
    (HandOk handPre ∧ (0xc0281000 : Nat) ≠ 0 ∧
      handPre.frame_table.find? (·.kva = 0xc0281000) = some handFrame ∧
      handPre.clock_hand = some handFrame.addr) ∧
    ¬ HandOk (vm_frame_free handPre 0xc0281000).1 ∧
      ((vm_frame_free handPre 0xc0281000).1.frame_table ≠ [] →
        select_victim (vm_frame_free handPre 0xc0281000).1 =
          ((vm_frame_free handPre 0xc0281000).1, .error .undefined)) :=
  ⟨⟨by decide, by decide, rfl, rfl⟩,
    vm_frame_free_leaves_hand_dangling (by decide) (by decide) rfl rfl⟩

/-- Thread 2 exits: `page_destroy` passes the record's address to `vm_frame_free`, which finds
no frame with that `kva`, so the record stays under the hand while its page goes back to the
pool. Thread 1 faults on its anonymous page again, gets that page, and `pagedir_set_page` finds
no page for the page table; the cleanup's `vm_frame_free (kva)` removes the first record with
this `kva`, the one under the hand. -/
def handDangling : Vm :=
  (vmRun handPre [.exit 2, .claim 1 0x08048000 ⟨⟨some 0xc0103000, true⟩, false⟩]).getD handPre

theorem clock_hand_dangles_after_failed_claim : VmReachable handDangling ∧
    ¬ HandOk handDangling ∧ select_victim handDangling = (handDangling, .error .undefined) := by
  have hrun : vmRun handBoot (handRun ++ [.exit 2, .claim 1 0x08048000
      ⟨⟨some 0xc0103000, true⟩, false⟩]) = some handDangling := by rfl
  exact ⟨VmReachable.of_vmRun (vmInit_bootVm _ _ _ _ _ _ _ _) hrun, by decide, rfl⟩

/-! ## A record that is not linked yet -/

/-- `vm_frame_allocate`'s new record: at the back of the table, with no page and not pinned. -/
theorem newFrame_ok {s s₁ : Vm} {kva : Nat} {cur : Tid} {addr : Option Nat} {fr : Frame}
    (h : newFrame s kva cur addr = (s₁, .ok (some fr))) :
    s₁ = { s with frame_table := s.frame_table ++ [fr] } ∧ fr.page = none ∧ fr.pinned = false ∧
      addr = some fr.addr := by
  cases addr with
  | none =>
    unfold newFrame at h
    generalize freeUserPage s kva = res at h
    obtain ⟨s', _ | _⟩ := res <;> cases h
  | some a =>
    unfold newFrame at h
    cases h
    exact ⟨rfl, rfl, rfl, rfl⟩

/-- With every record pinned, `select_victim` returns no victim. -/
theorem select_victim_of_pinned {s s' : Vm} {v : Frame} (h : select_victim s = (s', .ok (some v)))
    (hpin : ∀ f ∈ s.frame_table, f.pinned = true) : False := by
  obtain ⟨htab, hvictim⟩ := select_victim_spec (fun s' => s'.frame_table = s.frame_table)
    (fun _ _ _ _ h => h) (fun _ _ _ h => h) rfl h
  obtain ⟨s₀, hfr, hvpin, rfl, -⟩ := hvictim v rfl
  have hmem : v ∈ s.frame_table := htab ▸ frame_mem hfr
  rw [hpin v hmem] at hvpin
  cases hvpin

/-- With every record pinned, a frame `vm_frame_allocate` returns comes from the pool and is
published unlinked and unpinned at the back of the table. -/
theorem vm_frame_allocate_of_pinned {s s₁ : Vm} {flags : PallocFlags} {cur : Tid} {alloc : Alloc}
    {fr : Frame} (hpin : ∀ f ∈ s.frame_table, f.pinned = true)
    (h : vm_frame_allocate s flags cur alloc = (s₁, .ok (some fr))) :
    (∃ pool mem, s₁ = { s with user_pool := pool, mem := mem, frame_table := s.frame_table ++ [fr] }) ∧
      fr.page = none ∧ fr.pinned = false ∧ alloc.frame = some fr.addr := by
  unfold vm_frame_allocate at h
  split at h
  · cases h
  dsimp only at h
  split at h
  · obtain ⟨rfl, hpage, hfpin, haddr⟩ := newFrame_ok h
    exact ⟨⟨_, _, rfl⟩, hpage, hfpin, haddr⟩
  split at h
  · rename_i hsel
    exact (select_victim_of_pinned hsel hpin).elim
  all_goals cases h

/-- A pinned record passes: the hand moves to the next one. -/
theorem victimLoop_pinned {s : Vm} {a n : Nat} {fr : Frame}
    (hpos : (s.clock_hand <|> s.frame_table.head?.map (·.addr)) = some a)
    (hfr : s.frame a = some fr) (hpin : fr.pinned = true) :
    victimLoop s (n + 1) = victimLoop { s with clock_hand := s.frame_table.nextKey (·.addr) a } n := by
  rw [victimLoop.eq_2, hpos]
  simp [hfr, hpin]

/-- An unpinned record with no page: `fr->page->va` dereferences `NULL`. -/
theorem victimLoop_unlinked {s : Vm} {a n : Nat} {fr : Frame}
    (hpos : (s.clock_hand <|> s.frame_table.head?.map (·.addr)) = some a)
    (hfr : s.frame a = some fr) (hpin : fr.pinned = false) (hpage : fr.page = none) :
    victimLoop s (n + 1) =
      ({ s with clock_hand := s.frame_table.nextKey (·.addr) a }, .error .killed) := by
  rw [victimLoop.eq_2, hpos]
  simp [hfr, hpin, hpage]

section Walk

variable {pre : List Frame} {fr : Frame} (hnd : ((pre ++ [fr]).map (·.addr)).Nodup)
include hnd

/-- The first record `select_victim` examines is the head of a suffix `suf ++ [fr]` of the
table: at `list_end` the whole table, else the record under the hand. -/
theorem handPos_suffix {s : Vm} (hs : HandOk s) (htab : s.frame_table = pre ++ [fr]) :
    ∃ suf, (∃ pre₀, pre = pre₀ ++ suf) ∧
      (s.clock_hand <|> s.frame_table.head?.map (·.addr)) = (suf ++ [fr]).head?.map (·.addr) := by
  have hv := hs.valid
  cases hc : s.clock_hand with
  | none => exact ⟨pre, ⟨[], rfl⟩, by simp [htab]⟩
  | some k =>
    rw [hc, htab] at hv
    obtain ⟨g, hg, rfl⟩ := hv
    rcases List.mem_append.mp hg with hg | hg
    · obtain ⟨pre₀, suf, rfl⟩ := List.append_of_mem hg
      exact ⟨g :: suf, ⟨pre₀, rfl⟩, rfl⟩
    · rw [List.mem_singleton.mp hg]
      exact ⟨[], ⟨pre, by simp⟩, rfl⟩

/-- From the head of `suf ++ [fr]`, a walk past the pinned records of `suf` reaches `fr`, which
is unpinned and has no page: the loop stops on the `NULL` dereference within `|suf| + 1` steps. -/
theorem victimLoop_reaches_unlinked (hpin : ∀ f ∈ pre, f.pinned = true)
    (hfpin : fr.pinned = false) (hpage : fr.page = none) :
    ∀ (suf : List Frame) {n : Nat} {s : Vm}, s.frame_table = pre ++ [fr] →
      (∃ pre₀, pre = pre₀ ++ suf) →
      (s.clock_hand <|> s.frame_table.head?.map (·.addr)) = (suf ++ [fr]).head?.map (·.addr) →
      suf.length < n → ∃ s', victimLoop s n = (s', .error .killed)
  | [], n + 1, s, htab, _, hpos, _ => by
    have hfr : s.frame fr.addr = some fr := frame_of_mem (htab ▸ hnd) (by simp [htab])
    exact ⟨_, victimLoop_unlinked hpos hfr hfpin hpage⟩
  | f :: suf, n + 1, s, htab, ⟨pre₀, hpre⟩, hpos, hn => by
    have hmem : f ∈ pre := by simp [hpre]
    have hfr : s.frame f.addr = some f := frame_of_mem (htab ▸ hnd) (by simp [htab, hmem])
    -- distinct addresses: `f` is the first record with its address, so the hand moves to the
    -- record after it
    have hfirst : ∀ b ∈ pre₀, b.addr ≠ f.addr := by
      intro b hb hbf
      rw [hpre, List.append_assoc, List.cons_append, List.map_append, List.map_cons,
        List.nodup_append] at hnd
      exact hnd.2.2 _ (List.mem_map_of_mem hb) _ List.mem_cons_self hbf
    have hnext : s.frame_table.nextKey (·.addr) f.addr = (suf ++ [fr]).head?.map (·.addr) := by
      rw [htab, hpre, List.append_assoc, List.cons_append]
      exact List.nextKey_append_cons f _ hfirst
    rw [victimLoop_pinned hpos hfr (hpin f hmem)]
    refine victimLoop_reaches_unlinked hpin hfpin hpage suf htab ⟨pre₀ ++ [f], by simp [hpre]⟩
      ?_ (by simp at hn; omega)
    show (s.frame_table.nextKey (·.addr) f.addr <|> _) = _
    rw [hnext]
    cases suf <;> rfl

end Walk

/-- An allocation that finds the pool empty, in a table whose last record is unlinked and
unpinned behind pinned ones, dereferences that record's `NULL` page in `select_victim`. -/
theorem vm_frame_allocate_kills_of_unlinked {s : Vm} {pre : List Frame} {fr : Frame}
    {flags : PallocFlags} {cur : Tid} {alloc : Alloc} (hs : HandOk s)
    (htab : s.frame_table = pre ++ [fr]) (hpin : ∀ f ∈ pre, f.pinned = true)
    (hfpin : fr.pinned = false) (hpage : fr.page = none) (huser : flags.user = true)
    (hfull : (palloc_get_page s.user_pool s.mem flags).1 = none) :
    ∃ s₂, vm_frame_allocate s flags cur alloc = (s₂, .error .killed) := by
  set got := palloc_get_page s.user_pool s.mem flags
  have hs' : HandOk { s with user_pool := got.2.1, mem := got.2.2 } := hs.of_frameKeys rfl
  have hnd : ((pre ++ [fr]).map (·.addr)).Nodup := htab ▸ hs.nodup
  have htab' : ({ s with user_pool := got.2.1, mem := got.2.2 } : Vm).frame_table = pre ++ [fr] :=
    htab
  obtain ⟨suf, hsuf, hpos⟩ := handPos_suffix hnd hs' htab'
  have hlen : suf.length < (pre ++ [fr]).length * 2 := by
    obtain ⟨pre₀, hpre⟩ := hsuf
    have : suf.length ≤ pre.length := by rw [hpre, List.length_append]; omega
    simp
    omega
  obtain ⟨s₂, hloop⟩ := victimLoop_reaches_unlinked hnd hpin hfpin hpage suf htab' hsuf hpos hlen
  have hsel : select_victim { s with user_pool := got.2.1, mem := got.2.2 } = (s₂, .error .killed) := by
    unfold select_victim
    rw [if_neg (by simp [htab])]
    dsimp only
    rw [show s.frame_table.length = (pre ++ [fr]).length by rw [htab]]
    exact hloop
  refine ⟨s₂, ?_⟩
  unfold vm_frame_allocate
  simp only [huser, Bool.not_true, Bool.false_eq_true, if_false]
  rw [hfull]
  dsimp only
  rw [hsel]

/-- `vm_frame_allocate` publishes its record before the caller links it: when every other
record is pinned and the pool is empty afterwards, an allocation by any thread that runs
before the caller's `frame->page = page` walks the hand to the new record and dereferences its
`NULL` page. -/
theorem vm_frame_allocate_exposes_unlinked_frame {s s₁ : Vm} {flags flags' : PallocFlags}
    {cur cur' : Tid} {alloc alloc' : Alloc} {fr : Frame} (hs : HandOk s)
    (hpin : ∀ f ∈ s.frame_table, f.pinned = true) (hfresh : FreshOpt s alloc.frame)
    (h₁ : vm_frame_allocate s flags cur alloc = (s₁, .ok (some fr))) (huser : flags'.user = true)
    (hfull : (palloc_get_page s₁.user_pool s₁.mem flags').1 = none) :
    fr ∈ s₁.frame_table ∧ fr.page = none ∧ fr.pinned = false ∧
      ∃ s₂, vm_frame_allocate s₁ flags' cur' alloc' = (s₂, .error .killed) := by
  obtain ⟨⟨pool, mem, rfl⟩, hpage, hfpin, haddr⟩ := vm_frame_allocate_of_pinned hpin h₁
  have hnew : fr.addr ∉ s.frame_table.map (·.addr) := by
    rw [haddr] at hfresh
    exact hfresh.2.2.1
  have h₀ : HandOk { s with user_pool := pool, mem := mem } := hs.of_frameKeys rfl
  exact ⟨by simp, hpage, hfpin,
    vm_frame_allocate_kills_of_unlinked (h₀.append hnew) rfl hpin hfpin hpage huser hfull⟩

/-- A user pool of one page; threads 1 and 2 have registered their stack pages. -/
def pinBoot : Vm :=
  bootVm (init_pool 0xc0280000 1 pg_ofs_example_pool one_lt_BITMAP_ERROR) (fun _ => 0) (some 8)
    (fun _ => []) (fun _ _ => 0)

def pinRun : List VmOp :=
  [.spawn 1, .allocPage 1 .VM_STACK (PHYS_BASE - PGSIZE) true (some SuppPage.zero),
   .spawn 2, .allocPage 2 .VM_STACK (PHYS_BASE - PGSIZE) true (some SuppPage.zero)]

def pinPre : Vm := (vmRun pinBoot pinRun).getD pinBoot

/-- The record thread 1's `vm_frame_allocate` publishes for its stack page. -/
def unlinkedFrame : Frame := ⟨0xc0101000, 0xc0280000, none, 1, false⟩

/-- The state after thread 1's `vm_frame_allocate` returns, before it links the frame. -/
def pinMid : Vm := (vm_frame_allocate pinPre PAL_USER_ZERO 1 ⟨some 0xc0101000, true⟩).1

theorem vm_frame_allocate_exposes_unlinked_frame_of_one_page :
    (HandOk pinPre ∧ (∀ f ∈ pinPre.frame_table, f.pinned = true) ∧
      FreshOpt pinPre (some 0xc0101000) ∧
      vm_frame_allocate pinPre PAL_USER_ZERO 1 ⟨some 0xc0101000, true⟩ =
        (pinMid, .ok (some unlinkedFrame)) ∧
      PAL_USER_ZERO.user = true ∧ (palloc_get_page pinMid.user_pool pinMid.mem PAL_USER_ZERO).1 = none) ∧
    unlinkedFrame ∈ pinMid.frame_table ∧ unlinkedFrame.page = none ∧ unlinkedFrame.pinned = false ∧
      ∃ s₂, vm_frame_allocate pinMid PAL_USER_ZERO 2 ⟨some 0xc0102000, true⟩ = (s₂, .error .killed) := by
  have hs : HandOk pinPre := by decide
  have hpin : ∀ f ∈ pinPre.frame_table, f.pinned = true := by decide
  have hfresh : FreshOpt pinPre (some 0xc0101000) := by decide
  have h₁ : vm_frame_allocate pinPre PAL_USER_ZERO 1 ⟨some 0xc0101000, true⟩ =
      (pinMid, .ok (some unlinkedFrame)) := rfl
  have hfull : (palloc_get_page pinMid.user_pool pinMid.mem PAL_USER_ZERO).1 = none := rfl
  exact ⟨⟨hs, hpin, hfresh, h₁, rfl, hfull⟩,
    vm_frame_allocate_exposes_unlinked_frame hs hpin hfresh h₁ rfl hfull⟩

/-- Thread 1 faults on its stack page, and its `vm_frame_allocate` takes the only pool page;
before it runs `frame->page = page`, thread 2 faults on its own stack page, and its
`vm_do_claim_page` dereferences the `NULL` page of thread 1's record in `select_victim`. -/
theorem claim_examines_unlinked_frame : VmReachable pinPre ∧
    vm_frame_allocate pinPre PAL_USER_ZERO 1 ⟨some 0xc0101000, true⟩ =
      (pinMid, .ok (some unlinkedFrame)) ∧
    unlinkedFrame.page = none ∧ unlinkedFrame.pinned = false ∧
    ∃ s₂, vm_do_claim_page pinMid ⟨2, PHYS_BASE - PGSIZE⟩ 2 ⟨⟨some 0xc0102000, true⟩, true⟩ =
      (s₂, .error .killed) := by
  have hrun : vmRun pinBoot pinRun = some pinPre := by rfl
  exact ⟨VmReachable.of_vmRun (vmInit_bootVm _ _ _ _ _ _ _ _) hrun, rfl, rfl, rfl, _, rfl⟩

end Pintos
