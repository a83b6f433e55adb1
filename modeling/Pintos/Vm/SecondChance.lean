import Pintos.Vm.Clock
import Mathlib.Data.List.Rotate

/-!
# Second chance (`select_victim`, `vm/frame.c`)

What the clock loop computes, stated without the loop. `handOrder` lists the frames in the
order the hand meets them, from the one under the hand (the first one at `list_end`), and
`secondChance` is the choice over that order: the first unpinned frame whose accessed bit is
clear, or, when every unpinned frame has its bit set, the first unpinned frame, whose bit the
first pass has cleared. The frames that lose their bit are the unpinned ones passed on the way.

`select_victim_cleared` says that `select_victim` makes exactly this choice from a
`ClockReady` state: a valid hand, every frame with a page in a live owner's directory, and no
two frames sharing an accessed bit. The proof is one lemma for a pass over any prefix of the
order (`victimLoop_pass`), used twice: the bound `2 * list_size` is one clearing pass and one
more. When two frames share a bit, clearing it for the first one hides it from the second,
and the loop returns the second (`select_victim_of_shared_bit`).
-/

namespace Pintos

open Vm

/-- The index of the frame the loop examines first: the one under the hand, the first one at
`list_end`. -/
def handPos (T : List Frame) : Option Nat → Nat
  | none => 0
  | some a => T.findIdx (·.addr = a)

/-- The frames in the order the hand meets them. -/
def handOrder (s : Vm) : List Frame := s.frame_table.rotate (handPos s.frame_table s.clock_hand)

/-- `clock_hand = list_next (clock_hand)`, from the record at `a`. -/
def Vm.moveHand (s : Vm) (a : Nat) : Vm := { s with clock_hand := s.frame_table.nextKey (·.addr) a }

/-- The accessed bit of a frame's page in its owner's directory, as the loop reads it. -/
def frameAccessed (s : Vm) (fr : Frame) : Bool :=
  match fr.page with
  | none => false
  | some r =>
    match ownerMapping s fr r with
    | .ok (page, pd) => pagedir_is_accessed pd page.va
    | .error _ => false

/-- Where a frame's accessed bit lives: in its owner's directory, at its page. -/
def accessKey (s : Vm) (fr : Frame) : Option (Tid × Nat) :=
  fr.page.bind fun r => (s.page r).map fun page => (fr.owner, pg_round_down page.va)

/-- The frame has a page, and the loop can read its owner's directory. -/
def Mapped (s : Vm) (fr : Frame) : Bool :=
  match fr.page with
  | none => false
  | some r => (ownerMapping s fr r).toBool

/-- The states the choice is stated for: a valid hand, every frame mapped, and no two frames
sharing an accessed bit. -/
structure ClockReady (s : Vm) : Prop where
  hand : HandOk s
  mapped : ∀ fr ∈ s.frame_table, Mapped s fr = true
  keys : (s.frame_table.map (accessKey s)).Nodup

instance (s : Vm) : Decidable (ClockReady s) :=
  decidable_of_iff (_ ∧ _ ∧ _)
    ⟨fun ⟨h₁, h₂, h₃⟩ => ⟨h₁, h₂, h₃⟩, fun ⟨h₁, h₂, h₃⟩ => ⟨h₁, h₂, h₃⟩⟩

/-- The second-chance choice over `order` with accessed bits `acc`: the victim, and the
frames whose bit is cleared on the way. -/
def secondChance (acc : Frame → Bool) (order : List Frame) : Option Frame × List Frame :=
  let unpinned := order.filter (!·.pinned)
  match unpinned.find? (!acc ·) with
  | some v => (some v, unpinned.takeWhile acc)
  | none => (unpinned.head?, unpinned)

/-! ## The choice -/

private theorem takeWhile_of_forall {α : Type} {p : α → Bool} :
    ∀ {l : List α}, (∀ x ∈ l, p x = true) → l.takeWhile p = l
  | [], _ => rfl
  | a :: l, h => by
    rw [List.takeWhile_cons_of_pos (h a List.mem_cons_self),
      takeWhile_of_forall fun x hx => h x (List.mem_cons_of_mem _ hx)]

/-- Only unpinned frames lose their bit. -/
theorem secondChance_cleared_unpinned (acc : Frame → Bool) (order : List Frame) :
    ∀ fr ∈ (secondChance acc order).2, fr.pinned = false := by
  intro fr hfr
  have hU : fr ∈ order.filter (!·.pinned) := by
    unfold secondChance at hfr
    dsimp only at hfr
    split at hfr
    · exact (List.takeWhile_sublist acc).subset hfr
    · exact hfr
  simpa using (List.mem_filter.mp hU).2

theorem secondChance_eq_none_iff (acc : Frame → Bool) (order : List Frame) :
    (secondChance acc order).1 = none ↔ ∀ fr ∈ order, fr.pinned = true := by
  unfold secondChance
  dsimp only
  split
  · rename_i v hv
    have hmem := List.mem_filter.mp (List.mem_of_find?_eq_some hv)
    simp only [reduceCtorEq, false_iff, not_forall]
    exact ⟨v, hmem.1, by simpa using hmem.2⟩
  · simp only [List.head?_eq_none_iff, List.filter_eq_nil_iff, Bool.not_eq_eq_eq_not,
      Bool.not_true, Bool.not_eq_false]

/-! ## Reading a frame's bit -/

theorem frameAccessed_of_mapping {s : Vm} {fr : Frame} {r : PageRef} {page : SuppPage}
    {pd : Pagedir} (hr : fr.page = some r) (hm : ownerMapping s fr r = .ok (page, pd)) :
    frameAccessed s fr = pagedir_is_accessed pd page.va := by
  simp [frameAccessed, hr, hm]

theorem accessKey_of_mapping {s : Vm} {fr : Frame} {r : PageRef} {page : SuppPage}
    {pd : Pagedir} (hr : fr.page = some r) (hm : ownerMapping s fr r = .ok (page, pd)) :
    accessKey s fr = some (fr.owner, pg_round_down page.va) := by
  simp [accessKey, hr, (ownerMapping_eq_ok.mp hm).1]

theorem exists_mapping_of_mapped {s : Vm} {fr : Frame} (h : Mapped s fr = true) :
    ∃ r page pd, fr.page = some r ∧ ownerMapping s fr r = .ok (page, pd) := by
  unfold Mapped at h
  split at h
  · cases h
  · rename_i r hr
    cases hm : ownerMapping s fr r with
    | error e => simp [hm, Except.toBool] at h
    | ok p => exact ⟨r, p.1, p.2, hr, hm⟩

theorem mapped_of_mapping {s : Vm} {fr : Frame} {r : PageRef} {page : SuppPage} {pd : Pagedir}
    (hr : fr.page = some r) (hm : ownerMapping s fr r = .ok (page, pd)) : Mapped s fr = true := by
  simp [Mapped, hr, hm, Except.toBool]

/-- The loop reads the threads only. -/
theorem ownerMapping_of_threads {s s' : Vm} (h : s'.threads = s.threads) (fr : Frame)
    (r : PageRef) : ownerMapping s' fr r = ownerMapping s fr r := by
  unfold ownerMapping page thread
  rw [h]

theorem frameAccessed_of_threads {s s' : Vm} (h : s'.threads = s.threads) :
    frameAccessed s' = frameAccessed s := by
  funext fr
  unfold frameAccessed
  simp only [ownerMapping_of_threads h]

theorem accessKey_of_page {s s' : Vm} (h : ∀ r, s'.page r = s.page r) :
    accessKey s' = accessKey s := by
  funext fr
  simp [accessKey, h]

/-- Rewriting an owner's directory keeps every mapping and changes the directory it reads. -/
theorem ownerMapping_setPagedir {s : Vm} {fr : Frame} {r : PageRef} {page : SuppPage}
    {pd : Pagedir} (hm : ownerMapping s fr r = .ok (page, pd)) (t : Tid) (pd' : Pagedir) :
    ownerMapping (s.setPagedir t pd') fr r = .ok (page, if fr.owner = t then pd' else pd) := by
  obtain ⟨hpage, th, hth, hpd⟩ := ownerMapping_eq_ok.mp hm
  apply ownerMapping_eq_ok.mpr
  refine ⟨by rw [setPagedir_page, hpage], ?_⟩
  rw [thread_setPagedir]
  split
  · rename_i ht
    rw [← ht, hth]
    exact ⟨_, rfl, rfl⟩
  · exact ⟨th, hth, hpd⟩

/-! ## The hand -/

section Hand

variable {s : Vm}

@[simp] theorem moveHand_frame_table (a : Nat) : (s.moveHand a).frame_table = s.frame_table := rfl

@[simp] theorem moveHand_threads (a : Nat) : (s.moveHand a).threads = s.threads := rfl

@[simp] theorem moveHand_clock_hand (a : Nat) :
    (s.moveHand a).clock_hand = s.frame_table.nextKey (·.addr) a := rfl

/-- In a table with distinct addresses, an earlier record has another address. -/
theorem addr_ne_of_lt {T : List Frame} (hnd : (T.map (·.addr)).Nodup) {i j : Nat} (hji : j < i)
    (hi : i < T.length) : T[j].addr ≠ T[i].addr := by
  intro heq
  have hi' : i < (T.map (·.addr)).length := by simpa using hi
  have hj' : j < (T.map (·.addr)).length := by simp only [List.length_map]; omega
  have hmap : (T.map (·.addr))[j] = (T.map (·.addr))[i] := by simpa using heq
  have := (List.Nodup.getElem_inj_iff hnd).mp hmap
  omega

theorem findIdx_addr {T : List Frame} (hnd : (T.map (·.addr)).Nodup) {i : Nat}
    (hi : i < T.length) : T.findIdx (·.addr = T[i].addr) = i :=
  (List.findIdx_eq hi).mpr ⟨by simp, fun j hji => by simpa using addr_ne_of_lt hnd hji hi⟩

theorem handPos_lt (hs : HandOk s) (hn : s.frame_table ≠ []) :
    handPos s.frame_table s.clock_hand < s.frame_table.length := by
  have hv := hs.valid
  cases hc : s.clock_hand with
  | none => exact List.length_pos_of_ne_nil hn
  | some a =>
    rw [hc] at hv
    obtain ⟨fr, hfr, rfl⟩ := hv
    exact List.findIdx_lt_length_of_exists ⟨fr, hfr, by simp⟩

/-- The head of `handOrder` is the record at `handPos`. -/
theorem handOrder_head {x : Frame} (hs : HandOk s) (hx : (handOrder s).head? = some x) :
    ∃ h : handPos s.frame_table s.clock_hand < s.frame_table.length,
      s.frame_table[handPos s.frame_table s.clock_hand] = x := by
  have hn : s.frame_table ≠ [] := by
    rintro hT
    simp [handOrder, hT] at hx
  rw [handOrder, List.head?_rotate (handPos_lt hs hn)] at hx
  exact List.getElem?_eq_some_iff.mp hx

/-- A valid hand resolves to the record at `handPos`: at `list_end` the loop restarts at the
front. -/
theorem hand_resolve {T : List Frame} : ∀ {c : Option Nat}, List.CursorValid (·.addr) T c →
    ∀ hp : handPos T c < T.length, (c <|> T.head?.map (·.addr)) = some T[handPos T c].addr
  | none, _, hp => by
    simp only [handPos] at hp ⊢
    simp [List.head?_eq_getElem?, List.getElem?_eq_getElem hp]
  | some a, _, hp => by
    have ha := @List.findIdx_getElem Frame (fun x => decide (x.addr = a)) T hp
    exact congrArg some (of_decide_eq_true ha).symm

/-- The loop reads the head of `handOrder` first. -/
theorem hand_eq_head {x : Frame} (hs : HandOk s) (hx : (handOrder s).head? = some x) :
    (s.clock_hand <|> s.frame_table.head?.map (·.addr)) = some x.addr := by
  obtain ⟨hp, rfl⟩ := handOrder_head hs hx
  exact hand_resolve hs.valid hp

/-- `list_next` of the record at `p`. -/
theorem nextKey_getElem {T : List Frame} (hnd : (T.map (·.addr)).Nodup) {p : Nat}
    (hp : p < T.length) : T.nextKey (·.addr) T[p].addr = T[p + 1]?.map (·.addr) := by
  have hsplit : T = T.take p ++ T[p] :: T.drop (p + 1) := by
    rw [List.getElem_cons_drop, List.take_append_drop]
  have hbefore : ∀ b ∈ T.take p, b.addr ≠ T[p].addr := by
    intro b hb
    obtain ⟨j, hj, rfl⟩ := List.mem_take_iff_getElem.mp hb
    exact addr_ne_of_lt hnd (by omega) hp
  have hnext := List.nextKey_append_cons T[p] (T.drop (p + 1)) hbefore
  rw [← hsplit, List.head?_drop] at hnext
  exact hnext

theorem handPos_nextKey {T : List Frame} (hnd : (T.map (·.addr)).Nodup) {p : Nat}
    (hp : p < T.length) : handPos T (T.nextKey (·.addr) T[p].addr) = (p + 1) % T.length := by
  rw [nextKey_getElem hnd hp]
  by_cases hlt : p + 1 < T.length
  · rw [List.getElem?_eq_getElem hlt, Option.map_some, handPos, findIdx_addr hnd hlt,
      Nat.mod_eq_of_lt hlt]
  · have hend : p + 1 = T.length := by omega
    rw [List.getElem?_eq_none (by omega), Option.map_none, handPos, hend, Nat.mod_self]

/-- Moving the hand past the frame it reads turns `handOrder` by one. -/
theorem handOrder_moveHand {x : Frame} (hs : HandOk s) (hx : (handOrder s).head? = some x) :
    handOrder (s.moveHand x.addr) = (handOrder s).rotate 1 := by
  obtain ⟨hp, rfl⟩ := handOrder_head hs hx
  unfold handOrder
  rw [moveHand_frame_table, moveHand_clock_hand, handPos_nextKey hs.nodup hp, List.rotate_mod,
    List.rotate_rotate]

end Hand

/-! ## Ready states -/

namespace ClockReady

variable {s : Vm}

theorem moveHand (hs : ClockReady s) (a : Nat) : ClockReady (s.moveHand a) :=
  ⟨hs.hand.moveHand a, hs.mapped, hs.keys⟩

theorem setPagedir (hs : ClockReady s) (t : Tid) (pd : Pagedir) : ClockReady (s.setPagedir t pd) where
  hand := hs.hand.of_frameKeys (setPagedir_frameKeys s t pd)
  mapped := by
    intro fr hfr
    obtain ⟨r, page, pd', hr, hm⟩ := exists_mapping_of_mapped (hs.mapped fr hfr)
    exact mapped_of_mapping hr (ownerMapping_setPagedir hm t pd)
  keys := by
    rw [accessKey_of_page (setPagedir_page s t pd), setPagedir_frame_table]
    exact hs.keys

/-- The frames of a ready state are distinct, and so are those of `handOrder`. -/
theorem nodup_handOrder (hs : ClockReady s) : (handOrder s).Nodup :=
  List.nodup_rotate.mpr hs.keys.of_map

end ClockReady

/-! ## What the loop changes -/

/-- `s'` is `s` with the accessed bits of the frames `C` cleared, the hand aside. -/
structure ClearedFrom (s s' : Vm) (C : List Frame) : Prop where
  frame_table : s'.frame_table = s.frame_table
  page : ∀ r, s'.page r = s.page r
  accessed : ∀ fr ∈ s.frame_table,
    frameAccessed s' fr = (frameAccessed s fr && !decide (fr ∈ C))

namespace ClearedFrom

variable {s s₁ s₂ : Vm} {C₁ C₂ : List Frame}

theorem of_threads (hf : s₁.frame_table = s.frame_table) (ht : s₁.threads = s.threads) :
    ClearedFrom s s₁ [] where
  frame_table := hf
  page r := by
    unfold Vm.page Vm.thread
    rw [ht]
  accessed fr _ := by simp [frameAccessed_of_threads ht]

theorem trans (h₁ : ClearedFrom s s₁ C₁) (h₂ : ClearedFrom s₁ s₂ C₂) :
    ClearedFrom s s₂ (C₁ ++ C₂) where
  frame_table := h₂.frame_table.trans h₁.frame_table
  page r := (h₂.page r).trans (h₁.page r)
  accessed fr hfr := by
    rw [h₂.accessed fr (h₁.frame_table ▸ hfr), h₁.accessed fr hfr]
    simp [Bool.and_assoc]

/-- Clearing the bit of a frame `x` of a ready state: the other frames keep theirs, because
none of them shares `x`'s page in `x`'s owner. -/
theorem clear (hs : ClockReady s) {x : Frame} (hx : x ∈ s.frame_table) {r : PageRef}
    {page : SuppPage} {pd : Pagedir} (hr : x.page = some r)
    (hm : ownerMapping s x r = .ok (page, pd)) :
    ClearedFrom s (s.setPagedir x.owner (pagedir_set_accessed pd page.va false)) [x] where
  frame_table := rfl
  page := setPagedir_page s _ _
  accessed fr hfr := by
    obtain ⟨r', page', pd', hr', hm'⟩ := exists_mapping_of_mapped (hs.mapped fr hfr)
    rw [frameAccessed_of_mapping hr' (ownerMapping_setPagedir hm' _ _),
      frameAccessed_of_mapping hr' hm']
    by_cases ho : fr.owner = x.owner
    · -- the same owner reads the same directory
      have hpd : pd' = pd := by
        obtain ⟨-, th, hth, hpd⟩ := ownerMapping_eq_ok.mp hm
        obtain ⟨-, th', hth', hpd'⟩ := ownerMapping_eq_ok.mp hm'
        rw [ho, hth, Option.some.injEq] at hth'
        subst hth'
        exact Option.some.inj (hpd'.symm.trans hpd)
      subst hpd
      rw [if_pos ho]
      unfold pagedir_is_accessed
      rw [pagedir_set_accessed_entry]
      by_cases hfx : fr = x
      · subst hfx
        obtain rfl : r' = r := Option.some.inj (hr'.symm.trans hr)
        obtain rfl : page' = page := by
          rw [hm, Except.ok.injEq, Prod.mk.injEq] at hm'
          exact hm'.1.symm
        by_cases ht : pd'.hasTable page'.va
        · simp [ht]
        · simp [ht, Pagedir.entry_of_not_hasTable ht, Pte.zero]
      · have hkey : accessKey s fr ≠ accessKey s x :=
          fun h => hfx (List.inj_on_of_nodup_map hs.keys hfr hx h)
        rw [accessKey_of_mapping hr' hm', accessKey_of_mapping hr hm, ho] at hkey
        have hva : pg_round_down page'.va ≠ pg_round_down page.va := fun h => hkey (by rw [h])
        simp [hva, hfx]
    · have hfx : fr ≠ x := fun h => ho (h ▸ rfl)
      simp [ho, hfx]

end ClearedFrom

/-! ## The loop, one pass at a time -/

section Loop

variable {s : Vm}

/-- One turn of the loop from a ready state reads the head of `handOrder` and moves the hand
past it. -/
theorem victimLoop_succ (hs : ClockReady s) {x : Frame} (hx : (handOrder s).head? = some x)
    {r : PageRef} {page : SuppPage} {pd : Pagedir} (hr : x.page = some r)
    (hm : ownerMapping s x r = .ok (page, pd)) (k : Nat) :
    victimLoop s (k + 1) =
      if x.pinned then victimLoop (s.moveHand x.addr) k
      else if pagedir_is_accessed pd page.va then
        victimLoop ((s.moveHand x.addr).setPagedir x.owner (pagedir_set_accessed pd page.va false)) k
      else (s.moveHand x.addr, .ok (some x)) := by
  have hxT : x ∈ s.frame_table := List.mem_rotate.mp (List.mem_of_mem_head? hx)
  have hm' : ownerMapping { s with clock_hand := s.frame_table.nextKey (·.addr) x.addr } x r =
      .ok (page, pd) := hm
  unfold Vm.moveHand
  rw [victimLoop, hand_eq_head hs.hand hx]
  dsimp only
  rw [frame_of_mem hs.hand.nodup hxT]
  dsimp only
  simp only [hr, hm']

/-- A pass over the next frames `L` of the hand's order, with `f` more turns to go, where `acc`
gives the bits the frames of `L` have on entry: the loop clears the bits of the unpinned frames
of `L` up to the first unpinned one whose bit is clear, and returns that one; when there is
none, it has cleared them all and the hand is back where `L` ends. -/
theorem victimLoop_pass (acc : Frame → Bool) : ∀ (L : List Frame) {s : Vm} {R : List Frame}
    (f : Nat), ClockReady s → handOrder s = L ++ R → (∀ y ∈ L, frameAccessed s y = acc y) →
    ∃ s', ClearedFrom s s' ((L.filter (!·.pinned)).takeWhile acc) ∧
      ((∃ v, (L.filter (!·.pinned)).find? (!acc ·) = some v ∧
          victimLoop s (L.length + f) = (s', .ok (some v)) ∧
          s'.clock_hand = s.frame_table.nextKey (·.addr) v.addr) ∨
        ((L.filter (!·.pinned)).find? (!acc ·) = none ∧
          victimLoop s (L.length + f) = victimLoop s' f ∧ ClockReady s' ∧
          handOrder s' = R ++ L))
  | [], s, R, f, hs, ho, _ => by
    refine ⟨s, ClearedFrom.of_threads rfl rfl, .inr ⟨rfl, by rw [List.length_nil, Nat.zero_add],
      hs, by simpa using ho⟩⟩
  | x :: L, s, R, f, hs, ho, hacc => by
    have hx : (handOrder s).head? = some x := by rw [ho]; rfl
    have hxT : x ∈ s.frame_table := List.mem_rotate.mp (List.mem_of_mem_head? hx)
    have hxL : x ∉ L := by
      have hnd := hs.nodup_handOrder
      rw [ho, List.cons_append, List.nodup_cons] at hnd
      exact fun h => hnd.1 (List.mem_append_left R h)
    obtain ⟨r, page, pd, hr, hm⟩ := exists_mapping_of_mapped (hs.mapped x hxT)
    have hlen : (x :: L).length + f = L.length + f + 1 := by
      rw [List.length_cons]
      omega
    rw [hlen]
    have hstep := victimLoop_succ hs hx hr hm (L.length + f)
    have hbit : acc x = pagedir_is_accessed pd page.va :=
      (hacc x List.mem_cons_self).symm.trans (frameAccessed_of_mapping hr hm)
    have hacc₁ : ∀ y ∈ L, frameAccessed (s.moveHand x.addr) y = acc y := fun y hy => by
      rw [frameAccessed_of_threads (moveHand_threads x.addr)]
      exact hacc y (List.mem_cons_of_mem _ hy)
    have ho₁ : handOrder (s.moveHand x.addr) = L ++ (R ++ [x]) := by
      rw [handOrder_moveHand hs.hand hx, ho, List.cons_append, List.rotate_cons_succ,
        List.rotate_zero, List.append_assoc]
    have hC₁ : ClearedFrom s (s.moveHand x.addr) [] := ClearedFrom.of_threads rfl rfl
    cases hpin : x.pinned
    · rw [hpin, if_neg Bool.false_ne_true] at hstep
      cases hb : pagedir_is_accessed pd page.va
      · -- unpinned and not accessed: the victim
        rw [hb, if_neg Bool.false_ne_true] at hstep
        refine ⟨_, ?_, .inl ⟨x, ?_, hstep, rfl⟩⟩
        · simpa [hpin, hbit, hb] using hC₁
        · simp [hpin, hbit, hb]
      · -- unpinned and accessed: its bit is cleared and the pass goes on
        rw [hb, if_pos rfl] at hstep
        have hC₂ := ClearedFrom.clear (hs.moveHand x.addr) hxT hr hm
        have hacc₂ : ∀ y ∈ L, frameAccessed ((s.moveHand x.addr).setPagedir x.owner
            (pagedir_set_accessed pd page.va false)) y = acc y := by
          intro y hy
          have hyx : y ≠ x := fun h => hxL (h ▸ hy)
          rw [hC₂.accessed y (List.mem_rotate.mp (ho ▸ List.mem_cons_of_mem _
            (List.mem_append_left R hy) : y ∈ handOrder s)), ← hacc₁ y hy]
          simp [hyx]
        obtain ⟨s', hC, hres⟩ := victimLoop_pass acc L f
          ((hs.moveHand x.addr).setPagedir _ _) ho₁ hacc₂
        have hcl : ((x :: L).filter (!·.pinned)).takeWhile acc =
            [] ++ [x] ++ (L.filter (!·.pinned)).takeWhile acc := by
          simp [hpin, hbit, hb]
        have hfind : ((x :: L).filter (!·.pinned)).find? (!acc ·) =
            (L.filter (!·.pinned)).find? (!acc ·) := by
          simp [hpin, hbit, hb]
        refine ⟨s', hcl ▸ (hC₁.trans hC₂).trans hC, ?_⟩
        rw [hfind, hstep]
        rcases hres with ⟨v, hv, hloop, hhand⟩ | ⟨hv, hloop, hs', ho'⟩
        · exact .inl ⟨v, hv, hloop, hhand⟩
        · exact .inr ⟨hv, hloop, hs', by simpa using ho'⟩
    · -- pinned: skipped
      rw [hpin, if_pos rfl] at hstep
      obtain ⟨s', hC, hres⟩ := victimLoop_pass acc L f (hs.moveHand x.addr) ho₁ hacc₁
      have hfilter : (x :: L).filter (!·.pinned) = L.filter (!·.pinned) := by
        simp [hpin]
      refine ⟨s', hfilter ▸ hC₁.trans hC, ?_⟩
      rw [hfilter, hstep]
      rcases hres with ⟨v, hv, hloop, hhand⟩ | ⟨hv, hloop, hs', ho'⟩
      · exact .inl ⟨v, hv, hloop, hhand⟩
      · exact .inr ⟨hv, hloop, hs', by simpa using ho'⟩

/-! ## Two passes -/

/-- `select_victim` from a ready state chooses by `secondChance` over the hand's order: it
returns the choice, clears the bits of exactly the frames the choice passes, and leaves the
hand after the victim. The first pass either finds a clear bit or clears every unpinned bit;
then the second pass takes the first unpinned frame. -/
theorem select_victim_cleared (hs : ClockReady s) :
    ∃ s', select_victim s = (s', .ok (secondChance (frameAccessed s) (handOrder s)).1) ∧
      ClearedFrom s s' (secondChance (frameAccessed s) (handOrder s)).2 ∧
      ∀ v, (secondChance (frameAccessed s) (handOrder s)).1 = some v →
        s'.clock_hand = s.frame_table.nextKey (·.addr) v.addr := by
  by_cases hn : s.frame_table = []
  · -- an empty table: no victim
    have ho : handOrder s = [] := by simp [handOrder, hn]
    rw [ho]
    exact ⟨s, by simp [select_victim, hn, secondChance], ClearedFrom.of_threads rfl rfl,
      by simp [secondChance]⟩
  have hlen : s.frame_table.length * 2 = (handOrder s).length + (handOrder s).length := by
    rw [handOrder, List.length_rotate]
    omega
  unfold select_victim
  rw [if_neg (by simpa using hn), hlen]
  obtain ⟨s₁, hC₁, hres₁⟩ := victimLoop_pass (frameAccessed s) (handOrder s)
    (handOrder s).length hs (List.append_nil _).symm fun _ _ => rfl
  rcases hres₁ with ⟨v, hv, hloop, hhand⟩ | ⟨hnone, hloop, hs₁, ho₁⟩
  · -- the first pass meets a clear bit
    have hsc : secondChance (frameAccessed s) (handOrder s) =
        (some v, ((handOrder s).filter (!·.pinned)).takeWhile (frameAccessed s)) := by
      unfold secondChance
      dsimp only
      rw [hv]
    rw [hsc]
    refine ⟨s₁, hloop, hC₁, fun v' hv' => ?_⟩
    obtain rfl := Option.some.inj hv'
    exact hhand
  have hall : ∀ y ∈ (handOrder s).filter (!·.pinned), frameAccessed s y = true :=
    fun y hy => by simpa using List.find?_eq_none.mp hnone y hy
  rw [takeWhile_of_forall hall] at hC₁
  have hsc : secondChance (frameAccessed s) (handOrder s) =
      (((handOrder s).filter (!·.pinned)).head?, (handOrder s).filter (!·.pinned)) := by
    unfold secondChance
    dsimp only
    rw [hnone]
  have hclear : ∀ y ∈ (handOrder s).filter (!·.pinned), frameAccessed s₁ y = false := by
    intro y hy
    rw [hC₁.accessed y (List.mem_rotate.mp (List.mem_filter.mp hy).1)]
    simp [hy]
  obtain ⟨s₂, hC₂, hres₂⟩ := victimLoop_pass (frameAccessed s₁) (handOrder s) 0 hs₁
    (show handOrder s₁ = handOrder s ++ [] by simpa using ho₁) fun _ _ => rfl
  rw [hsc, hloop]
  rw [Nat.add_zero] at hres₂
  cases hU : (handOrder s).filter (!·.pinned) with
  | nil =>
    rw [hU] at hC₁ hres₂ hC₂
    rcases hres₂ with ⟨v, hv, -⟩ | ⟨-, hloop₂, -⟩
    · cases hv
    · refine ⟨s₂, by rw [hloop₂]; rfl, ?_, by simp⟩
      simpa using hC₁.trans hC₂
  | cons u U =>
    have hu : frameAccessed s₁ u = false := hclear u (hU ▸ List.mem_cons_self)
    rw [hU] at hC₁ hres₂ hC₂
    rw [List.takeWhile_cons_of_neg (by simp [hu])] at hC₂
    rcases hres₂ with ⟨v, hv, hloop₂, hhand₂⟩ | ⟨hv, -⟩
    · rw [List.find?_cons_of_pos (by simp [hu]), Option.some.injEq] at hv
      subst hv
      refine ⟨s₂, hloop₂, by simpa using hC₁.trans hC₂, fun v' hv' => ?_⟩
      obtain rfl := Option.some.inj hv'
      rw [hhand₂, hC₁.frame_table]
    · rw [List.find?_cons_of_pos (by simp [hu])] at hv
      cases hv

theorem select_victim_second_chance (hs : ClockReady s) :
    ∃ s', select_victim s = (s', .ok (secondChance (frameAccessed s) (handOrder s)).1) ∧
      ((secondChance (frameAccessed s) (handOrder s)).1 = none ↔
        ∀ fr ∈ s.frame_table, fr.pinned = true) ∧
      (∀ fr ∈ (secondChance (frameAccessed s) (handOrder s)).2, fr.pinned = false) ∧
      (∀ fr ∈ s.frame_table, frameAccessed s' fr =
        (frameAccessed s fr && !decide (fr ∈ (secondChance (frameAccessed s) (handOrder s)).2))) ∧
      s'.frame_table = s.frame_table ∧ (∀ r, s'.page r = s.page r) ∧
      ∀ v, (secondChance (frameAccessed s) (handOrder s)).1 = some v →
        s'.clock_hand = s.frame_table.nextKey (·.addr) v.addr := by
  obtain ⟨s', hsel, hC, hhand⟩ := select_victim_cleared hs
  refine ⟨s', hsel, ?_, secondChance_cleared_unpinned _ _, hC.accessed, hC.frame_table, hC.page,
    hhand⟩
  rw [secondChance_eq_none_iff]
  simp only [handOrder, List.mem_rotate]

end Loop

/-- Thread 1 faults in its stack page and an anonymous page, which fills the two-page pool,
and reads both: both bits are set, so the first pass clears them and the second takes the
first frame. -/
def clockRun : List VmOp :=
  [.spawn 1, .allocPage 1 .VM_STACK (PHYS_BASE - PGSIZE) true (some SuppPage.zero),
   .claim 1 (PHYS_BASE - PGSIZE) ⟨⟨some 0xc0101000, true⟩, true⟩,
   .allocPage 1 .VM_ANON 0x08048000 true (some SuppPage.zero),
   .claim 1 0x08048000 ⟨⟨some 0xc0101100, true⟩, true⟩,
   .access 1 (PHYS_BASE - PGSIZE) none, .access 1 0x08048000 none]

def clockPre : Vm := (vmRun handBoot clockRun).getD handBoot

theorem select_victim_second_chance_at_clockPre : ClockReady clockPre ∧
    ∃ s', select_victim clockPre =
        (s', .ok (secondChance (frameAccessed clockPre) (handOrder clockPre)).1) ∧
      ((secondChance (frameAccessed clockPre) (handOrder clockPre)).1 = none ↔
        ∀ fr ∈ clockPre.frame_table, fr.pinned = true) ∧
      (∀ fr ∈ (secondChance (frameAccessed clockPre) (handOrder clockPre)).2,
        fr.pinned = false) ∧
      (∀ fr ∈ clockPre.frame_table, frameAccessed s' fr = (frameAccessed clockPre fr &&
        !decide (fr ∈ (secondChance (frameAccessed clockPre) (handOrder clockPre)).2))) ∧
      s'.frame_table = clockPre.frame_table ∧ (∀ r, s'.page r = clockPre.page r) ∧
      ∀ v, (secondChance (frameAccessed clockPre) (handOrder clockPre)).1 = some v →
        s'.clock_hand = clockPre.frame_table.nextKey (·.addr) v.addr :=
  ⟨by decide, select_victim_second_chance (by decide)⟩

/-- Both bits were set on entry: the choice is the first frame, after clearing both. -/
example : secondChance (frameAccessed clockPre) (handOrder clockPre) =
    (clockPre.frame_table.head?, clockPre.frame_table) := by decide

/-! ## Two frames on one page -/

/-- Thread 1's page at `0x08048000`, mapped and accessed. -/
def sharedDir : Pagedir :=
  pagedir_set_accessed
    (((pagedir_set_page Pagedir.empty 0x08048000 0xc0280000 true true).map Prod.snd).getD
      Pagedir.empty) 0x08048000 true

def sharedFrame₁ : Frame := ⟨0xc0101000, 0xc0280000, some ⟨1, 0x08048000⟩, 1, false⟩

def sharedFrame₂ : Frame := ⟨0xc0101100, 0xc0281000, some ⟨1, 0x08048000⟩, 1, false⟩

/-- Two unpinned frames of a live owner name the same page, whose bit is set. -/
def sharedVm : Vm :=
  { handBoot with
    frame_table := [sharedFrame₁, sharedFrame₂]
    clock_hand := none
    threads := [⟨1, some sharedDir,
      some [{ SuppPage.zero with va := 0x08048000, frame := some 0xc0101000 }], 0⟩] }

/-- Every unpinned frame has its bit set on entry, so second chance takes the first one; the
loop clears the shared bit at the first frame and takes the second. -/
theorem select_victim_of_shared_bit : HandOk sharedVm ∧
    (∀ fr ∈ sharedVm.frame_table, Mapped sharedVm fr = true) ∧
    (∀ fr ∈ sharedVm.frame_table, frameAccessed sharedVm fr = true ∧ fr.pinned = false) ∧
    (secondChance (frameAccessed sharedVm) (handOrder sharedVm)).1 = some sharedFrame₁ ∧
    (select_victim sharedVm).2 = .ok (some sharedFrame₂) :=
  ⟨by decide, by decide, by decide, by decide, rfl⟩

end Pintos
