import Mathlib.Data.List.Range

/-!
# Counting the blocks of a heap

A heap hands out blocks at the addresses below a bound, and a freed block reads `none`.
`heapCount heap n p` is the number of live blocks below `n` whose contents satisfy `p`. The
lemmas say how the count moves when one block changes (`heapCount_update`), when the next
block is handed out (`heapCount_push`), and how counts for two predicates compare.
-/

variable {β : Type} (heap : Nat → Option β) (n : Nat) (p : β → Bool)

/-- The live blocks below `n` whose contents satisfy `p`. -/
def heapCount : Nat := (List.range n).countP fun a => (heap a).any p

variable {heap n p}

theorem heapCount_congr {heap' : Nat → Option β} (h : ∀ a < n, heap' a = heap a) :
    heapCount heap' n p = heapCount heap n p :=
  List.countP_congr fun a ha => by rw [h a (List.mem_range.mp ha)]

/-- Changing the block at `a` moves the count by the new block's contribution less the old's. -/
theorem heapCount_update {a : Nat} (ha : a < n) (v : Option β) :
    heapCount (Function.update heap a v) n p + ((heap a).any p).toNat =
      heapCount heap n p + (v.any p).toNat := by
  induction n with
  | zero => omega
  | succ n ih =>
    simp only [heapCount, List.range_succ, List.countP_append, List.countP_singleton] at ih ⊢
    rcases Nat.lt_succ_iff_lt_or_eq.mp ha with ha | rfl
    · -- the change is below `n`, and block `n` is the same in both heaps
      have hn : Function.update heap a v n = heap n := Function.update_of_ne (by omega) _ _
      rw [hn]
      have := ih ha
      omega
    · have hbelow : ∀ b ∈ List.range a, (Function.update heap a v b).any p = (heap b).any p :=
        fun b hb => by rw [Function.update_of_ne (by simp at hb; omega)]
      rw [List.countP_congr fun b hb => by rw [hbelow b hb], Function.update_self]
      cases (heap a).any p <;> cases v.any p <;> simp

theorem heapCount_update_of_any_eq {a : Nat} (ha : a < n) {v : Option β}
    (hv : v.any p = (heap a).any p) : heapCount (Function.update heap a v) n p = heapCount heap n p := by
  have := @heapCount_update _ heap _ p _ ha v
  rw [hv] at this
  omega

theorem heapCount_update_none_le (a : Nat) :
    heapCount (Function.update heap a none) n p ≤ heapCount heap n p :=
  List.countP_mono_left fun b _ hb => by
    by_cases hba : b = a
    · subst hba
      simp at hb
    · rwa [Function.update_of_ne hba] at hb

/-- Handing out the block at `n` counts it. -/
theorem heapCount_push (v : Option β) :
    heapCount (Function.update heap n v) (n + 1) p = heapCount heap n p + (v.any p).toNat := by
  have hbelow : heapCount (Function.update heap n v) n p = heapCount heap n p :=
    heapCount_congr fun a ha => Function.update_of_ne (by omega) _ _
  simp only [heapCount, List.range_succ, List.countP_append, List.countP_singleton,
    Function.update_self] at hbelow ⊢
  rw [hbelow]
  cases v.any p <;> rfl

theorem heapCount_mono {q : β → Bool} (h : ∀ b, p b → q b) : heapCount heap n p ≤ heapCount heap n q :=
  List.countP_mono_left fun a _ ha => by
    cases hb : heap a with
    | none => simp [hb] at ha
    | some b => simp only [hb, Option.any_some] at ha ⊢; exact h b ha

/-- A live block that satisfies `q` but not `p` makes the count for `p` smaller, when `p`
implies `q`. -/
theorem heapCount_lt {q : β → Bool} (hpq : ∀ b, p b → q b) {a : Nat} {b : β} (ha : a < n)
    (hb : heap a = some b) (hp : p b = false) (hq : q b = true) :
    heapCount heap n p < heapCount heap n q := by
  -- both counts are taken over the heap with `a` replaced by a block that counts for neither
  have hlt : heapCount (Function.update heap a none) n p ≤ heapCount (Function.update heap a none) n q :=
    heapCount_mono hpq
  have h₀ := @heapCount_update _ heap _ p _ ha none
  have h₁ := @heapCount_update _ heap _ q _ ha none
  simp only [hb, Option.any_some, Option.any_none, hp, hq, Bool.toNat_true, Bool.toNat_false] at h₀ h₁
  omega

theorem heapCount_pos {a : Nat} {b : β} (ha : a < n) (hb : heap a = some b) (hp : p b = true) :
    0 < heapCount heap n p :=
  List.countP_pos_iff.mpr ⟨a, List.mem_range.mpr ha, by simp [hb, hp]⟩

/-- Counting the addresses of a list without repeats, all below `n`, through the heap's range. -/
theorem countP_range_mem {L : List Nat} (hL : L.Nodup) (hlt : ∀ a ∈ L, a < n) (q : Nat → Bool) :
    (List.range n).countP (fun a => decide (a ∈ L) && q a) = L.countP q := by
  have hperm : ((List.range n).filter fun a => decide (a ∈ L)).Perm L :=
    (List.perm_ext_iff_of_nodup ((List.nodup_range).filter _) hL).mpr fun a => by
      simp only [List.mem_filter, List.mem_range, decide_eq_true_eq]
      exact ⟨fun h => h.2, fun h => ⟨hlt a h, h⟩⟩
  rw [← hperm.countP_eq, List.countP_filter]
  exact List.countP_congr fun a _ => by simp [Bool.and_comm]
