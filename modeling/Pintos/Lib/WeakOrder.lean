import Mathlib.Order.Defs.Unbundled
import Mathlib.Data.List.Chain

/-!
# `less` functions, runs and stable merging

A C `less` function answers "is `a` before `b`". When it is a strict weak order
(`IsStrictWeakOrder`), "not less" is transitive (`not_less_trans`) and the elements it cannot
tell apart form classes (`Incomp`). A list is in order when no element is less than the one
before it, a chain of `less b a = false`; `descents` counts the places where that fails, so a
list with no descents is in order (`descents_eq_zero_iff`).

`List.merge` with `fun a b => !less b a` takes the left element on ties. For a strict weak
order it merges two ordered lists into an ordered one (`isChain_merge`) and keeps the order of
every class: the elements of a class come out as those of the left list, then those of the
right (`filter_merge`).
-/

namespace WeakOrder

variable {α : Type*} {less : α → α → Bool}

/-- `a` and `b` are in the same class: neither is less than the other. -/
def Incomp (less : α → α → Bool) (a b : α) : Bool := !less a b && !less b a

/-- The number of places in a list where an element is less than the one before it. -/
def descents (less : α → α → Bool) : List α → ℕ
  | a :: b :: l => (if less b a then 1 else 0) + descents less (b :: l)
  | _ => 0

theorem descents_eq_zero_iff :
    ∀ {l : List α}, descents less l = 0 ↔ l.IsChain fun a b => less b a = false
  | [] => by simp [descents]
  | [a] => by simp [descents]
  | a :: b :: l => by
    rw [descents, List.isChain_cons_cons, ← descents_eq_zero_iff]
    cases less b a <;> simp

theorem descents_le_length : ∀ l : List α, descents less l ≤ l.length
  | [] | [_] => by simp [descents]
  | a :: b :: l => by
    have := descents_le_length (b :: l)
    simp only [descents, List.length_cons] at this ⊢
    split_ifs <;> omega

theorem descents_append_le :
    ∀ (l₁ l₂ : List α), descents less (l₁ ++ l₂) ≤ descents less l₁ + 1 + descents less l₂
  | [], l₂ => by simp
  | [a], [] => by simp [descents]
  | [a], b :: l₂ => by
    simp only [List.singleton_append, descents]
    split_ifs <;> omega
  | a :: b :: l₁, l₂ => by
    have := descents_append_le (b :: l₁) l₂
    simp only [List.cons_append, descents] at this ⊢
    omega

/-- Where the second list starts below the end of the first, joining them adds that place. -/
theorem descents_append_of_less {a b : α} (hb : less b a) :
    ∀ (l₁ l₂ : List α), l₁.getLast? = some a →
      descents less (l₁ ++ b :: l₂) = descents less l₁ + 1 + descents less (b :: l₂)
  | [], _, h => by simp at h
  | [c], l₂, h => by
    simp only [List.getLast?_singleton, Option.some.injEq] at h
    subst h
    simp [descents, hb]
  | c :: d :: l₁, l₂, h => by
    have := descents_append_of_less hb (d :: l₁) l₂ (by simpa using h)
    simp only [List.cons_append, descents] at this ⊢
    omega

section Order

variable (h : IsStrictWeakOrder α fun a b => less a b)
include h

theorem less_irrefl (a : α) : less a a = false := by
  simpa using h.irrefl a

theorem less_asymm {a b : α} (hab : less a b) : less b a = false := by
  by_contra hba
  rw [Bool.not_eq_false] at hba
  have := h.trans _ _ _ hab hba
  rw [less_irrefl h] at this
  exact Bool.false_ne_true this

/-- "Not less" is transitive: `a ≤ b ≤ c` gives `a ≤ c`. -/
theorem not_less_trans {a b c : α} (hab : less b a = false) (hbc : less c b = false) :
    less c a = false := by
  by_contra hca
  rw [Bool.not_eq_false] at hca
  -- `c < a` forces `b` to be incomparable with both, and then with `a` and `c` alike
  have hbc' : less b c = false := by
    by_contra hbc'
    rw [Bool.not_eq_false] at hbc'
    simp [h.trans _ _ _ hbc' hca] at hab
  have hab' : less a b = false := by
    by_contra hab'
    rw [Bool.not_eq_false] at hab'
    simp [h.trans _ _ _ hca hab'] at hbc
  have := (h.incomp_trans a b c ⟨by simp [hab'], by simp [hab]⟩ ⟨by simp [hbc'], by simp [hbc]⟩).2
  exact this hca

/-- `b < a ≤ a'` gives `b < a'`. -/
theorem less_of_less_of_not_less {a a' b : α} (hba : less b a) (ha : less a' a = false) :
    less b a' := by
  by_contra hba'
  rw [Bool.not_eq_true] at hba'
  simp [not_less_trans h ha hba'] at hba

theorem incomp_trans {a b c : α} (hab : Incomp less a b) (hbc : Incomp less b c) :
    Incomp less a c := by
  simp only [Incomp, Bool.and_eq_true, Bool.not_eq_true'] at hab hbc ⊢
  exact ⟨not_less_trans h hbc.1 hab.1, not_less_trans h hab.2 hbc.2⟩

omit h in
theorem incomp_comm (a b : α) : Incomp less a b = Incomp less b a := by
  simp only [Incomp, Bool.and_comm]

theorem pairwise_of_isChain {l : List α} (hl : l.IsChain fun a b => less b a = false) :
    l.Pairwise fun a b => less b a = false := by
  have : Trans (fun a b => less b a = false) (fun a b => less b a = false)
      (fun a b => less b a = false) := ⟨fun hab hbc => not_less_trans h hab hbc⟩
  exact List.isChain_iff_pairwise.mp hl

/-- In an ordered list, the elements from the first one above `e` on are all above `e`. -/
theorem less_of_mem_dropWhile {e : α} :
    ∀ {l : List α}, (l.IsChain fun a b => less b a = false) →
      ∀ z ∈ l.dropWhile (fun x => !less e x), less e z
  | [], _, z, hz => absurd hz List.not_mem_nil
  | x :: l, hl, z, hz => by
    by_cases hx : less e x
    · rw [List.dropWhile_cons_of_neg (by simp [hx])] at hz
      rcases List.mem_cons.mp hz with rfl | hz
      · exact hx
      · exact less_of_less_of_not_less h hx (List.rel_of_pairwise_cons (pairwise_of_isChain h hl) hz)
    · rw [List.dropWhile_cons_of_pos (by simpa using hx)] at hz
      exact less_of_mem_dropWhile hl.tail z hz

/-- Merging two ordered lists, left first on ties, gives an ordered list. -/
theorem isChain_merge {A B : List α} (hA : A.IsChain fun a b => less b a = false)
    (hB : B.IsChain fun a b => less b a = false) :
    (A.merge B fun a b => !less b a).IsChain fun a b => less b a = false := by
  have hmerge := @List.pairwise_merge _ (fun a b => !less b a)
    (fun a b c hab hbc => by simpa using not_less_trans h (by simpa using hab) (by simpa using hbc))
    (fun a b => by
      cases hab : less a b
      · simp
      · simp [less_asymm h hab])
    A B ((pairwise_of_isChain h hA).imp fun hab => by simpa using hab)
    ((pairwise_of_isChain h hB).imp fun hab => by simpa using hab)
  exact (hmerge.imp fun hab => by simpa using hab).isChain

/-- Merging keeps each class in order: its elements from the left list, then from the right. -/
theorem filter_merge (x : α) :
    ∀ {A B : List α}, (A.Pairwise fun a b => less b a = false) →
      (B.Pairwise fun a b => less b a = false) →
      (A.merge B fun a b => !less b a).filter (Incomp less x) =
        A.filter (Incomp less x) ++ B.filter (Incomp less x)
  | [], B, _, _ => by simp
  | A, [], _, _ => by simp
  | a :: A, b :: B, hA, hB => by
    by_cases hba : less b a
    · rw [List.cons_merge_cons_neg _ _ _ (by simp [hba])]
      rw [List.filter_cons, filter_merge x hA hB.of_cons, List.filter_cons (x := b)]
      have hnone : ∀ a' ∈ a :: A, Incomp less x b → Incomp less x a' = false := by
        intro a' ha' hxb
        have hba' : less b a' := by
          rcases List.mem_cons.mp ha' with rfl | ha'
          · exact hba
          · exact less_of_less_of_not_less h hba (List.rel_of_pairwise_cons hA ha')
        by_contra hxa'
        rw [Bool.not_eq_false] at hxa'
        have := incomp_trans h (by rwa [incomp_comm] at hxb) hxa'
        simp [Incomp, hba'] at this
      by_cases hxb : Incomp less x b
      · rw [if_pos hxb, if_pos hxb, List.filter_eq_nil_iff.mpr fun a' ha' => by
          simp [hnone a' ha' hxb]]
        simp
      · rw [if_neg hxb, if_neg hxb]
    · rw [List.cons_merge_cons_pos _ _ _ (by simp [hba])]
      rw [List.filter_cons, filter_merge x hA.of_cons hB, List.filter_cons (x := a)]
      split_ifs <;> simp

end Order

end WeakOrder
