import Mathlib.Logic.Equiv.Basic
import Mathlib.Algebra.Group.End

/-!
# Comparison functions and rearranged arrays

A C comparison function returns a `strcmp`-type result: negative, zero or positive. It orders
its type as a total preorder when the sign is antisymmetric and "at most zero" is transitive
(`StrcmpOrder`). An array is a function from indices; `Sorted compare a n` says the first `n`
entries are in order, and `PermOn n a b` that `b` is `a` with its first `n` entries rearranged
and the others left in place.
-/

namespace Compare

variable {α : Type*} {compare : α → α → Int}

/-- `compare` returns a `strcmp`-type result for a total preorder. -/
structure StrcmpOrder (compare : α → α → Int) : Prop where
  neg_iff : ∀ a b, compare a b < 0 ↔ 0 < compare b a
  le_trans : ∀ a b c, compare a b ≤ 0 → compare b c ≤ 0 → compare a c ≤ 0

namespace StrcmpOrder

variable (h : StrcmpOrder compare)
include h

theorem le_of_pos {a b : α} (hab : 0 < compare a b) : compare b a ≤ 0 :=
  ((h.neg_iff b a).mpr hab).le

theorem refl (a : α) : compare a a = 0 := by
  have := h.neg_iff a a
  omega

theorem total (a b : α) : compare a b ≤ 0 ∨ compare b a ≤ 0 := by
  rcases le_or_gt (compare a b) 0 with hab | hab
  · exact .inl hab
  · exact .inr (h.le_of_pos hab)

theorem zero_comm {a b : α} (hab : compare a b = 0) : compare b a = 0 := by
  have h₁ := h.neg_iff a b
  have h₂ := h.neg_iff b a
  omega

theorem lt_of_lt_of_le {a b c : α} (hab : compare a b < 0) (hbc : compare b c ≤ 0) :
    compare a c < 0 := by
  by_contra hac
  have hca : compare c a ≤ 0 := by
    rcases Int.lt_or_eq_of_le (Int.not_lt.mp hac) with hac | hac
    · exact h.le_of_pos hac
    · exact (h.zero_comm hac.symm).le
  have hba := h.le_trans b c a hbc hca
  have := (h.neg_iff a b).mp hab
  omega

theorem lt_of_le_of_lt {a b c : α} (hab : compare a b ≤ 0) (hbc : compare b c < 0) :
    compare a c < 0 := by
  by_contra hac
  have hca : compare c a ≤ 0 := by
    rcases Int.lt_or_eq_of_le (Int.not_lt.mp hac) with hac | hac
    · exact h.le_of_pos hac
    · exact (h.zero_comm hac.symm).le
  have hcb := h.le_trans c a b hca hab
  have := (h.neg_iff b c).mp hbc
  omega

end StrcmpOrder

/-- The first `n` entries of `a` are in order. -/
def Sorted (compare : α → α → Int) (a : ℕ → α) (n : ℕ) : Prop :=
  ∀ i j, i < j → j < n → compare (a i) (a j) ≤ 0

theorem Sorted.le_of_le {a : ℕ → α} {n : ℕ} (hs : Sorted compare a n) (h : StrcmpOrder compare)
    {i j : ℕ} (hij : i ≤ j) (hj : j < n) : compare (a i) (a j) ≤ 0 := by
  rcases Nat.lt_or_eq_of_le hij with hij | rfl
  · exact hs i j hij hj
  · exact (h.refl (a i)).le

/-- `b` is `a` with its first `n` entries rearranged. -/
def PermOn (n : ℕ) (a b : ℕ → α) : Prop :=
  ∃ σ : Equiv.Perm ℕ, (∀ k, n ≤ k → σ k = k) ∧ b = a ∘ σ

namespace PermOn

variable {n : ℕ} {a b c : ℕ → α}

theorem refl (n : ℕ) (a : ℕ → α) : PermOn n a a := ⟨1, fun _ _ => rfl, rfl⟩

theorem trans (hab : PermOn n a b) (hbc : PermOn n b c) : PermOn n a c := by
  obtain ⟨σ, hσ, rfl⟩ := hab
  obtain ⟨τ, hτ, rfl⟩ := hbc
  refine ⟨σ * τ, fun k hk => ?_, rfl⟩
  rw [Equiv.Perm.coe_mul, Function.comp_apply, hτ k hk, hσ k hk]

/-- Exchanging two of the first `n` entries. -/
theorem swap (a : ℕ → α) {i j : ℕ} (hi : i < n) (hj : j < n) :
    PermOn n a (a ∘ Equiv.swap i j) :=
  ⟨Equiv.swap i j, fun k hk => Equiv.swap_apply_of_ne_of_ne (by omega) (by omega), rfl⟩

theorem mono {m : ℕ} (hab : PermOn n a b) (hnm : n ≤ m) : PermOn m a b := by
  obtain ⟨σ, hσ, rfl⟩ := hab
  exact ⟨σ, fun k hk => hσ k (by omega), rfl⟩

theorem apply_of_le (hab : PermOn n a b) {k : ℕ} (hk : n ≤ k) : b k = a k := by
  obtain ⟨σ, hσ, rfl⟩ := hab
  rw [Function.comp_apply, hσ k hk]

/-- Each of the first `n` entries of `b` is one of the first `n` of `a`. -/
theorem exists_of_lt (hab : PermOn n a b) {k : ℕ} (hk : k < n) : ∃ k' < n, b k = a k' := by
  obtain ⟨σ, hσ, rfl⟩ := hab
  refine ⟨σ k, ?_, rfl⟩
  by_contra hge
  -- `σ` fixes `σ k`, so it sends both `k` and `σ k` there
  have := σ.injective (hσ (σ k) (by omega))
  omega

end PermOn

end Compare
