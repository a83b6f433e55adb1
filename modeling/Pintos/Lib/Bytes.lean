import Mathlib.Data.List.Basic
import Mathlib.Tactic.Common
import Mathlib.Algebra.Group.Nat.Defs

/-!
# Little-endian byte strings, and copies into a buffer

A word stored in memory or on disk on a little-endian machine is its bytes, least significant
first. `leBytes n w` is what a store of an `n`-byte `w` writes and `leValue` what a load reads
back; `leValue_leBytes` is the round trip for a value that fits.

`overwrite l ofs src` is the buffer `l` after a `memcpy` of `src` to offset `ofs`. The lemmas
say what a later read of a slice sees: the copy where it covers the slice, the old bytes where
it misses it, and two copies end to end are one.
-/

namespace Pintos

/-- The `n` low bytes of `w`, least significant first. -/
def leBytes : Nat → Nat → List UInt8
  | 0, _ => []
  | n + 1, w => (w % 256).toUInt8 :: leBytes n (w / 256)

/-- The number whose bytes, least significant first, are `bs`. -/
def leValue : List UInt8 → Nat
  | [] => 0
  | b :: bs => b.toNat + 256 * leValue bs

@[simp] theorem length_leBytes (n w : Nat) : (leBytes n w).length = n := by
  induction n generalizing w with
  | zero => rfl
  | succ n ih => simp [leBytes, ih]

theorem leValue_leBytes (n w : Nat) (h : w < 256 ^ n) : leValue (leBytes n w) = w := by
  induction n generalizing w with
  | zero => simp at h; simp [leBytes, leValue, h]
  | succ n ih =>
    have hw : w / 256 < 256 ^ n := by
      rw [Nat.div_lt_iff_lt_mul (by decide)]
      simpa [Nat.pow_succ] using h
    have hb : ((w % 256).toUInt8).toNat = w % 256 := by simp
    simp only [leBytes, leValue, ih _ hw, hb]
    omega

theorem leValue_lt (bs : List UInt8) : leValue bs < 256 ^ bs.length := by
  induction bs with
  | nil => simp [leValue]
  | cons b bs ih =>
    have hb := b.toNat_lt
    simp only [leValue, List.length_cons, Nat.pow_succ]
    omega

/-- The other round trip: storing the value that bytes `bs` hold writes `bs` back. -/
theorem leBytes_leValue (bs : List UInt8) : leBytes bs.length (leValue bs) = bs := by
  induction bs with
  | nil => rfl
  | cons b bs ih =>
    have hb := b.toNat_lt
    have hlow : (b.toNat + 256 * leValue bs) % 256 = b.toNat := by omega
    have hhigh : (b.toNat + 256 * leValue bs) / 256 = leValue bs := by omega
    simp only [List.length_cons, leBytes, leValue, hlow, hhigh, ih, UInt8.ofNat_toNat]

/-! ## Copying into a buffer -/

section Overwrite

variable {α : Type} {l src : List α} {ofs : Nat}

/-- `l` with `src` copied over it from index `ofs`. -/
def overwrite (l : List α) (ofs : Nat) (src : List α) : List α :=
  l.take ofs ++ src ++ l.drop (ofs + src.length)

theorem length_overwrite (h : ofs + src.length ≤ l.length) :
    (overwrite l ofs src).length = l.length := by
  simp [overwrite]; omega

theorem getElem?_overwrite (h : ofs + src.length ≤ l.length) (p : Nat) :
    (overwrite l ofs src)[p]? = if ofs ≤ p ∧ p < ofs + src.length then src[p - ofs]? else l[p]? := by
  have ht : (l.take ofs).length = ofs := by simp; omega
  unfold overwrite
  rw [List.append_assoc, List.getElem?_append, ht]
  by_cases h₁ : p < ofs
  · rw [if_pos h₁, if_neg (by omega), List.getElem?_take, if_pos h₁]
  · rw [if_neg h₁, List.getElem?_append]
    by_cases h₂ : p - ofs < src.length
    · rw [if_pos h₂, if_pos (by omega)]
    · rw [if_neg h₂, if_neg (by omega), List.getElem?_drop]
      congr 1; omega

@[simp] theorem overwrite_nil (l : List α) (ofs : Nat) : overwrite l ofs [] = l := by
  simp [overwrite]

/-- Two copies end to end are the copy of both. -/
theorem overwrite_append {a b : List α} (h : ofs + a.length + b.length ≤ l.length) :
    overwrite (overwrite l ofs a) (ofs + a.length) b = overwrite l ofs (a ++ b) := by
  have ha : ofs + a.length ≤ l.length := by omega
  apply List.ext_getElem?
  intro p
  rw [getElem?_overwrite (by rw [length_overwrite ha]; omega), getElem?_overwrite ha,
    getElem?_overwrite (by simp; omega), List.getElem?_append, List.length_append]
  split_ifs <;> first | omega | (congr 1; omega) | rfl

theorem take_drop_overwrite_of_disjoint {q m : Nat} (h : ofs + src.length ≤ l.length)
    (hq : q + m ≤ ofs ∨ ofs + src.length ≤ q) :
    ((overwrite l ofs src).drop q).take m = (l.drop q).take m := by
  apply List.ext_getElem?
  intro p
  simp only [List.getElem?_take, List.getElem?_drop, getElem?_overwrite h]
  split_ifs <;> first | omega | rfl

theorem take_drop_overwrite_self (h : ofs + src.length ≤ l.length) :
    ((overwrite l ofs src).drop ofs).take src.length = src := by
  apply List.ext_getElem?
  intro p
  simp only [List.getElem?_take, List.getElem?_drop, getElem?_overwrite h]
  split_ifs with h₁ h₂
  · congr 1; omega
  · omega
  · simp [List.getElem?_eq_none (Nat.le_of_not_lt h₁)]

/-- A slice of `size` elements is its first `c` and the `size - c` after them. -/
theorem take_drop_eq_append (l : List α) {o c size : Nat} (h : c ≤ size) :
    (l.drop o).take size = (l.drop o).take c ++ (l.drop (o + c)).take (size - c) := by
  obtain ⟨k, rfl⟩ := Nat.exists_eq_add_of_le h
  rw [List.take_add, List.drop_drop]
  simp

/-- A copy of the first `min k (L - ofs)` bytes of a source of at least `k` bytes into a list of
length `L`, cut at its end: the bytes it covers come from the source, the others stay. -/
theorem getElem?_overwrite_take {L k : Nat} (hl : l.length = L) (hk : k ≤ src.length) (p : Nat) :
    (overwrite l ofs (src.take (min k (L - ofs))))[p]? =
      if ofs ≤ p ∧ p < ofs + min k (L - ofs) then src[p - ofs]? else l[p]? := by
  by_cases hofs : ofs ≤ L
  · have hlen : (src.take (min k (L - ofs))).length = min k (L - ofs) := by simp; omega
    rw [getElem?_overwrite (by rw [hlen]; omega), hlen]
    split_ifs with hp
    · rw [List.getElem?_take, if_pos (by omega)]
    · rfl
  · -- past the end nothing is copied
    have hn : min k (L - ofs) = 0 := by omega
    rw [hn, List.take_zero, overwrite_nil, if_neg (by omega)]

end Overwrite

end Pintos
