import Mathlib.Data.Nat.Bitwise

/-!
# The bits of a 32-bit word

Hardware tables pack a page-aligned address and flag bits into one `uint32_t`, and code reads
and updates them with `&`, `|` and `~`. Here every such word is seen through its bits
(`UInt32.bit`): the bits of `&&&`, `|||`, `^^^` and `~~~` are the Boolean operations of the
operands' bits (`bit_and`, `bit_or`, `bit_xor`, `bit_not`), `1 << k` has bit `k` alone
(`bit_one_shiftLeft`), two words with the same 32 bits are equal (`ext_bit`), and
a mask test `x &&& f != 0` of a one-bit mask `f` is that bit of `x` (`and_bne_zero`). The
page-table lemmas above this are then case analyses on one bit index.
-/

namespace UInt32

/-- Bit `j` of `x`. -/
def bit (x : UInt32) (j : Nat) : Bool := x.toNat.testBit j

@[simp] theorem bit_and (x y : UInt32) (j : Nat) : (x &&& y).bit j = (x.bit j && y.bit j) := by
  simp [bit, UInt32.toNat_and, Nat.testBit_and]

@[simp] theorem bit_or (x y : UInt32) (j : Nat) : (x ||| y).bit j = (x.bit j || y.bit j) := by
  simp [bit, UInt32.toNat_or, Nat.testBit_or]

@[simp] theorem bit_not (x : UInt32) (j : Nat) : (~~~x).bit j = (decide (j < 32) && !x.bit j) := by
  unfold bit
  rw [UInt32.toNat_not, show UInt32.size - 1 - x.toNat = 2 ^ 32 - (x.toNat + 1) by
    have := x.toNat_lt
    simp only [UInt32.size]
    omega]
  exact Nat.testBit_two_pow_sub_succ x.toNat_lt j

@[simp] theorem bit_xor (x y : UInt32) (j : Nat) : (x ^^^ y).bit j = (x.bit j ^^ y.bit j) := by
  simp [bit, UInt32.toNat_xor, Nat.testBit_xor]

@[simp] theorem bit_zero (j : Nat) : (0 : UInt32).bit j = false := by
  simp [bit]

/-- The one-bit mask `1 << k`. -/
theorem bit_one_shiftLeft {k : Nat} (hk : k < 32) (j : Nat) :
    (1 <<< UInt32.ofNat k : UInt32).bit j = decide (j = k) := by
  have hk' : (UInt32.ofNat k).toNat = k := by
    rw [UInt32.toNat_ofNat']
    exact Nat.mod_eq_of_lt (by omega)
  unfold bit
  rw [UInt32.toNat_shiftLeft, hk', Nat.mod_eq_of_lt hk, UInt32.toNat_one, Nat.one_shiftLeft,
    Nat.mod_eq_of_lt (Nat.pow_lt_pow_right (by decide) hk), Nat.testBit_two_pow]
  exact decide_eq_decide.mpr eq_comm

theorem bit_of_le {x : UInt32} {j : Nat} (hj : 32 ≤ j) : x.bit j = false :=
  Nat.testBit_eq_false_of_lt (lt_of_lt_of_le x.toNat_lt (Nat.pow_le_pow_right (by decide) hj))

theorem ext_bit {x y : UInt32} (h : ∀ j < 32, x.bit j = y.bit j) : x = y := by
  apply UInt32.toNat_inj.mp
  apply Nat.eq_of_testBit_eq
  intro j
  by_cases hj : j < 32
  · exact h j hj
  · exact (bit_of_le (x := x) (by omega)).trans (bit_of_le (by omega)).symm

theorem eq_zero_iff_bit {x : UInt32} : x = 0 ↔ ∀ j < 32, x.bit j = false := by
  constructor
  · rintro rfl j _
    exact bit_zero j
  · intro h
    exact ext_bit fun j hj => by rw [h j hj, bit_zero]

theorem and_bne_zero {x f : UInt32} {i : Nat} (hf : ∀ j, f.bit j = decide (j = i)) (hi : i < 32) :
    ((x &&& f) != 0) = x.bit i := by
  cases hx : x.bit i
  · have : x &&& f = 0 := eq_zero_iff_bit.mpr fun j _ => by
      rw [bit_and, hf j]
      by_cases hji : j = i
      · subst hji; simp [hx]
      · simp [hji]
    simp [this]
  · have : x &&& f ≠ 0 := fun h => by
      have := (eq_zero_iff_bit.mp h) i hi
      rw [bit_and, hf i, hx] at this
      simp at this
    simpa using this

/-- A word whose bits below `k` are clear, as its number: a multiple of `2 ^ k`. -/
theorem bit_of_mod_eq_zero {x : UInt32} {k j : Nat} (h : x.toNat % 2 ^ k = 0) (hj : j < k) :
    x.bit j = false := by
  unfold bit
  have := Nat.testBit_mod_two_pow x.toNat k j
  rw [h, Nat.zero_testBit, decide_eq_true hj, Bool.true_and] at this
  exact this.symm

/-- The bits of a constant, read off its 32 low bits. -/
theorem bit_eq_of_fin {c : UInt32} {p : Nat → Bool} (h : ∀ j : Fin 32, c.bit j = p j)
    (hp : ∀ j, 32 ≤ j → p j = false) (j : Nat) : c.bit j = p j := by
  by_cases hj : j < 32
  · exact h ⟨j, hj⟩
  · rw [bit_of_le (by omega), hp j (by omega)]

end UInt32
