import Mathlib.Data.Nat.Bitwise

/-!
# Fields packed into a word

Hardware tables (segment descriptors, interrupt gates, the operands of `lgdt` and `lidt`) pack
several small fields into one word with `|`, `<<` and masks, and the processor reads each field
back from its bit positions. `field x lo w` is the `w` bits of `x` from bit `lo` up.

Two facts turn packing code into arithmetic. An `|` with a value shifted above every bit of the
other operand, or with a value below every bit of it, is `+` (`or_shiftLeft_eq_add`,
`or_eq_add_of_dvd`), and a mask of consecutive bits is a `/` and a `%` (`and_shifted_mask`). A word
built so is a sum `a + b * 2 ^ k` with `a < 2 ^ k`, and a field of it lies in `a` or in `b`
(`field_add_mul_of_ge`, `field_add_mul_of_le`). `simp` with these lemmas and `omega` as its
discharger reads each field of a packed word back.
-/

namespace BitField

/-- The `w` bits of `x` from bit `lo` up. -/
def field (x lo w : ℕ) : ℕ := x / 2 ^ lo % 2 ^ w

theorem field_lt (x lo w : ℕ) : field x lo w < 2 ^ w := Nat.mod_lt _ (Nat.two_pow_pos w)

theorem field_of_lt {a w : ℕ} (h : a < 2 ^ w) : field a 0 w = a := by
  simp [field, Nat.mod_eq_of_lt h]

theorem testBit_eq_field (x i : ℕ) : x.testBit i = decide (field x i 1 = 1) := by
  rw [Nat.testBit_eq_decide_div_mod_eq, field, Nat.pow_one]

/-- A field above bit `k` of `a + b * 2 ^ k` is a field of `b`. -/
theorem field_add_mul_of_le {a k lo : ℕ} (ha : a < 2 ^ k) (h : k ≤ lo) (b w : ℕ) :
    field (a + b * 2 ^ k) lo w = field b (lo - k) w := by
  have hsplit : 2 ^ lo = 2 ^ k * 2 ^ (lo - k) := by rw [← Nat.pow_add, Nat.add_sub_cancel' h]
  have hdiv : (a + b * 2 ^ k) / 2 ^ k = b := by
    rw [Nat.add_mul_div_right _ _ (Nat.two_pow_pos k), Nat.div_eq_of_lt ha, Nat.zero_add]
  unfold field
  rw [hsplit, ← Nat.div_div_eq_div_mul, hdiv]

/-- A field below bit `k` of `a + b * 2 ^ k` is a field of `a`. -/
theorem field_add_mul_of_ge {k lo w : ℕ} (h : lo + w ≤ k) (a b : ℕ) :
    field (a + b * 2 ^ k) lo w = field a lo w := by
  have hk : b * 2 ^ k = b * 2 ^ (k - lo - w) * 2 ^ w * 2 ^ lo := by
    rw [Nat.mul_assoc, Nat.mul_assoc, ← Nat.pow_add, ← Nat.pow_add]
    congr 2
    omega
  unfold field
  rw [hk, Nat.add_mul_div_right _ _ (Nat.two_pow_pos lo), Nat.add_mul_mod_self_right]

/-- Or-ing in a value shifted above every bit of `a` adds it. -/
theorem or_shiftLeft_eq_add {a k : ℕ} (h : a < 2 ^ k) (b : ℕ) :
    a ||| b <<< k = a + b * 2 ^ k := by
  rw [Nat.or_comm, ← Nat.shiftLeft_add_eq_or_of_lt h, Nat.shiftLeft_eq, Nat.add_comm]

/-- Or-ing in a value below every bit of `a` adds it. -/
theorem or_eq_add_of_dvd {a c n : ℕ} (hc : c < 2 ^ n) (ha : 2 ^ n ∣ a) : a ||| c = a + c := by
  obtain ⟨q, rfl⟩ := ha
  exact (Nat.two_pow_add_eq_or_of_lt hc q).symm

/-- A mask of `w` consecutive bits from bit `k` keeps that field in place. -/
theorem and_shifted_mask (x k w : ℕ) :
    x &&& (2 ^ w - 1) <<< k = x / 2 ^ k % 2 ^ w * 2 ^ k := by
  apply Nat.eq_of_testBit_eq
  intro j
  rw [Nat.testBit_and, Nat.testBit_shiftLeft, Nat.testBit_two_pow_sub_one, Nat.testBit_mul_two_pow,
    Nat.testBit_mod_two_pow, Nat.testBit_div_two_pow]
  by_cases hj : k ≤ j
  · simp [hj, Nat.sub_add_cancel hj, Bool.and_comm]
  · simp [hj]

/-- A left shift truncated to `m + k` bits keeps the low `m` bits of the value. -/
theorem shiftLeft_mod_two_pow (x m k : ℕ) : x <<< k % 2 ^ (m + k) = (x % 2 ^ m) <<< k := by
  rw [Nat.shiftLeft_eq, Nat.shiftLeft_eq, Nat.pow_add, Nat.mul_mod_mul_right]

end BitField
