import Mathlib.Data.List.Induction
import Mathlib.Tactic.Ring

/-!
# Octal numerals in ASCII

`Octal.digits w v` is the text of `printf ("%0wo", v)` for a `v` below `8 ^ w`: the `w` low
octal digits of `v`, most significant first. `Octal.value` reads such a text back, and
`value_digits` is the round trip. `foldl_step` says how a left-to-right reader that keeps
`acc * 8 + d` after each digit ends up, which is the shape of every octal field parser.
-/

namespace Octal

/-- The ASCII digit of `d < 8`. -/
def digit (d : Nat) : UInt8 := (48 + d).toUInt8

/-- An ASCII octal digit. -/
def IsDigit (c : UInt8) : Prop := 48 ≤ c.toNat ∧ c.toNat ≤ 55

instance (c : UInt8) : Decidable (IsDigit c) := inferInstanceAs (Decidable (_ ∧ _))

/-- The `w` low octal digits of `v`, most significant first. -/
def digits : Nat → Nat → List UInt8
  | 0, _ => []
  | w + 1, v => digits w (v / 8) ++ [digit (v % 8)]

/-- One step of a left-to-right reader. -/
def step (acc : Nat) (c : UInt8) : Nat := acc * 8 + (c.toNat - 48)

/-- The value of an octal text, most significant digit first. -/
def value (ds : List UInt8) : Nat := ds.foldl step 0

@[simp] theorem length_digits (w v : Nat) : (digits w v).length = w := by
  induction w generalizing v with
  | zero => rfl
  | succ w ih => simp [digits, ih]

theorem toNat_digit {d : Nat} (h : d < 8) : (digit d).toNat = 48 + d := by
  simp only [digit, Nat.toUInt8, UInt8.toNat_ofNat']
  omega

theorem isDigit_of_mem_digits {w v : Nat} {c : UInt8} (h : c ∈ digits w v) : IsDigit c := by
  induction w generalizing v with
  | zero => simp [digits] at h
  | succ w ih =>
    simp only [digits, List.mem_append, List.mem_singleton] at h
    rcases h with h | rfl
    · exact ih h
    · have hd := toNat_digit (Nat.mod_lt v (by decide : 8 > 0))
      simp only [IsDigit, hd]
      omega

theorem foldl_step (acc : Nat) (ds : List UInt8) :
    ds.foldl step acc = acc * 8 ^ ds.length + value ds := by
  induction ds generalizing acc with
  | nil => simp [value]
  | cons c ds ih =>
    have h₀ : value (c :: ds) = (c.toNat - 48) * 8 ^ ds.length + value ds := by
      show (c :: ds).foldl step 0 = _
      rw [List.foldl_cons, ih, step]
      ring
    rw [List.foldl_cons, ih, h₀, step, List.length_cons, Nat.pow_succ]
    ring

/-- The round trip: the text of the `w` low digits of `v` reads back as `v mod 8 ^ w`. -/
theorem value_digits (w v : Nat) : value (digits w v) = v % 8 ^ w := by
  induction w generalizing v with
  | zero => simp [digits, value, Nat.mod_one]
  | succ w ih =>
    have hd := toNat_digit (Nat.mod_lt v (by decide : 8 > 0))
    simp only [digits, value, List.foldl_append, List.foldl_cons, List.foldl_nil]
    rw [← value, ih, step, hd, Nat.pow_succ', Nat.add_sub_cancel_left, Nat.mod_mul]
    omega

/-- The value of a text is below `8` to its length. -/
theorem value_lt {ds : List UInt8} (h : ∀ c ∈ ds, IsDigit c) : value ds < 8 ^ ds.length := by
  induction ds using List.reverseRecOn with
  | nil => simp [value]
  | append_singleton ds c ih =>
    have hc := h c (by simp)
    have hds := ih fun c hc => h c (by simp [hc])
    simp only [IsDigit] at hc
    simp only [value, List.foldl_append, List.foldl_cons, List.foldl_nil]
    rw [← value, step, List.length_append, List.length_singleton, Nat.pow_succ]
    omega

end Octal
