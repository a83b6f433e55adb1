import Mathlib.Tactic.Ring
import Mathlib.Tactic.Positivity
import Mathlib.Tactic.Linarith

/-!
# 64-bit division on a 32-bit machine (`lib/arithmetic.c`)

GCC calls `__udivdi3`, `__umoddi3`, `__divdi3` and `__moddi3` for 64-bit `/` and `%`, and
Pintos supplies them. Values are numbers with the width of their C type made explicit: a
`uint64_t` result is taken `% 2 ^ 64`, a conversion to `uint32_t` or `int32_t` keeps the low 32
bits. `divl` returns `none` where the instruction traps, when the quotient of its 64-bit dividend
does not fit in 32 bits.

`udiv64` is exact and never traps (`udiv64_eq`): the small-divisor branch by the identity in its
comment, the large-divisor branch because the normalised estimate is the quotient or one more
(`estimate_bounds`). The remainders are not: `umod64` returns `uint32_t` and `smod64` returns
`int32_t`, so `__umoddi3` and `__moddi3` keep only the low 32 bits of the remainder
(`umoddi3_eq`, `moddi3_eq`).
-/

set_option linter.style.nameCheck false

namespace Pintos

/-- `divl (n, d)`: the quotient of the 64-bit `n` by the 32-bit `d`, or `none` where the
instruction traps with `#DE`. -/
def divl (n d : Nat) : Option Nat :=
  if d = 0 ∨ 2 ^ 32 ≤ n / d then none else some (n / d)

/-- One test of `nlz`: `if (x <= bound) { n += k; x <<= k; }`, on a `uint32_t` `x`. -/
def nlzStep (k bound : Nat) (nx : Nat × Nat) : Nat × Nat :=
  if nx.2 ≤ bound then (nx.1 + k, nx.2 * 2 ^ k % 2 ^ 32) else nx

/-- `nlz (x)`: the number of leading zero bits of a nonzero `uint32_t`. -/
def nlz (x : Nat) : Nat :=
  let nx := nlzStep 2 0x3FFFFFFF <| nlzStep 4 0x0FFFFFFF <| nlzStep 8 0x00FFFFFF <|
    nlzStep 16 0x0000FFFF (0, x)
  if nx.2 ≤ 0x7FFFFFFF then nx.1 + 1 else nx.1

/-- `a - b` on `uint64_t`. -/
def sub64 (a b : Nat) : Nat := (a + 2 ^ 64 - b % 2 ^ 64) % 2 ^ 64

/-- `udiv64 (n, d)`. -/
def udiv64 (n d : Nat) : Option Nat :=
  if d / 2 ^ 32 = 0 then
    -- `d` fits in 32 bits: divide the high word, then the remainder with the low word
    let b := 2 ^ 32
    let n1 := n / 2 ^ 32
    let n0 := n % 2 ^ 32
    let d0 := d % 2 ^ 32
    (divl ((b * (n1 % d0) + n0) % 2 ^ 64) d0).map fun q => (q + b * (n1 / d0)) % 2 ^ 64
  else if n < d then some 0
  else
    let d1 := d / 2 ^ 32
    let s := nlz d1
    (divl (n / 2) (d * 2 ^ s % 2 ^ 64 / 2 ^ 32)).map fun q₁ =>
      let q := q₁ / 2 ^ (31 - s)
      if sub64 n (sub64 q 1 * d % 2 ^ 64) < d then sub64 q 1 else q

/-- `umod64 (n, d)`, whose result type is `uint32_t`. -/
def umod64 (n d : Nat) : Option Nat :=
  (udiv64 n d).map fun q => sub64 n (d * q % 2 ^ 64) % 2 ^ 32

/-- `__udivdi3`. -/
def __udivdi3 (n d : Nat) : Option Nat := udiv64 n d

/-- `__umoddi3`. -/
def __umoddi3 (n d : Nat) : Option Nat := umod64 n d

/-- An `int64_t` as the `uint64_t` with the same bits. -/
def toU64 (x : Int) : Nat := (x % 2 ^ 64).toNat

/-- A `uint64_t` as the `int64_t` with the same bits. -/
def toI64 (x : Nat) : Int := if x < 2 ^ 63 then x else (x : Int) - 2 ^ 64

/-- The low 32 bits of an `int64_t`, as an `int32_t`. -/
def toI32 (x : Int) : Int :=
  let w := (x % 2 ^ 32).toNat
  if w < 2 ^ 31 then w else (w : Int) - 2 ^ 32

/-- `sdiv64 (n, d)`: divide the magnitudes, then negate the quotient when the signs differ;
the negation of an `int64_t` wraps. -/
def sdiv64 (n d : Int) : Option Int :=
  let n_abs := if 0 ≤ n then toU64 n else sub64 0 (toU64 n)
  let d_abs := if 0 ≤ d then toU64 d else sub64 0 (toU64 d)
  (udiv64 n_abs d_abs).map fun q_abs =>
    if (n < 0) = (d < 0) then toI64 q_abs else toI64 (sub64 0 q_abs)

/-- `smod64 (n, d)`, whose result type is `int32_t`. -/
def smod64 (n d : Int) : Option Int :=
  (sdiv64 n d).map fun q => toI32 (toI64 (toU64 (n - d * q)))

/-- `__divdi3`. -/
def __divdi3 (n d : Int) : Option Int := sdiv64 n d

/-- `__moddi3`. -/
def __moddi3 (n d : Int) : Option Int := smod64 n d

/-! ## Leading zeros -/

/-- One test of `nlz` keeps `x` the input shifted left by the count so far, and leaves it at
least `bound + 1` when the shift cannot overflow. -/
theorem nlzStep_spec {k bound x : Nat} {nx : Nat × Nat} (hb : (bound + 1) * 2 ^ k = 2 ^ 32)
    (hy : nx.2 = x * 2 ^ nx.1) (hlo : bound + 1 ≤ nx.2 * 2 ^ k) (hhi : nx.2 < 2 ^ 32) :
    (nlzStep k bound nx).2 = x * 2 ^ (nlzStep k bound nx).1 ∧
      bound + 1 ≤ (nlzStep k bound nx).2 ∧ (nlzStep k bound nx).2 < 2 ^ 32 := by
  unfold nlzStep
  split
  · rename_i hle
    have hk : 0 < 2 ^ k := by positivity
    have hlt : nx.2 * 2 ^ k < 2 ^ 32 := by
      calc nx.2 * 2 ^ k ≤ bound * 2 ^ k := Nat.mul_le_mul_right _ hle
        _ < (bound + 1) * 2 ^ k := Nat.mul_lt_mul_of_pos_right (Nat.lt_succ_self _) hk
        _ = 2 ^ 32 := hb
    simp only [Nat.mod_eq_of_lt hlt]
    exact ⟨by rw [hy, pow_add, mul_assoc], hlo, hlt⟩
  · exact ⟨hy, by omega, hhi⟩

/-- `nlz` normalises: shifting a nonzero word left by `nlz x` sets its top bit and loses none. -/
theorem nlz_spec {x : Nat} (h0 : 0 < x) (h : x < 2 ^ 32) :
    nlz x ≤ 31 ∧ 2 ^ 31 ≤ x * 2 ^ nlz x ∧ x * 2 ^ nlz x < 2 ^ 32 := by
  obtain ⟨e₁, l₁, h₁⟩ := @nlzStep_spec 16 0x0000FFFF x (0, x) (by norm_num) (by simp)
    (by simp only; omega) h
  obtain ⟨e₂, l₂, h₂⟩ := @nlzStep_spec 8 0x00FFFFFF x _ (by norm_num) e₁ (by omega) h₁
  obtain ⟨e₃, l₃, h₃⟩ := @nlzStep_spec 4 0x0FFFFFFF x _ (by norm_num) e₂ (by omega) h₂
  obtain ⟨e₄, l₄, h₄⟩ := @nlzStep_spec 2 0x3FFFFFFF x _ (by norm_num) e₃ (by omega) h₃
  unfold nlz
  dsimp only
  generalize nlzStep 2 0x3FFFFFFF (nlzStep 4 0x0FFFFFFF (nlzStep 8 0x00FFFFFF
    (nlzStep 16 0x0000FFFF (0, x)))) = nx at e₄ l₄ h₄ ⊢
  obtain ⟨n, y⟩ := nx
  simp only at e₄ l₄ h₄ ⊢
  subst e₄
  clear e₁ l₁ h₁ e₂ l₂ h₂ e₃ l₃ h₃
  have hpow : 2 ^ n ≤ x * 2 ^ n := Nat.le_mul_of_pos_left _ h0
  split
  · -- the top bit is still clear: one more leading zero
    rename_i htop
    have hlt : 2 ^ n < 2 ^ 31 := by omega
    have hn31 : n < 31 := (Nat.pow_lt_pow_iff_right (by norm_num)).mp hlt
    have hs : x * 2 ^ (n + 1) = x * 2 ^ n * 2 := by ring
    exact ⟨by omega, by rw [hs]; omega, by rw [hs]; omega⟩
  · have hlt : 2 ^ n < 2 ^ 32 := by omega
    have hn32 : n < 32 := (Nat.pow_lt_pow_iff_right (by norm_num)).mp hlt
    exact ⟨by omega, by omega, h₄⟩

/-! ## `uint64_t` subtraction -/

theorem sub64_of_le {a b : Nat} (hb : b ≤ a) (ha : a < 2 ^ 64) : sub64 a b = a - b := by
  unfold sub64
  rw [Nat.mod_eq_of_lt (by omega : b < 2 ^ 64),
    show a + 2 ^ 64 - b = a - b + 2 ^ 64 by omega, Nat.add_mod_right, Nat.mod_eq_of_lt (by omega)]

/-! ## The quotient estimate -/

/-- Dividing by a slightly smaller divisor `w` overshoots the quotient by at most one when the
error `u * (v - w)` stays below `v * w`. -/
theorem div_le_div_add_one {u v w : Nat} (hw0 : 0 < w) (hw : w ≤ v)
    (herr : u * (v - w) < v * w) : u / w ≤ u / v + 1 := by
  have hv0 : 0 < v := lt_of_lt_of_le hw0 hw
  set q := u / w with hq
  have hqw : q * w ≤ u := Nat.div_mul_le_self u w
  -- the overshoot times the gap is below `v`
  have hgap : q * (v - w) < v := by
    have : q * (v - w) * w < v * w :=
      calc q * (v - w) * w = q * w * (v - w) := by ring
        _ ≤ u * (v - w) := Nat.mul_le_mul_right _ hqw
        _ < v * w := herr
    exact Nat.lt_of_mul_lt_mul_right this
  have hqv : q * v < u + v := by
    have hsplit : q * v = q * w + q * (v - w) := by
      rw [← Nat.mul_add, Nat.add_sub_cancel' hw]
    omega
  have : q - 1 ≤ u / v := by
    rw [Nat.le_div_iff_mul_le hv0, Nat.sub_mul, one_mul]
    omega
  omega

/-- The estimate of the large-divisor branch: with the top word `v1` of the normalised divisor
and `2 * a = 2 ^ (32 - s)`, the dividend over `w = v1 * (2 * a)` is the quotient or one more. -/
theorem estimate_bounds {u v v1 a : Nat} (hu : u < 2 ^ 64) (hv1 : 2 ^ 31 ≤ v1) (ha : 0 < a)
    (hw : v1 * (2 * a) ≤ v) (hclose : v < v1 * (2 * a) + 2 * a) :
    u / v ≤ u / (v1 * (2 * a)) ∧ u / (v1 * (2 * a)) ≤ u / v + 1 := by
  have hw0 : 0 < v1 * (2 * a) := by positivity
  refine ⟨Nat.div_le_div_left hw hw0, div_le_div_add_one hw0 hw ?_⟩
  -- `u (v - w) ≤ (2^64 - 1)(2a - 1) < 2^64 a^2 ≤ w^2 ≤ v w`
  have hgap : v - v1 * (2 * a) ≤ 2 * a - 1 := by omega
  have hsq : 2 * a - 1 ≤ a * a := by
    obtain ⟨b, rfl⟩ : ∃ b, a = b + 1 := ⟨a - 1, by omega⟩
    have : (b + 1) * (b + 1) = b * b + 2 * b + 1 := by ring
    omega
  have hw32 : 2 ^ 32 * a ≤ v1 * (2 * a) :=
    calc 2 ^ 32 * a = 2 ^ 31 * (2 * a) := by ring
      _ ≤ v1 * (2 * a) := Nat.mul_le_mul_right _ hv1
  calc u * (v - v1 * (2 * a)) ≤ u * (2 * a - 1) := Nat.mul_le_mul_left _ hgap
    _ < 2 ^ 64 * (a * a) := by
        have : u * (2 * a - 1) < 2 ^ 64 * (2 * a - 1) :=
          Nat.mul_lt_mul_of_pos_right hu (by omega)
        calc u * (2 * a - 1) < 2 ^ 64 * (2 * a - 1) := this
          _ ≤ 2 ^ 64 * (a * a) := Nat.mul_le_mul_left _ hsq
    _ = (2 ^ 32 * a) * (2 ^ 32 * a) := by ring
    _ ≤ (v1 * (2 * a)) * (v1 * (2 * a)) := Nat.mul_le_mul hw32 hw32
    _ ≤ v * (v1 * (2 * a)) := Nat.mul_le_mul_right _ hw

/-! ## `udiv64` -/

theorem divl_eq {n d : Nat} (hd : 0 < d) (h : n < 2 ^ 32 * d) : divl n d = some (n / d) := by
  have : n / d < 2 ^ 32 := (Nat.div_lt_iff_lt_mul hd).mpr h
  simp only [divl]
  rw [if_neg (by omega)]

/-- The small-divisor branch: the identity in the source's comment, and the remainder step's
dividend is below `2 ^ 32 * d`, so `divl` does not trap. -/
theorem udiv64_of_lt {n d : Nat} (hn : n < 2 ^ 64) (hd0 : 0 < d) (hd : d < 2 ^ 32) :
    udiv64 n d = some (n / d) := by
  unfold udiv64
  rw [if_pos (Nat.div_eq_of_lt hd)]
  dsimp only
  rw [Nat.mod_eq_of_lt hd]
  have hn0 : n % 2 ^ 32 < 2 ^ 32 := Nat.mod_lt _ (by norm_num)
  have hr : n / 2 ^ 32 % d < d := Nat.mod_lt _ hd0
  have harg : 2 ^ 32 * (n / 2 ^ 32 % d) + n % 2 ^ 32 < 2 ^ 32 * d := by
    have : 2 ^ 32 * (n / 2 ^ 32 % d + 1) ≤ 2 ^ 32 * d := Nat.mul_le_mul_left _ hr
    omega
  have harg64 : 2 ^ 32 * (n / 2 ^ 32 % d) + n % 2 ^ 32 < 2 ^ 64 :=
    lt_of_lt_of_le harg (by
      calc 2 ^ 32 * d ≤ 2 ^ 32 * 2 ^ 32 := Nat.mul_le_mul_left _ hd.le
        _ = 2 ^ 64 := by norm_num)
  rw [Nat.mod_eq_of_lt harg64, divl_eq hd0 harg, Option.map_some]
  -- `n = d * (b [n1 / d]) + (b [n1 % d] + n0)`
  have hsplit : n = d * (2 ^ 32 * (n / 2 ^ 32 / d)) + (2 ^ 32 * (n / 2 ^ 32 % d) + n % 2 ^ 32) := by
    calc n = 2 ^ 32 * (n / 2 ^ 32) + n % 2 ^ 32 := (Nat.div_add_mod n _).symm
      _ = 2 ^ 32 * (d * (n / 2 ^ 32 / d) + n / 2 ^ 32 % d) + n % 2 ^ 32 := by
          rw [Nat.div_add_mod (n / 2 ^ 32) d]
      _ = _ := by ring
  have hq : n / d = 2 ^ 32 * (n / 2 ^ 32 / d) + (2 ^ 32 * (n / 2 ^ 32 % d) + n % 2 ^ 32) / d := by
    conv_lhs => rw [hsplit]
    exact Nat.mul_add_div hd0 _ _
  have hlt : n / d < 2 ^ 64 := lt_of_le_of_lt (Nat.div_le_self n d) hn
  rw [Nat.add_comm, ← hq, Nat.mod_eq_of_lt hlt]

/-- The last step of the large-divisor branch turns an estimate that is the quotient or one more
into the quotient. -/
theorem udiv64_correction {n d q : Nat} (hn : n < 2 ^ 64) (hd : 2 ≤ d) (hnd : d ≤ n)
    (hlo : n / d ≤ q) (hhi : q ≤ n / d + 1) :
    (if sub64 n (sub64 q 1 * d % 2 ^ 64) < d then sub64 q 1 else q) = n / d := by
  have hd0 : 0 < d := by omega
  have hQ : 1 ≤ n / d := (Nat.one_le_div_iff hd0).mpr hnd
  have hQn : n / d + 1 ≤ n := by
    have : n / d ≤ n / 2 := Nat.div_le_div_left hd (by norm_num)
    omega
  have hmod := Nat.div_add_mod n d
  have hr := Nat.mod_lt n hd0
  have hq1 : sub64 q 1 = q - 1 := sub64_of_le (by omega) (by omega)
  have hprod : (q - 1) * d ≤ n := by
    calc (q - 1) * d ≤ n / d * d := Nat.mul_le_mul_right _ (by omega)
      _ ≤ n := Nat.div_mul_le_self n d
  rw [hq1, Nat.mod_eq_of_lt (by omega), sub64_of_le hprod hn]
  rcases Nat.eq_or_lt_of_le hlo with hq | hq
  · -- the estimate is exact: one quotient less leaves a remainder of at least `d`
    subst hq
    have : n - (n / d - 1) * d = n % d + d := by
      rw [Nat.sub_mul, one_mul]
      have : d * (n / d) = n / d * d := Nat.mul_comm _ _
      have : d ≤ n / d * d := Nat.le_mul_of_pos_left d hQ
      omega
    rw [if_neg (by omega)]
  · -- the estimate is one too large
    have hq' : q - 1 = n / d := by omega
    have : n - n / d * d = n % d := by
      have : d * (n / d) = n / d * d := Nat.mul_comm _ _
      omega
    rw [hq', this, if_pos hr]

/-- The large-divisor branch: `d << s` does not overflow, its top word `v1` is normalised, and
`divl (n >> 1, v1) >> (31 - s)` is `n / (v1 * 2 ^ (32 - s))`, the quotient or one more. -/
theorem udiv64_of_ge {n d : Nat} (hn : n < 2 ^ 64) (hd : 2 ^ 32 ≤ d) (hd' : d < 2 ^ 64) :
    udiv64 n d = some (n / d) := by
  unfold udiv64
  have hd1 : 0 < d / 2 ^ 32 := Nat.div_pos hd (by norm_num)
  rw [if_neg (by omega)]
  split
  · rename_i hlt
    rw [Nat.div_eq_of_lt hlt]
  rename_i hnd
  dsimp only
  have hd1' : d / 2 ^ 32 < 2 ^ 32 := (Nat.div_lt_iff_lt_mul (by norm_num)).mpr (by
    calc d < 2 ^ 64 := hd'
      _ = 2 ^ 32 * 2 ^ 32 := by norm_num)
  obtain ⟨hs31, hlo, hhi⟩ := nlz_spec hd1 hd1'
  generalize nlz (d / 2 ^ 32) = s at hs31 hlo hhi ⊢
  -- `2 ^ 32 = (2 * a) * 2 ^ s` with `a = 2 ^ (31 - s)`
  have ha : 0 < 2 ^ (31 - s) := by positivity
  have h32 : 2 ^ 32 = 2 * 2 ^ (31 - s) * 2 ^ s := by
    rw [← pow_succ', ← pow_add]
    congr 1
    omega
  generalize 2 ^ (31 - s) = a at ha h32 ⊢
  have hs0 : 0 < 2 ^ s := by positivity
  have hdm := Nat.div_add_mod d (2 ^ 32)
  have hdr := Nat.mod_lt d (show 0 < 2 ^ 32 by norm_num)
  have hd1a : d / 2 ^ 32 < 2 * a := by
    have : d / 2 ^ 32 * 2 ^ s < 2 * a * 2 ^ s := by rw [← h32]; exact hhi
    exact Nat.lt_of_mul_lt_mul_right this
  have hshift : d * 2 ^ s < 2 ^ 64 := by
    have hd2 : d < (d / 2 ^ 32 + 1) * 2 ^ 32 := by
      rw [Nat.add_mul, one_mul, Nat.mul_comm]
      omega
    calc d * 2 ^ s < (d / 2 ^ 32 + 1) * 2 ^ 32 * 2 ^ s := Nat.mul_lt_mul_of_pos_right hd2 hs0
      _ = (d / 2 ^ 32 + 1) * 2 ^ s * 2 ^ 32 := by ring
      _ ≤ 2 * a * 2 ^ s * 2 ^ 32 := Nat.mul_le_mul_right _ (Nat.mul_le_mul_right _ hd1a)
      _ = 2 ^ 64 := by rw [← h32]; norm_num
  rw [Nat.mod_eq_of_lt hshift]
  have hv1 : 2 ^ 31 ≤ d * 2 ^ s / 2 ^ 32 := by
    calc 2 ^ 31 ≤ d / 2 ^ 32 * 2 ^ s := hlo
      _ = d / 2 ^ 32 * 2 ^ 32 * 2 ^ s / 2 ^ 32 := by
          rw [Nat.mul_assoc, Nat.mul_comm (2 ^ 32), ← Nat.mul_assoc,
            Nat.mul_div_cancel _ (by norm_num)]
      _ ≤ d * 2 ^ s / 2 ^ 32 :=
          Nat.div_le_div_right (Nat.mul_le_mul_right _ (Nat.div_mul_le_self d _))
  generalize hv : d * 2 ^ s / 2 ^ 32 = v1 at hv1 ⊢
  have hvm := Nat.div_add_mod (d * 2 ^ s) (2 ^ 32)
  have hvr := Nat.mod_lt (d * 2 ^ s) (show 0 < 2 ^ 32 by norm_num)
  rw [hv] at hvm
  have hw : v1 * (2 * a) ≤ d := by
    have : v1 * (2 * a) * 2 ^ s ≤ d * 2 ^ s := by
      rw [Nat.mul_assoc, ← h32, Nat.mul_comm]
      omega
    exact Nat.le_of_mul_le_mul_right this hs0
  have hclose : d < v1 * (2 * a) + 2 * a := by
    have : d * 2 ^ s < (v1 * (2 * a) + 2 * a) * 2 ^ s := by
      rw [Nat.add_mul, Nat.mul_assoc, ← h32]
      omega
    exact Nat.lt_of_mul_lt_mul_right this
  have hdiv : n / 2 < 2 ^ 32 * v1 := by
    have : 2 ^ 32 * 2 ^ 31 ≤ 2 ^ 32 * v1 := Nat.mul_le_mul_left _ hv1
    omega
  rw [divl_eq (by omega) hdiv, Option.map_some]
  have hq : n / 2 / v1 / a = n / (v1 * (2 * a)) := by
    rw [Nat.div_div_eq_div_mul, Nat.div_div_eq_div_mul]
    ring_nf
  obtain ⟨hqlo, hqhi⟩ := estimate_bounds hn hv1 ha hw hclose
  rw [hq, udiv64_correction hn (by omega) (by omega) hqlo hqhi]

/-- `udiv64` is exact, and no `divl` it executes traps. -/
theorem udiv64_eq {n d : Nat} (hn : n < 2 ^ 64) (hd0 : 0 < d) (hd : d < 2 ^ 64) :
    udiv64 n d = some (n / d) := by
  by_cases hsmall : d < 2 ^ 32
  · exact udiv64_of_lt hn hd0 hsmall
  · exact udiv64_of_ge hn (by omega) hd

/-! ## The unsigned routines -/

theorem udivdi3_eq {n d : Nat} (hn : n < 2 ^ 64) (hd0 : 0 < d) (hd : d < 2 ^ 64) :
    __udivdi3 n d = some (n / d) :=
  udiv64_eq hn hd0 hd

/-- `__umoddi3` is the remainder cut to the 32 bits of `umod64`'s return type. -/
theorem umoddi3_eq {n d : Nat} (hn : n < 2 ^ 64) (hd0 : 0 < d) (hd : d < 2 ^ 64) :
    __umoddi3 n d = some (n % d % 2 ^ 32) := by
  have hprod : d * (n / d) ≤ n := Nat.mul_div_le n d
  simp only [__umoddi3, umod64, udiv64_eq hn hd0 hd, Option.map_some]
  rw [Nat.mod_eq_of_lt (show d * (n / d) < 2 ^ 64 by omega), sub64_of_le hprod hn,
    ← Nat.mod_eq_sub_mul_div]

/-! ## The signed routines -/

/-- Truncating division is the quotient of the magnitudes, negated when the signs differ. -/
theorem tdiv_eq_natAbs (n d : Int) :
    n.tdiv d = if (n < 0) = (d < 0) then ((n.natAbs / d.natAbs : Nat) : Int)
      else -((n.natAbs / d.natAbs : Nat) : Int) := by
  cases n <;> cases d <;> simp [Int.tdiv]
  intro h
  exact absurd (iff_of_false (by omega) (by omega)) h

/-- The magnitude `sdiv64` computes: `n` itself, or `-(uint64_t) n`. -/
theorem abs64_eq {n : Int} (hlo : -2 ^ 63 ≤ n) (hhi : n < 2 ^ 63) :
    (if 0 ≤ n then toU64 n else sub64 0 (toU64 n)) = n.natAbs := by
  unfold toU64 sub64
  split <;> omega

theorem toI64_of_lt {x : Nat} (h : x < 2 ^ 63) : toI64 x = x := by
  unfold toI64
  rw [if_pos h]

/-- `-(int64_t) q` for a magnitude up to `2 ^ 63`, the negation wrapping as on the target. -/
theorem toI64_neg {x : Nat} (h : x ≤ 2 ^ 63) : toI64 (sub64 0 x) = -(x : Int) := by
  unfold toI64 sub64
  split <;> omega

theorem udiv64_natAbs {n d : Int} (hn : -2 ^ 63 ≤ n ∧ n < 2 ^ 63) (hd : -2 ^ 63 ≤ d ∧ d < 2 ^ 63)
    (hd0 : d ≠ 0) : udiv64 n.natAbs d.natAbs = some (n.natAbs / d.natAbs) :=
  udiv64_eq (by omega) (by omega) (by omega)

/-- `__divdi3` truncates toward zero on every pair except `INT64_MIN / -1`. -/
theorem divdi3_eq {n d : Int} (hn : -2 ^ 63 ≤ n ∧ n < 2 ^ 63) (hd : -2 ^ 63 ≤ d ∧ d < 2 ^ 63)
    (hd0 : d ≠ 0) (hmin : ¬ (n = -2 ^ 63 ∧ d = -1)) : __divdi3 n d = some (n.tdiv d) := by
  simp only [__divdi3, sdiv64, abs64_eq hn.1 hn.2, abs64_eq hd.1 hd.2, udiv64_natAbs hn hd hd0,
    Option.map_some, tdiv_eq_natAbs n d]
  have hq : n.natAbs / d.natAbs ≤ n.natAbs := Nat.div_le_self _ _
  -- the magnitude is `2 ^ 63` only for `INT64_MIN / ±1`
  have hq63 : n.natAbs / d.natAbs ≤ 2 ^ 63 := by omega
  split
  · rename_i hsign
    have : n.natAbs / d.natAbs < 2 ^ 63 := by
      rcases Nat.lt_or_ge (n.natAbs / d.natAbs) (2 ^ 63) with h | h
      · exact h
      · have hn63 : n.natAbs = 2 ^ 63 := by omega
        have hd1 : d.natAbs = 1 := by
          by_contra hne
          have : n.natAbs / d.natAbs ≤ n.natAbs / 2 := Nat.div_le_div_left (by omega) (by omega)
          omega
        have hneg : d < 0 := by rw [← hsign]; omega
        exact absurd (⟨by omega, by omega⟩ : n = -2 ^ 63 ∧ d = -1) hmin
    rw [toI64_of_lt this]
  · rw [toI64_neg hq63]

/-- `__moddi3` is the remainder cut to the 32 bits of `smod64`'s return type. -/
theorem moddi3_eq {n d : Int} (hn : -2 ^ 63 ≤ n ∧ n < 2 ^ 63) (hd : -2 ^ 63 ≤ d ∧ d < 2 ^ 63)
    (hd0 : d ≠ 0) (hmin : ¬ (n = -2 ^ 63 ∧ d = -1)) :
    __moddi3 n d = some (toI32 (n - d * n.tdiv d)) := by
  have hr : (n - d * n.tdiv d).natAbs < d.natAbs := by
    rw [← Int.tmod_def, Int.natAbs_tmod]
    exact Nat.mod_lt _ (Int.natAbs_pos.mpr hd0)
  rw [__moddi3, smod64, show sdiv64 n d = __divdi3 n d from rfl, divdi3_eq hn hd hd0 hmin,
    Option.map_some]
  have : toI64 (toU64 (n - d * n.tdiv d)) = n - d * n.tdiv d := by
    unfold toI64 toU64
    split <;> omega
  rw [this]

/-- A remainder of `2 ^ 32`: both remainder routines return `0` for `2 ^ 32 % 2 ^ 33`, while the
quotients are right. -/
theorem remainders_lose_high_bits :
    __udivdi3 (2 ^ 32) (2 ^ 33) = some 0 ∧ __umoddi3 (2 ^ 32) (2 ^ 33) = some 0 ∧
      (2 ^ 32 : Nat) % 2 ^ 33 = 2 ^ 32 ∧
      __divdi3 (2 ^ 32) (2 ^ 33) = some 0 ∧ __moddi3 (2 ^ 32) (2 ^ 33) = some 0 ∧
      (2 ^ 32 : Int) - 2 ^ 33 * 0 = 2 ^ 32 := by
  have hn : -2 ^ 63 ≤ (2 ^ 32 : Int) ∧ (2 ^ 32 : Int) < 2 ^ 63 := by norm_num
  have hd : -2 ^ 63 ≤ (2 ^ 33 : Int) ∧ (2 ^ 33 : Int) < 2 ^ 63 := by norm_num
  have hmin : ¬ ((2 ^ 32 : Int) = -2 ^ 63 ∧ (2 ^ 33 : Int) = -1) := by norm_num
  refine ⟨?_, ?_, by norm_num, ?_, ?_, by norm_num⟩
  · rw [udivdi3_eq (by norm_num) (by norm_num) (by norm_num)]
    norm_num
  · rw [umoddi3_eq (by norm_num) (by norm_num) (by norm_num)]
    norm_num
  · rw [divdi3_eq hn hd (by norm_num) hmin]
    decide
  · rw [moddi3_eq hn hd (by norm_num) hmin]
    decide

end Pintos
