import Pintos.Threads.Kernel

/-!
# Calibrating the busy-wait loop (`timer_calibrate` in `devices/timer.c`)

`timer_calibrate` sets `loops_per_tick`, the number of `busy_wait` iterations in one timer tick.
It starts from `1 << 10`, doubles while twice the value still fits in a tick, and then tries to
set each of the next bits below the high bit, keeping those that still fit. `too_many_loops
(loops)` measures whether `loops` iterations outlast a tick; the model takes it as an oracle,
`too_many_loops : ℕ → Bool`, on the 32-bit `unsigned` values the code passes.

`timer_calibrate_spec` says what comes out, for an oracle that is monotone in the loop count and
says that `1 << 10` iterations fit: the high bit `2 ^ k` is the first power of two from `2 ^ 10`
whose double does not fit, and `loops_per_tick` is the largest multiple of `2 ^ (k - 9)` below
`2 ^ (k + 1)` that still fits. The refining loop thus settles nine bits below the high bit, one
more than its comment says. When even `2 ^ 31` iterations fit, the doubling overflows
`loops_per_tick` to zero and the `ASSERT` stops the kernel.
-/

set_option linter.style.nameCheck false

namespace Pintos.Timer

/-- The loop `while (!too_many_loops (loops_per_tick << 1)) { loops_per_tick <<= 1;
ASSERT (loops_per_tick != 0); }`, in 32-bit `unsigned` arithmetic, with `n` rounds to go. -/
def doubleLoop (too_many_loops : ℕ → Bool) : ℕ → ℕ → Except Fault ℕ
  | 0, loops_per_tick => .ok loops_per_tick
  | n + 1, loops_per_tick =>
    if !too_many_loops ((loops_per_tick <<< 1) % 2 ^ 32) then
      let loops_per_tick := (loops_per_tick <<< 1) % 2 ^ 32
      if loops_per_tick = 0 then .error .panic else doubleLoop too_many_loops n loops_per_tick
    else .ok loops_per_tick

/-- The loop `for (test_bit = high_bit >> 1; test_bit != high_bit >> 10; test_bit >>= 1)
if (!too_many_loops (loops_per_tick | test_bit)) loops_per_tick |= test_bit;`, with `n` rounds
to go. -/
def refineLoop (too_many_loops : ℕ → Bool) (high_bit : ℕ) : ℕ → ℕ → ℕ → ℕ
  | 0, _, loops_per_tick => loops_per_tick
  | n + 1, test_bit, loops_per_tick =>
    if test_bit ≠ high_bit >>> 10 then
      let loops_per_tick :=
        if !too_many_loops (loops_per_tick ||| test_bit) then loops_per_tick ||| test_bit
        else loops_per_tick
      refineLoop too_many_loops high_bit n (test_bit >>> 1) loops_per_tick
    else loops_per_tick

/-- `timer_calibrate ()`: the `loops_per_tick` it sets. From `1 << 10` the doubling loop
overflows within 22 rounds, and the refining loop tests its condition at most 10 times. -/
def timer_calibrate (too_many_loops : ℕ → Bool) : Except Fault ℕ := do
  let loops_per_tick ← doubleLoop too_many_loops 22 (1 <<< 10)
  pure (refineLoop too_many_loops loops_per_tick 10 (loops_per_tick >>> 1) loops_per_tick)

/-! ## The doubling loop -/

section Doubling

variable (P : ℕ → Bool)

theorem shiftLeft_pow_mod {j : ℕ} (hj : j < 31) : (2 ^ j <<< 1) % 2 ^ 32 = 2 ^ (j + 1) := by
  rw [Nat.shiftLeft_eq, Nat.pow_one, ← Nat.pow_succ]
  exact Nat.mod_eq_of_lt (Nat.pow_lt_pow_right (by decide) (by omega))

/-- Doubling from `2 ^ j` stops at `2 ^ k` when the powers up to `2 ^ k` fit and `2 ^ (k + 1)`
does not. -/
theorem doubleLoop_ok : ∀ (n j : ℕ), j + n = 32 → ∀ k, j ≤ k → k < 31 →
    (∀ i, j < i → i ≤ k → P (2 ^ i) = false) → P (2 ^ (k + 1)) = true →
      doubleLoop P n (2 ^ j) = .ok (2 ^ k)
  | 0, j, hn, _, hjk, hk, _, _ => by omega
  | n + 1, j, hn, k, hjk, hk, hfit, hover => by
    rw [doubleLoop, shiftLeft_pow_mod (by omega)]
    by_cases hjk' : j = k
    · -- the double does not fit
      subst hjk'
      rw [hover]
      rfl
    · -- the double fits: one round, and the loop goes on from `2 ^ (j + 1)`
      rw [hfit (j + 1) (by omega) (by omega), Bool.not_false, if_pos rfl,
        if_neg (Nat.pos_iff_ne_zero.mp (Nat.two_pow_pos _))]
      exact doubleLoop_ok n (j + 1) (by omega) k (by omega) hk
        (fun i hi hik => hfit i (by omega) hik) hover

/-- When every power from `2 ^ (j + 1)` to `2 ^ 31` fits, and so does nothing, doubling
overflows to zero and the `ASSERT` stops the kernel. -/
theorem doubleLoop_overflow (hzero : P 0 = false) : ∀ (n j : ℕ), j + n = 32 → j < 32 →
    (∀ i, j < i → i ≤ 31 → P (2 ^ i) = false) → doubleLoop P n (2 ^ j) = .error .panic
  | 0, j, hn, hj, _ => by omega
  | n + 1, j, hn, hj, hfit => by
    rw [doubleLoop]
    by_cases h31 : j = 31
    · subst h31
      have hwrap : (2 ^ 31 <<< 1) % 2 ^ 32 = 0 := by decide
      rw [hwrap, hzero]
      rfl
    · rw [shiftLeft_pow_mod (by omega), hfit (j + 1) (by omega) (by omega), Bool.not_false,
        if_pos rfl,
        if_neg (Nat.pos_iff_ne_zero.mp (Nat.two_pow_pos _))]
      exact doubleLoop_overflow hzero n (j + 1) (by omega) (by omega)
        (fun i hi hik => hfit i (by omega) hik)

end Doubling

/-! ## The refining loop -/

section Refining

variable (P : ℕ → Bool) (k : ℕ)

/-- What holds before the test of bit `i - 1`: `loops` has the high bit `2 ^ k`, no bit below
`2 ^ i`, fits, and `loops + 2 ^ i` does not. -/
def RefineInv (i loops : ℕ) : Prop :=
  2 ^ k ≤ loops ∧ loops < 2 ^ (k + 1) ∧ 2 ^ i ∣ loops ∧ P loops = false ∧
    P (loops + 2 ^ i) = true

/-- Below the bits already set, `|` adds. -/
theorem or_two_pow_of_dvd {loops i : ℕ} (h : 2 ^ (i + 1) ∣ loops) :
    loops ||| 2 ^ i = loops + 2 ^ i := by
  obtain ⟨q, rfl⟩ := h
  exact (Nat.two_pow_add_eq_or_of_lt (Nat.pow_lt_pow_right (by decide) (Nat.lt_succ_self i)) q).symm

/-- One round tests bit `2 ^ i` and keeps it when `loops` with it still fits. -/
theorem RefineInv.step {i loops : ℕ} (h : RefineInv P k (i + 1) loops) (hik : i < k) :
    RefineInv P k i
      (if !P (loops ||| 2 ^ i) then loops ||| 2 ^ i else loops) := by
  obtain ⟨hlo, hhi, hdvd, hfit, hover⟩ := h
  have hor := or_two_pow_of_dvd hdvd
  have hdvd' : 2 ^ i ∣ loops := (Nat.pow_dvd_pow 2 (Nat.le_succ i)).trans hdvd
  -- `loops` is a multiple of `2 ^ (i + 1)` below `2 ^ (k + 1)`, so adding `2 ^ i` stays below
  have hroom : loops + 2 ^ (i + 1) ≤ 2 ^ (k + 1) := by
    obtain ⟨q, rfl⟩ := hdvd
    obtain ⟨r, hr⟩ : 2 ^ (i + 1) ∣ 2 ^ (k + 1) := Nat.pow_dvd_pow 2 (by omega)
    rw [hr] at hhi ⊢
    have hq : q < r := Nat.lt_of_mul_lt_mul_left hhi
    calc 2 ^ (i + 1) * q + 2 ^ (i + 1) = 2 ^ (i + 1) * (q + 1) := by ring
      _ ≤ 2 ^ (i + 1) * r := Nat.mul_le_mul_left _ hq
  have hpow : 2 ^ (i + 1) = 2 ^ i + 2 ^ i := by rw [Nat.pow_succ]; omega
  rw [hor]
  cases hP : P (loops + 2 ^ i)
  · -- the bit is kept
    rw [Bool.not_false, if_pos rfl]
    refine ⟨by omega, by omega, Nat.dvd_add hdvd' dvd_rfl, hP, ?_⟩
    rwa [Nat.add_assoc, ← hpow]
  · rw [Bool.not_true, if_neg Bool.false_ne_true]
    exact ⟨hlo, hhi, hdvd', hfit, hP⟩

theorem pow_shiftRight {a b : ℕ} (h : b ≤ a) : 2 ^ a >>> b = 2 ^ (a - b) := by
  rw [Nat.shiftRight_eq_div_pow, Nat.pow_div h (by decide)]

/-- The refining loop from the test of bit `2 ^ (k - 10 + d)`, down to the stop at
`high_bit >> 10 = 2 ^ (k - 10)`; induction on the bits left to test. -/
theorem refineLoop_inv (hk : 10 ≤ k) : ∀ (d loops : ℕ), d ≤ 9 →
    RefineInv P k (k - 9 + d) loops →
      RefineInv P k (k - 9) (refineLoop P (2 ^ k) (d + 1) (2 ^ (k - 10 + d)) loops)
  | 0, loops, _, h => by
    rw [refineLoop, if_neg (by rw [pow_shiftRight hk]; simp)]
    simpa using h
  | d + 1, loops, hd, h => by
    have hne : 2 ^ (k - 10 + (d + 1)) ≠ 2 ^ k >>> 10 := by
      rw [pow_shiftRight hk]
      exact fun heq => by have := Nat.pow_right_injective (le_refl 2) heq; omega
    have hhalf : 2 ^ (k - 10 + (d + 1)) >>> 1 = 2 ^ (k - 10 + d) := by
      rw [pow_shiftRight (by omega), ← Nat.add_assoc, Nat.add_sub_cancel]
    rw [refineLoop, if_pos hne, hhalf]
    refine refineLoop_inv hk d _ (by omega) ?_
    rw [show k - 10 + (d + 1) = k - 9 + d by omega]
    exact h.step P k (i := k - 9 + d) (by omega)

end Refining

/-! ## What `timer_calibrate` sets -/

/-- A first power of two from `2 ^ 10` whose double does not fit exists when `2 ^ 31` does not
fit. -/
theorem exists_high_bit (P : ℕ → Bool) (h31 : P (2 ^ 31) = true) :
    ∃ k, 10 ≤ k ∧ k < 31 ∧ (∀ i, 10 < i → i ≤ k → P (2 ^ i) = false) ∧ P (2 ^ (k + 1)) = true := by
  have hex : ∃ k, 10 ≤ k ∧ P (2 ^ (k + 1)) = true := ⟨30, by decide, h31⟩
  refine ⟨Nat.find hex, (Nat.find_spec hex).1, ?_, ?_, (Nat.find_spec hex).2⟩
  · by_contra hge
    have := Nat.find_min' hex (show 10 ≤ 30 ∧ P (2 ^ (30 + 1)) = true from ⟨by decide, h31⟩)
    omega
  · intro i hi hik
    have hmin := Nat.find_min hex (show i - 1 < Nat.find hex by omega)
    have hi' : i - 1 + 1 = i := by omega
    rw [hi'] at hmin
    cases hP : P (2 ^ i)
    · rfl
    · exact absurd ⟨by omega, hP⟩ hmin

/-- For an oracle that is monotone in the loop count and says that `1 << 10` loops fit in a tick:
when `2 ^ 31` loops do not fit, `timer_calibrate` sets `loops_per_tick` to the largest multiple
of `2 ^ (k - 9)` below `2 ^ (k + 1)` that fits, where `2 ^ k` is the first power of two from
`2 ^ 10` whose double does not fit; when `2 ^ 31` loops fit, its `ASSERT` stops the kernel. -/
theorem timer_calibrate_spec (P : ℕ → Bool) (hmono : ∀ a b, a ≤ b → P a = true → P b = true)
    (hstart : P (2 ^ 10) = false) :
    (P (2 ^ 31) = false → timer_calibrate P = .error .panic) ∧
    (P (2 ^ 31) = true → ∃ k loops, 10 ≤ k ∧ k < 31 ∧ P (2 ^ k) = false ∧
      P (2 ^ (k + 1)) = true ∧ timer_calibrate P = .ok loops ∧ 2 ^ k ≤ loops ∧
      loops < 2 ^ (k + 1) ∧ 2 ^ (k - 9) ∣ loops ∧ P loops = false ∧
      P (loops + 2 ^ (k - 9)) = true) := by
  have hstart' : (1 <<< 10 : ℕ) = 2 ^ 10 := rfl
  constructor
  · intro h31
    have hfit : ∀ a, a ≤ 2 ^ 31 → P a = false := fun a ha => by
      cases hP : P a
      · rfl
      · rw [hmono a _ ha hP] at h31
        cases h31
    have hover := doubleLoop_overflow P (hfit 0 (Nat.zero_le _)) 22 10 (by decide) (by decide)
      (fun i _ hi => hfit _ (Nat.pow_le_pow_right (by decide) hi))
    simp only [timer_calibrate, hstart', hover]
    rfl
  · intro h31
    obtain ⟨k, hk10, hk31, hfit, hover⟩ := exists_high_bit P h31
    have hhigh : P (2 ^ k) = false := by
      rcases Nat.eq_or_lt_of_le hk10 with h | h
      · rw [← h]; exact hstart
      · exact hfit k h le_rfl
    have hdouble := doubleLoop_ok P 22 10 (by decide) k hk10 hk31 hfit hover
    have hinit : RefineInv P k (k - 9 + 9) (2 ^ k) := by
      rw [show k - 9 + 9 = k by omega]
      refine ⟨le_rfl, Nat.pow_lt_pow_right (by decide) (by omega), dvd_rfl, hhigh, ?_⟩
      rwa [← Nat.two_mul, ← Nat.pow_succ']
    have hfirst : 2 ^ k >>> 1 = 2 ^ (k - 10 + 9) := by
      rw [pow_shiftRight (by omega), show k - 1 = k - 10 + 9 by omega]
    obtain ⟨hlo, hhi, hdvd, hfits, hnext⟩ := refineLoop_inv P k hk10 9 (2 ^ k) le_rfl hinit
    refine ⟨k, _, hk10, hk31, hhigh, hover, ?_, hlo, hhi, hdvd, hfits, hnext⟩
    simp only [timer_calibrate, hstart', hdouble]
    change Except.ok (refineLoop P (2 ^ k) 10 (2 ^ k >>> 1) (2 ^ k)) = _
    rw [hfirst]

/-- A machine on which a tick lasts 5000 loops: the high bit is `2 ^ 12`, and the nine bits below
it settle `loops_per_tick` at `4992`, the largest multiple of `8` that fits. -/
theorem tick_of_5000_loops :
    timer_calibrate (fun n => decide (5000 ≤ n)) = .ok 4992 ∧
      ∃ k loops, 10 ≤ k ∧ k < 31 ∧ decide (5000 ≤ 2 ^ k) = false ∧
        decide (5000 ≤ 2 ^ (k + 1)) = true ∧
        timer_calibrate (fun n => decide (5000 ≤ n)) = .ok loops ∧ 2 ^ k ≤ loops ∧
        loops < 2 ^ (k + 1) ∧ 2 ^ (k - 9) ∣ loops ∧ decide (5000 ≤ loops) = false ∧
        decide (5000 ≤ loops + 2 ^ (k - 9)) = true :=
  ⟨rfl, (timer_calibrate_spec (fun n => decide (5000 ≤ n))
    (fun a b hab h => by simp only [decide_eq_true_eq] at h ⊢; omega) (by decide)).2 (by decide)⟩

end Pintos.Timer
