import Mathlib.Data.List.Basic
import Mathlib.Tactic.Common
import Mathlib.Algebra.Group.Nat.Defs

/-!
# Bitmaps (`lib/kernel/bitmap.c`)

A `struct bitmap` is modelled by its `bit_cnt` bits as a list; how the bits are packed into
`unsigned long` words is below this level. The functions keep the source's loops and its
sentinel `BITMAP_ERROR`: `bitmap_scan` tries every start index from `start` to
`bit_cnt - cnt` and returns the first whose `cnt` bits hold no `!value`.

The spec lemmas are `bitmap_test_set`, `bitmap_test_set_multiple`, `bitmap_contains_iff` and,
for the scan, `scanLoop_sound`, `scanLoop_minimal` and `scanLoop_eq_none`, from which
`bitmap_scan_eq_error_of_forall` and `bitmap_scan_spec` follow.
-/

namespace Pintos

/-- `SIZE_MAX` on the 32-bit target. -/
def SIZE_MAX : Nat := 2 ^ 32 - 1

/-- `BITMAP_ERROR`, returned by the scans when nothing is found. -/
def BITMAP_ERROR : Nat := SIZE_MAX

/-- `struct bitmap`: its bits, bit `i` at position `i`. -/
structure Bitmap where
  bits : List Bool
  deriving DecidableEq, Repr

namespace Bitmap

/-- `bitmap_create`: `bit_cnt` bits, all false. -/
def bitmap_create (bit_cnt : Nat) : Bitmap := ⟨List.replicate bit_cnt false⟩

/-- `bitmap_size`. -/
def bitmap_size (b : Bitmap) : Nat := b.bits.length

/-- `bitmap_test`. -/
def bitmap_test (b : Bitmap) (idx : Nat) : Bool := b.bits.getD idx false

/-- `bitmap_set`: bit `idx` becomes `value`. -/
def bitmap_set (b : Bitmap) (idx : Nat) (value : Bool) : Bitmap := ⟨b.bits.set idx value⟩

/-- `bitmap_mark`. -/
def bitmap_mark (b : Bitmap) (idx : Nat) : Bitmap := bitmap_set b idx true

/-- `bitmap_reset`. -/
def bitmap_reset (b : Bitmap) (idx : Nat) : Bitmap := bitmap_set b idx false

/-- `bitmap_set_multiple`: the loop `for (i = 0; i < cnt; i++) bitmap_set (b, start + i, value)`. -/
def bitmap_set_multiple (b : Bitmap) (start cnt : Nat) (value : Bool) : Bitmap :=
  (List.range cnt).foldl (fun b i => bitmap_set b (start + i) value) b

/-- `bitmap_set_all`. -/
def bitmap_set_all (b : Bitmap) (value : Bool) : Bitmap :=
  bitmap_set_multiple b 0 (bitmap_size b) value

/-- `bitmap_contains`: some bit in `[start, start + cnt)` is `value`. -/
def bitmap_contains (b : Bitmap) (start cnt : Nat) (value : Bool) : Bool :=
  (List.range cnt).any fun i => bitmap_test b (start + i) == value

/-- `bitmap_all`: every bit in `[start, start + cnt)` is true. -/
def bitmap_all (b : Bitmap) (start cnt : Nat) : Bool := !bitmap_contains b start cnt false

/-- The loop of `bitmap_scan` from index `i` with `n` candidates left. -/
def scanLoop (b : Bitmap) (cnt : Nat) (value : Bool) : Nat → Nat → Option Nat
  | _, 0 => none
  | i, n + 1 => if !bitmap_contains b i cnt (!value) then some i else scanLoop b cnt value (i + 1) n

/-- `bitmap_scan`: the first index `i ≥ start` such that the `cnt` bits from `i` are all
`value`, or `BITMAP_ERROR`. The loop runs `i` from `start` to `last = bit_cnt - cnt`. -/
def bitmap_scan (b : Bitmap) (start cnt : Nat) (value : Bool) : Nat :=
  if cnt ≤ bitmap_size b then
    match scanLoop b cnt value start (bitmap_size b - cnt + 1 - start) with
    | some i => i
    | none => BITMAP_ERROR
  else BITMAP_ERROR

/-- `bitmap_scan_and_flip`: scan, then flip the group found to `!value`. -/
def bitmap_scan_and_flip (b : Bitmap) (start cnt : Nat) (value : Bool) : Nat × Bitmap :=
  let idx := bitmap_scan b start cnt value
  if idx ≠ BITMAP_ERROR then (idx, bitmap_set_multiple b idx cnt (!value)) else (idx, b)

/-! ## Setting bits -/

@[simp] theorem bitmap_size_set (b : Bitmap) (idx : Nat) (value : Bool) :
    bitmap_size (bitmap_set b idx value) = bitmap_size b := by
  simp [bitmap_size, bitmap_set]

theorem bitmap_test_set (b : Bitmap) (idx j : Nat) (value : Bool) :
    bitmap_test (bitmap_set b idx value) j =
      if j = idx ∧ idx < bitmap_size b then value else bitmap_test b j := by
  unfold bitmap_test bitmap_set bitmap_size
  by_cases hj : j = idx
  · subst hj
    by_cases hlt : j < b.bits.length
    · simp [hlt, List.getD_eq_getElem?_getD]
    · simp [hlt, List.getD_eq_getElem?_getD]
  · simp [hj, List.getD_eq_getElem?_getD, List.getElem?_set_ne (Ne.symm hj)]

@[simp] theorem bitmap_size_set_multiple (b : Bitmap) (start cnt : Nat) (value : Bool) :
    bitmap_size (bitmap_set_multiple b start cnt value) = bitmap_size b := by
  unfold bitmap_set_multiple
  induction cnt generalizing b with
  | zero => rfl
  | succ n ih => simp [List.range_succ, List.foldl_append, ih]

theorem bitmap_test_set_multiple (b : Bitmap) (start cnt j : Nat) (value : Bool) :
    bitmap_test (bitmap_set_multiple b start cnt value) j =
      if start ≤ j ∧ j < start + cnt ∧ j < bitmap_size b then value else bitmap_test b j := by
  unfold bitmap_set_multiple
  induction cnt with
  | zero => simp only [List.range_zero, List.foldl_nil]; split_ifs <;> first | rfl | omega
  | succ n ih =>
    rw [List.range_succ, List.foldl_append, List.foldl_cons, List.foldl_nil, bitmap_test_set, ih]
    have hsize := bitmap_size_set_multiple b start n value
    unfold bitmap_set_multiple at hsize
    rw [hsize]
    split_ifs <;> first | rfl | omega

theorem lt_bitmap_size_of_test {b : Bitmap} {idx : Nat} (h : bitmap_test b idx = true) :
    idx < bitmap_size b := by
  by_contra hge
  rw [bitmap_test, List.getD_eq_getElem?_getD, List.getElem?_eq_none (by simp [bitmap_size] at hge; omega)] at h
  cases h

@[simp] theorem bitmap_size_set_all (b : Bitmap) (value : Bool) :
    bitmap_size (bitmap_set_all b value) = bitmap_size b :=
  bitmap_size_set_multiple b 0 _ value

theorem bitmap_test_set_all (b : Bitmap) (value : Bool) {j : Nat} (hj : j < bitmap_size b) :
    bitmap_test (bitmap_set_all b value) j = value := by
  rw [bitmap_set_all, bitmap_test_set_multiple, if_pos ⟨Nat.zero_le j, by omega, hj⟩]

/-! ## Testing groups of bits -/

theorem bitmap_contains_iff (b : Bitmap) (start cnt : Nat) (value : Bool) :
    bitmap_contains b start cnt value = true ↔ ∃ i < cnt, bitmap_test b (start + i) = value := by
  simp [bitmap_contains]

theorem bitmap_contains_one (b : Bitmap) (i : Nat) (value : Bool) :
    bitmap_contains b i 1 value = (bitmap_test b i == value) := by
  simp [bitmap_contains]

/-! ## The scan -/

theorem scanLoop_sound {b : Bitmap} {cnt : Nat} {value : Bool} :
    ∀ {i n k : Nat}, scanLoop b cnt value i n = some k →
      i ≤ k ∧ k < i + n ∧ bitmap_contains b k cnt (!value) = false
  | _, 0, _, h => by simp [scanLoop] at h
  | i, n + 1, k, h => by
    by_cases hc : bitmap_contains b i cnt (!value)
    · simp only [scanLoop, hc, Bool.not_true] at h
      obtain ⟨h₁, h₂, h₃⟩ := scanLoop_sound h
      exact ⟨by omega, by omega, h₃⟩
    · simp only [scanLoop, hc, Bool.not_false, if_true, Option.some.injEq] at h
      subst h
      exact ⟨Nat.le_refl _, by omega, by simpa using hc⟩

theorem scanLoop_minimal {b : Bitmap} {cnt : Nat} {value : Bool} :
    ∀ {i n k : Nat}, scanLoop b cnt value i n = some k →
      ∀ j, i ≤ j → j < k → bitmap_contains b j cnt (!value) = true
  | _, 0, _, h => by simp [scanLoop] at h
  | i, n + 1, k, h => by
    intro j h₁ h₂
    by_cases hc : bitmap_contains b i cnt (!value)
    · simp only [scanLoop, hc, Bool.not_true] at h
      rcases Nat.eq_or_lt_of_le h₁ with rfl | hlt
      · exact hc
      · exact scanLoop_minimal h j hlt h₂
    · simp only [scanLoop, hc, Bool.not_false, if_true, Option.some.injEq] at h
      omega

theorem scanLoop_eq_none {b : Bitmap} {cnt : Nat} {value : Bool} :
    ∀ {i n : Nat}, scanLoop b cnt value i n = none →
      ∀ j, i ≤ j → j < i + n → bitmap_contains b j cnt (!value) = true
  | _, 0, _ => by intro j h₁ h₂; omega
  | i, n + 1, h => by
    intro j h₁ h₂
    by_cases hc : bitmap_contains b i cnt (!value)
    · simp only [scanLoop, hc, Bool.not_true] at h
      rcases Nat.eq_or_lt_of_le h₁ with rfl | hlt
      · exact hc
      · exact scanLoop_eq_none h j hlt (by omega)
    · simp [scanLoop, hc] at h

theorem scanLoop_eq_none_of_forall {b : Bitmap} {cnt : Nat} {value : Bool} :
    ∀ {i n : Nat}, (∀ j, i ≤ j → j < i + n → bitmap_contains b j cnt (!value) = true) →
      scanLoop b cnt value i n = none
  | _, 0, _ => rfl
  | i, n + 1, h => by
    have hc := h i (Nat.le_refl _) (by omega)
    simp only [scanLoop, hc, Bool.not_true]
    exact scanLoop_eq_none_of_forall fun j h₁ h₂ => h j (by omega) (by omega)

/-- When every candidate group contains a `!value` bit, the scan fails. -/
theorem bitmap_scan_eq_error_of_forall {b : Bitmap} {start cnt : Nat} {value : Bool}
    (h : ∀ j, start ≤ j → j + cnt ≤ bitmap_size b → bitmap_contains b j cnt (!value) = true) :
    bitmap_scan b start cnt value = BITMAP_ERROR := by
  unfold bitmap_scan
  split
  · rw [scanLoop_eq_none_of_forall fun j h₁ h₂ => h j h₁ (by omega)]
  · rfl

/-- A failed scan of a bitmap smaller than `BITMAP_ERROR` means that every candidate group
contains a `!value` bit. -/
theorem bitmap_scan_eq_error {b : Bitmap} {start cnt : Nat} {value : Bool}
    (hsize : bitmap_size b < BITMAP_ERROR) (h : bitmap_scan b start cnt value = BITMAP_ERROR) :
    ∀ j, start ≤ j → j + cnt ≤ bitmap_size b → bitmap_contains b j cnt (!value) = true := by
  intro j h₁ h₂
  unfold bitmap_scan at h
  rw [if_pos (by omega)] at h
  cases hk : scanLoop b cnt value start (bitmap_size b - cnt + 1 - start) with
  | none => exact scanLoop_eq_none hk j h₁ (by omega)
  | some k =>
    rw [hk] at h
    have := (scanLoop_sound hk).2.1
    dsimp only at h
    omega

/-- A group of `cnt ≥ 1` bits that are all `value`, at or after `start`, makes the scan succeed;
the bitmap need only fit in a `size_t`. -/
theorem bitmap_scan_ne_error {b : Bitmap} {start cnt : Nat} {value : Bool} (hcnt : 1 ≤ cnt)
    (hsize : bitmap_size b ≤ BITMAP_ERROR) {i : Nat} (hi : start ≤ i) (hic : i + cnt ≤ bitmap_size b)
    (hc : bitmap_contains b i cnt (!value) = false) : bitmap_scan b start cnt value ≠ BITMAP_ERROR := by
  unfold bitmap_scan
  rw [if_pos (by omega)]
  cases hk : scanLoop b cnt value start (bitmap_size b - cnt + 1 - start) with
  | none =>
    have := scanLoop_eq_none hk i hi (by omega)
    rw [hc] at this
    exact absurd this Bool.false_ne_true
  | some k =>
    have := (scanLoop_sound hk).2.1
    dsimp only
    omega

theorem bitmap_scan_and_flip_of_ne {b : Bitmap} {start cnt : Nat} {value : Bool}
    (h : bitmap_scan b start cnt value ≠ BITMAP_ERROR) :
    bitmap_scan_and_flip b start cnt value =
      (bitmap_scan b start cnt value, bitmap_set_multiple b (bitmap_scan b start cnt value) cnt (!value)) := by
  simp [bitmap_scan_and_flip, h]

theorem bitmap_scan_and_flip_of_eq {b : Bitmap} {start cnt : Nat} {value : Bool}
    (h : bitmap_scan b start cnt value = BITMAP_ERROR) :
    bitmap_scan_and_flip b start cnt value = (BITMAP_ERROR, b) := by
  simp [bitmap_scan_and_flip, h]

@[simp] theorem bitmap_size_scan_and_flip (b : Bitmap) (start cnt : Nat) (value : Bool) :
    bitmap_size (bitmap_scan_and_flip b start cnt value).2 = bitmap_size b := by
  unfold bitmap_scan_and_flip
  dsimp only
  split <;> simp

/-- A successful scan returns the first group, at or after `start`, of `cnt` bits that are all
`value`. -/
theorem bitmap_scan_spec {b : Bitmap} {start cnt : Nat} {value : Bool}
    (h : bitmap_scan b start cnt value ≠ BITMAP_ERROR) :
    start ≤ bitmap_scan b start cnt value ∧ bitmap_scan b start cnt value + cnt ≤ bitmap_size b ∧
      bitmap_contains b (bitmap_scan b start cnt value) cnt (!value) = false ∧
      ∀ j, start ≤ j → j < bitmap_scan b start cnt value →
        bitmap_contains b j cnt (!value) = true := by
  unfold bitmap_scan at h ⊢
  by_cases hcnt : cnt ≤ bitmap_size b
  · rw [if_pos hcnt] at h ⊢
    cases hk : scanLoop b cnt value start (bitmap_size b - cnt + 1 - start) with
    | none => rw [hk] at h; exact absurd rfl h
    | some k =>
      dsimp only
      obtain ⟨h₁, h₂, h₃⟩ := scanLoop_sound hk
      exact ⟨h₁, by omega, h₃, scanLoop_minimal hk⟩
  · rw [if_neg hcnt] at h
    exact absurd rfl h

/-! ## First fit and free runs -/

/-- The `cnt` bits from `a` are all false and lie in the bitmap. -/
def FreeRun (b : Bitmap) (a cnt : Nat) : Prop :=
  a + cnt ≤ bitmap_size b ∧ ∀ j < cnt, bitmap_test b (a + j) = false

instance (b : Bitmap) (a cnt : Nat) : Decidable (FreeRun b a cnt) :=
  inferInstanceAs (Decidable (_ ∧ _))

theorem bitmap_scan_zero (b : Bitmap) (value : Bool) : bitmap_scan b 0 0 value = 0 := by
  simp [bitmap_scan, scanLoop, bitmap_contains]

/-- A first-fit scan for `cnt` false bits, with a free run of at least `cnt` bits from `a`,
succeeds at or before `a`, and what it takes leaves the run's last `M - cnt` bits free. So a run
of `M` free bits pays for any sequence of first-fit allocations of at most `M` bits in all. -/
theorem bitmap_scan_of_free_run {b : Bitmap} {a M cnt : Nat} (hsize : bitmap_size b ≤ BITMAP_ERROR)
    (hrun : FreeRun b a M) (hcnt : cnt ≤ M) :
    bitmap_scan b 0 cnt false ≠ BITMAP_ERROR ∧ bitmap_scan b 0 cnt false ≤ a ∧
      FreeRun (bitmap_set_multiple b (bitmap_scan b 0 cnt false) cnt true) (a + cnt) (M - cnt) := by
  obtain ⟨hfit, hfree⟩ := hrun
  have hne : bitmap_scan b 0 cnt false ≠ BITMAP_ERROR := by
    rcases Nat.eq_zero_or_pos cnt with rfl | hpos
    · rw [bitmap_scan_zero]; decide
    · refine bitmap_scan_ne_error hpos hsize (Nat.zero_le a) (by omega) ?_
      rw [Bool.eq_false_iff, ne_eq, bitmap_contains_iff]
      rintro ⟨j, hj, hbit⟩
      rw [hfree j (by omega)] at hbit
      exact Bool.false_ne_true hbit
  obtain ⟨-, -, -, hfirst⟩ := bitmap_scan_spec hne
  -- the run itself is a candidate, so the scan stops at it or before
  have hle : bitmap_scan b 0 cnt false ≤ a := by
    by_contra hlt
    have hc := hfirst a (Nat.zero_le a) (by omega)
    obtain ⟨j, hj, hbit⟩ := (bitmap_contains_iff _ _ _ _).mp hc
    rw [hfree j (by omega)] at hbit
    exact Bool.false_ne_true hbit
  refine ⟨hne, hle, by rw [bitmap_size_set_multiple]; omega, fun j hj => ?_⟩
  rw [bitmap_test_set_multiple, if_neg (by omega), show a + cnt + j = a + (cnt + j) by omega]
  exact hfree _ (by omega)

end Bitmap

end Pintos
