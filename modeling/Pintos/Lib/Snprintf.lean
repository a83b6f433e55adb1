import Pintos.Lib.Stdio

/-!
# Formatting into a buffer (`vsnprintf`, `snprintf` in `lib/stdio.c`)

`vsnprintf` runs `__vprintf` with `vsnprintf_helper` as its output function: the helper counts
every character and stores it while the count is below `aux.max_length`, and `vsnprintf` then
writes a null terminator at the place the stores reached, unless the buffer size is zero. The
count is an `int`, so an output past `INT_MAX` characters overflows it. `aux.max_length` is
`buf_size - 1` converted from `size_t` to `int`. From `2^31 + 1` on that is negative, and then no
character is stored at all: only the terminator is written.

`vsnprintf_stores` says what memory holds afterwards, for every format that `__vprintf` formats:
the first `storedCount` characters of the output from `buffer` on, the terminator after them,
and nothing else changed. The result is the length of the whole output. `storedCount` is the
documented `buf_size - 1` when `buf_size` is at most `2^31` (`storedCount_of_le`), and zero
beyond that (`storedCount_of_gt`).
-/

set_option linter.style.nameCheck false

namespace Pintos.Printf

/-- `'\0'`. -/
def NUL : Char := Char.ofNat 0

/-- `struct vsnprintf_aux`. -/
structure vsnprintf_aux where
  /-- the current output position -/
  p : ℕ
  /-- the length of the output so far -/
  length : ℤ
  /-- the most characters stored -/
  max_length : ℤ

/-- `vsnprintf_helper (ch, aux)`: `if (aux->length++ < aux->max_length) *aux->p++ = ch;`, in the
memory `m`. Counting past `INT_MAX` overflows. -/
def vsnprintf_helper (m : ℕ → Char) (aux : vsnprintf_aux) (ch : Char) :
    Except Fault ((ℕ → Char) × vsnprintf_aux) :=
  if aux.length = INT_MAX then .error .undefined
  else if aux.length < aux.max_length then
    .ok (Function.update m aux.p ch, ⟨aux.p + 1, aux.length + 1, aux.max_length⟩)
  else .ok (m, ⟨aux.p, aux.length + 1, aux.max_length⟩)

/-- `__vprintf` hands each character of its output to `vsnprintf_helper`, in order. -/
def helperLoop : List Char → (ℕ → Char) → vsnprintf_aux →
    Except Fault ((ℕ → Char) × vsnprintf_aux)
  | [], m, aux => .ok (m, aux)
  | ch :: out, m, aux => do
    let (m, aux) ← vsnprintf_helper m aux ch
    helperLoop out m aux

/-- `vsnprintf (buffer, buf_size, format, args)` in the memory `m`: the memory after it, and its
result. -/
def vsnprintf (m : ℕ → Char) (buffer : ℕ) (buf_size : UInt32) (format : List Char)
    (args : List PrintfArg) : Option (Except Fault ((ℕ → Char) × ℤ)) :=
  -- `buf_size - 1` is converted to `int`
  let aux : vsnprintf_aux :=
    ⟨buffer, 0, if buf_size > 0 then toSigned 32 (buf_size.toNat - 1) else 0⟩
  (__vprintf format args).map fun r => do
    let (m, aux) ← helperLoop (← r) m aux
    -- the null terminator
    let m := if buf_size > 0 then Function.update m aux.p NUL else m
    pure (m, aux.length)

/-- `snprintf (buffer, buf_size, format, ...)`: `vsnprintf` with its arguments. -/
def snprintf (m : ℕ → Char) (buffer : ℕ) (buf_size : UInt32) (format : List Char)
    (args : List PrintfArg) : Option (Except Fault ((ℕ → Char) × ℤ)) :=
  vsnprintf m buffer buf_size format args

/-! ## What is stored -/

/-- The memory `m` with the characters `cs` stored from `p` on. -/
def storeChars (m : ℕ → Char) (p : ℕ) (cs : List Char) : ℕ → Char :=
  fun a => if p ≤ a ∧ a < p + cs.length then cs.getD (a - p) NUL else m a

/-- How many characters of an output of `len` characters `vsnprintf` stores in a buffer of
`buf_size`: `aux.max_length`, as an `int`, bounds them. -/
def storedCount (buf_size : UInt32) (len : ℕ) : ℕ :=
  if buf_size > 0 then min len (toSigned 32 (buf_size.toNat - 1)).toNat else 0

variable {m : ℕ → Char} {p : ℕ}

@[simp] theorem storeChars_nil : storeChars m p [] = m := by
  funext a
  simp [storeChars]

/-- Storing a character and then the rest after it. -/
theorem storeChars_cons (c : Char) (cs : List Char) :
    storeChars m p (c :: cs) = storeChars (Function.update m p c) (p + 1) cs := by
  funext a
  by_cases ha : a = p
  · subst ha
    simp [storeChars]
  · by_cases hlo : p + 1 ≤ a
    · have hsub : a - p = a - (p + 1) + 1 := by omega
      have hhi : a < p + (c :: cs).length ↔ a < p + 1 + cs.length := by
        rw [List.length_cons]
        omega
      simp only [storeChars, Function.update_of_ne ha, hsub, hhi, show p ≤ a by omega, hlo,
        true_and, List.getD_cons_succ]
    · have hlt : ¬ p ≤ a := by omega
      simp [storeChars, Function.update_of_ne ha, hlt, hlo]

/-- The helper calls over `l`, from the state where `k` characters have been counted and those
below `M` stored. -/
theorem helperLoop_eq (buffer : ℕ) (maxl : ℤ) (l : List Char) :
    ∀ (m : ℕ → Char) (k : ℕ), k + l.length ≤ 2 ^ 31 - 1 →
      helperLoop l m ⟨buffer + min k maxl.toNat, k, maxl⟩ =
        .ok (storeChars m (buffer + min k maxl.toNat) (l.take (maxl.toNat - k)),
          ⟨buffer + min (k + l.length) maxl.toNat, k + l.length, maxl⟩) := by
  induction l with
  | nil => intro m k _; simp [helperLoop]
  | cons ch l ih =>
    intro m k hk
    have hne : (k : ℤ) ≠ INT_MAX := by
      simp only [INT_MAX, List.length_cons] at hk ⊢
      omega
    by_cases hstore : (k : ℤ) < maxl
    · -- the character is stored at `buffer + k`
      have hkM : k < maxl.toNat := by omega
      have hmin : min k maxl.toNat = k := by omega
      have hmin' : min (k + 1) maxl.toNat = k + 1 := by omega
      have hrest := ih (Function.update m (buffer + k) ch) (k + 1) (by simp at hk; omega)
      rw [hmin'] at hrest
      have htake : (ch :: l).take (maxl.toNat - k) = ch :: l.take (maxl.toNat - (k + 1)) := by
        rw [show maxl.toNat - k = maxl.toNat - (k + 1) + 1 by omega, List.take_succ_cons]
      simp only [helperLoop, vsnprintf_helper, hmin, hne, hstore, if_false, if_true]
      show helperLoop l (Function.update m (buffer + k) ch)
          ⟨buffer + (k + 1), ((k + 1 : ℕ) : ℤ), maxl⟩ = _
      rw [hrest, htake, storeChars_cons]
      simp only [Except.ok.injEq, Prod.mk.injEq, vsnprintf_aux.mk.injEq, List.length_cons,
        Nat.cast_add, Nat.cast_one, and_true]
      refine ⟨rfl, ?_, ?_⟩ <;> omega
    · -- the count is at `max_length`: nothing more is stored
      have hkM : maxl.toNat ≤ k := by omega
      have hmin : min k maxl.toNat = maxl.toNat := by omega
      have hmin' : min (k + 1) maxl.toNat = maxl.toNat := by omega
      have hrest := ih m (k + 1) (by simp at hk; omega)
      rw [hmin', show maxl.toNat - (k + 1) = 0 by omega, List.take_zero, storeChars_nil] at hrest
      simp only [helperLoop, vsnprintf_helper, hmin, hne, hstore, if_false]
      show helperLoop l m ⟨buffer + maxl.toNat, ((k + 1 : ℕ) : ℤ), maxl⟩ = _
      rw [hrest, show maxl.toNat - k = 0 by omega, List.take_zero, storeChars_nil]
      simp only [Except.ok.injEq, Prod.mk.injEq, vsnprintf_aux.mk.injEq, List.length_cons,
        Nat.cast_add, Nat.cast_one, true_and, and_true]
      constructor <;> omega

theorem take_min_length (l : List Char) (n : ℕ) : l.take (min l.length n) = l.take n := by
  rcases Nat.le_total n l.length with h | h
  · rw [Nat.min_eq_right h]
  · rw [Nat.min_eq_left h, List.take_length, List.take_of_length_le h]

/-- What `vsnprintf` leaves in memory, for every format that `__vprintf` formats into at most
`INT_MAX` characters: the first `storedCount` characters of the output from `buffer` on, the null
terminator after them unless `buf_size` is zero, and nothing else changed. It returns the length
of the whole output. -/
theorem vsnprintf_stores {format : List Char} {args : List PrintfArg} {out : List Char}
    (hout : __vprintf format args = some (.ok out)) (hlen : out.length ≤ 2 ^ 31 - 1)
    (m : ℕ → Char) (buffer : ℕ) (buf_size : UInt32) :
    vsnprintf m buffer buf_size format args =
      some (.ok (if buf_size > 0 then
          Function.update (storeChars m buffer (out.take (storedCount buf_size out.length)))
            (buffer + storedCount buf_size out.length) NUL
        else m, (out.length : ℤ))) := by
  by_cases hpos : buf_size > 0
  · -- the stores stop at `max_length`, the terminator after them
    have hloop := helperLoop_eq buffer (toSigned 32 (buf_size.toNat - 1)) out m 0
      (by simpa using hlen)
    simp only [Nat.zero_min, Nat.add_zero, Nat.zero_add, Nat.sub_zero, Nat.cast_zero,
      Int.zero_add] at hloop
    simp only [vsnprintf, hout, Option.map_some, hpos, if_true, Except.ok_bind, hloop]
    simp only [storedCount, hpos, if_true, take_min_length]
    rfl
  · -- `max_length` is zero: nothing is stored and no terminator written
    have hloop := helperLoop_eq buffer 0 out m 0 (by simpa using hlen)
    simp only [Nat.zero_min, Nat.add_zero, Nat.zero_add, Nat.cast_zero, Int.toNat_zero, Nat.sub_zero,
      List.take_zero, storeChars_nil, Int.zero_add] at hloop
    simp only [vsnprintf, hout, Option.map_some, hpos, if_false, Except.ok_bind, hloop]
    rfl

theorem abc_in_two_chars :
    __vprintf ['a', 'b', 'c'] [] = some (.ok ['a', 'b', 'c']) ∧ ['a', 'b', 'c'].length ≤ 2 ^ 31 - 1 ∧
      vsnprintf (fun _ => 'x') 100 2 ['a', 'b', 'c'] [] =
        some (.ok (if (2 : UInt32) > 0 then
            Function.update (storeChars (fun _ => 'x') 100
              (['a', 'b', 'c'].take (storedCount 2 ['a', 'b', 'c'].length)))
              (100 + storedCount 2 ['a', 'b', 'c'].length) NUL
          else fun _ => 'x', (['a', 'b', 'c'].length : ℤ))) :=
  ⟨rfl, by decide, vsnprintf_stores rfl (by decide) (fun _ => 'x') 100 2⟩

/-- Up to a size of `2^31` the count is the documented `buf_size - 1`. -/
theorem storedCount_of_le {buf_size : UInt32} (hpos : 0 < buf_size) (hle : buf_size.toNat ≤ 2 ^ 31)
    (len : ℕ) : storedCount buf_size len = min len (buf_size.toNat - 1) := by
  have hlt : 0 < buf_size.toNat := hpos
  have hsigned : toSigned 32 ((buf_size.toNat : ℤ) - 1) = (buf_size.toNat : ℤ) - 1 := by
    unfold toSigned
    rw [Int.emod_eq_of_lt (by omega) (by omega), if_pos (by omega)]
  simp only [storedCount, hpos, if_true, hsigned]
  congr 1
  omega

/-- From `2^31 + 1` on, `max_length` is negative and nothing is stored. -/
theorem storedCount_of_gt {buf_size : UInt32} (hgt : 2 ^ 31 < buf_size.toNat) (len : ℕ) :
    storedCount buf_size len = 0 := by
  have hlt := buf_size.toNat_lt
  have hpos : 0 < buf_size := by
    show 0 < buf_size.toNat
    omega
  have hsigned : toSigned 32 ((buf_size.toNat : ℤ) - 1) = (buf_size.toNat : ℤ) - 1 - 2 ^ 32 := by
    unfold toSigned
    rw [Int.emod_eq_of_lt (by omega) (by omega), if_neg (by omega)]
  simp only [storedCount, hpos, if_true, hsigned]
  omega

end Pintos.Printf
