import Mathlib.Data.List.Forall2
import Pintos.Threads.Kernel

/-!
# Tokenizing with `strtok_r` (`lib/string.c`)

A modifiable string is a byte buffer holding, at some position, the string's bytes and then a
NUL. Pointers into it are positions. `strtok_r` keeps its place in `save_ptr`, skips the
delimiters at the place, returns the run of non-delimiters that follows and overwrites the
delimiter after it with a NUL. `strchr` finds a NUL in every delimiter set, which is how the two
loops stop at the end of the string.

The tokens of a string are its maximal non-empty runs of bytes not in the delimiter set:
`tokens D w`, the pieces `List.splitOnP` cuts at the delimiters, without the empty ones; they
start at the offsets `tokenStarts D w`. One call takes the first of them (`strtok_r_at_run`), so
the calls return pointers to all of them in order and then `NULL` for good
(`strtok_r_tokenizes`).

`memmove` copies up when `dst` is below `src` and down from the ends otherwise, so in both
directions a byte of the source is read before the copy overwrites it: whatever the overlap,
the destination ends up with the source's old bytes and nothing else changes. The pointer it
returns is its cursor, which the upward loop leaves at `dst + size`
(`memmove_returns_end_of_forward_copy`).
-/

namespace Pintos

/-- `strchr (string, c)`, over the bytes of `string` before its NUL: the offset of the first `c`,
or of the NUL when `c` is `'\0'`. -/
def strchr : List UInt8 → UInt8 → Option Nat
  | [], c => if c = 0 then some 0 else none
  | x :: xs, c => if x = c then some 0 else (strchr xs c).map (· + 1)

/-- The first loop of `strtok_r`, over the bytes `cs` from position `i`: the position of the
first byte that is not a delimiter, or of the NUL. `none` when the buffer ends first. -/
def skipDelims (D : List UInt8) : List UInt8 → Nat → Option Nat
  | [], _ => none
  | c :: cs, i =>
    if (strchr D c).isSome then (if c = 0 then some i else skipDelims D cs (i + 1)) else some i

/-- The second loop: the position of the first delimiter or NUL from `i`. -/
def scanToken (D : List UInt8) : List UInt8 → Nat → Option Nat
  | [], _ => none
  | c :: cs, i => if (strchr D c).isNone then scanToken D cs (i + 1) else some i

/-- `strtok_r (s, delimiters, &save_ptr)` on the buffer `buf`, with `s = NULL` as `none`: the
token returned, the buffer and the new `save_ptr`. `none` is a read past the buffer. -/
def strtok_r (buf delimiters : List UInt8) (s : Option Nat) (save_ptr : Nat) :
    Option (Option Nat × List UInt8 × Nat) := do
  let s := s.getD save_ptr
  let p ← skipDelims delimiters (buf.drop s) s
  if buf.getD p 0 = 0 then return (none, buf, p)
  let q ← scanToken delimiters (buf.drop p) p
  if buf.getD q 0 ≠ 0 then return (some p, buf.set q 0, q + 1)
  else return (some p, buf, q)

/-- `n` calls `strtok_r (NULL, delimiters, &save_ptr)`: what each returns, the buffer, and
`save_ptr` after them. -/
def strtokNext (delimiters : List UInt8) : Nat → List UInt8 → Nat →
    Option (List (Option Nat) × List UInt8 × Nat)
  | 0, buf, save_ptr => some ([], buf, save_ptr)
  | n + 1, buf, save_ptr => do
    let (token, buf, save_ptr) ← strtok_r buf delimiters none save_ptr
    let (tokens, buf, save_ptr) ← strtokNext delimiters n buf save_ptr
    return (token :: tokens, buf, save_ptr)

/-- `strtok_r (s, delimiters, &save_ptr)` and then `n` calls with `NULL`. -/
def strtokCalls (buf delimiters : List UInt8) (s save_ptr n : Nat) :
    Option (List (Option Nat) × List UInt8 × Nat) := do
  let (token, buf, save_ptr) ← strtok_r buf delimiters (some s) save_ptr
  let (tokens, buf, save_ptr) ← strtokNext delimiters n buf save_ptr
  return (token :: tokens, buf, save_ptr)

/-- The tokens of `w`: its maximal non-empty runs of bytes not in `D`, in order. -/
def tokens (D w : List UInt8) : List (List UInt8) :=
  (w.splitOnP fun c => decide (c ∈ D)).filter fun t => !t.isEmpty

/-- The positions, counted from `i`, at which the runs of `w` start: the bytes not in `D` at a
boundary, which is the start of the string or the byte after a delimiter. -/
def tokenStartsFrom (D : List UInt8) : Bool → List UInt8 → Nat → List Nat
  | _, [], _ => []
  | boundary, c :: cs, i =>
    if c ∈ D then tokenStartsFrom D true cs (i + 1)
    else if boundary then i :: tokenStartsFrom D false cs (i + 1)
    else tokenStartsFrom D false cs (i + 1)

/-- The offsets in `w` at which its tokens start. -/
def tokenStarts (D w : List UInt8) : List Nat := tokenStartsFrom D true w 0

/-! ## The loops -/

section Loops

variable {D : List UInt8}

/-- `strchr` finds `c` in the delimiters exactly when `c` is one of them or the NUL. -/
theorem strchr_isSome (D : List UInt8) (c : UInt8) : (strchr D c).isSome ↔ c = 0 ∨ c ∈ D := by
  induction D with
  | nil => by_cases hc : c = 0 <;> simp [strchr, hc]
  | cons x xs ih =>
    by_cases hx : x = c
    · simp [strchr, hx]
    · simp only [strchr, hx, if_false, Option.isSome_map, ih, List.mem_cons]
      constructor
      · rintro (h | h) <;> simp [h]
      · rintro (h | h | h)
        · exact .inl h
        · exact absurd h.symm hx
        · exact .inr h

/-- A byte the loops step over: a delimiter for the first, a token byte for the second. -/
theorem strchr_isSome_of_delim {c : UInt8} (hc : c ∈ D) : (strchr D c).isSome :=
  (strchr_isSome D c).mpr (.inr hc)

theorem strchr_isNone_of_token {c : UInt8} (hc : c ∉ D) (h0 : c ≠ 0) : (strchr D c).isNone := by
  have : ¬ (strchr D c).isSome := fun h => by
    rcases (strchr_isSome D c).mp h with h | h
    · exact h0 h
    · exact hc h
  simpa using this

/-- The first loop steps over delimiters. -/
theorem skipDelims_append {ds : List UInt8} (hds : ∀ c ∈ ds, c ∈ D ∧ c ≠ 0) (cs : List UInt8)
    (i : Nat) : skipDelims D (ds ++ cs) i = skipDelims D cs (i + ds.length) := by
  induction ds generalizing i with
  | nil => rfl
  | cons d ds ih =>
    obtain ⟨hd, hd0⟩ := hds d (by simp)
    rw [List.cons_append, skipDelims, if_pos (strchr_isSome_of_delim hd), if_neg hd0,
      ih (fun c hc => hds c (by simp [hc])), List.length_cons]
    congr 1
    omega

/-- The first loop stops at a token byte or at the NUL. -/
theorem skipDelims_stop {c : UInt8} (h : c ∉ D ∨ c = 0) (cs : List UInt8) (i : Nat) :
    skipDelims D (c :: cs) i = some i := by
  unfold skipDelims
  by_cases h0 : c = 0
  · simp [h0, (strchr_isSome D 0).mpr (.inl rfl)]
  · have hc : c ∉ D := h.resolve_right h0
    have := strchr_isNone_of_token hc h0
    simp_all

/-- The second loop steps over token bytes. -/
theorem scanToken_append {t : List UInt8} (ht : ∀ c ∈ t, c ∉ D ∧ c ≠ 0) (cs : List UInt8)
    (i : Nat) : scanToken D (t ++ cs) i = scanToken D cs (i + t.length) := by
  induction t generalizing i with
  | nil => rfl
  | cons c t ih =>
    obtain ⟨hc, hc0⟩ := ht c (by simp)
    rw [List.cons_append, scanToken, if_pos (strchr_isNone_of_token hc hc0),
      ih (fun c hc => ht c (by simp [hc])), List.length_cons]
    congr 1
    omega

/-- The second loop stops at a delimiter or at the NUL. -/
theorem scanToken_stop {c : UInt8} (h : c ∈ D ∨ c = 0) (cs : List UInt8) (i : Nat) :
    scanToken D (c :: cs) i = some i := by
  have : (strchr D c).isSome := (strchr_isSome D c).mpr (h.symm)
  simp [scanToken, Option.isNone_iff_eq_none, Option.ne_none_iff_isSome.mpr this]

end Loops

/-! ## The tokens of a string -/

section Tokens

variable {D : List UInt8}

@[simp] theorem tokens_nil (D : List UInt8) : tokens D [] = [] := by
  simp [tokens]

theorem tokens_delim_cons {d : UInt8} (hd : d ∈ D) (r : List UInt8) :
    tokens D (d :: r) = tokens D r := by
  simp [tokens, List.splitOnP_cons_eq_if_modifyHead, hd]

theorem tokens_delims_append {ds : List UInt8} (hds : ∀ c ∈ ds, c ∈ D) (r : List UInt8) :
    tokens D (ds ++ r) = tokens D r := by
  induction ds with
  | nil => rfl
  | cons d ds ih =>
    rw [List.cons_append, tokens_delim_cons (hds d (by simp)),
      ih fun c hc => hds c (by simp [hc])]

/-- A run with nothing after it is the last token. -/
theorem tokens_run {t : List UInt8} (ht : ∀ c ∈ t, c ∉ D) (hne : t ≠ []) : tokens D t = [t] := by
  have : t.splitOnP (fun c => decide (c ∈ D)) = [t] :=
    List.splitOnP_eq_singleton fun c hc => by simpa using ht c hc
  simp [tokens, this, hne]

theorem tokens_run_sep {t : List UInt8} (ht : ∀ c ∈ t, c ∉ D) (hne : t ≠ []) {d : UInt8}
    (hd : d ∈ D) (r : List UInt8) : tokens D (t ++ d :: r) = t :: tokens D r := by
  have : (t ++ d :: r).splitOnP (fun c => decide (c ∈ D)) =
      t :: r.splitOnP (fun c => decide (c ∈ D)) :=
    List.splitOnP_append_cons_of_forall_mem (fun c hc => by simpa using ht c hc) d (by simpa using hd) r
  simp [tokens, this, hne]

example : tokenStarts [32] [32, 32, 97, 98, 32, 32, 99] = [2, 6] := by decide

theorem tokenStartsFrom_add (b : Bool) (w : List UInt8) (i k : Nat) :
    tokenStartsFrom D b w (i + k) = (tokenStartsFrom D b w i).map (· + k) := by
  induction w generalizing b i with
  | nil => rfl
  | cons c w ih =>
    simp only [tokenStartsFrom, Nat.add_right_comm i k 1, ih]
    split_ifs <;> simp

theorem tokenStartsFrom_delims_append {ds : List UInt8} (hds : ∀ c ∈ ds, c ∈ D) (r : List UInt8)
    (i : Nat) : tokenStartsFrom D true (ds ++ r) i = tokenStartsFrom D true r (i + ds.length) := by
  induction ds generalizing i with
  | nil => rfl
  | cons c ds ih =>
    rw [List.cons_append, tokenStartsFrom, if_pos (hds c (by simp)),
      ih (fun c hc => hds c (by simp [hc])), List.length_cons, Nat.add_assoc, Nat.add_comm 1]

theorem tokenStartsFrom_delim_cons {d : UInt8} (hd : d ∈ D) (b : Bool) (r : List UInt8) (i : Nat) :
    tokenStartsFrom D b (d :: r) i = tokenStartsFrom D true r (i + 1) := by
  rw [tokenStartsFrom, if_pos hd]

theorem tokenStartsFrom_inside_run {t : List UInt8} (ht : ∀ c ∈ t, c ∉ D) (x : List UInt8)
    (i : Nat) : tokenStartsFrom D false (t ++ x) i = tokenStartsFrom D false x (i + t.length) := by
  induction t generalizing i with
  | nil => rfl
  | cons c t ih =>
    rw [List.cons_append, tokenStartsFrom, if_neg (ht c (by simp)), if_neg Bool.false_ne_true,
      ih (fun c hc => ht c (by simp [hc])), List.length_cons, Nat.add_assoc, Nat.add_comm 1]

theorem tokenStartsFrom_run_append {t : List UInt8} (ht : ∀ c ∈ t, c ∉ D) (hne : t ≠ [])
    (x : List UInt8) (i : Nat) :
    tokenStartsFrom D true (t ++ x) i = i :: tokenStartsFrom D false x (i + t.length) := by
  obtain ⟨c, t, rfl⟩ := List.exists_cons_of_ne_nil hne
  rw [List.cons_append, tokenStartsFrom, if_neg (ht c (by simp)), if_pos rfl,
    tokenStartsFrom_inside_run (fun c hc => ht c (by simp [hc])), List.length_cons,
    Nat.add_assoc, Nat.add_comm 1]

end Tokens

/-! ## One call -/

section Call

variable {D : List UInt8}

theorem drop_add_of_drop {buf xs ys : List UInt8} {s : Nat} (h : buf.drop s = xs ++ ys) :
    buf.drop (s + xs.length) = ys := by
  rw [← List.drop_drop, h, List.drop_left]

theorem getElem?_of_drop {buf ys : List UInt8} {s : Nat} {c : UInt8} (h : buf.drop s = c :: ys) :
    buf[s]? = some c := by
  rw [show buf[s]? = (buf.drop s)[0]? by simp, h]
  rfl

/-- At a place with only delimiters before the NUL, `strtok_r` returns `NULL` and leaves
`save_ptr` at the NUL. -/
theorem strtok_r_at_end {buf ds r : List UInt8} {s : Nat} (hds : ∀ c ∈ ds, c ∈ D ∧ c ≠ 0)
    (hbuf : buf.drop s = ds ++ 0 :: r) :
    strtok_r buf D none s = some (none, buf, s + ds.length) := by
  have hp : skipDelims D (buf.drop s) s = some (s + ds.length) := by
    rw [hbuf, skipDelims_append hds, skipDelims_stop (.inr rfl)]
  have hc : buf[s + ds.length]? = some 0 := getElem?_of_drop (drop_add_of_drop hbuf)
  simp [strtok_r, hp, hc]

/-- A run ended by the NUL: `strtok_r` returns it and leaves `save_ptr` at the NUL. -/
theorem strtok_r_at_last_run {buf ds t r : List UInt8} {s : Nat} (hds : ∀ c ∈ ds, c ∈ D ∧ c ≠ 0)
    (ht : ∀ c ∈ t, c ∉ D ∧ c ≠ 0) (hne : t ≠ []) (hbuf : buf.drop s = ds ++ (t ++ 0 :: r)) :
    strtok_r buf D none s = some (some (s + ds.length), buf, s + ds.length + t.length) := by
  obtain ⟨c, t', rfl⟩ := List.exists_cons_of_ne_nil hne
  have hc := ht c (by simp)
  have hp : skipDelims D (buf.drop s) s = some (s + ds.length) := by
    rw [hbuf, skipDelims_append hds, List.cons_append, skipDelims_stop (.inl hc.1)]
  have htok := drop_add_of_drop hbuf
  have hq : scanToken D (buf.drop (s + ds.length)) (s + ds.length) =
      some (s + ds.length + (c :: t').length) := by
    rw [htok, scanToken_append ht, scanToken_stop (.inr rfl)]
  have hc0 : buf[s + ds.length]? = some c := getElem?_of_drop (by rw [htok]; rfl)
  have hnul : buf[s + ds.length + (c :: t').length]? = some 0 :=
    getElem?_of_drop (drop_add_of_drop htok)
  rw [List.length_cons] at hq hnul
  simp [strtok_r, hp, hc0, hc.2, hq, hnul]

/-- A run ended by a delimiter: `strtok_r` returns it, writes a NUL over the delimiter and
leaves `save_ptr` after it. -/
theorem strtok_r_at_run {buf ds t r : List UInt8} {s : Nat} {d : UInt8}
    (hds : ∀ c ∈ ds, c ∈ D ∧ c ≠ 0) (ht : ∀ c ∈ t, c ∉ D ∧ c ≠ 0) (hne : t ≠ [])
    (hd : d ∈ D) (hd0 : d ≠ 0) (hbuf : buf.drop s = ds ++ (t ++ d :: r)) :
    strtok_r buf D none s = some (some (s + ds.length),
      buf.set (s + ds.length + t.length) 0, s + ds.length + t.length + 1) := by
  obtain ⟨c, t', rfl⟩ := List.exists_cons_of_ne_nil hne
  have hc := ht c (by simp)
  have hp : skipDelims D (buf.drop s) s = some (s + ds.length) := by
    rw [hbuf, skipDelims_append hds, List.cons_append, skipDelims_stop (.inl hc.1)]
  have htok := drop_add_of_drop hbuf
  have hq : scanToken D (buf.drop (s + ds.length)) (s + ds.length) =
      some (s + ds.length + (c :: t').length) := by
    rw [htok, scanToken_append ht, scanToken_stop (.inl hd)]
  have hc0 : buf[s + ds.length]? = some c := getElem?_of_drop (by rw [htok]; rfl)
  have hsep : buf[s + ds.length + (c :: t').length]? = some d :=
    getElem?_of_drop (drop_add_of_drop htok)
  rw [List.length_cons] at hq hsep
  simp [strtok_r, hp, hc0, hc.2, hq, hsep, hd0]

end Call

/-! ## The calls -/

section Calls

variable {D : List UInt8}

/-- The first run of a string: only delimiters, or delimiters, a run and then the end or a
delimiter. -/
theorem run_split (r : List UInt8) :
    ∃ t rest, r = t ++ rest ∧ (∀ c ∈ t, c ∉ D) ∧ (rest = [] ∨ ∃ d r', rest = d :: r' ∧ d ∈ D) := by
  induction r with
  | nil => exact ⟨[], [], rfl, by simp, .inl rfl⟩
  | cons c r ih =>
    by_cases hc : c ∈ D
    · exact ⟨[], c :: r, rfl, by simp, .inr ⟨c, r, rfl, hc⟩⟩
    · obtain ⟨t, rest, rfl, ht, hrest⟩ := ih
      refine ⟨c :: t, rest, rfl, ?_, hrest⟩
      intro x hx
      rcases List.mem_cons.mp hx with rfl | hx
      · exact hc
      · exact ht x hx

theorem first_run_split (r : List UInt8) :
    (∀ c ∈ r, c ∈ D) ∨ ∃ ds t rest, r = ds ++ (t ++ rest) ∧ (∀ c ∈ ds, c ∈ D) ∧ t ≠ [] ∧
      (∀ c ∈ t, c ∉ D) ∧ (rest = [] ∨ ∃ d r', rest = d :: r' ∧ d ∈ D) := by
  induction r with
  | nil => exact .inl (by simp)
  | cons c r ih =>
    by_cases hc : c ∈ D
    · rcases ih with hall | ⟨ds, t, rest, rfl, hds, hne, ht, hrest⟩
      · exact .inl fun x hx => (List.mem_cons.mp hx).elim (· ▸ hc) (hall x)
      · refine .inr ⟨c :: ds, t, rest, rfl, ?_, hne, ht, hrest⟩
        intro x hx
        exact (List.mem_cons.mp hx).elim (· ▸ hc) (hds x)
    · obtain ⟨t, rest, rfl, ht, hrest⟩ := run_split (D := D) r
      refine .inr ⟨[], c :: t, rest, rfl, by simp, by simp, ?_, hrest⟩
      intro x hx
      exact (List.mem_cons.mp hx).elim (· ▸ hc) (ht x)

theorem tokens_length_le (w : List UInt8) : (tokens D w).length ≤ w.length := by
  induction h : w.length using Nat.strongRecOn generalizing w with
  | _ n ih =>
    rcases first_run_split (D := D) w with hall | ⟨ds, t, rest, rfl, hds, hne, ht, hrest⟩
    · rw [← List.append_nil w, tokens_delims_append hall, tokens_nil]
      exact Nat.zero_le _
    · have ht1 : 0 < t.length := List.length_pos_of_ne_nil hne
      rw [tokens_delims_append hds]
      rcases hrest with rfl | ⟨d, r', rfl, hd⟩
      · rw [List.append_nil, tokens_run ht hne]
        simp at h ⊢
        omega
      · rw [tokens_run_sep ht hne hd]
        have := ih r'.length (by simp at h; omega) r' rfl
        simp at h ⊢
        omega

/-- `buf'` is `buf` with some delimiters overwritten by NULs: all `strtok_r` writes. -/
def Zeroes (D buf buf' : List UInt8) : Prop :=
  buf'.length = buf.length ∧
    ∀ i : Nat, buf'[i]? ≠ buf[i]? → buf'[i]? = some 0 ∧ ∃ c ∈ D, buf[i]? = some c

theorem Zeroes.refl (buf : List UInt8) : Zeroes D buf buf :=
  ⟨rfl, fun _ h => absurd rfl h⟩

theorem Zeroes.trans {buf₁ buf₂ buf₃ : List UInt8} (hD : 0 ∉ D) (h₁ : Zeroes D buf₁ buf₂)
    (h₂ : Zeroes D buf₂ buf₃) : Zeroes D buf₁ buf₃ := by
  refine ⟨h₂.1.trans h₁.1, fun i hne => ?_⟩
  by_cases h23 : buf₃[i]? = buf₂[i]?
  · rw [h23] at hne ⊢
    exact h₁.2 i hne
  · obtain ⟨h0, c, hc, hbuf₂⟩ := h₂.2 i h23
    refine ⟨h0, c, hc, ?_⟩
    by_cases h12 : buf₂[i]? = buf₁[i]?
    · rw [← h12, hbuf₂]
    · obtain ⟨h0', -⟩ := h₁.2 i h12
      rw [hbuf₂] at h0'
      cases h0'
      exact absurd hc hD

/-- Overwriting a delimiter with a NUL. -/
theorem Zeroes.set {buf : List UInt8} {q : Nat} {d : UInt8} (hq : buf[q]? = some d) (hd : d ∈ D) :
    Zeroes D buf (buf.set q 0) := by
  refine ⟨by simp, fun i hne => ?_⟩
  by_cases hi : i = q
  · subst hi
    have hlt : i < buf.length := by
      by_contra h
      rw [List.getElem?_eq_none (by omega)] at hq
      cases hq
    exact ⟨by simp [hlt], d, hd, hq⟩
  · exact absurd (List.getElem?_set_ne (Ne.symm hi)) hne

/-- A run of non-delimiters and its NUL survive any later overwriting of delimiters. -/
theorem Zeroes.drop_run {buf buf' t tail : List UInt8} {p : Nat} (hD : 0 ∉ D)
    (hz : Zeroes D buf buf') (ht : ∀ c ∈ t, c ∉ D) (hbuf : buf.drop p = t ++ 0 :: tail) :
    ∃ tail', buf'.drop p = t ++ 0 :: tail' := by
  have hkeep : ∀ j < t.length + 1, buf'[p + j]? = buf[p + j]? := by
    intro j hj
    by_contra hne
    obtain ⟨-, c, hc, hbc⟩ := hz.2 (p + j) hne
    have : (t ++ 0 :: tail)[j]? = some c := by rw [← hbuf, List.getElem?_drop, hbc]
    rcases Nat.lt_or_ge j t.length with hjt | hjt
    · rw [List.getElem?_append_left hjt] at this
      exact ht c (List.mem_of_getElem? this) hc
    · rw [List.getElem?_append_right hjt, show j - t.length = 0 by omega] at this
      cases this
      exact hD hc
  refine ⟨buf'.drop (p + t.length + 1), ?_⟩
  apply List.ext_getElem?
  intro j
  rw [List.getElem?_drop]
  rcases Nat.lt_or_ge j (t.length + 1) with hj | hj
  · rw [hkeep j hj, ← List.getElem?_drop, hbuf]
    rcases Nat.lt_or_eq_of_le (Nat.le_of_lt_succ hj) with hjt | rfl
    · rw [List.getElem?_append_left hjt, List.getElem?_append_left hjt]
    · simp
  · obtain ⟨k, rfl⟩ : ∃ k, j = t.length + 1 + k := ⟨j - t.length - 1, by omega⟩
    rw [List.getElem?_append_right (by omega), show t.length + 1 + k - t.length = k + 1 by omega,
      List.getElem?_cons_succ, List.getElem?_drop]
    congr 1
    omega

theorem tokenStartsFrom_of_tokens_nil {r : List UInt8} (h : tokens D r = []) (i : Nat) :
    tokenStartsFrom D true r i = [] := by
  rcases first_run_split (D := D) r with hall | ⟨ds, t, rest, rfl, hds, hne, ht, hrest⟩
  · have := tokenStartsFrom_delims_append hall [] i
    rw [List.append_nil] at this
    exact this.trans rfl
  · rw [tokens_delims_append hds] at h
    rcases hrest with rfl | ⟨d, r', rfl, hd⟩
    · rw [List.append_nil, tokens_run ht hne] at h
      cases h
    · rw [tokens_run_sep ht hne hd] at h
      cases h

/-- From a place `s` whose string is `r`, `n` calls return the tokens of `r`, each at the
position its run starts at and now ended by a NUL, and then `NULL` until the last call, when
`n` covers the tokens. The calls write only NULs over delimiters. -/
theorem strtokNext_spec (hD : 0 ∉ D) : ∀ (n : Nat) {buf r rest : List UInt8} {s : Nat},
    buf.drop s = r ++ 0 :: rest → (∀ c ∈ r, c ≠ 0) → (tokens D r).length ≤ n →
    ∃ ptrs buf' s', strtokNext D n buf s =
        some (ptrs.map some ++ List.replicate (n - ptrs.length) none, buf', s') ∧
      ptrs = tokenStartsFrom D true r s ∧
      List.Forall₂ (fun p t => ∃ tail, buf'.drop p = t ++ 0 :: tail) ptrs (tokens D r) ∧
      Zeroes D buf buf' := by
  intro n
  induction n with
  | zero =>
    intro buf r rest s _ _ hn
    have htok : tokens D r = [] := List.eq_nil_of_length_eq_zero (by omega)
    exact ⟨[], buf, s, rfl, (tokenStartsFrom_of_tokens_nil htok s).symm,
      by rw [htok]; exact .nil, Zeroes.refl _⟩
  | succ n ih =>
    intro buf r rest s hbuf hr hn
    rcases first_run_split (D := D) r with hall | ⟨ds, t, rest', rfl, hds, hne, ht, hrest⟩
    · -- only delimiters: `NULL` now, and at the NUL on every later call
      have hcall := strtok_r_at_end (fun c hc => ⟨hall c hc, hr c hc⟩) hbuf
      have htok : tokens D r = [] := by
        rw [← List.append_nil r, tokens_delims_append hall, tokens_nil]
      obtain ⟨ptrs, buf', s', hnext, -, hrun, hz⟩ :=
        ih (r := []) (drop_add_of_drop hbuf) (by simp) (by simp)
      rw [tokens_nil, List.forall₂_nil_right_iff] at hrun
      subst hrun
      refine ⟨[], buf', s', ?_, (tokenStartsFrom_of_tokens_nil htok s).symm,
        by rw [htok]; exact .nil, hz⟩
      simp [strtokNext, hcall, hnext, List.replicate_succ]
    have hds' : ∀ c ∈ ds, c ∈ D ∧ c ≠ 0 := fun c hc => ⟨hds c hc, hr c (by simp [hc])⟩
    have ht' : ∀ c ∈ t, c ∉ D ∧ c ≠ 0 := fun c hc => ⟨ht c hc, hr c (by simp [hc])⟩
    have hrun : buf.drop (s + ds.length) = t ++ (rest' ++ 0 :: rest) := by
      rw [@drop_add_of_drop buf ds (t ++ (rest' ++ 0 :: rest)) s (by simpa using hbuf)]
    rcases hrest with rfl | ⟨d, r', rfl, hd⟩
    · -- the last run, ended by the NUL
      have hcall := strtok_r_at_last_run hds' ht' hne (by simpa using hbuf)
      have htok : tokens D (ds ++ (t ++ [])) = [t] := by
        rw [tokens_delims_append hds, List.append_nil, tokens_run ht hne]
      obtain ⟨ptrs, buf', s', hnext, -, hrun', hz⟩ :=
        ih (r := []) (drop_add_of_drop (by simpa using hrun)) (by simp) (by simp)
      rw [tokens_nil, List.forall₂_nil_right_iff] at hrun'
      subst hrun'
      refine ⟨[s + ds.length], buf', s', ?_, ?_, ?_, hz⟩
      · simp [strtokNext, hcall, hnext]
      · rw [tokenStartsFrom_delims_append hds, tokenStartsFrom_run_append ht hne]
        rfl
      · rw [htok]
        exact .cons (hz.drop_run hD ht (by simpa using hrun)) .nil
    · -- a run ended by a delimiter, which becomes its NUL
      have hd0 : d ≠ 0 := hr d (by simp)
      have hcall := strtok_r_at_run hds' ht' hne hd hd0 (by simpa using hbuf)
      have htok : tokens D (ds ++ (t ++ d :: r')) = t :: tokens D r' := by
        rw [tokens_delims_append hds, tokens_run_sep ht hne hd]
      set q := s + ds.length + t.length
      have hq : buf[q]? = some d := getElem?_of_drop (drop_add_of_drop (by simpa using hrun))
      have hset : (buf.set q 0).drop (s + ds.length) = t ++ 0 :: (r' ++ 0 :: rest) := by
        rw [List.drop_set, if_neg (show ¬ q < s + ds.length by omega), hrun,
          show q - (s + ds.length) = t.length by omega, List.set_append_right _ _ (Nat.le_refl _)]
        simp
      have hnext₀ : (buf.set q 0).drop (q + 1) = r' ++ 0 :: rest := by
        have := @drop_add_of_drop (buf.set q 0) (t ++ [0]) (r' ++ 0 :: rest) (s + ds.length)
          (by simpa using hset)
        simpa [q, Nat.add_assoc] using this
      obtain ⟨ptrs, buf', s', hnext, hpos, hrun', hz⟩ :=
        ih hnext₀ (fun c hc => hr c (by simp [hc])) (by rw [htok] at hn; simpa using hn)
      have hlen : ptrs.length = (tokens D r').length := hrun'.length_eq
      refine ⟨(s + ds.length) :: ptrs, buf', s', ?_, ?_, ?_, (Zeroes.set hq hd).trans hD hz⟩
      · simp only [strtokNext, hcall, hnext, Option.bind_eq_bind, Option.bind_some]
        simp [List.length_cons]
      · -- the run starts after the delimiters, and the next search starts after its NUL
        rw [tokenStartsFrom_delims_append hds, tokenStartsFrom_run_append ht hne,
          tokenStartsFrom_delim_cons hd, hpos]
      · rw [htok]
        exact .cons (hz.drop_run hD ht hset) hrun'

example : tokens [32] [32, 32, 97, 98, 32, 32, 99] = [[97, 98], [99]] := by decide

/-- The first call, with the string, is a call with `NULL` from the string's start. -/
theorem strtokCalls_eq (buf D : List UInt8) (s save_ptr n : Nat) :
    strtokCalls buf D s save_ptr n = strtokNext D (n + 1) buf s := rfl

/-- `strtok_r (s, D, &p)` and `n` calls `strtok_r (NULL, D, &p)` on a NUL-terminated string `w`
at `s`: when the calls are at least as many as the tokens, they return the tokens of `w` in order,
each pointer at the offset in `w` where its run starts and the run now ended by a NUL, and `NULL`
at every call after the last token. Nothing is written but NULs over delimiters. -/
theorem strtok_r_tokenizes {D buf w rest : List UInt8} {s save_ptr n : Nat} (hD : 0 ∉ D)
    (hw : 0 ∉ w) (hbuf : buf.drop s = w ++ 0 :: rest) (hn : (tokens D w).length ≤ n + 1) :
    ∃ ptrs buf' s', strtokCalls buf D s save_ptr n =
        some (ptrs.map some ++ List.replicate (n + 1 - ptrs.length) none, buf', s') ∧
      ptrs = (tokenStarts D w).map (· + s) ∧
      List.Forall₂ (fun p t => ∃ tail, buf'.drop p = t ++ 0 :: tail) ptrs (tokens D w) ∧
      Zeroes D buf buf' := by
  obtain ⟨ptrs, buf', s', hcalls, hpos, hrun, hz⟩ :=
    strtokNext_spec hD (n + 1) hbuf (fun c hc h0 => hw (h0 ▸ hc)) hn
  refine ⟨ptrs, buf', s', by rw [strtokCalls_eq, hcalls], ?_, hrun, hz⟩
  rw [hpos, tokenStarts, ← tokenStartsFrom_add, Nat.zero_add]

end Calls

/-- `"  ab  c"` split at spaces, with four calls: `ab`, `c`, then `NULL` twice. -/
theorem strtok_r_tokenizes_spaces : (0 : UInt8) ∉ [32] ∧ (0 : UInt8) ∉ [32, 32, 97, 98, 32, 32, 99] ∧
    ([32, 32, 97, 98, 32, 32, 99, 0] : List UInt8).drop 0 = [32, 32, 97, 98, 32, 32, 99] ++ 0 :: [] ∧
    (tokens [32] [32, 32, 97, 98, 32, 32, 99]).length ≤ 3 + 1 ∧
    ∃ ptrs buf' s', strtokCalls [32, 32, 97, 98, 32, 32, 99, 0] [32] 0 0 3 =
        some (ptrs.map some ++ List.replicate (3 + 1 - ptrs.length) none, buf', s') ∧
      ptrs = (tokenStarts [32] [32, 32, 97, 98, 32, 32, 99]).map (· + 0) ∧
      List.Forall₂ (fun p t => ∃ tail, buf'.drop p = t ++ 0 :: tail) ptrs
        (tokens [32] [32, 32, 97, 98, 32, 32, 99]) ∧
      Zeroes [32] [32, 32, 97, 98, 32, 32, 99, 0] buf' :=
  ⟨by decide, by decide, rfl, by decide,
    strtok_r_tokenizes (by decide) (by decide) rfl (by decide)⟩

/-! ## `memmove` -/

/-- `while (size-- > 0) *dst++ = *src++;`: the memory after the loop and `dst`. -/
def moveUp : Nat → Mem → Nat → Nat → Mem × Nat
  | 0, m, dst, _ => (m, dst)
  | size + 1, m, dst, src => moveUp size (Function.update m dst (m src)) (dst + 1) (src + 1)

/-- `while (size-- > 0) *--dst = *--src;`, with `dst` and `src` at the ends of the ranges. -/
def moveDown : Nat → Mem → Nat → Nat → Mem × Nat
  | 0, m, dst, _ => (m, dst)
  | size + 1, m, dst, src =>
    moveDown size (Function.update m (dst - 1) (m (src - 1))) (dst - 1) (src - 1)

/-- `memmove (dst_, src_, size)`: the memory after it and the pointer it returns. -/
def memmove (m : Mem) (dst_ src_ size : Nat) : Except Fault (Mem × Nat) :=
  if dst_ = 0 ∧ size ≠ 0 then .error .panic
  else if src_ = 0 ∧ size ≠ 0 then .error .panic
  else if dst_ < src_ then .ok (moveUp size m dst_ src_)
  else .ok (moveDown size m (dst_ + size) (src_ + size))

section Memmove

variable (m : Mem)

theorem moveUp_snd : ∀ (size : Nat) (m : Mem) (dst src : Nat), (moveUp size m dst src).2 = dst + size
  | 0, _, _, _ => rfl
  | size + 1, m, dst, src => by
    rw [moveUp, moveUp_snd size]
    omega

/-- The upward loop writes only `[dst, dst + size)`. -/
theorem moveUp_frame : ∀ (size : Nat) (m : Mem) (dst src a : Nat), a < dst ∨ dst + size ≤ a →
    (moveUp size m dst src).1 a = m a
  | 0, _, _, _, _, _ => rfl
  | size + 1, m, dst, src, a, ha => by
    rw [moveUp, moveUp_frame size _ _ _ a (by omega), Function.update_of_ne (by omega)]

/-- Copying up from a source at or above the destination: the write at `dst + j` is below every
source byte `src + i` with `j < i` still to be read. -/
theorem moveUp_copy : ∀ (size : Nat) (m : Mem) (dst src : Nat), dst ≤ src → ∀ i < size,
    (moveUp size m dst src).1 (dst + i) = m (src + i)
  | 0, _, _, _, _, _, hi => absurd hi (Nat.not_lt_zero _)
  | size + 1, m, dst, src, hds, 0, _ => by
    rw [moveUp, moveUp_frame size _ _ _ _ (by omega), Nat.add_zero, Function.update_self,
      Nat.add_zero]
  | size + 1, m, dst, src, hds, i + 1, hi => by
    rw [moveUp, show dst + (i + 1) = dst + 1 + i by omega,
      moveUp_copy size _ _ _ (by omega) i (by omega), Function.update_of_ne (by omega),
      show src + 1 + i = src + (i + 1) by omega]

theorem moveDown_snd : ∀ (size : Nat) (m : Mem) (dst src : Nat),
    (moveDown size m (dst + size) (src + size)).2 = dst
  | 0, _, _, _ => rfl
  | size + 1, m, dst, src => by
    rw [moveDown, show dst + (size + 1) - 1 = dst + size by omega,
      show src + (size + 1) - 1 = src + size by omega, moveDown_snd size]

/-- The downward loop writes only `[dst, dst + size)`. -/
theorem moveDown_frame : ∀ (size : Nat) (m : Mem) (dst src a : Nat), a < dst ∨ dst + size ≤ a →
    (moveDown size m (dst + size) (src + size)).1 a = m a
  | 0, _, _, _, _, _ => rfl
  | size + 1, m, dst, src, a, ha => by
    rw [moveDown, show dst + (size + 1) - 1 = dst + size by omega,
      show src + (size + 1) - 1 = src + size by omega, moveDown_frame size _ _ _ a (by omega),
      Function.update_of_ne (by omega)]

/-- Copying down from a source at or below the destination: the write at `dst + j` is above
every source byte `src + i` with `i < j` still to be read. -/
theorem moveDown_copy : ∀ (size : Nat) (m : Mem) (dst src : Nat), src ≤ dst → ∀ i < size,
    (moveDown size m (dst + size) (src + size)).1 (dst + i) = m (src + i)
  | 0, _, _, _, _, _, hi => absurd hi (Nat.not_lt_zero _)
  | size + 1, m, dst, src, hsd, i, hi => by
    rw [moveDown, show dst + (size + 1) - 1 = dst + size by omega,
      show src + (size + 1) - 1 = src + size by omega]
    by_cases his : i = size
    · subst his
      rw [moveDown_frame i _ _ _ _ (by omega), Function.update_self]
    · rw [moveDown_copy size _ _ _ hsd i (by omega), Function.update_of_ne (by omega)]

/-- `memmove` copies the source's old bytes into the destination, whatever the overlap, and
writes nothing else; it returns `dst` when copying down but `dst + size` when copying up. -/
theorem memmove_returns_end_of_forward_copy (dst src size : Nat) (hdst : dst ≠ 0 ∨ size = 0)
    (hsrc : src ≠ 0 ∨ size = 0) :
    ∃ m', memmove m dst src size = .ok (m', if dst < src then dst + size else dst) ∧
      (∀ i < size, m' (dst + i) = m (src + i)) ∧ ∀ a, a < dst ∨ dst + size ≤ a → m' a = m a := by
  have hd : ¬ (dst = 0 ∧ size ≠ 0) := by omega
  have hs : ¬ (src = 0 ∧ size ≠ 0) := by omega
  by_cases hlt : dst < src
  · refine ⟨(moveUp size m dst src).1, ?_, moveUp_copy size m dst src hlt.le,
      fun a ha => moveUp_frame size m dst src a ha⟩
    rw [memmove, if_neg hd, if_neg hs, if_pos hlt, if_pos hlt]
    exact congrArg Except.ok (Prod.ext rfl (moveUp_snd size m dst src))
  · refine ⟨(moveDown size m (dst + size) (src + size)).1, ?_,
      moveDown_copy size m dst src (by omega), fun a ha => moveDown_frame size m dst src a ha⟩
    rw [memmove, if_neg hd, if_neg hs, if_neg hlt, if_neg hlt]
    exact congrArg Except.ok (Prod.ext rfl (moveDown_snd size m dst src))

end Memmove

/-- One byte moved down by one: the byte at 2 lands at 1, and `memmove` returns 2, not 1. -/
theorem memmove_one_byte_returns_two :
    ∃ m', memmove (fun a => a.toUInt8) 1 2 1 = .ok (m', 2) ∧ m' 1 = 2 := by
  obtain ⟨m', hm, hcopy, -⟩ :=
    memmove_returns_end_of_forward_copy (fun a => a.toUInt8) 1 2 1 (by decide) (by decide)
  exact ⟨m', by simpa using hm, hcopy 0 (by decide)⟩

end Pintos
