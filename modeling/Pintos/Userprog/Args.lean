import Mathlib.Tactic.IntervalCases
import Pintos.Lib.String
import Pintos.Lib.Bytes
import Pintos.Threads.Kernel

/-!
# Argument passing (`push_argument` in `userprog/process.c`)

`load` calls `push_argument (esp, file_name)` after `setup_stack`, with `*esp = PHYS_BASE`. The
command line is a NUL-terminated buffer in kernel memory, and the user stack is written through
kernel memory. `push_argument` tokenizes the command line in place with `strtok_r`, copies each
token with its NUL below `*esp`, recording where in its local `argv[50]`, rounds `*esp` down to
a multiple of 4, and pushes `argv[argc]` down to `argv[0]`, then `argv`, `argc` and a null return
address.

The first loop is `pushStrings` (`copyArgs_spec`), the second an array copy (`pushArgv_eq`);
together they build `argFrame` (`push_argument_spec`), which is the calling convention's frame
`CallFrame` whenever it fits below `*esp` (`argFrame_callFrame`, `push_argument_frame`), in the
stack page when it takes at most a page (`push_argument_in_page`). The code checks neither bound
the frame needs: the fiftieth token's `NULL` and the fifty-first token's pointer go past the end
of `argv` (`push_argument_of_fifty`), and a frame larger than a page ends below the stack page
(`push_argument_below_page`). `strtok_r` also writes a NUL over the space after each token but
the last, in the command line, which is not on the stack.
-/

namespace Pintos

/-- `strlen (string)` at position `p` of `buf`: the bytes before the NUL. -/
def strlen (buf : List UInt8) (p : Nat) : Nat := ((buf.drop p).takeWhile (· ≠ 0)).length

/-- `*(T *) a = v` for a four-byte `T`, little-endian. -/
def storeWord (m : Mem) (a v : Nat) : Mem := writeBytes m a (leBytes 4 v)

/-- `" "`, the delimiters `push_argument` passes. -/
def spaceDelim : List UInt8 := [32]

/-- The first loop of `push_argument`, from the call `strtok_r (s, " ", &save_ptr)`: each token
is copied with its NUL to `*esp -= strlen (token) + 1`, and `argv[argc++]` records it. `argv` has
50 entries, so a write to `argv[50]` is a write past the array. `fuel` bounds the calls. -/
def copyArgs : Nat → List UInt8 → Option Nat → Nat → Nat → Mem → List Nat →
    Except Fault (List UInt8 × Nat × Mem × List Nat)
  | 0, _, _, _, _, _, _ => .error .undefined
  | fuel + 1, cmdline, s, save_ptr, esp, m, argv =>
    match strtok_r cmdline spaceDelim s save_ptr with
    | none => .error .undefined
    | some (none, cmdline, _) => .ok (cmdline, esp, m, argv)
    | some (some token, cmdline, save_ptr) =>
      let len := strlen cmdline token
      let esp := esp - (len + 1)
      let m := writeBytes m esp ((cmdline.drop token).take (len + 1))
      if argv.length < 50 then copyArgs fuel cmdline none save_ptr esp m (argv ++ [esp])
      else .error .undefined

/-- The second loop, `for (i = argc; i >= 0; i--)`: push `argv[i]` from the last entry down. -/
def pushArgv (esp : Nat) (m : Mem) : List Nat → Nat × Mem
  | [] => (esp, m)
  | p :: ps =>
    let (esp, m) := pushArgv esp m ps
    (esp - 4, storeWord m (esp - 4) p)

/-- `push_argument (esp, cmdline)` with `*esp = esp`: the new `*esp`, memory, and the command
line after `strtok_r`. -/
def push_argument (esp : Nat) (cmdline : List UInt8) (m : Mem) :
    Except Fault (Nat × Mem × List UInt8) := do
  let (cmdline, esp, m, argv) ← copyArgs (cmdline.length + 1) cmdline (some 0) 0 esp m []
  -- `argv[argc] = NULL`
  if 50 ≤ argv.length then throw .undefined
  let argc := argv.length
  let esp := esp &&& 0xfffffffc
  let (esp, m) := pushArgv esp m (argv ++ [0])
  let argv_base := esp
  let m := storeWord m (esp - 4) argv_base
  let m := storeWord m (esp - 8) argc
  let m := storeWord m (esp - 12) 0
  return (esp - 12, m, cmdline)

/-! ## Reading the user stack -/

/-- The `n` bytes at `a`. -/
def bytesAt (m : Mem) (a n : Nat) : List UInt8 := (List.range n).map fun i => m (a + i)

/-- The little-endian word at `a`, as `*(uint32_t *) a` reads it. -/
def wordAt (m : Mem) (a : Nat) : Nat := leValue (bytesAt m a 4)

section Memory

variable {m : Mem}

@[simp] theorem length_bytesAt (m : Mem) (a n : Nat) : (bytesAt m a n).length = n := by
  simp [bytesAt]

theorem bytesAt_congr {m' : Mem} {a n : Nat} (h : ∀ i < n, m (a + i) = m' (a + i)) :
    bytesAt m a n = bytesAt m' a n := by
  apply List.ext_getElem (by simp)
  intro i hi _
  simp only [bytesAt, List.getElem_map, List.getElem_range]
  exact h i (by simpa using hi)

theorem writeBytes_of_lt {dst x : Nat} (bytes : List UInt8) (h : x < dst) :
    writeBytes m dst bytes x = m x := by
  rw [writeBytes_apply, if_neg (by omega)]

theorem writeBytes_of_le {dst x : Nat} {bytes : List UInt8} (h : dst + bytes.length ≤ x) :
    writeBytes m dst bytes x = m x := by
  rw [writeBytes_apply, if_neg (by omega)]

/-- A copy of `b₁ ++ b₂` is a copy of `b₂` after `b₁`, then of `b₁`. -/
theorem writeBytes_append (m : Mem) (a : Nat) (b₁ b₂ : List UInt8) :
    writeBytes m a (b₁ ++ b₂) = writeBytes (writeBytes m (a + b₁.length) b₂) a b₁ := by
  funext x
  simp only [writeBytes_apply, List.length_append]
  by_cases h₁ : a ≤ x ∧ x < a + b₁.length
  · rw [if_pos (by omega), if_pos h₁, List.getD_eq_getElem?_getD, List.getD_eq_getElem?_getD,
      List.getElem?_append_left (by omega)]
  · rw [if_neg h₁]
    by_cases h₂ : a + b₁.length ≤ x ∧ x < a + b₁.length + b₂.length
    · rw [if_pos (by omega), if_pos h₂, List.getD_eq_getElem?_getD, List.getD_eq_getElem?_getD,
        List.getElem?_append_right (by omega), show x - a - b₁.length = x - (a + b₁.length) by omega]
    · rw [if_neg (by omega), if_neg h₂]

theorem bytesAt_writeBytes_self (m : Mem) (a : Nat) (bytes : List UInt8) :
    bytesAt (writeBytes m a bytes) a bytes.length = bytes := by
  apply List.ext_getElem (by simp)
  intro i hi _
  simp only [bytesAt, List.getElem_map, List.getElem_range, writeBytes_apply]
  rw [if_pos (by simp at hi; omega), Nat.add_sub_cancel_left, List.getD_eq_getElem?_getD,
    List.getElem?_eq_getElem (by simpa using hi), Option.getD_some]

theorem bytesAt_writeBytes_of_disjoint {dst a n : Nat} {bytes : List UInt8}
    (h : a + n ≤ dst ∨ dst + bytes.length ≤ a) :
    bytesAt (writeBytes m dst bytes) a n = bytesAt m a n := by
  apply bytesAt_congr
  intro i hi
  rcases h with h | h
  · exact writeBytes_of_lt bytes (by omega)
  · exact writeBytes_of_le (by omega)

@[simp] theorem length_flatMap_leBytes (ws : List Nat) :
    (ws.flatMap (leBytes 4)).length = 4 * ws.length := by
  induction ws with
  | nil => rfl
  | cons w ws ih => simp [List.flatMap_cons, ih]; omega

theorem writeBytes_nil (m : Mem) (a : Nat) : writeBytes m a [] = m := by
  funext x
  simp [writeBytes_apply]

theorem storeWord_below_words (m : Mem) {a : Nat} (ws : List Nat) (v : Nat) (ha : 4 ≤ a) :
    storeWord (writeBytes m a (ws.flatMap (leBytes 4))) (a - 4) v =
      writeBytes m (a - 4) ((v :: ws).flatMap (leBytes 4)) := by
  rw [List.flatMap_cons, writeBytes_append, length_leBytes, Nat.sub_add_cancel ha]
  rfl

/-- Three words stored below an array of words, each below the last. -/
theorem storeWord_three_below_words (m : Mem) (ws : List Nat) {a : Nat} (x y z : Nat)
    (ha : 12 ≤ a) :
    storeWord (storeWord (storeWord (writeBytes m a (ws.flatMap (leBytes 4))) (a - 4) x)
        (a - 8) y) (a - 12) z = writeBytes m (a - 12) (([z, y, x] ++ ws).flatMap (leBytes 4)) := by
  rw [storeWord_below_words _ _ _ (by omega), show a - 8 = a - 4 - 4 by omega,
    storeWord_below_words _ _ _ (by omega), show a - 12 = a - 4 - 4 - 4 by omega,
    storeWord_below_words _ _ _ (by omega)]
  rfl

/-- The `k`th word of an array of words copied to `a`. -/
theorem wordAt_writeBytes_words (m : Mem) (a : Nat) (ws : List Nat) {k : Nat}
    (hk : k < ws.length) (hw : ws[k] < 2 ^ 32) :
    wordAt (writeBytes m a (ws.flatMap (leBytes 4))) (a + 4 * k) = ws[k] := by
  have hws : ws = ws.take k ++ ws[k] :: ws.drop (k + 1) := by
    rw [← List.drop_eq_getElem_cons hk, List.take_append_drop]
  have hsplit : ws.flatMap (leBytes 4) = (ws.take k).flatMap (leBytes 4) ++
      (leBytes 4 ws[k] ++ (ws.drop (k + 1)).flatMap (leBytes 4)) := by
    conv_lhs => rw [hws]
    rw [List.flatMap_append, List.flatMap_cons]
  have hlen : ((ws.take k).flatMap (leBytes 4)).length = 4 * k := by
    rw [length_flatMap_leBytes, List.length_take, Nat.min_eq_left hk.le]
  have hself := bytesAt_writeBytes_self
    (writeBytes m (a + 4 * k + 4) ((ws.drop (k + 1)).flatMap (leBytes 4))) (a + 4 * k)
    (leBytes 4 ws[k])
  rw [length_leBytes] at hself
  rw [hsplit, writeBytes_append, hlen, wordAt, bytesAt_writeBytes_of_disjoint (.inr (Nat.add_le_add_left hlen.le a)),
    writeBytes_append, length_leBytes, hself]
  exact leValue_leBytes 4 _ (by simpa using hw)

end Memory

/-! ## Arithmetic of the frame -/

/-- `(uintptr_t) esp & 0xfffffffc` rounds a 32-bit pointer down to a multiple of 4. -/
theorem and_fffffffc {x : Nat} (hx : x < 2 ^ 32) : x &&& 0xfffffffc = x / 4 * 4 := by
  apply Nat.eq_of_testBit_eq
  intro i
  rw [Nat.testBit_and, show x / 4 * 4 = x / 2 ^ 2 * 2 ^ 2 from rfl, Nat.testBit_mul_two_pow,
    Nat.testBit_div_two_pow]
  by_cases hi : i < 32
  · by_cases h2 : 2 ≤ i
    · have hm : Nat.testBit 0xfffffffc i = true := by interval_cases i <;> rfl
      rw [hm, Bool.and_true, show i - 2 + 2 = i by omega]
      simp [h2]
    · have hm : Nat.testBit 0xfffffffc i = false := by interval_cases i <;> rfl
      simp [hm, h2]
  · -- above bit 31 the pointer has no bits
    have hxi : Nat.testBit x i = false :=
      Nat.testBit_lt_two_pow (lt_of_lt_of_le hx (Nat.pow_le_pow_right (by norm_num) (by omega)))
    have hxi' : Nat.testBit x (i - 2 + 2) = false := by rw [show i - 2 + 2 = i by omega]; exact hxi
    simp [hxi, hxi']

/-! ## The strings -/

/-- What the first loop is for: push each token with a NUL, the first highest, and note where
each went. -/
def pushStrings (esp : Nat) (m : Mem) : List (List UInt8) → Nat × Mem × List Nat
  | [] => (esp, m, [])
  | t :: ts =>
    let esp := esp - (t.length + 1)
    let r := pushStrings esp (writeBytes m esp (t ++ [0])) ts
    (r.1, r.2.1, esp :: r.2.2)

/-- The bytes the strings of `T` take with their NULs. -/
def stringsSize (T : List (List UInt8)) : Nat := (T.map fun t => t.length + 1).sum

@[simp] theorem stringsSize_nil : stringsSize [] = 0 := rfl

@[simp] theorem stringsSize_cons (t : List UInt8) (T : List (List UInt8)) :
    stringsSize (t :: T) = t.length + 1 + stringsSize T := rfl

theorem pushStrings_fst (esp : Nat) (m : Mem) (T : List (List UInt8)) :
    (pushStrings esp m T).1 = esp - stringsSize T := by
  induction T generalizing esp m with
  | nil => rfl
  | cons t T ih => simp only [pushStrings, ih, stringsSize_cons, Nat.sub_sub]

theorem length_pushStrings (esp : Nat) (m : Mem) (T : List (List UInt8)) :
    (pushStrings esp m T).2.2.length = T.length := by
  induction T generalizing esp m with
  | nil => rfl
  | cons t T ih => simp [pushStrings, ih]

/-- With room for them below `esp`, the strings lie in order below `esp`, the first highest,
each with its NUL, and nothing outside them is written. -/
theorem pushStrings_spec (T : List (List UInt8)) :
    ∀ {esp : Nat} {m : Mem}, stringsSize T ≤ esp →
      (∀ x, (x < (pushStrings esp m T).1 ∨ esp ≤ x) → (pushStrings esp m T).2.1 x = m x) ∧
      List.Forall₂ (fun p t => (pushStrings esp m T).1 ≤ p ∧ p + (t.length + 1) ≤ esp ∧
          bytesAt (pushStrings esp m T).2.1 p (t.length + 1) = t ++ [0])
        (pushStrings esp m T).2.2 T := by
  induction T with
  | nil => intro esp m _; exact ⟨fun _ _ => rfl, .nil⟩
  | cons t T ih =>
    intro esp m hroom
    simp only [stringsSize_cons] at hroom
    set esp₁ := esp - (t.length + 1)
    set m₁ := writeBytes m esp₁ (t ++ [0])
    obtain ⟨hframe, hstr⟩ := @ih esp₁ m₁ (by omega)
    have hlow : (pushStrings esp₁ m₁ T).1 ≤ esp₁ := by rw [pushStrings_fst]; omega
    have hlen : (t ++ [0]).length = t.length + 1 := by simp
    refine ⟨fun x hx => ?_, .cons ⟨hlow, by omega, ?_⟩ (hstr.imp fun p t' h => ⟨h.1, by omega, h.2.2⟩)⟩
    · rw [show (pushStrings esp m (t :: T)).2.1 = (pushStrings esp₁ m₁ T).2.1 from rfl,
        hframe x (hx.imp_right fun h => by omega)]
      rcases hx with hx | hx
      · exact writeBytes_of_lt _ (by simp only [show (pushStrings esp m (t :: T)).1 =
          (pushStrings esp₁ m₁ T).1 from rfl] at hx; omega)
      · exact writeBytes_of_le (by rw [hlen]; omega)
    · rw [show (pushStrings esp m (t :: T)).2.1 = (pushStrings esp₁ m₁ T).2.1 from rfl,
        bytesAt_congr fun i _ => hframe (esp₁ + i) (.inr (by omega)), ← hlen]
      exact bytesAt_writeBytes_self m esp₁ (t ++ [0])

/-- With room below `esp`, the second loop copies the array `ps` of words just below `esp`. -/
theorem pushArgv_eq (m : Mem) (ps : List Nat) :
    ∀ {esp : Nat}, 4 * ps.length ≤ esp →
      pushArgv esp m ps = (esp - 4 * ps.length, writeBytes m (esp - 4 * ps.length)
        (ps.flatMap (leBytes 4))) := by
  induction ps with
  | nil => intro esp _; simp [pushArgv, writeBytes_nil]
  | cons p ps ih =>
    intro esp hroom
    simp only [List.length_cons] at hroom
    rw [pushArgv, ih (by omega)]
    dsimp only
    rw [@storeWord_below_words m (esp - 4 * ps.length) ps p (by omega), List.length_cons,
      show esp - 4 * ps.length - 4 = esp - 4 * (ps.length + 1) by omega]

theorem strlen_of_drop {buf t tail : List UInt8} {p : Nat} (ht : ∀ c ∈ t, c ≠ 0)
    (h : buf.drop p = t ++ 0 :: tail) : strlen buf p = t.length := by
  unfold strlen
  rw [h, List.takeWhile_append_of_pos (by simpa using ht)]
  simp

theorem copy_of_drop {buf t tail : List UInt8} {p : Nat} (h : buf.drop p = t ++ 0 :: tail) :
    (buf.drop p).take (t.length + 1) = t ++ [0] := by
  rw [h, List.take_append, List.take_of_length_le (by omega), Nat.add_sub_cancel_left]
  rfl

/-- The first call is a call with `NULL` from the start of the command line. -/
theorem copyArgs_some (fuel : Nat) (cmdline : List UInt8) (s save_ptr esp : Nat) (m : Mem)
    (argv : List Nat) :
    copyArgs (fuel + 1) cmdline (some s) save_ptr esp m argv =
      copyArgs (fuel + 1) cmdline none s esp m argv := rfl

/-- One turn of the first loop at a token `t` that `strtok_r` has ended with a NUL. -/
theorem copyArgs_token (fuel esp : Nat) (m : Mem) (argv : List Nat) {buf buf₁ t tail : List UInt8}
    {save save₁ p : Nat} (hcall : strtok_r buf spaceDelim none save = some (some p, buf₁, save₁))
    (ht : ∀ c ∈ t, c ≠ 0) (hp : buf₁.drop p = t ++ 0 :: tail) :
    copyArgs (fuel + 1) buf none save esp m argv =
      if argv.length < 50 then
        copyArgs fuel buf₁ none save₁ (esp - (t.length + 1))
          (writeBytes m (esp - (t.length + 1)) (t ++ [0])) (argv ++ [esp - (t.length + 1)])
      else .error .undefined := by
  simp only [copyArgs, hcall, strlen_of_drop ht hp, copy_of_drop hp]

/-- The first loop from a place whose string is `r`, with `argv` filled so far: it pushes the
tokens of `r` when they fit in `argv`, and writes past `argv` when they do not. -/
theorem copyArgs_spec : ∀ (fuel : Nat) {buf r rest : List UInt8} {save esp : Nat} {m : Mem}
    {argv : List Nat}, buf.drop save = r ++ 0 :: rest → (∀ c ∈ r, c ≠ 0) →
    (tokens spaceDelim r).length < fuel →
    (argv.length + (tokens spaceDelim r).length ≤ 50 → ∃ buf',
        copyArgs fuel buf none save esp m argv =
          .ok (buf', (pushStrings esp m (tokens spaceDelim r)).1,
            (pushStrings esp m (tokens spaceDelim r)).2.1,
            argv ++ (pushStrings esp m (tokens spaceDelim r)).2.2) ∧
        Zeroes spaceDelim buf buf') ∧
    (argv.length ≤ 50 → 50 < argv.length + (tokens spaceDelim r).length →
      copyArgs fuel buf none save esp m argv = .error .undefined) := by
  have hD : (0 : UInt8) ∉ spaceDelim := by decide
  intro fuel
  induction fuel with
  | zero => intro _ _ _ _ _ _ _ _ _ hn; exact absurd hn (Nat.not_lt_zero _)
  | succ fuel ih =>
    intro buf r rest save esp m argv hbuf hr hn
    rcases first_run_split (D := spaceDelim) r with hall | ⟨ds, t, rest', rfl, hds, hne, ht, hrest⟩
    · -- no token: the loop ends
      have hcall := strtok_r_at_end (fun c hc => ⟨hall c hc, hr c hc⟩) hbuf
      have htok : tokens spaceDelim r = [] := by
        rw [← List.append_nil r, tokens_delims_append hall, tokens_nil]
      rw [htok]
      refine ⟨fun _ => ⟨buf, ?_, Zeroes.refl _⟩, fun h h' => by simp at h'; omega⟩
      simp [copyArgs, hcall, pushStrings]
    have hds' : ∀ c ∈ ds, c ∈ spaceDelim ∧ c ≠ 0 := fun c hc => ⟨hds c hc, hr c (by simp [hc])⟩
    have ht' : ∀ c ∈ t, c ∉ spaceDelim ∧ c ≠ 0 := fun c hc => ⟨ht c hc, hr c (by simp [hc])⟩
    have ht0 : ∀ c ∈ t, c ≠ 0 := fun c hc => (ht' c hc).2
    have hrun : buf.drop (save + ds.length) = t ++ (rest' ++ 0 :: rest) := by
      rw [@drop_add_of_drop buf ds (t ++ (rest' ++ 0 :: rest)) save (by simpa using hbuf)]
    rcases hrest with rfl | ⟨d, r', rfl, hd⟩
    · -- the last token, ended by the NUL: the next call returns `NULL`
      have hcall := strtok_r_at_last_run hds' ht' hne (by simpa using hbuf)
      have htok : tokens spaceDelim (ds ++ (t ++ [])) = [t] := by
        rw [tokens_delims_append hds, List.append_nil, tokens_run ht hne]
      have hnul : buf.drop (save + ds.length + t.length) = [] ++ 0 :: rest := by
        simpa using drop_add_of_drop (by simpa using hrun)
      rw [htok] at hn ⊢
      have hstep := copyArgs_token fuel esp m argv hcall ht0 (by simpa using hrun)
      set esp' := esp - (t.length + 1)
      obtain ⟨h1, -⟩ := @ih buf [] rest (save + ds.length + t.length) esp'
        (writeBytes m esp' (t ++ [0])) (argv ++ [esp']) hnul (by simp) (by simp at hn ⊢; omega)
      rw [tokens_nil] at h1
      refine ⟨fun hle => ?_, fun h50 hlt => ?_⟩
      · obtain ⟨buf', hrec, hz⟩ := h1 (by simp at hle ⊢; omega)
        refine ⟨buf', ?_, hz⟩
        rw [hstep, if_pos (by simp at hle; omega), hrec]
        simp [pushStrings, esp']
      · rw [hstep, if_neg (by simp at hlt; omega)]
    · -- a token ended by a space, which becomes its NUL
      have hd0 : d ≠ 0 := hr d (by simp)
      have hcall := strtok_r_at_run hds' ht' hne hd hd0 (by simpa using hbuf)
      have htok : tokens spaceDelim (ds ++ (t ++ d :: r')) = t :: tokens spaceDelim r' := by
        rw [tokens_delims_append hds, tokens_run_sep ht hne hd]
      set q := save + ds.length + t.length
      have hq : buf[q]? = some d := getElem?_of_drop (drop_add_of_drop (by simpa using hrun))
      have hset : (buf.set q 0).drop (save + ds.length) = t ++ 0 :: (r' ++ 0 :: rest) := by
        rw [List.drop_set, if_neg (show ¬ q < save + ds.length by omega), hrun,
          show q - (save + ds.length) = t.length by omega,
          List.set_append_right _ _ (Nat.le_refl _)]
        simp
      have hnext₀ : (buf.set q 0).drop (q + 1) = r' ++ 0 :: rest := by
        have := @drop_add_of_drop (buf.set q 0) (t ++ [0]) (r' ++ 0 :: rest) (save + ds.length)
          (by simpa using hset)
        simpa [q, Nat.add_assoc] using this
      rw [htok] at hn ⊢
      have hstep := copyArgs_token fuel esp m argv hcall ht0 hset
      set esp' := esp - (t.length + 1)
      obtain ⟨h1, h2⟩ := @ih (buf.set q 0) r' rest (q + 1) esp'
        (writeBytes m esp' (t ++ [0])) (argv ++ [esp']) hnext₀ (fun c hc => hr c (by simp [hc]))
        (by simp at hn; omega)
      refine ⟨fun hle => ?_, fun h50 hlt => ?_⟩
      · obtain ⟨buf', hrec, hz⟩ := h1 (by simp at hle ⊢; omega)
        refine ⟨buf', ?_, (Zeroes.set hq hd).trans hD hz⟩
        rw [hstep, if_pos (by simp at hle; omega), hrec]
        simp [pushStrings, esp']
      · rw [hstep]
        split_ifs with hlt50
        · exact h2 (by simp; omega) (by simp at hlt ⊢; omega)
        · rfl

theorem pushArgv_fst (esp : Nat) (m : Mem) (ps : List Nat) :
    (pushArgv esp m ps).1 = esp - 4 * ps.length := by
  induction ps with
  | nil => rfl
  | cons p ps ih =>
    simp only [pushArgv, List.length_cons]
    rw [ih]
    omega

/-! ## `push_argument` -/

/-- `push_argument` on a command line `w` of fewer than 50 tokens: the first loop pushes the
tokens, then the second the pointers and `NULL` below the rounded-down `*esp`, then the last
three words. The command line comes back with NULs over some of its spaces. -/
theorem push_argument_run {w rest : List UInt8} (esp : Nat) (m : Mem) (hw : 0 ∉ w)
    (hT : (tokens spaceDelim w).length < 50) :
    ∃ buf', Zeroes spaceDelim (w ++ 0 :: rest) buf' ∧
      push_argument esp (w ++ 0 :: rest) m =
        let r := pushStrings esp m (tokens spaceDelim w)
        let b := (pushArgv (r.1 &&& 0xfffffffc) r.2.1 (r.2.2 ++ [0])).1
        let mA := (pushArgv (r.1 &&& 0xfffffffc) r.2.1 (r.2.2 ++ [0])).2
        .ok (b - 12, storeWord (storeWord (storeWord mA (b - 4) b) (b - 8) r.2.2.length) (b - 12) 0,
          buf') := by
  have hw' : ∀ c ∈ w, c ≠ 0 := fun c hc h0 => hw (h0 ▸ hc)
  have hfuel : (tokens spaceDelim w).length < (w ++ 0 :: rest).length + 1 := by
    have := tokens_length_le (D := spaceDelim) w
    simp
    omega
  obtain ⟨h1, -⟩ := @copyArgs_spec ((w ++ 0 :: rest).length + 1) (w ++ 0 :: rest) w rest 0 esp m []
    (by simp) hw' hfuel
  obtain ⟨buf', hcopy, hz⟩ := h1 (by simp; omega)
  refine ⟨buf', hz, ?_⟩
  rw [push_argument, copyArgs_some, hcopy]
  simp only [bind, Except.bind, List.nil_append, length_pushStrings,
    if_neg (Nat.not_le_of_lt hT)]
  rfl

/-- From the fiftieth token on, `argv[argc]` or `argv[argc++]` is a write past `argv`. -/
theorem push_argument_of_fifty {w rest : List UInt8} (esp : Nat) (m : Mem) (hw : 0 ∉ w)
    (hT : 50 ≤ (tokens spaceDelim w).length) :
    push_argument esp (w ++ 0 :: rest) m = .error .undefined := by
  have hw' : ∀ c ∈ w, c ≠ 0 := fun c hc h0 => hw (h0 ▸ hc)
  have hfuel : (tokens spaceDelim w).length < (w ++ 0 :: rest).length + 1 := by
    have := tokens_length_le (D := spaceDelim) w
    simp
    omega
  obtain ⟨h1, h2⟩ := @copyArgs_spec ((w ++ 0 :: rest).length + 1) (w ++ 0 :: rest) w rest 0 esp m
    [] (by simp) hw' hfuel
  rw [push_argument, copyArgs_some]
  rcases Nat.lt_or_eq_of_le hT with hlt | heq
  · -- the fifty-first token is written to `argv[50]`
    rw [h2 (by simp) (by simp; omega)]
    rfl
  · -- fifty tokens fill `argv`, and `argv[50] = NULL` is past it
    obtain ⟨buf', hcopy, -⟩ := h1 (by simp; omega)
    rw [hcopy]
    simp only [bind, Except.bind, List.nil_append, length_pushStrings, if_pos heq.le]
    rfl

/-! ## The frame -/

/-- The 80x86 calling convention's frame at `sp` for the arguments `T`, in memory `m` that was
`m₀` before: a null return address, `argc`, and an aligned `argv` whose entries point to the
strings, between `argv` and `esp`, and end in `NULL`; nothing outside `[sp, esp)` is written. -/
def CallFrame (esp : Nat) (T : List (List UInt8)) (m₀ m : Mem) (sp : Nat) : Prop :=
  wordAt m sp = 0 ∧ wordAt m (sp + 4) = T.length ∧ wordAt m (sp + 8) % 4 = 0 ∧
    (∀ i (h : i < T.length),
      wordAt m (sp + 8) ≤ wordAt m (wordAt m (sp + 8) + 4 * i) ∧
      wordAt m (wordAt m (sp + 8) + 4 * i) + (T[i].length + 1) ≤ esp ∧
      bytesAt m (wordAt m (wordAt m (sp + 8) + 4 * i)) (T[i].length + 1) = T[i] ++ [0]) ∧
    wordAt m (wordAt m (sp + 8) + 4 * T.length) = 0 ∧
    ∀ x, (x < sp ∨ esp ≤ x) → m x = m₀ x

/-- What `push_argument` is for, on the tokens `T` below `esp`: the strings, the first highest;
below them, from the next multiple of 4 down, `argv[0]` to `argv[argc] = NULL`; and under
`argv` the words `argv`, `argc` and a null return address, at the new `*esp`. -/
def argFrame (esp : Nat) (T : List (List UInt8)) (m : Mem) : Nat × Mem :=
  let r := pushStrings esp m T
  let argv := r.1 / 4 * 4 - 4 * (T.length + 1)
  (argv - 12,
    writeBytes r.2.1 (argv - 12) (([0, T.length, argv] ++ r.2.2 ++ [0]).flatMap (leBytes 4)))

/-- With room for the frame below a 32-bit `esp`, `push_argument` builds `argFrame`. -/
theorem push_argument_spec {w rest : List UInt8} {esp : Nat} (m : Mem) (hw : 0 ∉ w)
    (hT : (tokens spaceDelim w).length < 50) (hesp : esp < 2 ^ 32)
    (hroom : stringsSize (tokens spaceDelim w) + 4 * (tokens spaceDelim w).length + 19 ≤ esp) :
    ∃ buf', Zeroes spaceDelim (w ++ 0 :: rest) buf' ∧
      push_argument esp (w ++ 0 :: rest) m =
        .ok ((argFrame esp (tokens spaceDelim w) m).1, (argFrame esp (tokens spaceDelim w) m).2,
          buf') := by
  obtain ⟨buf', hz, hrun⟩ := @push_argument_run w rest esp m hw hT
  refine ⟨buf', hz, ?_⟩
  rw [hrun]
  dsimp only [argFrame]
  set T := tokens spaceDelim w
  set r := pushStrings esp m T
  have he : r.1 = esp - stringsSize T := pushStrings_fst esp m T
  have hlen : r.2.2.length = T.length := length_pushStrings esp m T
  have ha : r.1 &&& 0xfffffffc = r.1 / 4 * 4 := and_fffffffc (by omega)
  have hroom' : 4 * (r.2.2 ++ [0]).length ≤ r.1 / 4 * 4 := by simp [hlen]; omega
  rw [ha, pushArgv_eq _ _ hroom']
  have h12 : 12 ≤ r.1 / 4 * 4 - 4 * (r.2.2 ++ [0]).length := by
    simp only [List.length_append, List.length_singleton, hlen]
    omega
  rw [storeWord_three_below_words _ _ _ _ _ h12, List.length_append, List.length_singleton, hlen,
    List.append_assoc]

section Frame

variable {esp : Nat} {T : List (List UInt8)}

/-- The frame `argFrame` builds is the calling convention's, when it fits below a 32-bit
`esp`. -/
theorem argFrame_callFrame (m : Mem) (hesp : esp < 2 ^ 32)
    (hroom : stringsSize T + 4 * T.length + 19 ≤ esp) :
    CallFrame esp T m (argFrame esp T m).2 (argFrame esp T m).1 := by
  obtain ⟨hframe, hstr⟩ := @pushStrings_spec T esp m (by omega)
  have he := pushStrings_fst esp m T
  have hlen := length_pushStrings esp m T
  dsimp only [argFrame]
  set r := pushStrings esp m T
  have hptrs : ∀ i (h : i < T.length) (h' : i < r.2.2.length), r.1 ≤ r.2.2[i] ∧
      r.2.2[i] + (T[i].length + 1) ≤ esp ∧ bytesAt r.2.1 r.2.2[i] (T[i].length + 1) = T[i] ++ [0] :=
    fun i h h' => by simpa using hstr.get h' h
  set argv := r.1 / 4 * 4 - 4 * (T.length + 1)
  set ws := [0, T.length, argv] ++ r.2.2 ++ [0]
  have hargv : 12 ≤ argv ∧ argv % 4 = 0 ∧ argv + 4 * (T.length + 1) ≤ r.1 := by omega
  have hws : ws.length = T.length + 4 := by simp [ws, hlen]
  have hsmall : ∀ x ∈ ws, x < 2 ^ 32 := by
    intro x hx
    simp only [ws, List.mem_append, List.mem_cons, List.not_mem_nil, or_false] at hx
    rcases hx with ((rfl | rfl | rfl) | hx) | rfl
    · exact Nat.two_pow_pos 32
    · omega
    · omega
    · obtain ⟨i, hi, rfl⟩ := List.getElem_of_mem hx
      have := (hptrs i (by omega) hi).2.1
      omega
    · exact Nat.two_pow_pos 32
  have hword : ∀ k (hk : k < ws.length),
      wordAt (writeBytes r.2.1 (argv - 12) (ws.flatMap (leBytes 4))) (argv - 12 + 4 * k) =
        ws[k] := fun k hk => wordAt_writeBytes_words _ _ ws hk (hsmall _ (List.getElem_mem hk))
  have h8 : wordAt (writeBytes r.2.1 (argv - 12) (ws.flatMap (leBytes 4))) (argv - 12 + 8) =
      argv := by simpa [ws] using hword 2 (by omega)
  refine ⟨by simpa [ws] using hword 0 (by omega), by simpa [ws] using hword 1 (by omega),
    by rw [h8]; exact hargv.2.1, fun i hi => ?_, ?_, fun x hx => ?_⟩
  · -- `argv[i]` is the pointer the first loop recorded for the `i`th token
    have hi2 : i < r.2.2.length := by omega
    have hi' : wordAt (writeBytes r.2.1 (argv - 12) (ws.flatMap (leBytes 4))) (argv + 4 * i) =
        r.2.2[i] := by
      have := hword (i + 3) (by omega)
      rw [show argv - 12 + 4 * (i + 3) = argv + 4 * i by omega] at this
      rw [this]
      simp only [ws, List.append_assoc, List.cons_append, List.nil_append, List.getElem_cons_succ]
      exact List.getElem_append_left hi2
    obtain ⟨hlo, hhi, hbytes⟩ := hptrs i hi hi2
    rw [h8, hi', bytesAt_writeBytes_of_disjoint (.inr (by rw [length_flatMap_leBytes]; omega)),
      hbytes]
    exact ⟨by omega, hhi, rfl⟩
  · have := hword (T.length + 3) (by omega)
    rw [show argv - 12 + 4 * (T.length + 3) = argv + 4 * T.length by omega] at this
    rw [h8, this]
    simp [ws, hlen]
  · -- the frame lies in `[argv - 12, r.1)`, the strings in `[r.1, esp)`
    rcases hx with hx | hx
    · rw [writeBytes_of_lt _ hx, hframe x (.inl (by omega))]
    · rw [writeBytes_of_le (by rw [length_flatMap_leBytes]; omega), hframe x (.inr hx)]

theorem argFrame_fst_ge (m : Mem) : esp - (stringsSize T + 4 * T.length + 19) ≤ (argFrame esp T m).1 := by
  simp only [argFrame, pushStrings_fst]
  omega

end Frame

/-- A command line of fewer than 50 tokens whose frame fits below a 32-bit `esp` gets the
calling convention's frame, no further down than its size. -/
theorem push_argument_frame {w rest : List UInt8} {esp : Nat} (m : Mem) (hw : 0 ∉ w)
    (hT : (tokens spaceDelim w).length < 50) (hesp : esp < 2 ^ 32)
    (hroom : stringsSize (tokens spaceDelim w) + 4 * (tokens spaceDelim w).length + 19 ≤ esp) :
    ∃ sp m' buf', push_argument esp (w ++ 0 :: rest) m = .ok (sp, m', buf') ∧
      CallFrame esp (tokens spaceDelim w) m m' sp ∧
      esp - (stringsSize (tokens spaceDelim w) + 4 * (tokens spaceDelim w).length + 19) ≤ sp ∧
      Zeroes spaceDelim (w ++ 0 :: rest) buf' := by
  obtain ⟨buf', hz, hrun⟩ := @push_argument_spec w rest esp m hw hT hesp hroom
  exact ⟨_, _, buf', hrun, argFrame_callFrame m hesp hroom, argFrame_fst_ge m, hz⟩

/-- After `setup_stack`, a frame of at most a page is in the stack page. -/
theorem push_argument_in_page {w rest : List UInt8} (m : Mem) (hw : 0 ∉ w)
    (hT : (tokens spaceDelim w).length < 50)
    (hfit : stringsSize (tokens spaceDelim w) + 4 * (tokens spaceDelim w).length + 19 ≤ PGSIZE) :
    ∃ sp m' buf', push_argument PHYS_BASE (w ++ 0 :: rest) m = .ok (sp, m', buf') ∧
      CallFrame PHYS_BASE (tokens spaceDelim w) m m' sp ∧ PHYS_BASE - PGSIZE ≤ sp := by
  have hpg : PGSIZE = 4096 := rfl
  obtain ⟨sp, m', buf', hrun, hframe, hsp, -⟩ :=
    @push_argument_frame w rest PHYS_BASE m hw hT (by decide) (by simp only [PHYS_BASE]; omega)
  exact ⟨sp, m', buf', hrun, hframe, by simp only [PHYS_BASE] at hsp ⊢; omega⟩

/-- Nothing bounds the frame by the stack page: one that does not fit in a page ends below
it. -/
theorem push_argument_below_page {w rest : List UInt8} (m : Mem) (hw : 0 ∉ w)
    (hT : (tokens spaceDelim w).length < 50)
    (hbig : PGSIZE < stringsSize (tokens spaceDelim w) + 4 * (tokens spaceDelim w).length + 16) :
    ∃ sp m' buf', push_argument PHYS_BASE (w ++ 0 :: rest) m = .ok (sp, m', buf') ∧
      sp < PHYS_BASE - PGSIZE := by
  obtain ⟨buf', -, hrun⟩ := @push_argument_run w rest PHYS_BASE m hw hT
  refine ⟨_, _, buf', hrun, ?_⟩
  -- the rounding only lowers `*esp`, and the words below it take `4 * (argc + 4)` bytes
  have hand := Nat.and_le_left (n := (pushStrings PHYS_BASE m (tokens spaceDelim w)).1)
    (m := 0xfffffffc)
  rw [pushArgv_fst, pushStrings_fst] at *
  simp only [List.length_append, List.length_singleton, length_pushStrings]
  have hpg : PGSIZE = 4096 := rfl
  simp only [PHYS_BASE] at hand ⊢
  omega

/-- `push_argument` bounds neither the tokens by `argv` nor the frame by the stack page, and it
tokenizes the command line in place: fifty tokens or more write past `argv`, a frame larger than
a page ends below the stack page, and `"a b"` comes back as `"a\0b"`. -/
theorem push_argument_overruns :
    (∀ (w rest : List UInt8) (esp : Nat) (m : Mem), 0 ∉ w → 50 ≤ (tokens spaceDelim w).length →
      push_argument esp (w ++ 0 :: rest) m = .error .undefined) ∧
    (∀ (w rest : List UInt8) (m : Mem), 0 ∉ w → (tokens spaceDelim w).length < 50 →
      PGSIZE < stringsSize (tokens spaceDelim w) + 4 * (tokens spaceDelim w).length + 16 →
      ∃ sp m' buf', push_argument PHYS_BASE (w ++ 0 :: rest) m = .ok (sp, m', buf') ∧
        sp < PHYS_BASE - PGSIZE) ∧
    ∀ m : Mem, ∃ sp m', push_argument PHYS_BASE [97, 32, 98, 0] m = .ok (sp, m', [97, 0, 98, 0]) :=
  ⟨fun _ _ esp m hw hT => push_argument_of_fifty esp m hw hT,
    fun _ _ m hw hT hbig => push_argument_below_page m hw hT hbig,
    fun _ => ⟨_, _, rfl⟩⟩

/-- `"a a ... a"` with fifty `a`s, and one token of 4076 bytes, from a zeroed memory. -/
theorem push_argument_overruns_at_fifty_tokens :
    push_argument PHYS_BASE ((List.replicate 49 [97, 32]).flatten ++ [97] ++ 0 :: [])
        (fun _ => 0) = .error .undefined ∧
    (∃ sp m' buf', push_argument PHYS_BASE (List.replicate 4076 97 ++ 0 :: []) (fun _ => 0) =
        .ok (sp, m', buf') ∧ sp < PHYS_BASE - PGSIZE) ∧
    ∃ sp m', push_argument PHYS_BASE [97, 32, 98, 0] (fun _ => 0) = .ok (sp, m', [97, 0, 98, 0]) := by
  have hrun : tokens spaceDelim (List.replicate 4076 97) = [List.replicate 4076 97] :=
    tokens_run (fun c hc => by rw [List.eq_of_mem_replicate hc]; decide)
      (by rw [Ne, List.replicate_eq_nil_iff]; decide)
  refine ⟨push_argument_overruns.1 _ _ _ _ (by decide) (by decide),
    push_argument_overruns.2.1 _ _ _ (by rw [List.mem_replicate]; decide)
      (by rw [hrun]; decide) ?_,
    push_argument_overruns.2.2 _⟩
  rw [hrun, stringsSize_cons, stringsSize_nil, List.length_replicate, List.length_singleton]
  decide

end Pintos
