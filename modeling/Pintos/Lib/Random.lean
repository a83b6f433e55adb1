import Mathlib.Algebra.Group.End
import Pintos.Lib.Bytes
import Pintos.Lib.Mealy
import Pintos.Lib.Run

/-!
# The pseudo-random number generator (`lib/random.c`)

`random.c` keeps an RC4 state in static storage: the array `s[256]`, the indices `s_i` and
`s_j`, and `inited`. `random_init (seed)` runs RC4's key schedule with the four bytes of `seed`
as its key, once: a later call returns at once, although the function's comment says that it
reinitialises. `random_bytes` runs the key schedule with seed `0` if no call has, then writes one
keystream byte a round. `random_ulong` is the `unsigned long` whose four bytes `random_bytes`
writes.

The model keeps `s` as a function on bytes and `swap_byte` as the two stores it makes. `Arc4` is
RC4 as the cipher is stated, with the array a permutation of the bytes. Each loop of the code is
the matching loop of `Arc4` read through `Arc4.toRc4` (`random_init_boot`, `nextByte_toRc4`).
So after its first call a run is in an `Arc4` state (`run_boot`): its array is a permutation
(`random_perm`), and the bytes that all the calls of the run hand back are the keystream of the
first call's seed (`random_keystream`). Later seeds change nothing, and neither does how the bytes
are split into calls.
-/

set_option linter.style.nameCheck false

namespace Pintos.Random

/-- The static state of `random.c`. -/
structure Rc4 where
  s : UInt8 → UInt8
  s_i : UInt8
  s_j : UInt8
  inited : Bool

/-- Static storage starts out zero. -/
def boot : Rc4 := ⟨fun _ => 0, 0, 0, false⟩

/-- `swap_byte (s + a, s + b)`: `t = *a; *a = *b; *b = t`. -/
def swap_byte (s : UInt8 → UInt8) (a b : UInt8) : UInt8 → UInt8 :=
  Function.update (Function.update s a (s b)) b (s a)

/-- A round of the second loop of `random_init`: `j += s[i] + seedp[i % sizeof seed]`, then
`swap_byte (s + i, s + j)`. `seedp` points at the bytes of `seed` in memory. -/
def ksaStep (seed : UInt32) (x : (UInt8 → UInt8) × UInt8) (i : ℕ) : (UInt8 → UInt8) × UInt8 :=
  let j := x.2 + x.1 i.toUInt8 + (leBytes 4 seed.toNat).getD (i % 4) 0
  (swap_byte x.1 i.toUInt8 j, j)

/-- `random_init (seed)`. -/
def random_init (g : Rc4) (seed : UInt32) : Rc4 :=
  if g.inited then g
  else
    -- `s[i] = i` for every `i`, then the key schedule
    ⟨((List.range 256).foldl (ksaStep seed) (fun i => i, 0)).1, 0, 0, true⟩

/-- A round of the loop of `random_bytes`: the state after it, and the byte written to `*buf`. -/
def nextByte (g : Rc4) : Rc4 × UInt8 :=
  let s_i := g.s_i + 1
  let s_j := g.s_j + g.s s_i
  let s := swap_byte g.s s_i s_j
  let s_k := s s_i + s s_j
  (⟨s, s_i, s_j, g.inited⟩, s s_k)

/-- `random_bytes (buf, size)`: the state after it, and the `size` bytes written to `buf`. -/
def random_bytes (g : Rc4) (size : ℕ) : Rc4 × List UInt8 :=
  Mealy.run nextByte size (if g.inited then g else random_init g 0)

/-- `random_ulong ()`: the `unsigned long` whose four bytes `random_bytes` wrote. -/
def random_ulong (g : Rc4) : Rc4 × UInt32 :=
  let (g, ul) := random_bytes g 4
  (g, (leValue ul).toUInt32)

/-! ## RC4 over permutations -/

/-- An RC4 state: a permutation of the bytes and two indices. -/
structure Arc4 where
  perm : Equiv.Perm UInt8
  i : UInt8
  j : UInt8

/-- A round of RC4's key schedule with key `key`. -/
def Arc4.ksaStep (key : List UInt8) (x : Equiv.Perm UInt8 × UInt8) (i : ℕ) :
    Equiv.Perm UInt8 × UInt8 :=
  let j := x.2 + x.1 i.toUInt8 + key.getD (i % key.length) 0
  (x.1 * Equiv.swap i.toUInt8 j, j)

/-- RC4's key schedule: from the identity, a round for each of the 256 positions. -/
def Arc4.ksa (key : List UInt8) : Arc4 :=
  ⟨((List.range 256).foldl (Arc4.ksaStep key) (1, 0)).1, 0, 0⟩

/-- One keystream byte. -/
def Arc4.next (a : Arc4) : Arc4 × UInt8 :=
  let i := a.i + 1
  let j := a.j + a.perm i
  let perm := a.perm * Equiv.swap i j
  (⟨perm, i, j⟩, perm (perm i + perm j))

/-- The first `n` bytes of the keystream of `key`. -/
def keystream (key : List UInt8) (n : ℕ) : List UInt8 := (Mealy.run Arc4.next n (Arc4.ksa key)).2

/-- The static state of `random.c` once it holds the RC4 state `a`. -/
def Arc4.toRc4 (a : Arc4) : Rc4 := ⟨a.perm, a.i, a.j, true⟩

/-! ## The code runs RC4 -/

/-- The two stores of `swap_byte` permute the array by a transposition. -/
theorem swap_byte_eq (s : UInt8 → UInt8) (a b : UInt8) : swap_byte s a b = s ∘ Equiv.swap a b := by
  rw [Equiv.swap_comm, Equiv.comp_swap_eq_update]
  rfl

/-- The first `random_init` runs RC4's key schedule with the bytes of the seed as the key. -/
theorem random_init_boot (seed : UInt32) :
    random_init boot seed = (Arc4.ksa (leBytes 4 seed.toNat)).toRc4 := by
  -- each round of the code's loop is a round of RC4's, read through the permutation
  have hstep : ∀ (x : Equiv.Perm UInt8 × UInt8) (i : ℕ),
      ksaStep seed (⇑x.1, x.2) i =
        (⇑(Arc4.ksaStep (leBytes 4 seed.toNat) x i).1, (Arc4.ksaStep (leBytes 4 seed.toNat) x i).2) := by
    intro x i
    simp [ksaStep, Arc4.ksaStep, swap_byte_eq, Equiv.Perm.coe_mul]
  have hfold : (List.range 256).foldl (ksaStep seed) (⇑(1 : Equiv.Perm UInt8), 0) =
      (⇑((List.range 256).foldl (Arc4.ksaStep (leBytes 4 seed.toNat)) (1, 0)).1,
        ((List.range 256).foldl (Arc4.ksaStep (leBytes 4 seed.toNat)) (1, 0)).2) :=
    @List.foldl_hom _ _ _ (fun x : Equiv.Perm UInt8 × UInt8 => (⇑x.1, x.2)) _ _
      (List.range 256) (1, 0) hstep
  have hone : ((⇑(1 : Equiv.Perm UInt8), (0 : UInt8)) : (UInt8 → UInt8) × UInt8) =
      (fun i => i, 0) := rfl
  rw [hone] at hfold
  simp only [random_init, boot, Bool.false_eq_true, if_false, Arc4.ksa, Arc4.toRc4]
  rw [hfold]

/-- A round of the loop of `random_bytes` is a round of RC4. -/
theorem nextByte_toRc4 (a : Arc4) :
    nextByte a.toRc4 = ((Arc4.next a).1.toRc4, (Arc4.next a).2) := by
  simp [nextByte, Arc4.next, Arc4.toRc4, swap_byte_eq, Equiv.Perm.coe_mul]

/-- `random_bytes` once the generator is set up gives out the next bytes of RC4. -/
theorem random_bytes_toRc4 (a : Arc4) (n : ℕ) :
    random_bytes a.toRc4 n = ((Mealy.run Arc4.next n a).1.toRc4, (Mealy.run Arc4.next n a).2) :=
  Mealy.run_hom nextByte Arc4.toRc4 nextByte_toRc4 n a

/-- `random_bytes` as a first call sets the generator up with seed `0`. -/
theorem random_bytes_boot (n : ℕ) :
    random_bytes boot n = random_bytes (Arc4.ksa (leBytes 4 (0 : UInt32).toNat)).toRc4 n := by
  rw [← random_init_boot]
  rfl

theorem random_ulong_boot :
    random_ulong boot = random_ulong (Arc4.ksa (leBytes 4 (0 : UInt32).toNat)).toRc4 := by
  unfold random_ulong
  rw [random_bytes_boot]

/-- `random_ulong` hands back the four bytes `random_bytes` writes, as they are stored. -/
theorem random_ulong_bytes (g : Rc4) :
    leBytes 4 (random_ulong g).2.toNat = (random_bytes g 4).2 := by
  have hlen : (random_bytes g 4).2.length = 4 := by
    simp [random_bytes]
  have hlt : leValue (random_bytes g 4).2 < 2 ^ 32 := by
    have := leValue_lt (random_bytes g 4).2
    rwa [hlen] at this
  have hback := leBytes_leValue (random_bytes g 4).2
  rw [hlen] at hback
  show leBytes 4 (leValue (random_bytes g 4).2).toUInt32.toNat = _
  rw [UInt32.toNat_ofNat_of_lt' hlt, hback]

/-! ## Runs of calls -/

/-- A call to `random.c`, with what it hands back. -/
inductive RandomEvent
  | random_init (seed : UInt32)
  | random_bytes (buf : List UInt8)
  | random_ulong (value : UInt32)

/-- One call, and the state after it. -/
def randomStep (g : Rc4) : RandomEvent → Rc4 → Prop
  | .random_init seed, g' => g' = random_init g seed
  | .random_bytes buf, g' => random_bytes g buf.length = (g', buf)
  | .random_ulong value, g' => random_ulong g = (g', value)

/-- The bytes a call hands back: those of `buf`, or the value of `random_ulong` as it is stored. -/
def RandomEvent.bytes : RandomEvent → List UInt8
  | .random_init _ => []
  | .random_bytes buf => buf
  | .random_ulong value => leBytes 4 value.toNat

/-- The seed that the first call of a run sets the generator up with: its own, or `0`. -/
def firstSeed : List RandomEvent → UInt32
  | .random_init seed :: _ => seed
  | _ => 0

section Runs

variable {a : Arc4} {e : RandomEvent} {evs : List RandomEvent} {g : Rc4}

/-- Once the generator is set up, every call moves the RC4 state on by the bytes it hands back;
a second `random_init` returns at once. -/
theorem step_toRc4 (h : randomStep a.toRc4 e g) :
    g = (Mealy.run Arc4.next e.bytes.length a).1.toRc4 ∧
      e.bytes = (Mealy.run Arc4.next e.bytes.length a).2 := by
  cases e with
  | random_init seed =>
    cases h
    exact ⟨rfl, rfl⟩
  | random_bytes buf =>
    simp only [randomStep, random_bytes_toRc4, Prod.mk.injEq] at h
    obtain ⟨rfl, hbuf⟩ := h
    exact ⟨rfl, hbuf.symm⟩
  | random_ulong value =>
    have hg : (random_ulong a.toRc4).1 = g := congrArg Prod.fst h
    have hv : (random_ulong a.toRc4).2 = value := congrArg Prod.snd h
    have hlen : (RandomEvent.random_ulong value).bytes.length = 4 := by
      simp [RandomEvent.bytes]
    rw [hlen]
    refine ⟨?_, ?_⟩
    · rw [← hg]
      show (random_bytes a.toRc4 4).1 = _
      rw [random_bytes_toRc4]
    · show leBytes 4 value.toNat = _
      rw [← hv, random_ulong_bytes, random_bytes_toRc4]

/-- The first call sets the generator up with the seed `firstSeed` names, and moves it on as
every later call does. -/
theorem step_boot (h : randomStep boot e g) :
    g = (Mealy.run Arc4.next e.bytes.length
        (Arc4.ksa (leBytes 4 (firstSeed [e]).toNat))).1.toRc4 ∧
      e.bytes = (Mealy.run Arc4.next e.bytes.length
        (Arc4.ksa (leBytes 4 (firstSeed [e]).toNat))).2 := by
  cases e with
  | random_init seed =>
    cases h
    exact ⟨random_init_boot seed, rfl⟩
  | random_bytes buf =>
    have h' : random_bytes (Arc4.ksa (leBytes 4 (0 : UInt32).toNat)).toRc4 buf.length =
        (g, buf) := random_bytes_boot buf.length ▸ h
    exact step_toRc4 h'
  | random_ulong value =>
    have h' : random_ulong (Arc4.ksa (leBytes 4 (0 : UInt32).toNat)).toRc4 = (g, value) :=
      random_ulong_boot ▸ h
    exact step_toRc4 h'

/-- From an RC4 state, a run of calls hands back the next bytes of the stream, in order, and ends
in the RC4 state after them. -/
theorem run_toRc4 (h : Lts.Run randomStep a.toRc4 evs g) :
    g = (Mealy.run Arc4.next (evs.flatMap RandomEvent.bytes).length a).1.toRc4 ∧
      evs.flatMap RandomEvent.bytes =
        (Mealy.run Arc4.next (evs.flatMap RandomEvent.bytes).length a).2 := by
  generalize hs : a.toRc4 = s at h
  induction h generalizing a with
  | nil => exact ⟨hs.symm, rfl⟩
  | cons hstep _ ih =>
    subst hs
    obtain ⟨rfl, he⟩ := step_toRc4 hstep
    obtain ⟨hg, hrest⟩ := ih rfl
    simp only [List.flatMap_cons, List.length_append, Mealy.run_add]
    exact ⟨hg, by rw [← he, ← hrest]⟩

/-- After its first call, a run from `boot` is in the RC4 state of the first seed, moved on by
all the bytes handed back, and these are that seed's keystream. -/
theorem run_boot (h : Lts.Run randomStep boot (e :: evs) g) :
    g = (Mealy.run Arc4.next ((e :: evs).flatMap RandomEvent.bytes).length
        (Arc4.ksa (leBytes 4 (firstSeed (e :: evs)).toNat))).1.toRc4 ∧
      (e :: evs).flatMap RandomEvent.bytes =
        keystream (leBytes 4 (firstSeed (e :: evs)).toNat)
          ((e :: evs).flatMap RandomEvent.bytes).length := by
  obtain _ | ⟨hstep, hrun⟩ := h
  have hseed : firstSeed (e :: evs) = firstSeed [e] := by
    cases e <;> rfl
  obtain ⟨rfl, he⟩ := step_boot hstep
  obtain ⟨hg, hrest⟩ := run_toRc4 hrun
  simp only [keystream, List.flatMap_cons, List.length_append, Mealy.run_add, hseed]
  exact ⟨hg, by rw [← he, ← hrest]⟩

end Runs

/-- Every run of calls from boot hands back, over all its calls, the RC4 keystream of the seed
its first call sets the generator up with: later calls of `random_init` change nothing, and
neither does how the bytes are split into calls of `random_bytes` and `random_ulong`. -/
theorem random_keystream {evs : List RandomEvent} {g : Rc4} (h : Lts.Run randomStep boot evs g) :
    evs.flatMap RandomEvent.bytes =
      keystream (leBytes 4 (firstSeed evs).toNat) (evs.flatMap RandomEvent.bytes).length := by
  cases evs with
  | nil => rfl
  | cons e evs => exact (run_boot h).2

/-- A second seed is ignored: after `random_init (7)` and `random_init (9)`, `random_bytes` gives
the first three bytes of the keystream of seed `7`. -/
theorem reseed_ignored :
    Lts.Run randomStep boot [.random_init 7, .random_init 9, .random_bytes [44, 236, 30]]
        (random_bytes (random_init (random_init boot 7) 9) 3).1 ∧
      [44, 236, 30] = keystream (leBytes 4 (7 : UInt32).toNat) 3 := by
  have hrun : Lts.Run randomStep boot [.random_init 7, .random_init 9, .random_bytes [44, 236, 30]]
      (random_bytes (random_init (random_init boot 7) 9) 3).1 :=
    .cons rfl (.cons rfl (.single (Prod.ext rfl (by decide +kernel))))
  exact ⟨hrun, random_keystream hrun⟩

/-- In every state that the generator reaches once it is set up, `s[]` is a permutation of the
bytes. -/
theorem random_perm {g : Rc4} (h : Lts.Reachable (· = boot) randomStep g) (hi : g.inited = true) :
    Function.Bijective g.s := by
  obtain ⟨_, evs, rfl, hrun⟩ := h
  cases evs with
  | nil =>
    cases hrun
    cases hi
  | cons e evs =>
    rw [(run_boot hrun).1]
    exact Equiv.bijective _

/-- After `random_init (7)`, `s[]` is a permutation. -/
theorem seeded_perm : Function.Bijective (random_init boot 7).s :=
  random_perm ⟨boot, [.random_init 7], rfl, .single rfl⟩ rfl

end Pintos.Random
