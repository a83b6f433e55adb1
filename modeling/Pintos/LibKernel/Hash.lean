import Mathlib.Data.List.Basic
import Pintos.Lib.WeakOrder

/-!
# Hash tables (`lib/kernel/hash.c`)

A `struct hash` is its element count, its bucket count, its buckets and its two functions; `aux`
is left out, since a Lean function closes over what it needs. A bucket is a `struct list` and a
hash element is known by its address, so the model keeps each bucket as its element sequence,
front first, and an element as a value of a type with decidable equality. The list operations
`hash.c` calls act on the sequences as `Pintos.LibKernel.ListSystem` shows they act on a
well-formed list: `list_push_front` conses, `list_remove` takes the element out of the list that
holds it, `list_init` empties.

A bucket pointer is the bucket's index, so `&h->buckets[i]` is the `i`th sequence. `rehash` is
cut where its comments cut it: the new bucket count (`idealBucketCount`), and the loops that move
every old element (`moveBucket`, `moveBuckets`). Its `malloc` may fail, so it and the functions
that call it take the outcome `alloc`. The `while` loop of the bucket count turns off one bit a
round; it runs with fuel, and the count it starts from is enough (`turnOffLoop_spec`), so the
bucket count is always a power of two of at least four (`idealBucketCount_isPowerOfTwo`,
`four_le_idealBucketCount`).
-/

set_option linter.style.nameCheck false
set_option linter.dupNamespace false

namespace Pintos

/-- `struct hash`. -/
structure hash (α : Type*) where
  elem_cnt : ℕ
  bucket_cnt : ℕ
  buckets : List (List α)
  hash : α → UInt32
  less : α → α → Bool

/-- Ideal elements per bucket. -/
def BEST_ELEMS_PER_BUCKET : ℕ := 2

/-- Fowler-Noll-Vo 32-bit prime. -/
def FNV_32_PRIME : UInt32 := 16777619

/-- Fowler-Noll-Vo 32-bit offset basis. -/
def FNV_32_BASIS : UInt32 := 2166136261

/-- `hash_bytes (buf, size)`: the Fowler-Noll-Vo hash of the bytes `buf`. -/
def hash_bytes (buf : List UInt8) : UInt32 :=
  buf.foldl (fun hash b => hash * FNV_32_PRIME ^^^ b.toUInt32) FNV_32_BASIS

/-! ## Bucket counts -/

/-- `turn_off_least_1bit (x)`. -/
def turn_off_least_1bit (x : ℕ) : ℕ := x &&& (x - 1)

/-- `is_power_of_2 (x)`. -/
def is_power_of_2 (x : ℕ) : Bool := x != 0 && turn_off_least_1bit x == 0

/-- `while (!is_power_of_2 (new_bucket_cnt)) new_bucket_cnt = turn_off_least_1bit (...)`, for at
most `fuel` rounds. -/
def turnOffLoop : ℕ → ℕ → ℕ
  | 0, x => x
  | fuel + 1, x => if is_power_of_2 x then x else turnOffLoop fuel (turn_off_least_1bit x)

/-- The bucket count `rehash` computes for `elem_cnt` elements: one bucket for every
`BEST_ELEMS_PER_BUCKET`, at least four, rounded down to a power of two. -/
def idealBucketCount (elem_cnt : ℕ) : ℕ :=
  let new_bucket_cnt := elem_cnt / BEST_ELEMS_PER_BUCKET
  let new_bucket_cnt := if new_bucket_cnt < 4 then 4 else new_bucket_cnt
  turnOffLoop new_bucket_cnt new_bucket_cnt

theorem is_power_of_2_iff (x : ℕ) : is_power_of_2 x = true ↔ x.isPowerOfTwo := by
  rw [← Nat.ne_zero_and_sub_one_eq_zero_iff_isPowerOfTwo]
  simp [is_power_of_2, turn_off_least_1bit]

theorem turn_off_least_1bit_lt {x : ℕ} (hx : x ≠ 0) : turn_off_least_1bit x < x :=
  Nat.lt_of_le_of_lt Nat.and_le_right (by omega)

/-- Away from a power of two, turning off the lowest bit keeps the highest. -/
theorem log2_turn_off_least_1bit {x : ℕ} (hx : x ≠ 0) (hpow : ¬ x.isPowerOfTwo) :
    (turn_off_least_1bit x).log2 = x.log2 := by
  have hbit := Nat.and_sub_one_testBit_log2 hx hpow
  have hle : 2 ^ x.log2 ≤ turn_off_least_1bit x := Nat.ge_two_pow_of_testBit hbit
  have hlt : turn_off_least_1bit x < 2 ^ (x.log2 + 1) :=
    Nat.lt_of_le_of_lt Nat.and_le_left (Nat.lt_log2_self)
  have hne : turn_off_least_1bit x ≠ 0 := Nat.pos_iff_ne_zero.mp (Nat.lt_of_lt_of_le
    (Nat.two_pow_pos _) hle)
  exact (Nat.log2_eq_iff hne).mpr ⟨hle, hlt⟩

/-- With as much fuel as its start value, the loop ends at a power of two with the same highest
bit. Each round lowers the value, so it reaches a power of two before the fuel runs out. -/
theorem turnOffLoop_spec : ∀ (fuel x : ℕ), x ≠ 0 → x ≤ fuel →
    (turnOffLoop fuel x).isPowerOfTwo ∧ (turnOffLoop fuel x).log2 = x.log2
  | 0, _, hx, hfuel => absurd (Nat.le_zero.mp hfuel) hx
  | fuel + 1, x, hx, hfuel => by
    rw [turnOffLoop]
    by_cases hpow : is_power_of_2 x
    · rw [if_pos hpow]
      exact ⟨(is_power_of_2_iff x).mp hpow, rfl⟩
    · rw [if_neg hpow]
      have hpow' : ¬ x.isPowerOfTwo := fun h => hpow ((is_power_of_2_iff x).mpr h)
      have hlog := log2_turn_off_least_1bit hx hpow'
      have hne : turn_off_least_1bit x ≠ 0 := by
        intro h0
        rw [h0, Nat.log2_zero] at hlog
        have h2 : x < 2 ^ (x.log2 + 1) := Nat.lt_log2_self
        rw [← hlog] at h2
        exact hpow' ⟨0, by omega⟩
      have hlt := turn_off_least_1bit_lt hx
      obtain ⟨hp, hl⟩ := turnOffLoop_spec fuel _ hne (by omega)
      exact ⟨hp, hl.trans hlog⟩

theorem idealBucketCount_spec (elem_cnt : ℕ) :
    (idealBucketCount elem_cnt).isPowerOfTwo ∧
      (idealBucketCount elem_cnt).log2 = (max 4 (elem_cnt / BEST_ELEMS_PER_BUCKET)).log2 := by
  have hmax : (if elem_cnt / BEST_ELEMS_PER_BUCKET < 4 then 4 else elem_cnt / BEST_ELEMS_PER_BUCKET)
      = max 4 (elem_cnt / BEST_ELEMS_PER_BUCKET) := by
    split_ifs <;> omega
  simp only [idealBucketCount, hmax]
  exact turnOffLoop_spec _ _ (by omega) le_rfl

theorem idealBucketCount_isPowerOfTwo (elem_cnt : ℕ) : (idealBucketCount elem_cnt).isPowerOfTwo :=
  (idealBucketCount_spec elem_cnt).1

theorem four_le_idealBucketCount (elem_cnt : ℕ) : 4 ≤ idealBucketCount elem_cnt := by
  obtain ⟨⟨k, hk⟩, hlog⟩ := idealBucketCount_spec elem_cnt
  have h2 : 2 ≤ (max 4 (elem_cnt / BEST_ELEMS_PER_BUCKET)).log2 :=
    (Nat.le_log2 (by omega)).mpr (le_max_left _ _)
  rw [hk, Nat.log2_two_pow] at hlog
  rw [hk]
  calc 4 = 2 ^ 2 := rfl
    _ ≤ 2 ^ k := Nat.pow_le_pow_right (by decide) (hlog ▸ h2)

/-! ## The table -/

variable {α : Type*}

/-- `find_bucket (h, e)`: the index of the bucket `e` belongs in. -/
def find_bucket (h : hash α) (e : α) : ℕ := (h.hash e).toNat &&& (h.bucket_cnt - 1)

/-- `find_elem (h, bucket, e)`: the first element of the bucket that is neither less than `e`
nor greater. -/
def find_elem (h : hash α) (bucket : ℕ) (e : α) : Option α :=
  (h.buckets.getD bucket []).find? fun hi => WeakOrder.Incomp h.less hi e

/-- The inner loop of `rehash`: each element of an old bucket, front to back, is unlinked and
pushed on the front of its bucket in the new array. The old array is freed afterwards, so what
the unlinking leaves of it does not matter. -/
def moveBucket (h : hash α) : List α → hash α
  | [] => h
  | elem :: es =>
    moveBucket { h with buckets := h.buckets.modify (find_bucket h elem) (elem :: ·) } es

/-- The outer loop of `rehash`, over the old buckets in order. -/
def moveBuckets (h : hash α) : List (List α) → hash α
  | [] => h
  | old_bucket :: bs => moveBuckets (moveBucket h old_bucket) bs

/-- `rehash (h)`, where `alloc` says whether `malloc` found the new bucket array. The `for` loop
over `old_bucket_cnt` buckets is the loop over the old array. -/
def rehash (h : hash α) (alloc : Bool) : hash α :=
  let old_buckets := h.buckets
  let old_bucket_cnt := h.bucket_cnt
  let new_bucket_cnt := idealBucketCount h.elem_cnt
  if new_bucket_cnt = old_bucket_cnt then h
  -- the allocation failed: the table keeps its buckets
  else if !alloc then h
  else
    moveBuckets { h with buckets := List.replicate new_bucket_cnt [], bucket_cnt := new_bucket_cnt }
      old_buckets

/-- `insert_elem (h, bucket, e)`. -/
def insert_elem (h : hash α) (bucket : ℕ) (e : α) : hash α :=
  { h with elem_cnt := h.elem_cnt + 1, buckets := h.buckets.modify bucket (e :: ·) }

/-- `remove_elem (h, e)`: `list_remove` unlinks `e` from the bucket that holds it. -/
def remove_elem [DecidableEq α] (h : hash α) (e : α) : hash α :=
  { h with elem_cnt := h.elem_cnt - 1, buckets := h.buckets.map (·.erase e) }

/-- `hash_clear (h, destructor)`, with the elements `destructor` is called on, in order; none
when it is `NULL`. -/
def hash_clear (h : hash α) (destructor : Bool) : hash α × List α :=
  ({ h with buckets := h.buckets.map fun _ => [], elem_cnt := 0 },
    if destructor then h.buckets.flatten else [])

/-- `hash_init (h, hash, less, aux)`; `none` is `false`, when `malloc` did not find the four
buckets. What the new block holds does not matter: `hash_clear` initialises every bucket. -/
def hash_init (hash : α → UInt32) (less : α → α → Bool) (alloc : Bool) :
    Option (Pintos.hash α) :=
  if alloc then some (hash_clear ⟨0, 4, List.replicate 4 [], hash, less⟩ false).1 else none

/-- `hash_insert (h, new)`: the element equal to `new` already there, or `none` after inserting
`new`. -/
def hash_insert (h : hash α) (new : α) (alloc : Bool) : hash α × Option α :=
  let bucket := find_bucket h new
  let old := find_elem h bucket new
  let h := if old.isNone then insert_elem h bucket new else h
  (rehash h alloc, old)

/-- `hash_replace (h, new)`: insert `new` in place of the equal element, which is returned. -/
def hash_replace [DecidableEq α] (h : hash α) (new : α) (alloc : Bool) : hash α × Option α :=
  let bucket := find_bucket h new
  let old := find_elem h bucket new
  let h := match old with
    | some old => remove_elem h old
    | none => h
  let h := insert_elem h bucket new
  (rehash h alloc, old)

/-- `hash_find (h, e)`. -/
def hash_find (h : hash α) (e : α) : Option α := find_elem h (find_bucket h e) e

/-- `hash_delete (h, e)`: remove and return the element equal to `e`. -/
def hash_delete [DecidableEq α] (h : hash α) (e : α) (alloc : Bool) : hash α × Option α :=
  match find_elem h (find_bucket h e) e with
  | some found => (rehash (remove_elem h found) alloc, some found)
  | none => (h, none)

/-- `hash_size (h)`. -/
def hash_size (h : hash α) : ℕ := h.elem_cnt

/-- `hash_empty (h)`. -/
def hash_empty (h : hash α) : Bool := h.elem_cnt == 0

/-- With a power-of-two bucket count, the mask is the remainder, so the index is in range. -/
theorem find_bucket_lt (h : hash α) (hpow : h.bucket_cnt.isPowerOfTwo) (e : α) :
    find_bucket h e < h.bucket_cnt := by
  obtain ⟨k, hk⟩ := hpow
  rw [find_bucket, hk, Nat.and_two_pow_sub_one_eq_mod]
  exact Nat.mod_lt _ (Nat.two_pow_pos k)

end Pintos
