import Pintos.LibKernel.HashSet
import Pintos.Threads.Kernel

/-!
# Going over a hash table (`hash_first`, `hash_next`, `hash_cur`, `hash_apply`, `hash_destroy`)

A `struct hash_iterator` names its table, a bucket and a place in that bucket: the bucket's list
head before the first `hash_next`, one of its elements, or `NULL` once the iteration is over. The
model keeps the bucket as its index and the place as an `IterElem`; the table is an argument.
`hash_next` steps to the next element of the bucket and, at the bucket's end, runs its `while`
loop to the first element of the next bucket that has one (`skipEmpty`). `hash_cur` at a list
head reads no element, and `hash_next` at `NULL` reads through a null pointer. `hash_apply` calls
its action on each element of each bucket in turn, and `hash_destroy` is `hash_clear` with the
destructor.

The elements still ahead of an iterator are `ahead h i`. One `hash_next` hands out the first of
them and leaves the rest, or ends at `NULL` when there are none (`hash_next_ahead`), as one step
of an iterator over a list does. From `hash_first` every element is ahead, so the iteration idiom
of `hash.h` sees the elements bucket by bucket and then stops (`iterLoop_first`). On a table that
holds the set `S`, the idiom, `hash_apply` and `hash_destroy` each see every element of `S`
exactly once, in one order (`hash_traversals_visit_set`).
-/

set_option linter.style.nameCheck false

namespace Pintos

variable {α : Type*}

/-- Where a `struct hash_iterator` stands in its bucket. -/
inductive IterElem
  /-- the bucket's list head, before its first element -/
  | head
  /-- the bucket's element at index `k` -/
  | at (k : ℕ)
  /-- `NULL`: the iteration is over -/
  | null
  deriving DecidableEq, Repr

/-- `struct hash_iterator`, without its table. -/
structure hash_iterator where
  bucket : ℕ
  elem : IterElem
  deriving DecidableEq, Repr

/-- `hash_first (&i, h)`: the list head of the first bucket. -/
def hash_first : hash_iterator := ⟨0, .head⟩

/-- The `while` loop of `hash_next`: `++i->bucket` has made the bucket `b`, and `rest` are the
buckets from `b` on. Past the last bucket the iterator is `NULL`. An empty bucket's `list_begin`
is its `list_end`, so the loop goes on. -/
def skipEmpty : ℕ → List (List α) → hash_iterator
  | b, [] => ⟨b, .null⟩
  | b, [] :: rest => skipEmpty (b + 1) rest
  | b, (_ :: _) :: _ => ⟨b, .at 0⟩

/-- `hash_next` once `list_next` has given index `k` of bucket `b`: the element there, or at the
bucket's end the `while` loop. -/
def stepFrom (h : hash α) (b k : ℕ) : hash_iterator :=
  if k < (h.buckets.getD b []).length then ⟨b, .at k⟩
  else skipEmpty (b + 1) (h.buckets.drop (b + 1))

/-- `hash_next (&i)`. At `NULL` it takes `list_next` of a null pointer's `list_elem`. -/
def hash_next (h : hash α) (i : hash_iterator) : Except Fault hash_iterator :=
  match i.elem with
  | .head => .ok (stepFrom h i.bucket 0)
  | .at k => .ok (stepFrom h i.bucket (k + 1))
  | .null => .error .undefined

/-- `hash_cur (&i)`: the element the iterator stands at, `none` for `NULL`. At a list head the
pointer is to no element. -/
def hash_cur (h : hash α) (i : hash_iterator) : Except Fault (Option α) :=
  match i.elem with
  | .head => .error .undefined
  | .at k => .ok (h.buckets.getD i.bucket [])[k]?
  | .null => .ok none

/-- The loop of the iteration idiom of `hash.h`, `while (hash_next (&i))` with `hash_cur (&i)` in
its body, for at most `fuel` rounds: the elements the body sees. -/
def iterLoop (h : hash α) : ℕ → hash_iterator → Option (Except Fault (List α))
  | 0, _ => none
  | fuel + 1, i =>
    match hash_next h i with
    | .error e => some (.error e)
    | .ok i =>
      if i.elem = .null then some (.ok [])
      else
        match hash_cur h i with
        | .error e => some (.error e)
        -- a place past the end of its bucket
        | .ok none => some (.error .undefined)
        | .ok (some x) => (Except.map (x :: ·)) <$> iterLoop h fuel i

/-- `hash_apply (h, action)`: the action, as what it does to the rest of the state, called on
each element of each bucket in turn. -/
def hash_apply {σ : Type*} (h : hash α) (action : σ → α → σ) (x : σ) : σ :=
  h.buckets.foldl (fun x bucket => bucket.foldl action x) x

/-- `hash_destroy (h, destructor)`: `hash_clear` when there is a destructor, then the bucket
array is freed. The elements the destructor is called on. -/
def hash_destroy (h : hash α) (destructor : Bool) : List α :=
  if destructor then (hash_clear h destructor).2 else []

/-! ## What is ahead of an iterator -/

/-- The elements `hash_next` has still to hand out from `i`: the rest of its bucket, then the
buckets after it. -/
def ahead (h : hash α) (i : hash_iterator) : List α :=
  match i.elem with
  | .head => (h.buckets.getD i.bucket []) ++ (h.buckets.drop (i.bucket + 1)).flatten
  | .at k => (h.buckets.getD i.bucket []).drop (k + 1) ++ (h.buckets.drop (i.bucket + 1)).flatten
  | .null => []

/-- Where `hash_next` stops when `l` is ahead: at `NULL` when `l` is empty, else at the first
element of `l`, with the rest of `l` ahead. -/
def NextOf (h : hash α) (l : List α) (i : hash_iterator) : Prop :=
  (l = [] ∧ i.elem = .null) ∨
    ∃ x, i.elem ≠ .null ∧ hash_cur h i = .ok (some x) ∧ l = x :: ahead h i

variable {h : hash α}

theorem getD_of_drop_eq_cons {b : ℕ} {B : List α} {rest : List (List α)}
    (hd : h.buckets.drop b = B :: rest) : h.buckets.getD b [] = B := by
  have hhead := congrArg List.head? hd
  rw [List.head?_drop] at hhead
  rw [List.getD_eq_getElem?_getD, hhead]
  rfl

/-- The `while` loop stops at the first element of the buckets it goes over, or at `NULL`. -/
theorem skipEmpty_next (b : ℕ) :
    ∀ rest, h.buckets.drop b = rest → NextOf h rest.flatten (skipEmpty b rest) := by
  intro rest
  induction rest generalizing b with
  | nil =>
    intro _
    exact .inl ⟨rfl, rfl⟩
  | cons B rest ih =>
    intro hd
    have hdrop : h.buckets.drop (b + 1) = rest := by
      rw [← List.tail_drop, hd]
      rfl
    cases B with
    | nil => exact ih (b + 1) hdrop
    | cons y ys =>
      have hB := getD_of_drop_eq_cons hd
      refine .inr ⟨y, nofun, ?_, ?_⟩
      · simp only [skipEmpty, hash_cur]
        rw [hB]
        rfl
      · simp only [skipEmpty, ahead]
        rw [hB, hdrop]
        rfl

/-- One step of `hash_next` from index `k` of bucket `b`. -/
theorem stepFrom_next (b k : ℕ) :
    NextOf h ((h.buckets.getD b []).drop k ++ (h.buckets.drop (b + 1)).flatten)
      (stepFrom h b k) := by
  unfold stepFrom
  split_ifs with hk
  · -- an element of the same bucket
    refine .inr ⟨(h.buckets.getD b [])[k], nofun, ?_, ?_⟩
    · simp [hash_cur]
    · rw [List.drop_eq_getElem_cons hk]
      rfl
  · -- the bucket's end: the `while` loop over the buckets after it
    rw [List.drop_eq_nil_of_le (Nat.le_of_not_lt hk), List.nil_append]
    exact skipEmpty_next (b + 1) _ rfl

/-- `hash_next` hands out the first element ahead and leaves the rest, or stops at `NULL`. -/
theorem hash_next_ahead {i : hash_iterator} (hi : i.elem ≠ .null) :
    ∃ i', hash_next h i = .ok i' ∧ NextOf h (ahead h i) i' := by
  rcases hcase : i.elem with _ | k | _
  · refine ⟨stepFrom h i.bucket 0, by simp [hash_next, hcase], ?_⟩
    simpa [ahead, hcase] using stepFrom_next (h := h) i.bucket 0
  · exact ⟨stepFrom h i.bucket (k + 1), by simp [hash_next, hcase],
      by simpa [ahead, hcase] using stepFrom_next (h := h) i.bucket (k + 1)⟩
  · exact absurd hcase hi

/-- With a round for each element ahead and one more, the idiom sees what is ahead. -/
theorem iterLoop_ahead (fuel : ℕ) :
    ∀ i : hash_iterator, i.elem ≠ .null → (ahead h i).length < fuel →
      iterLoop h fuel i = some (.ok (ahead h i)) := by
  induction fuel with
  | zero => intro i _ hlt; exact absurd hlt (Nat.not_lt_zero _)
  | succ fuel ih =>
    intro i hi hlt
    obtain ⟨i', hnext, hstep⟩ := hash_next_ahead (h := h) hi
    rcases hstep with ⟨hnil, hnull⟩ | ⟨x, hne, hcur, hcons⟩
    · simp [iterLoop, hnext, hnull, hnil]
    · have hlt' : (ahead h i').length < fuel := by
        rw [hcons, List.length_cons] at hlt
        omega
      simp [iterLoop, hnext, hne, hcur, ih i' hne hlt', hcons, Except.map]

/-- From `hash_first` every element is ahead, bucket by bucket. -/
theorem ahead_first : ahead h hash_first = h.elems := by
  cases hb : h.buckets with
  | nil => simp [ahead, hash_first, hash.elems, hb]
  | cons B rest => simp [ahead, hash_first, hash.elems, hb]

/-- The iteration idiom sees every element of the table, bucket by bucket, and then stops. -/
theorem iterLoop_first : iterLoop h (h.elems.length + 1) hash_first = some (.ok h.elems) := by
  have hfirst := iterLoop_ahead (h := h) (h.elems.length + 1) hash_first nofun
  rw [ahead_first] at hfirst
  exact hfirst (Nat.lt_succ_self _)

/-- `hash_apply` calls the action on the elements in the order of the iteration. -/
theorem hash_apply_eq {σ : Type*} (action : σ → α → σ) (x : σ) :
    hash_apply h action x = h.elems.foldl action x := by
  rw [hash_apply, hash.elems, List.foldl_flatten]

/-- `hash_destroy` with a destructor calls it on the elements in the order of the iteration. -/
theorem hash_destroy_eq : hash_destroy h true = h.elems := rfl

/-- On a table holding the set `S`, the iteration idiom of `hash.h` (with a round for each element
and one more), `hash_apply` and `hash_destroy` each see every element of `S` exactly once, and in
the same order. -/
theorem hash_traversals_visit_set [DecidableEq α] {hash : α → UInt32} {less : α → α → Bool}
    {S : Finset α}
    (hR : Refines hash less h S) {σ : Type*} (action : σ → α → σ) (x : σ) :
    ∃ l : List α, iterLoop h (S.card + 1) hash_first = some (.ok l) ∧
      hash_destroy h true = l ∧ hash_apply h action x = l.foldl action x ∧
      l.Nodup ∧ l.toFinset = S := by
  have hcard : S.card = h.elems.length := by
    rw [← hR.elems_eq, List.toFinset_card_of_nodup hR.inv.nodup]
  refine ⟨h.elems, ?_, hash_destroy_eq, hash_apply_eq action x, hR.inv.nodup, hR.elems_eq⟩
  rw [hcard]
  exact iterLoop_first

/-- The table of `natTable`: the idiom, `hash_apply` (summing) and `hash_destroy` see its sixteen
numbers, spread over eight buckets by the rehash. -/
theorem natTable_traversals :
    ∃ l : List ℕ, iterLoop natTable (natSet.card + 1) hash_first = some (.ok l) ∧
      hash_destroy natTable true = l ∧ hash_apply natTable (· + ·) 0 = l.foldl (· + ·) 0 ∧
      l.Nodup ∧ l.toFinset = natSet :=
  hash_traversals_visit_set natTable_refines (· + ·) 0

end Pintos
