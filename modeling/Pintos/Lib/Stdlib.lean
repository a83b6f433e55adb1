import Pintos.Lib.Compare
import Pintos.Lib.Stdio

/-!
# Heap sort and binary search (`sort`, `qsort`, `binary_search`, `bsearch` in `lib/stdlib.c`)

An array of `cnt` elements is a function from 0-based indices to elements, and the code's
1-based index `k` reads entry `k - 1`; `do_swap`'s byte loop exchanges the two elements whole.
`heapify` floats an element down to its place (`heapify_spec`, from `SiftOrder`, the order it
needs: every parent and child pair but those at the sifted node in order, and the sifted
node's children at most its parent). `sort` builds a heap from `cnt / 2` down and then moves
the root to the end `cnt - 1` times; it leaves a sorted rearrangement of the array for every
comparison that is a total preorder (`sort_spec`).

`binary_search` narrows a half-open byte range. Its loop keeps every match inside the range
and shortens it each round (`binarySearchLoop_spec`), so for elements of at least one byte it
returns, a match when there is one and `NULL` otherwise (`binary_search_spec`).

`atoi` accumulates the digits as a negative number, `value * 10 - digit`, and negates it at the
end for a string without a `-`. The running value is never beyond the final one, so a string
whose value is an `int`, `INT_MIN` included, is read without an overflow (`atoi_parses_decimal`).
-/

namespace Pintos

open Compare

variable {α : Type*}

/-- `do_swap (array, a_idx, b_idx, size)`: exchange the elements with 1-based indexes `a_idx`
and `b_idx`. -/
def do_swap (array : ℕ → α) (a_idx b_idx : ℕ) : ℕ → α :=
  fun k => if k = a_idx - 1 then array (b_idx - 1)
    else if k = b_idx - 1 then array (a_idx - 1) else array k

/-- `do_compare (array, a_idx, b_idx, size, compare, aux)`. -/
def do_compare (array : ℕ → α) (a_idx b_idx : ℕ) (compare : α → α → Int) : Int :=
  compare (array (a_idx - 1)) (array (b_idx - 1))

/-- The first lines of `heapify`'s loop: `max` is the index of the largest among element `i`
and its children within `cnt`. -/
def heapMax (array : ℕ → α) (i cnt : ℕ) (compare : α → α → Int) : ℕ :=
  let left := 2 * i
  let right := 2 * i + 1
  let max := if left ≤ cnt ∧ do_compare array left i compare > 0 then left else i
  if right ≤ cnt ∧ do_compare array right max compare > 0 then right else max

/-- `max` is `i` or a child of `i` within `cnt`. -/
theorem heapMax_cases (array : ℕ → α) (i cnt : ℕ) (compare : α → α → Int) :
    heapMax array i cnt compare = i ∨
      (i < heapMax array i cnt compare ∧ heapMax array i cnt compare ≤ cnt ∧
        heapMax array i cnt compare / 2 = i) := by
  unfold heapMax
  dsimp only
  split_ifs <;> omega

/-- `heapify (array, i, cnt, size, compare, aux)`: swap element `i` with its largest child
until it is at least both children. -/
def heapify (array : ℕ → α) (i cnt : ℕ) (compare : α → α → Int) : ℕ → α :=
  if heapMax array i cnt compare = i then array
  else heapify (do_swap array i (heapMax array i cnt compare)) (heapMax array i cnt compare) cnt
    compare
termination_by cnt - i
decreasing_by
  rcases heapMax_cases array i cnt compare with h | h
  · contradiction
  · omega

/-- `for (i = cnt / 2; i > 0; i--) heapify (array, i, cnt, ...)`, from `i`. -/
def buildHeap (compare : α → α → Int) (cnt : ℕ) : ℕ → (ℕ → α) → ℕ → α
  | 0, array => array
  | i + 1, array => buildHeap compare cnt i (heapify array (i + 1) cnt compare)

/-- `for (i = cnt; i > 1; i--) { do_swap (array, 1, i, size); heapify (array, 1, i - 1, ...); }`,
from `i`. -/
def sortHeap (compare : α → α → Int) : ℕ → (ℕ → α) → ℕ → α
  | 0, array => array
  | 1, array => array
  | i + 2, array => sortHeap compare (i + 1) (heapify (do_swap array 1 (i + 2)) 1 (i + 1) compare)

/-- `sort (array, cnt, size, compare, aux)`: build a heap, then sort it. -/
def sort (array : ℕ → α) (cnt : ℕ) (compare : α → α → Int) : ℕ → α :=
  sortHeap compare cnt (buildHeap compare cnt (cnt / 2) array)

/-- `qsort (array, cnt, size, compare)`, which calls `sort` through `compare_thunk`. -/
def qsort (array : ℕ → α) (cnt : ℕ) (compare : α → α → Int) : ℕ → α :=
  sort array cnt fun a b => compare a b

/-! ## Rearranging -/

@[simp] theorem do_swap_apply_left (array : ℕ → α) (a_idx b_idx : ℕ) :
    do_swap array a_idx b_idx (a_idx - 1) = array (b_idx - 1) := by
  simp [do_swap]

@[simp] theorem do_swap_apply_right (array : ℕ → α) (a_idx b_idx : ℕ) :
    do_swap array a_idx b_idx (b_idx - 1) = array (a_idx - 1) := by
  by_cases h : b_idx - 1 = a_idx - 1 <;> simp [do_swap, h]

theorem do_swap_apply_of_ne (array : ℕ → α) {a_idx b_idx k : ℕ} (ha : k ≠ a_idx - 1)
    (hb : k ≠ b_idx - 1) : do_swap array a_idx b_idx k = array k := by
  simp [do_swap, ha, hb]

theorem do_swap_eq (array : ℕ → α) (a_idx b_idx : ℕ) :
    do_swap array a_idx b_idx = array ∘ Equiv.swap (a_idx - 1) (b_idx - 1) := by
  funext k
  simp only [do_swap, Function.comp_apply, Equiv.swap_apply_def]
  split_ifs <;> simp_all

/-- Swapping two of the first `n` elements rearranges the first `n`. -/
theorem do_swap_permOn (array : ℕ → α) {n a_idx b_idx : ℕ} (ha : a_idx - 1 < n)
    (hb : b_idx - 1 < n) : PermOn n array (do_swap array a_idx b_idx) := by
  rw [do_swap_eq]
  exact PermOn.swap _ ha hb

/-- `heapify` from a node within `cnt` only rearranges the first `cnt` elements. -/
theorem heapify_permOn (compare : α → α → Int) (cnt : ℕ) :
    ∀ (array : ℕ → α) (i : ℕ), 1 ≤ i → PermOn cnt array (heapify array i cnt compare) := by
  intro array i
  induction array, i using heapify.induct cnt compare with
  | case1 array i hmax =>
    intro _
    rw [heapify, if_pos hmax]
    exact PermOn.refl _ _
  | case2 array i hmax ih =>
    intro hi
    rw [heapify, if_neg hmax]
    obtain ⟨hlt, hle, -⟩ := (heapMax_cases array i cnt compare).resolve_left hmax
    exact (do_swap_permOn array (by omega) (by omega)).trans (ih (by omega))

/-! ## The heap order -/

/-- Every element from its 1-based index `2 * lo` to `cnt` is at most its parent. -/
def HeapFrom (compare : α → α → Int) (array : ℕ → α) (lo cnt : ℕ) : Prop :=
  ∀ c, c ≤ cnt → lo ≤ c / 2 → compare (array (c - 1)) (array (c / 2 - 1)) ≤ 0

/-- What `heapify` at node `j` needs: the pairs of a parent from `lo` on and its child are in
order but at `j`, and `j`'s children are at most `j`'s parent when that parent is from `lo`
on. -/
structure SiftOrder (compare : α → α → Int) (array : ℕ → α) (lo cnt j : ℕ) : Prop where
  except : ∀ c, c ≤ cnt → lo ≤ c / 2 → c / 2 ≠ j →
    compare (array (c - 1)) (array (c / 2 - 1)) ≤ 0
  grand : lo ≤ j / 2 → ∀ c, c ≤ cnt → c / 2 = j → compare (array (c - 1)) (array (j / 2 - 1)) ≤ 0

section Order

variable {compare : α → α → Int} (h : StrcmpOrder compare)
include h

/-- `max` is at least element `i` and each of its children within `cnt`. -/
theorem heapMax_ge (array : ℕ → α) (i cnt : ℕ) :
    compare (array (i - 1)) (array (heapMax array i cnt compare - 1)) ≤ 0 ∧
      ∀ c, c ≤ cnt → c / 2 = i → 1 ≤ i →
        compare (array (c - 1)) (array (heapMax array i cnt compare - 1)) ≤ 0 := by
  unfold heapMax do_compare
  dsimp only
  constructor
  · split_ifs with h₁ h₂ h₂
    · exact h.le_trans _ _ _ (h.le_of_pos h₁.2) (h.le_of_pos h₂.2)
    · exact h.le_of_pos h₁.2
    · exact h.le_of_pos h₂.2
    · exact (h.refl _).le
  · intro c hc hci hi
    have hc' : c = 2 * i ∨ c = 2 * i + 1 := by omega
    split_ifs with h₁ h₂ h₂
    · rcases hc' with rfl | rfl
      · exact h.le_of_pos h₂.2
      · exact (h.refl _).le
    · rcases hc' with rfl | rfl
      · exact (h.refl _).le
      · exact Int.not_lt.mp fun hlt => h₂ ⟨hc, hlt⟩
    · rcases hc' with rfl | rfl
      · exact h.le_trans _ _ _ (Int.not_lt.mp fun hlt => h₁ ⟨hc, hlt⟩) (h.le_of_pos h₂.2)
      · exact (h.refl _).le
    · rcases hc' with rfl | rfl
      · exact Int.not_lt.mp fun hlt => h₁ ⟨hc, hlt⟩
      · exact Int.not_lt.mp fun hlt => h₂ ⟨hc, hlt⟩

/-- One turn of `heapify`: after swapping node `j` with `max`, the order `heapify` needs holds
at `max`. -/
theorem SiftOrder.swap {array : ℕ → α} {lo cnt j : ℕ} (o : SiftOrder compare array lo cnt j)
    (hlo : 1 ≤ lo) (hj : lo ≤ j) (hm : heapMax array j cnt compare ≠ j) :
    SiftOrder compare (do_swap array j (heapMax array j cnt compare)) lo cnt
      (heapMax array j cnt compare) := by
  obtain ⟨hlt, hle, hpar⟩ := (heapMax_cases array j cnt compare).resolve_left hm
  obtain ⟨hjm, hch⟩ := heapMax_ge h array j cnt
  set m := heapMax array j cnt compare
  constructor
  · intro c hc hloc hne
    by_cases hcm : c = m
    · -- the new child at `max` is the old `j`, below the old `max` now at `j`
      subst hcm
      rw [hpar, do_swap_apply_right, do_swap_apply_left]
      exact hjm
    by_cases hcj : c / 2 = j
    · -- `max`'s sibling is at most the old `max`
      rw [hcj, do_swap_apply_left, do_swap_apply_of_ne _ (by omega) (by omega)]
      exact hch c hc hcj (by omega)
    by_cases hcJ : c = j
    · -- the old `max`, now at `j`, is at most `j`'s parent
      subst hcJ
      rw [do_swap_apply_left, do_swap_apply_of_ne _ (by omega) (by omega)]
      exact o.grand hloc m hle hpar
    · rw [do_swap_apply_of_ne _ (by omega) (by omega), do_swap_apply_of_ne _ (by omega) (by omega)]
      exact o.except c hc hloc hcj
  · intro _ c hc hcm
    rw [hpar, do_swap_apply_left, do_swap_apply_of_ne _ (by omega) (by omega)]
    have := o.except c hc (by omega) (by omega)
    rwa [hcm] at this

/-- `heapify` at `j` with the order it needs leaves a heap from `lo` on. -/
theorem heapify_spec {lo cnt : ℕ} (hlo : 1 ≤ lo) :
    ∀ (array : ℕ → α) (j : ℕ), lo ≤ j → SiftOrder compare array lo cnt j →
      HeapFrom compare (heapify array j cnt compare) lo cnt := by
  intro array j
  induction array, j using heapify.induct cnt compare with
  | case1 array j hmax =>
    intro _ o
    rw [heapify, if_pos hmax]
    intro c hc hloc
    by_cases hcj : c / 2 = j
    · -- `j` is at least both its children: it is its own `max`
      have := (heapMax_ge h array j cnt).2 c hc hcj (by omega)
      rwa [hmax, ← hcj] at this
    · exact o.except c hc hloc hcj
  | case2 array j hmax ih =>
    intro hj o
    rw [heapify, if_neg hmax]
    obtain ⟨hlt, -, -⟩ := (heapMax_cases array j cnt compare).resolve_left hmax
    exact ih (by omega) (o.swap h hlo hj hmax)

/-- The root of a heap of `n` elements is at least every element. -/
theorem HeapFrom.root_max {array : ℕ → α} {n : ℕ} (hh : HeapFrom compare array 1 n) :
    ∀ k, 1 ≤ k → k ≤ n → compare (array (k - 1)) (array 0) ≤ 0 := by
  intro k
  induction k using Nat.strongRecOn with
  | ind k ih =>
    intro hk hkn
    by_cases hk1 : k = 1
    · subst hk1
      exact (h.refl _).le
    · exact h.le_trans _ _ _ (hh k hkn (by omega)) (ih (k / 2) (by omega) (by omega) (by omega))

/-- The first loop of `sort`, from `i`: with the heap order from `i + 1` on, it leaves a heap
of the whole array. -/
theorem buildHeap_spec (cnt : ℕ) :
    ∀ (i : ℕ) (array : ℕ → α), HeapFrom compare array (i + 1) cnt →
      HeapFrom compare (buildHeap compare cnt i array) 1 cnt ∧
        PermOn cnt array (buildHeap compare cnt i array) := by
  intro i
  induction i with
  | zero => intro array hh; exact ⟨hh, PermOn.refl _ _⟩
  | succ i ih =>
    intro array hh
    -- `heapify` at `i + 1` needs only the order below it: its parent is before `i + 1`
    have o : SiftOrder compare array (i + 1) cnt (i + 1) :=
      ⟨fun c hc hloc hne => hh c hc (by omega), fun hlo => absurd hlo (by omega)⟩
    obtain ⟨hheap, hperm⟩ := ih _ (heapify_spec h (by omega) array (i + 1) le_rfl o)
    exact ⟨hheap, (heapify_permOn compare cnt array (i + 1) (by omega)).trans hperm⟩

/-- The second loop of `sort`, from `i`: with a heap of the first `i` elements, the others in
order, and every heap element at most every other, it leaves the array in order. -/
theorem sortHeap_spec (cnt : ℕ) :
    ∀ (i : ℕ) (array : ℕ → α), i ≤ cnt → HeapFrom compare array 1 i →
      (∀ p q, i ≤ p → p < q → q < cnt → compare (array p) (array q) ≤ 0) →
      (∀ p q, p < i → i ≤ q → q < cnt → compare (array p) (array q) ≤ 0) →
      Sorted compare (sortHeap compare i array) cnt ∧
        PermOn cnt array (sortHeap compare i array) := by
  intro i array
  induction i, array using sortHeap.induct compare with
  | case1 array =>
    intro _ _ hsuf _
    exact ⟨fun p q hpq hq => hsuf p q (Nat.zero_le _) hpq hq, PermOn.refl _ _⟩
  | case2 array =>
    intro _ _ hsuf hcross
    refine ⟨fun p q hpq hq => ?_, PermOn.refl _ _⟩
    rcases Nat.eq_zero_or_pos p with rfl | hp
    · exact hcross 0 q (by omega) (by omega) hq
    · exact hsuf p q hp hpq hq
  | case3 i array ih =>
    intro hi hh hsuf hcross
    simp only [sortHeap]
    -- swap the root, the largest of the heap, to the end of the heap, then sift the new root
    set a₁ := do_swap array 1 (i + 2)
    have ha₁ : ∀ k, a₁ k = if k = 0 then array (i + 1) else if k = i + 1 then array 0
        else array k := fun k => rfl
    have o : SiftOrder compare a₁ 1 (i + 1) 1 := by
      refine ⟨fun c hc hloc hne => ?_, fun hlo => absurd hlo (by omega)⟩
      rw [ha₁ (c - 1), ha₁ (c / 2 - 1), if_neg (show c - 1 ≠ 0 by omega),
        if_neg (show c - 1 ≠ i + 1 by omega), if_neg (show c / 2 - 1 ≠ 0 by omega),
        if_neg (show c / 2 - 1 ≠ i + 1 by omega)]
      exact hh c (by omega) hloc
    set a₂ := heapify a₁ 1 (i + 1) compare
    have hheap : HeapFrom compare a₂ 1 (i + 1) := heapify_spec h le_rfl a₁ 1 le_rfl o
    have hperm₂ : PermOn (i + 1) a₁ a₂ := heapify_permOn compare (i + 1) a₁ 1 le_rfl
    have htail : ∀ k, i + 1 ≤ k → a₂ k = a₁ k := fun k hk => hperm₂.apply_of_le hk
    have hheapelt : ∀ p < i + 1, ∃ r < i + 2, a₂ p = array r := by
      intro p hp
      obtain ⟨p', hp', hp₂⟩ := hperm₂.exists_of_lt hp
      rw [hp₂, ha₁]
      split_ifs with h0 hi'
      · exact ⟨i + 1, by omega, rfl⟩
      · exact ⟨0, by omega, rfl⟩
      · exact ⟨p', by omega, rfl⟩
    have hsuf₂ : ∀ p q, i + 1 ≤ p → p < q → q < cnt → compare (a₂ p) (a₂ q) ≤ 0 := by
      intro p q hp hpq hq
      rw [htail p hp, htail q (by omega), ha₁ p, ha₁ q, if_neg (show p ≠ 0 by omega),
        if_neg (show q ≠ 0 by omega), if_neg (show q ≠ i + 1 by omega)]
      split_ifs with hpi
      · exact hcross 0 q (by omega) (by omega) hq
      · exact hsuf p q (by omega) hpq hq
    have hcross₂ : ∀ p q, p < i + 1 → i + 1 ≤ q → q < cnt → compare (a₂ p) (a₂ q) ≤ 0 := by
      intro p q hp hq hqc
      obtain ⟨r, hr, hpr⟩ := hheapelt p hp
      rw [hpr, htail q hq, ha₁ q, if_neg (show q ≠ 0 by omega)]
      split_ifs with hqi
      · have := hh.root_max h (r + 1) (by omega) (by omega)
        simpa using this
      · exact hcross r q hr (by omega) hqc
    obtain ⟨hsorted, hperm⟩ := ih (by omega) hheap hsuf₂ hcross₂
    have hperm₁ : PermOn cnt array a₁ := do_swap_permOn array (by omega) (by omega)
    exact ⟨hsorted, hperm₁.trans ((hperm₂.mono (by omega)).trans hperm)⟩

/-- `sort` leaves the first `cnt` elements in order, rearranged, for every comparison that is a
total preorder. -/
theorem sort_spec (array : ℕ → α) (cnt : ℕ) :
    Sorted compare (sort array cnt compare) cnt ∧ PermOn cnt array (sort array cnt compare) := by
  -- nothing from `cnt / 2 + 1` on has a child within `cnt`
  obtain ⟨hheap, hperm₁⟩ := buildHeap_spec h cnt (cnt / 2) array fun c hc hlo => by omega
  obtain ⟨hsorted, hperm₂⟩ := sortHeap_spec h cnt cnt _ le_rfl hheap
    (fun p q hp hpq hq => by omega) (fun p q hp hq hqc => by omega)
  exact ⟨hsorted, hperm₁.trans hperm₂⟩

end Order

theorem qsort_sorted_perm (compare : α → α → Int) (h : StrcmpOrder compare) (array : ℕ → α)
    (cnt : ℕ) :
    Sorted compare (qsort array cnt compare) cnt ∧ PermOn cnt array (qsort array cnt compare) :=
  sort_spec h array cnt

/-- Natural numbers compared by their difference, a total order. -/
def natCompare (a b : ℕ) : Int := (a : Int) - b

theorem natCompare_order : StrcmpOrder natCompare :=
  ⟨fun a b => by simp only [natCompare]; omega, fun a b c => by simp only [natCompare]; omega⟩

theorem qsort_sorted_perm_nat :
    StrcmpOrder natCompare ∧
      Sorted natCompare (qsort (fun k => [3, 1, 2].getD k 0) 3 natCompare) 3 ∧
        PermOn 3 (fun k => [3, 1, 2].getD k 0) (qsort (fun k => [3, 1, 2].getD k 0) 3 natCompare) :=
  ⟨natCompare_order, qsort_sorted_perm natCompare natCompare_order _ 3⟩

/-! ## Binary search -/

/-- `binary_search`'s loop `while (first < last)` over the byte range `[first, last)`, where
`mem p` is the element at address `p`. The loop returns `some (some middle)` for
`return middle` and `some none` for the `return NULL` after it; `fuel` bounds the rounds, and
`none` means that it ran out, which the code never does (`binarySearchLoop_spec`). -/
def binarySearchLoop (key : α) (mem : ℕ → α) (size : ℕ) (compare : α → α → Int) :
    ℕ → ℕ → ℕ → Option (Option ℕ)
  | 0, _, _ => none
  | fuel + 1, first, last =>
    if first < last then
      let range := (last - first) / size
      let middle := first + range / 2 * size
      let cmp := compare key (mem middle)
      if cmp < 0 then binarySearchLoop key mem size compare fuel first middle
      else if cmp > 0 then binarySearchLoop key mem size compare fuel (middle + size) last
      else some (some middle)
    else some none

/-- `binary_search (key, array, cnt, size, compare, aux)`: `some r` for a return of `r`, the
address of a match or `none` for `NULL`. Each round shortens the byte range, so its length
bounds the rounds. -/
def binary_search (key : α) (array cnt size : ℕ) (compare : α → α → Int) (mem : ℕ → α) :
    Option (Option ℕ) :=
  binarySearchLoop key mem size compare (size * cnt + 1) array (array + size * cnt)

/-- `bsearch (key, array, cnt, size, compare)`, which calls `binary_search` through
`compare_thunk`. -/
def bsearch (key : α) (array cnt size : ℕ) (compare : α → α → Int) (mem : ℕ → α) :
    Option (Option ℕ) :=
  binary_search key array cnt size (fun a b => compare a b) mem

/-- The loop invariant of `binary_search` over the element range `[lo, hi)`: every element
before `lo` is below `key` and every element from `hi` on is above it. -/
def SearchInv (compare : α → α → Int) (key : α) (elem : ℕ → α) (cnt lo hi : ℕ) : Prop :=
  hi ≤ cnt ∧ (∀ k < lo, 0 < compare key (elem k)) ∧
    ∀ k, hi ≤ k → k < cnt → compare key (elem k) < 0

/-- The middle address of the byte range of elements `[lo, hi)` is that of element
`lo + (hi - lo) / 2`. -/
theorem middle_eq {array size lo hi : ℕ} (hs : 0 < size) :
    array + lo * size + (array + hi * size - (array + lo * size)) / size / 2 * size =
      array + (lo + (hi - lo) / 2) * size := by
  have hrange : (array + hi * size - (array + lo * size)) / size = hi - lo := by
    rw [Nat.add_sub_add_left, ← Nat.sub_mul, Nat.mul_div_cancel _ hs]
  rw [hrange, Nat.add_mul, Nat.add_assoc]

section Search

variable {compare : α → α → Int} (h : StrcmpOrder compare) {key : α} {elem : ℕ → α}
  {cnt lo hi : ℕ}
include h

/-- Above the key at `m`, the search goes on in `[lo, m)`. -/
theorem SearchInv.left (hsorted : Sorted compare elem cnt) (hinv : SearchInv compare key elem cnt lo hi)
    {m : ℕ} (hm : m < hi) (hc : compare key (elem m) < 0) :
    SearchInv compare key elem cnt lo m := by
  obtain ⟨hhi, hlo, -⟩ := hinv
  refine ⟨by omega, hlo, fun k hmk hk => ?_⟩
  exact h.lt_of_lt_of_le hc (hsorted.le_of_le h hmk hk)

/-- Below the key at `m`, the search goes on in `[m + 1, hi)`. -/
theorem SearchInv.right (hsorted : Sorted compare elem cnt) (hinv : SearchInv compare key elem cnt lo hi)
    {m : ℕ} (hm : m < hi) (hc : 0 < compare key (elem m)) :
    SearchInv compare key elem cnt (m + 1) hi := by
  obtain ⟨hhi, -, hhi'⟩ := hinv
  refine ⟨hhi, fun k hk => ?_, hhi'⟩
  have hmk : compare (elem m) key < 0 := (h.neg_iff _ _).mpr hc
  exact (h.neg_iff _ _).mp (h.lt_of_le_of_lt (hsorted.le_of_le h (by omega) (by omega)) hmk)

omit h in
/-- An empty range holds no match. -/
theorem SearchInv.no_match (hinv : SearchInv compare key elem cnt lo hi) (hle : hi ≤ lo) :
    ∀ k < cnt, compare key (elem k) ≠ 0 := by
  obtain ⟨-, hlo, hhi⟩ := hinv
  intro k hk
  by_cases hkl : k < lo
  · exact (hlo k hkl).ne'
  · exact (hhi k (by omega) hk).ne

/-- The loop from the element range `[lo, hi)` under the invariant, with more fuel than
elements left, returns: an address it returns is that of a match, and `NULL` means there is
none. -/
theorem binarySearchLoop_spec {mem : ℕ → α} {array size : ℕ} (hs : 0 < size)
    (hsorted : Sorted compare (fun k => mem (array + k * size)) cnt) :
    ∀ (fuel lo hi : ℕ), hi - lo < fuel →
      SearchInv compare key (fun k => mem (array + k * size)) cnt lo hi →
      ∃ r, binarySearchLoop key mem size compare fuel (array + lo * size) (array + hi * size) =
          some r ∧
        (∀ p, r = some p → ∃ k < cnt, p = array + k * size ∧ compare key (mem p) = 0) ∧
        (r = none → ∀ k < cnt, compare key (mem (array + k * size)) ≠ 0) := by
  intro fuel
  induction fuel with
  | zero => intro lo hi hfuel; omega
  | succ fuel ih =>
    intro lo hi hfuel hinv
    rw [binarySearchLoop]
    by_cases hlt : array + lo * size < array + hi * size
    · have hlh : lo < hi := Nat.lt_of_mul_lt_mul_right (Nat.lt_of_add_lt_add_left hlt)
      rw [if_pos hlt]
      dsimp only
      rw [middle_eq hs]
      have hm : lo ≤ lo + (hi - lo) / 2 ∧ lo + (hi - lo) / 2 < hi := by omega
      rcases lt_trichotomy (compare key (mem (array + (lo + (hi - lo) / 2) * size))) 0
        with hc | hc | hc
      · rw [if_pos hc]
        exact ih lo _ (by omega) (hinv.left h hsorted hm.2 hc)
      · rw [if_neg hc.not_lt, if_neg hc.not_gt]
        refine ⟨_, rfl, fun p hp => ⟨_, by have := hinv.1; omega, (Option.some.inj hp).symm, ?_⟩,
          fun hp => absurd hp (by simp)⟩
        rw [← Option.some.inj hp]
        exact hc
      · rw [if_neg (not_lt.mpr hc.le), if_pos hc, Nat.add_assoc, ← Nat.succ_mul]
        exact ih _ hi (by omega) (hinv.right h hsorted hm.2 hc)
    · have hle : hi ≤ lo := by
        by_contra hlo
        exact hlt (Nat.add_lt_add_left (Nat.mul_lt_mul_of_pos_right (by omega) hs) _)
      rw [if_neg hlt]
      exact ⟨none, rfl, fun p hp => absurd hp (by simp), fun _ => hinv.no_match hle⟩

/-- `binary_search` on a sorted array of elements of at least one byte returns, the address of
a match or `NULL`, and `NULL` exactly when no element matches. -/
theorem binary_search_spec {mem : ℕ → α} {array size : ℕ} (hs : 0 < size)
    (hsorted : Sorted compare (fun k => mem (array + k * size)) cnt) :
    ∃ r, binary_search key array cnt size compare mem = some r ∧
      (∀ p, r = some p → ∃ k < cnt, p = array + k * size ∧ compare key (mem p) = 0) ∧
      (r = none ↔ ∀ k < cnt, compare key (mem (array + k * size)) ≠ 0) := by
  have hinv : SearchInv compare key (fun k => mem (array + k * size)) cnt 0 cnt :=
    ⟨le_rfl, fun k hk => absurd hk (Nat.not_lt_zero k), fun k hk hk' => absurd hk' (by omega)⟩
  have hfuel : cnt - 0 < size * cnt + 1 := by
    have := Nat.le_mul_of_pos_left cnt hs
    omega
  obtain ⟨r, hr, hsome, hnone⟩ := binarySearchLoop_spec h hs hsorted _ 0 cnt hfuel hinv
  simp only [Nat.zero_mul, Nat.add_zero, Nat.mul_comm cnt size] at hr
  refine ⟨r, hr, hsome, hnone, fun hno => ?_⟩
  cases r with
  | none => rfl
  | some p =>
    obtain ⟨k, hk, rfl, hkm⟩ := hsome p rfl
    exact absurd hkm (hno k hk)

end Search

theorem bsearch_finds_match (compare : α → α → Int) (h : StrcmpOrder compare) (key : α)
    (mem : ℕ → α) (array cnt size : ℕ) (hs : 0 < size)
    (hsorted : Sorted compare (fun k => mem (array + k * size)) cnt) :
    ∃ r, bsearch key array cnt size compare mem = some r ∧
      (∀ p, r = some p → ∃ k < cnt, p = array + k * size ∧ compare key (mem p) = 0) ∧
      (r = none ↔ ∀ k < cnt, compare key (mem (array + k * size)) ≠ 0) :=
  binary_search_spec h hs hsorted

/-- The element at address `p` is `p`: the array at address `0` of elements of one byte
holds `0, 1, 2, ...`. -/
theorem id_sorted (cnt : ℕ) : Sorted natCompare (fun k => (fun p : ℕ => p) (0 + k * 1)) cnt := by
  intro i j hij _
  simp only [natCompare]
  omega

theorem bsearch_finds_match_two :
    StrcmpOrder natCompare ∧ 0 < 1 ∧ Sorted natCompare (fun k => (fun p : ℕ => p) (0 + k * 1)) 3 ∧
      ∃ r, bsearch 2 0 3 1 natCompare (fun p => p) = some r ∧
        (∀ p, r = some p → ∃ k < 3, p = 0 + k * 1 ∧ natCompare 2 p = 0) ∧
        (r = none ↔ ∀ k < 3, natCompare 2 (0 + k * 1) ≠ 0) :=
  ⟨natCompare_order, Nat.one_pos, id_sorted 3,
    bsearch_finds_match natCompare natCompare_order 2 (fun p => p) 0 3 1 Nat.one_pos (id_sorted 3)⟩

/-- With elements of no bytes the range `[array, array + size * cnt)` is empty from the start:
`bsearch` returns `NULL` though the one element matches. -/
theorem bsearch_size_zero_misses :
    StrcmpOrder (fun _ _ : ℕ => (0 : Int)) ∧
      Sorted (fun _ _ : ℕ => (0 : Int)) (fun k => (fun _ : ℕ => 0) (0 + k * 0)) 1 ∧
      bsearch 0 0 1 0 (fun _ _ => 0) (fun _ => 0) = some none ∧
      (fun _ _ : ℕ => (0 : Int)) 0 ((fun _ : ℕ => 0) (0 + 0 * 0)) = 0 :=
  ⟨⟨fun _ _ => by simp, fun _ _ _ _ _ => le_rfl⟩, fun _ _ _ _ => le_rfl, rfl, rfl⟩

/-! ## `atoi` -/

open Printf in
/-- The result of an `int` operation on i386: an overflow is undefined. -/
def intResult (v : ℤ) : Except Fault ℤ :=
  if v < INT_MIN ∨ INT_MAX < v then .error .undefined else .ok v

/-- `isspace (c)` of `lib/ctype.h`. -/
def isspace (c : Char) : Bool :=
  c == ' ' || c == '\x0c' || c == '\n' || c == '\r' || c == '\t' || c == '\x0b'

/-- The digit loop of `atoi`, `for (; isdigit (*s); s++) value = value * 10 - (*s - '0');`,
from `value` over the characters from `s`. -/
def atoiDigits : List Char → ℤ → Except Fault ℤ
  | [], value => .ok value
  | c :: s, value =>
    if c.isDigit then do
      let v ← intResult (value * 10)
      let v ← intResult (v - ((c.toNat : ℤ) - '0'.toNat))
      atoiDigits s v
    else .ok value

/-- The sign of `atoi`: whether it is negative, and the characters after it. -/
def atoiSign : List Char → Bool × List Char
  | '+' :: s => (false, s)
  | '-' :: s => (true, s)
  | s => (false, s)

/-- `atoi (s)`, over the characters of `s` before its NUL. -/
def atoi (s : List Char) : Except Fault ℤ := do
  let (negative, s) := atoiSign (s.dropWhile isspace)
  let value ← atoiDigits s 0
  if !negative then intResult (-value) else pure value

/-- One digit more: `10 * v + digit`. -/
def digitStep (v : ℕ) (c : Char) : ℕ := 10 * v + (c.toNat - '0'.toNat)

/-- The value of a run of decimal digits. -/
def digitsValue (ds : List Char) : ℕ := ds.foldl digitStep 0

theorem intResult_of_le {v : ℤ} (hlo : Printf.INT_MIN ≤ v) (hhi : v ≤ Printf.INT_MAX) :
    intResult v = .ok v := by
  rw [intResult, if_neg (by omega)]

theorem le_digitStep (a : ℕ) (c : Char) : a ≤ digitStep a c := by
  unfold digitStep
  omega

theorem le_foldl_digitStep : ∀ (ds : List Char) (a : ℕ), a ≤ ds.foldl digitStep a
  | [], _ => le_rfl
  | c :: ds, a => (le_digitStep a c).trans (le_foldl_digitStep ds (digitStep a c))

/-- The digit loop from `-a` over the digits `ds` ends at minus the value that `ds` appends to
`a`; every running value lies between that and `0`, so none overflows when the final one fits. -/
theorem atoiDigits_append {r : List Char} (hr : ∀ c ∈ r.head?, c.isDigit = false) :
    ∀ (ds : List Char) (a : ℕ), (∀ c ∈ ds, c.isDigit) → ds.foldl digitStep a ≤ 2 ^ 31 →
      atoiDigits (ds ++ r) (-(a : ℤ)) = .ok (-(ds.foldl digitStep a : ℕ))
  | [], a, _, _ => by
    rcases r with _ | ⟨c, r⟩
    · rfl
    · rw [List.nil_append, atoiDigits, if_neg (by simpa using hr c rfl), List.foldl_nil]
  | c :: ds, a, hds, hle => by
    have hc : c.isDigit := hds c List.mem_cons_self
    have h0 := Printf.zero_le_of_isDigit hc
    have hstep : digitStep a c ≤ ds.foldl digitStep (digitStep a c) := le_foldl_digitStep ds _
    rw [List.foldl_cons] at hle ⊢
    have hbound : 10 * a + (c.toNat - '0'.toNat) ≤ 2 ^ 31 := by
      rw [← digitStep]
      omega
    have hmul : intResult (-(a : ℤ) * 10) = .ok (-(a : ℤ) * 10) :=
      intResult_of_le (by simp only [Printf.INT_MIN]; omega) (by simp only [Printf.INT_MAX]; omega)
    have hsub : -(a : ℤ) * 10 - ((c.toNat : ℤ) - '0'.toNat) = -(digitStep a c : ℕ) := by
      simp only [digitStep]
      omega
    rw [List.cons_append, atoiDigits, if_pos hc, hmul, Except.ok_bind, hsub,
      intResult_of_le (by simp only [Printf.INT_MIN]; omega) (by simp only [Printf.INT_MAX]; omega),
      Except.ok_bind]
    exact atoiDigits_append hr ds _ (fun x hx => hds x (List.mem_cons_of_mem _ hx)) hle

/-- After the white space, a sign or a digit ends the skipping. -/
theorem dropWhile_isspace {ws rest : List Char} (hws : ∀ c ∈ ws, isspace c)
    (hrest : ∀ c ∈ rest.head?, isspace c = false) : (ws ++ rest).dropWhile isspace = rest := by
  rw [List.dropWhile_append_of_pos hws]
  rcases rest with _ | ⟨c, rest⟩
  · rfl
  · exact List.dropWhile_cons_of_neg (by simpa using hrest c rfl)

theorem atoiSign_of_isDigit {c : Char} (hc : c.isDigit) (s : List Char) :
    atoiSign (c :: s) = (false, c :: s) := by
  have hplus : c ≠ '+' := by rintro rfl; exact absurd hc (by decide)
  have hminus : c ≠ '-' := by rintro rfl; exact absurd hc (by decide)
  unfold atoiSign
  split
  next heq => exact absurd (List.cons.inj heq).1 hplus
  next heq => exact absurd (List.cons.inj heq).1 hminus
  next => rfl

theorem atoiSign_plus (s : List Char) : atoiSign ('+' :: s) = (false, s) := rfl

theorem atoiSign_minus (s : List Char) : atoiSign ('-' :: s) = (true, s) := rfl

theorem isspace_of_isDigit {c : Char} (hc : c.isDigit) : isspace c = false := by
  simp only [Char.isDigit, Bool.and_eq_true, decide_eq_true_eq] at hc
  simp only [isspace, Bool.or_eq_false_iff, beq_eq_false_iff_ne, ne_eq]
  refine ⟨⟨⟨⟨⟨?_, ?_⟩, ?_⟩, ?_⟩, ?_⟩, ?_⟩ <;> rintro rfl <;> simp at hc

/-- `atoi` reads white space, an optional sign and a run of digits whose value is an `int`,
followed by a non-digit, as that value; `INT_MIN` included, since the digits are accumulated
as a negative number. -/
theorem atoi_parses_decimal (ws sign ds r : List Char) (hws : ∀ c ∈ ws, isspace c)
    (hsign : sign = [] ∨ sign = ['+'] ∨ sign = ['-']) (hds : ∀ c ∈ ds, c.isDigit) (hne : ds ≠ [])
    (hr : ∀ c ∈ r.head?, c.isDigit = false)
    (hv : Printf.INT_MIN ≤ (if sign = ['-'] then -(digitsValue ds : ℤ) else digitsValue ds) ∧
      (if sign = ['-'] then -(digitsValue ds : ℤ) else digitsValue ds) ≤ Printf.INT_MAX) :
    atoi (ws ++ sign ++ ds ++ r) =
      .ok (if sign = ['-'] then -(digitsValue ds : ℤ) else digitsValue ds) := by
  obtain ⟨d, ds', rfl⟩ := List.exists_cons_of_ne_nil hne
  have hd : d.isDigit := hds d List.mem_cons_self
  have hle : digitsValue (d :: ds') ≤ 2 ^ 31 := by
    simp only [Printf.INT_MIN, Printf.INT_MAX] at hv
    split_ifs at hv <;> omega
  have hloop : atoiDigits (d :: (ds' ++ r)) 0 = .ok (-(digitsValue (d :: ds') : ℤ)) := by
    have := atoiDigits_append hr (d :: ds') 0 hds hle
    rwa [Nat.cast_zero, neg_zero, List.cons_append] at this
  have hskip : (ws ++ sign ++ (d :: ds') ++ r).dropWhile isspace = sign ++ d :: (ds' ++ r) := by
    rw [List.append_assoc, List.append_assoc, List.cons_append]
    refine dropWhile_isspace hws fun c hc => ?_
    rcases hsign with rfl | rfl | rfl
    · rw [List.nil_append, List.head?_cons, Option.mem_some_iff] at hc
      exact hc ▸ isspace_of_isDigit hd
    all_goals
      rw [List.singleton_append, List.head?_cons, Option.mem_some_iff] at hc
      subst hc
      rfl
  rcases hsign with rfl | rfl | rfl
  · rw [if_neg (by decide)] at hv ⊢
    rw [atoi, hskip, List.nil_append, atoiSign_of_isDigit hd]
    dsimp only
    rw [hloop, Except.ok_bind, Bool.not_false, if_pos rfl, neg_neg]
    exact intResult_of_le hv.1 hv.2
  · rw [if_neg (by decide)] at hv ⊢
    rw [atoi, hskip, List.singleton_append, atoiSign_plus]
    dsimp only
    rw [hloop, Except.ok_bind, Bool.not_false, if_pos rfl, neg_neg]
    exact intResult_of_le hv.1 hv.2
  · rw [if_pos rfl]
    rw [atoi, hskip, List.singleton_append, atoiSign_minus]
    dsimp only
    rw [hloop, Except.ok_bind, Bool.not_true]
    rfl

/-- `" -2147483648"` is `INT_MIN`. -/
theorem atoi_parses_int_min :
    atoi [' ', '-', '2', '1', '4', '7', '4', '8', '3', '6', '4', '8'] = .ok (-2147483648) := by
  have h := atoi_parses_decimal [' '] ['-'] ['2', '1', '4', '7', '4', '8', '3', '6', '4', '8'] []
    (by simp [isspace]) (by decide) (by simp) (by simp) (by simp) (by decide)
  exact h.trans (congrArg Except.ok (by decide))

end Pintos
