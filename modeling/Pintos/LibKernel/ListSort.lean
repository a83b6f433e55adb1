import Pintos.Lib.WeakOrder
import Pintos.Threads.Kernel

/-!
# `list_sort` (`lib/kernel/list.c`)

A list is the sequence of its elements from `list_begin` to `list_end`, and a range `[a, b)` of
element pointers is a segment of it. `find_end_of_run` splits off the longest run in which no
element is less than the one before it. `inplace_merge` keeps its range as `out ++ A ++ B`,
with `a0` at the head of `A` and `a1b0` at the head of `B`; its `list_splice` of the element at
`a1b0` to just before `a0` moves that element to the end of `out`, so the loop is `List.merge`
taking the left element on ties (`inplace_merge_eq_merge`). A pass merges the runs two by two
(`sortPass`) and the passes repeat while a pass outputs more than one run.

For a strict weak order a pass rearranges the list, keeps the order within each class of
incomparable elements, outputs `(descents + 2) / 2` runs and leaves at most one descent fewer
than that (`sortPass_spec`, from `PassSpec`). A pass that outputs more than one run thus removes
a descent, `l.length + 1` passes suffice, and the list ends in order (`list_sort_spec`).
-/

namespace Pintos

open WeakOrder

variable {α : Type*} (less : α → α → Bool)

/-- `is_sorted (a, b, less, aux)` over the range `[a, b)`. -/
def is_sorted : List α → Bool
  | a :: b :: l => !less b a && is_sorted (b :: l)
  | _ => true

/-- `find_end_of_run (a, b, less, aux)` on the range `a :: l` that ends at `b`: the run from
`a`, and the range from its end. -/
def find_end_of_run : α → List α → List α × List α
  | a, [] => ([a], [])
  | a, b :: l =>
    if less b a then ([a], b :: l)
    else (a :: (find_end_of_run b l).1, (find_end_of_run b l).2)

/-- The loop of `inplace_merge (a0, a1b0, b1, less, aux)` on the range `out ++ A ++ B`, with
`a0` at the head of `A` and `a1b0` at the head of `B`: the merged range. -/
def inplace_merge (out : List α) : List α → List α → List α
  | a0 :: A, a1b0 :: B =>
    if !less a1b0 a0 then inplace_merge (out ++ [a0]) A (a1b0 :: B)
    -- `a1b0 = list_next (a1b0); list_splice (a0, list_prev (a1b0), a1b0)`
    else inplace_merge (out ++ [a1b0]) (a0 :: A) B
  | A, B => out ++ A ++ B
termination_by A B => A.length + B.length

variable {less}

theorem length_find_end_of_run_snd (a : α) :
    ∀ l : List α, (find_end_of_run less a l).2.length ≤ l.length
  | [] => by simp [find_end_of_run]
  | b :: l => by
    have := length_find_end_of_run_snd b l
    simp only [find_end_of_run]
    split_ifs
    · simp
    · simp only [List.length_cons]
      omega

variable (less)

/-- The `for` loop of one pass of `list_sort`, from `a0` with `output_run_cnt` at `cnt`: the
final `output_run_cnt` and the range from `a0` on after the pass. -/
def sortPass (cnt : ℕ) : List α → ℕ × List α
  | [] => (cnt, [])
  | a0 :: l =>
    match h : find_end_of_run less a0 l with
    -- `a1b0 == list_end (list)`: the run is the last one
    | (A, []) => (cnt + 1, A)
    | (A, a1b0 :: l') =>
      have : (find_end_of_run less a1b0 l').2.length < (a0 :: l).length := by
        have h₁ := @length_find_end_of_run_snd _ less a0 l
        have h₂ := @length_find_end_of_run_snd _ less a1b0 l'
        rw [h] at h₁
        simp only [List.length_cons] at h₁ ⊢
        omega
      let r := sortPass (cnt + 1) (find_end_of_run less a1b0 l').2
      (r.1, inplace_merge less [] A (find_end_of_run less a1b0 l').1 ++ r.2)
termination_by l => l.length
decreasing_by
  simp_wf
  simpa using this

/-- The `do ... while (output_run_cnt > 1)` loop of `list_sort` with `fuel` passes left, `none`
when they run out. -/
def listSortLoop : ℕ → List α → Option (List α)
  | 0, _ => none
  | fuel + 1, l =>
    if (sortPass less 0 l).1 > 1 then listSortLoop fuel (sortPass less 0 l).2
    else some (sortPass less 0 l).2

/-- `list_sort (list, less, aux)` given `l.length + 1` passes, with its closing
`ASSERT (is_sorted (list_begin (list), list_end (list), less, aux))`. -/
def list_sort (l : List α) : Option (Except Fault (List α)) :=
  (listSortLoop less (l.length + 1) l).map fun r =>
    if is_sorted less r then .ok r else .error .panic

variable {less}

theorem is_sorted_iff : ∀ {l : List α}, is_sorted less l = true ↔ l.IsChain fun a b => less b a = false
  | [] | [_] => by simp [is_sorted]
  | a :: b :: l => by simp [is_sorted, is_sorted_iff]

/-! ## Runs -/

theorem find_end_of_run_append (a : α) :
    ∀ l : List α, (find_end_of_run less a l).1 ++ (find_end_of_run less a l).2 = a :: l
  | [] => rfl
  | b :: l => by
    simp only [find_end_of_run]
    split_ifs
    · rfl
    · rw [List.cons_append, find_end_of_run_append b l]

theorem head?_find_end_of_run (a : α) (l : List α) : (find_end_of_run less a l).1.head? = some a := by
  cases l with
  | nil => rfl
  | cons b l =>
    simp only [find_end_of_run]
    split_ifs <;> rfl

/-- The run that `find_end_of_run` splits off is in order: `inplace_merge`'s two
`ASSERT (is_sorted (...))` hold for every pair of runs. -/
theorem isChain_find_end_of_run (a : α) :
    ∀ l : List α, (find_end_of_run less a l).1.IsChain fun a b => less b a = false
  | [] => List.IsChain.singleton a
  | b :: l => by
    simp only [find_end_of_run]
    split_ifs with hba
    · exact List.IsChain.singleton a
    · refine (isChain_find_end_of_run b l).cons fun y hy => ?_
      rw [head?_find_end_of_run, Option.mem_some_iff] at hy
      subst hy
      simpa using hba

/-- The run ends at a descent or at the end of the range. -/
theorem descents_find_end_of_run (a : α) :
    ∀ l : List α, descents less (a :: l) =
      if (find_end_of_run less a l).2 = [] then 0 else descents less (find_end_of_run less a l).2 + 1
  | [] => rfl
  | b :: l => by
    have ih := descents_find_end_of_run b l
    simp only [find_end_of_run, descents]
    split_ifs with hba hrest hrest <;> simp_all; omega

/-! ## Merging -/

/-- `inplace_merge` is `List.merge` taking the left element on ties. -/
theorem inplace_merge_eq_merge (out A B : List α) :
    inplace_merge less out A B = out ++ A.merge B fun a b => !less b a := by
  induction out, A, B using inplace_merge.induct less with
  | case1 out a0 A a1b0 B hle ih =>
    rw [inplace_merge, if_pos hle, ih, List.cons_merge_cons_pos (fun a b => !less b a) A _ hle]
    simp
  | case2 out a0 A a1b0 B hle ih =>
    rw [inplace_merge, if_neg hle, ih, List.cons_merge_cons_neg (fun a b => !less b a) _ B hle]
    simp
  | case3 out A B hnot =>
    cases A with
    | nil => simp [inplace_merge]
    | cons a0 A =>
      cases B with
      | nil => simp [inplace_merge]
      | cons a1b0 B => exact (hnot a0 A a1b0 B rfl rfl).elim

/-! ## A pass -/

theorem sortPass_last {cnt : ℕ} {a0 : α} {l A : List α} (hfe : find_end_of_run less a0 l = (A, [])) :
    sortPass less cnt (a0 :: l) = (cnt + 1, A) := by
  rw [sortPass.eq_2]
  split <;> simp_all

theorem sortPass_merge {cnt : ℕ} {a0 a1b0 : α} {l A l' : List α}
    (hfe : find_end_of_run less a0 l = (A, a1b0 :: l')) :
    sortPass less cnt (a0 :: l) =
      ((sortPass less (cnt + 1) (find_end_of_run less a1b0 l').2).1,
        inplace_merge less [] A (find_end_of_run less a1b0 l').1 ++
          (sortPass less (cnt + 1) (find_end_of_run less a1b0 l').2).2) := by
  rw [sortPass.eq_2]
  split <;> simp_all

variable (less) in
/-- What a pass from `output_run_cnt = cnt` does to the range `l`, ending with the count `c`
and the range `out`: `out` rearranges `l` and keeps the order of each class, `c` counts
`(descents + 2) / 2` output runs, and `out` has fewer descents than that. -/
structure PassSpec (l : List α) (cnt c : ℕ) (out : List α) : Prop where
  perm : out.Perm l
  filter_eq : ∀ x, out.filter (Incomp less x) = l.filter (Incomp less x)
  count : c = cnt + if l = [] then 0 else (descents less l + 2) / 2
  descents_le : descents less out ≤ c - cnt - 1

theorem PassSpec.nil (cnt : ℕ) : PassSpec less [] cnt cnt [] :=
  ⟨.nil, fun _ => rfl, by simp, by simp [descents]⟩

/-- The last run of the pass, left as it is. -/
theorem PassSpec.last {A : List α} {cnt : ℕ} (hA : A.IsChain fun a b => less b a = false)
    (hne : A ≠ []) : PassSpec less A cnt (cnt + 1) A := by
  have hd : descents less A = 0 := descents_eq_zero_iff.mpr hA
  exact ⟨.refl _, fun _ => rfl, by simp [hne, hd], by simp [hd]⟩

/-- Two runs merged in front of the rest of the pass. -/
theorem PassSpec.merge (h : IsStrictWeakOrder α fun a b => less a b) {A B rest out : List α}
    {cnt c : ℕ} (hA : A.IsChain fun a b => less b a = false)
    (hB : B.IsChain fun a b => less b a = false) (hAne : A ≠ [])
    (hAd : descents less (A ++ B ++ rest) = descents less (B ++ rest) + 1)
    (hBd : descents less (B ++ rest) = if rest = [] then 0 else descents less rest + 1)
    (hrest : PassSpec less rest (cnt + 1) c out) :
    PassSpec less (A ++ B ++ rest) cnt c ((A.merge B fun a b => !less b a) ++ out) := by
  have hmerge : descents less (A.merge B fun a b => !less b a) = 0 :=
    descents_eq_zero_iff.mpr (isChain_merge h hA hB)
  have hcount := hrest.count
  refine ⟨(List.merge_perm_append _).append hrest.perm, fun x => ?_, ?_, ?_⟩
  · rw [List.filter_append, filter_merge h x (pairwise_of_isChain h hA) (pairwise_of_isChain h hB),
      hrest.filter_eq, List.filter_append, List.filter_append]
  · simp only [List.append_assoc, List.append_eq_nil_iff, hAne, false_and, if_false] at hcount hAd ⊢
    split_ifs at hcount hBd <;> omega
  · by_cases hr : rest = []
    · -- the pass ends with this merge
      subst hr
      rw [hrest.perm.eq_nil, List.append_nil, hmerge]
      exact Nat.zero_le _
    · have hle : descents less _ ≤ _ := descents_append_le (A.merge B fun a b => !less b a) out
      have hout := hrest.descents_le
      rw [if_neg hr] at hcount
      have : 0 < descents less rest + 2 := by omega
      omega

/-- A pass from `output_run_cnt = cnt` over any range, for a strict weak order. -/
theorem sortPass_spec (h : IsStrictWeakOrder α fun a b => less a b) (cnt : ℕ) (l : List α) :
    PassSpec less l cnt (sortPass less cnt l).1 (sortPass less cnt l).2 := by
  induction cnt, l using sortPass.induct less with
  | case1 cnt =>
    rw [sortPass.eq_1]
    exact PassSpec.nil cnt
  | case2 cnt a0 l A hfe =>
    have happ : (find_end_of_run less a0 l).1 ++ (find_end_of_run less a0 l).2 = a0 :: l :=
      find_end_of_run_append a0 l
    have hhead : (find_end_of_run less a0 l).1.head? = some a0 := head?_find_end_of_run a0 l
    have hchain : (find_end_of_run less a0 l).1.IsChain fun a b => less b a = false :=
      isChain_find_end_of_run a0 l
    rw [hfe] at happ hhead hchain
    dsimp only at happ hhead hchain
    rw [sortPass_last hfe, ← happ, List.append_nil]
    exact PassSpec.last hchain (by rintro rfl; simp at hhead)
  | case3 cnt a0 l A a1b0 l' hfe _ ih =>
    have happ : (find_end_of_run less a0 l).1 ++ (find_end_of_run less a0 l).2 = a0 :: l :=
      find_end_of_run_append a0 l
    have hhead : (find_end_of_run less a0 l).1.head? = some a0 := head?_find_end_of_run a0 l
    have hdA : descents less (a0 :: l) = _ := descents_find_end_of_run a0 l
    have hchain : (find_end_of_run less a0 l).1.IsChain fun a b => less b a = false :=
      isChain_find_end_of_run a0 l
    rw [hfe] at happ hhead hdA hchain
    dsimp only at happ hhead hchain
    simp only [reduceCtorEq, if_false] at hdA
    have happ' : (find_end_of_run less a1b0 l').1 ++ (find_end_of_run less a1b0 l').2 =
      a1b0 :: l' := find_end_of_run_append a1b0 l'
    have hdB : descents less (a1b0 :: l') = _ := descents_find_end_of_run a1b0 l'
    rw [sortPass_merge hfe, inplace_merge_eq_merge, List.nil_append, ← happ, ← happ',
      ← List.append_assoc]
    refine PassSpec.merge h hchain (isChain_find_end_of_run a1b0 l')
      (by rintro rfl; simp at hhead) ?_ (by rw [happ', hdB]) ih
    rw [List.append_assoc, happ', happ, hdA]

/-! ## The passes -/

/-- With more passes left than descents, the loop ends in order, with a rearrangement that
keeps the order of each class. -/
theorem listSortLoop_spec (h : IsStrictWeakOrder α fun a b => less a b) :
    ∀ (fuel : ℕ) (l : List α), descents less l < fuel →
      ∃ r, listSortLoop less fuel l = some r ∧ (r.IsChain fun a b => less b a = false) ∧
        r.Perm l ∧ ∀ x, r.filter (Incomp less x) = l.filter (Incomp less x) := by
  intro fuel
  induction fuel with
  | zero => intro l hl; omega
  | succ fuel ih =>
    intro l hl
    have hp := sortPass_spec h 0 l
    have hcount := hp.count
    have hdesc := hp.descents_le
    rw [listSortLoop]
    by_cases hc : (sortPass less 0 l).1 > 1
    · -- more than one output run: the pass removed a descent
      rw [if_pos hc]
      have hne : l ≠ [] := by
        rintro rfl
        simp at hcount
        omega
      rw [if_neg hne] at hcount
      obtain ⟨r, hr, hsorted, hperm, hfilter⟩ := ih (sortPass less 0 l).2 (by omega)
      exact ⟨r, hr, hsorted, hperm.trans hp.perm, fun x => (hfilter x).trans (hp.filter_eq x)⟩
    · rw [if_neg hc]
      exact ⟨_, rfl, descents_eq_zero_iff.mp (by omega), hp.perm, hp.filter_eq⟩

theorem list_sort_stable (h : IsStrictWeakOrder α fun a b => less a b) (l : List α) :
    ∃ r, list_sort less l = some (.ok r) ∧ (r.IsChain fun a b => less b a = false) ∧
      r.Perm l ∧ ∀ x, r.filter (Incomp less x) = l.filter (Incomp less x) := by
  obtain ⟨r, hr, hsorted, hperm, hfilter⟩ :=
    listSortLoop_spec h (l.length + 1) l (Nat.lt_succ_of_le (descents_le_length l))
  refine ⟨r, ?_, hsorted, hperm, hfilter⟩
  rw [list_sort, hr, Option.map_some, if_pos (is_sorted_iff.mpr hsorted)]

/-- Pairs ordered by their first component; pairs with the same first component are in one
class. -/
def fstLess (a b : ℕ × ℕ) : Bool := decide (a.1 < b.1)

theorem fstLess_order : IsStrictWeakOrder (ℕ × ℕ) fun a b => fstLess a b where
  irrefl a := by simp [fstLess]
  trans a b c := by simp only [fstLess, decide_eq_true_eq]; omega
  incomp_trans a b c := by simp only [fstLess, decide_eq_true_eq]; omega

theorem list_sort_stable_pairs :
    IsStrictWeakOrder (ℕ × ℕ) (fun a b => fstLess a b) ∧
      ∃ r, list_sort fstLess [(2, 0), (1, 1), (2, 2), (1, 3)] = some (.ok r) ∧
        (r.IsChain fun a b => fstLess b a = false) ∧ r.Perm [(2, 0), (1, 1), (2, 2), (1, 3)] ∧
        ∀ x, r.filter (Incomp fstLess x) = [(2, 0), (1, 1), (2, 2), (1, 3)].filter (Incomp fstLess x) :=
  ⟨fstLess_order, list_sort_stable fstLess_order _⟩

end Pintos
