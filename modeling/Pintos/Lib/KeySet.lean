import Mathlib.Data.Finset.Basic
import Pintos.Lib.Run

/-!
# Finite sets searched up to an equivalence

The specification of a set container whose lookups compare elements by a relation `eqv` and
not by identity, as a hash set or a search tree does. A call is an operation together with the
element it answered (`Op α × Option α`); `Step eqv S c S'` says that `c` is a correct answer
on the set `S` and that the container then holds `S'`. A lookup may answer any element
equivalent to the one asked for, so the relation is not a function.

`Distinct eqv S` says that no two elements of `S` are equivalent. When `eqv` is symmetric and
transitive every run from the empty set keeps it (`Run.distinct`), and then an answer is the
only element of the set equivalent to the one asked for (`Distinct.eq_of_eqv`).
-/

namespace KeySet

/-- An operation on the set: `insert` adds an element unless an equivalent one is there,
`replace` adds it in place of an equivalent one, `delete` and `find` take an element to compare
with. -/
inductive Op (α : Type*)
  | insert (new : α)
  | replace (new : α)
  | delete (e : α)
  | find (e : α)
  | clear
  deriving DecidableEq, Repr

variable {α : Type*} (eqv : α → α → Prop)

/-- A correct answer to a call, and the set it leaves. -/
inductive Step [DecidableEq α] : Finset α → Op α × Option α → Finset α → Prop
  | find_some {S e x} : x ∈ S → eqv x e → Step S (.find e, some x) S
  | find_none {S e} : (∀ x ∈ S, ¬ eqv x e) → Step S (.find e, none) S
  | insert_some {S new x} : x ∈ S → eqv x new → Step S (.insert new, some x) S
  | insert_none {S new} : (∀ x ∈ S, ¬ eqv x new) → Step S (.insert new, none) (insert new S)
  | replace_some {S new x} : x ∈ S → eqv x new →
      Step S (.replace new, some x) (insert new (S.erase x))
  | replace_none {S new} : (∀ x ∈ S, ¬ eqv x new) →
      Step S (.replace new, none) (insert new S)
  | delete_some {S e x} : x ∈ S → eqv x e → Step S (.delete e, some x) (S.erase x)
  | delete_none {S e} : (∀ x ∈ S, ¬ eqv x e) → Step S (.delete e, none) S
  | clear {S} : Step S (.clear, none) ∅

/-- No two elements of `S` are equivalent. -/
def Distinct (S : Finset α) : Prop := ∀ x ∈ S, ∀ y ∈ S, eqv x y → x = y

variable {eqv}

namespace Distinct

variable {S : Finset α}

theorem empty : Distinct eqv (∅ : Finset α) := fun _ hx => absurd hx (Finset.notMem_empty _)

theorem mono {T : Finset α} (h : Distinct eqv S) (hT : T ⊆ S) : Distinct eqv T :=
  fun x hx y hy => h x (hT hx) y (hT hy)

/-- An element equivalent to none of the set keeps it distinct. -/
theorem insert [DecidableEq α] (hsymm : ∀ x y, eqv x y → eqv y x) (h : Distinct eqv S)
    {new : α} (hnew : ∀ x ∈ S, ¬ eqv x new) : Distinct eqv (insert new S) := by
  intro x hx y hy hxy
  rw [Finset.mem_insert] at hx hy
  rcases hx with rfl | hx <;> rcases hy with rfl | hy
  · rfl
  · exact absurd (hsymm _ _ hxy) (hnew y hy)
  · exact absurd hxy (hnew x hx)
  · exact h x hx y hy hxy

theorem eq_of_eqv (hsymm : ∀ x y, eqv x y → eqv y x)
    (htrans : ∀ x y z, eqv x y → eqv y z → eqv x z) (h : Distinct eqv S) {x y e : α}
    (hx : x ∈ S) (hy : y ∈ S) (hxe : eqv x e) (hye : eqv y e) : x = y :=
  h x hx y hy (htrans _ _ _ hxe (hsymm _ _ hye))

end Distinct

section Equivalence

variable [DecidableEq α] (hsymm : ∀ x y, eqv x y → eqv y x)
  (htrans : ∀ x y z, eqv x y → eqv y z → eqv x z)
include hsymm htrans

/-- Every correct call keeps the set distinct. `replace` is where transitivity is needed: the
element put in is equivalent to the one taken out, so to no other. -/
theorem Step.distinct {S S' : Finset α} {c : Op α × Option α} (hs : Step eqv S c S')
    (h : Distinct eqv S) : Distinct eqv S' := by
  cases hs with
  | find_some | find_none | insert_some | delete_none => exact h
  | insert_none hnew | replace_none hnew => exact h.insert hsymm hnew
  | @replace_some _ x hx hxe =>
    refine (h.mono (Finset.erase_subset _ _)).insert hsymm fun y hy hye => ?_
    have hyx : y = x := h.eq_of_eqv hsymm htrans (Finset.mem_of_mem_erase hy) hx hye hxe
    exact Finset.ne_of_mem_erase hy hyx
  | delete_some => exact h.mono (Finset.erase_subset _ _)
  | clear => exact Distinct.empty

/-- Every run from the empty set ends in a distinct set. -/
theorem Run.distinct {cs : List (Op α × Option α)} {S : Finset α}
    (hr : Lts.Run (Step eqv) ∅ cs S) : Distinct eqv S :=
  hr.invariant (fun hs h => hs.distinct hsymm htrans h) Distinct.empty

end Equivalence

/-- A run of insertions that each find no equal element adds exactly those elements. -/
theorem Run.inserts_none [DecidableEq α] :
    ∀ {es : List α} {S S' : Finset α},
      Lts.Run (Step eqv) S (es.map fun e => (.insert e, none)) S' → S' = S ∪ es.toFinset
  | [], _, _, h => by
    cases h
    simp
  | e :: es, _, _, h => by
    obtain _ | ⟨hstep, hrest⟩ := h
    cases hstep
    rw [Run.inserts_none hrest, List.toFinset_cons]
    ext x
    simp only [Finset.mem_union, Finset.mem_insert]
    tauto

end KeySet
