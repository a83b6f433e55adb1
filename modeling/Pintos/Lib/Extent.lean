import Mathlib.Data.List.Basic

/-!
# Extents and the bit maps that mark them

An extent `(start, cnt)` is the run of indices `[start, start + cnt)`. An allocator that hands
out runs of a bit map keeps two facts about the runs it has handed out and not taken back: they
are pairwise disjoint, and the map is set exactly on their indices (`Marks`). Handing out a run
whose bits are clear keeps both (`disjoint_of_clear`, `Marks.cons`); so does taking back a live
run (`Marks.erase`, `pairwise_erase`).
-/

namespace Extent

/-- Index `j` lies in the extent `e`. -/
def Mem (e : Nat × Nat) (j : Nat) : Prop := e.1 ≤ j ∧ j < e.1 + e.2

instance (e : Nat × Nat) (j : Nat) : Decidable (Mem e j) := inferInstanceAs (Decidable (_ ∧ _))

/-- Two extents share no index. -/
def Disjoint (e f : Nat × Nat) : Prop := ∀ j, Mem e j → ¬Mem f j

/-- `bit` is set exactly on the indices of the extents of `E`. -/
def Marks (bit : Nat → Bool) (E : List (Nat × Nat)) : Prop := ∀ j, bit j = true ↔ ∃ e ∈ E, Mem e j

/-- `bit` with the indices of `e` set to `value`. -/
def fill (bit : Nat → Bool) (e : Nat × Nat) (value : Bool) : Nat → Bool :=
  fun j => if Mem e j then value else bit j

variable {bit : Nat → Bool} {E : List (Nat × Nat)} {e f : Nat × Nat} {j : Nat} {value : Bool}

theorem fill_of_mem (h : Mem e j) : fill bit e value j = value := if_pos h

theorem fill_of_not_mem (h : ¬Mem e j) : fill bit e value j = bit j := if_neg h

theorem Disjoint.symm (h : Disjoint e f) : Disjoint f e := fun j hf he => h j he hf

theorem Marks.mem (hm : Marks bit E) (he : e ∈ E) (hj : Mem e j) : bit j = true :=
  (hm j).mpr ⟨e, he, hj⟩

theorem disjoint_of_clear (hm : Marks bit E) (hclear : ∀ j, Mem e j → bit j = false) :
    ∀ f ∈ E, Disjoint e f := by
  intro f hf j hej hfj
  have := hm.mem hf hfj
  rw [hclear j hej] at this
  cases this

/-- Setting the bits of a new extent marks it as well. -/
theorem Marks.cons (hm : Marks bit E) : Marks (fill bit e true) (e :: E) := by
  intro j
  by_cases hj : Mem e j
  · simp only [fill_of_mem hj, true_iff]
    exact ⟨e, List.mem_cons_self, hj⟩
  · simp only [fill_of_not_mem hj, List.mem_cons, exists_eq_or_imp, hj, false_or]
    exact hm j

/-- In a family of disjoint extents, every other member is disjoint from a member `e`. -/
theorem disjoint_of_mem_erase (hd : E.Pairwise Disjoint) (he : e ∈ E) :
    ∀ f ∈ E.erase e, Disjoint e f := by
  have hperm : (e :: E.erase e).Pairwise Disjoint :=
    (List.Perm.pairwise_iff Disjoint.symm (List.perm_cons_erase he)).mp hd
  exact (List.pairwise_cons.mp hperm).1

/-- Clearing the bits of a live extent unmarks exactly it. -/
theorem Marks.erase (hm : Marks bit E) (hd : E.Pairwise Disjoint) (he : e ∈ E) :
    Marks (fill bit e false) (E.erase e) := by
  intro j
  by_cases hj : Mem e j
  · -- no other live extent holds an index of `e`
    simp only [fill_of_mem hj, Bool.false_eq_true, false_iff, not_exists, not_and]
    exact fun f hf hfj => disjoint_of_mem_erase hd he f hf j hj hfj
  · rw [fill_of_not_mem hj, hm j]
    constructor
    · rintro ⟨f, hf, hfj⟩
      have hne : f ≠ e := by rintro rfl; exact hj hfj
      exact ⟨f, (List.mem_erase_of_ne hne).mpr hf, hfj⟩
    · rintro ⟨f, hf, hfj⟩
      exact ⟨f, List.mem_of_mem_erase hf, hfj⟩

theorem pairwise_cons (hd : E.Pairwise Disjoint) (hnew : ∀ f ∈ E, Disjoint e f) :
    (e :: E).Pairwise Disjoint :=
  List.pairwise_cons.mpr ⟨hnew, hd⟩

theorem pairwise_erase (hd : E.Pairwise Disjoint) (e : Nat × Nat) : (E.erase e).Pairwise Disjoint :=
  hd.erase e

end Extent
