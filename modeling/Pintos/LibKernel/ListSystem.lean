import Pintos.Lib.Run
import Pintos.LibKernel.List

/-!
# Runs of list operations

The kernel keeps many lists in one memory. `Lists` says which `struct list`s there are and their
element sequences, and a memory is `Valid` for them when each is a well-formed list there and no
node is in two of them. `Spec` is what each operation of `lib/kernel/list.c` does to the
sequences, with the conditions under which the kernel calls it: an element inserted is in no
list, a `before` is a node of a list, a spliced range is a run of a list with `before` outside it.

`ListSys.Valid.step` is the refinement: from a valid state, an operation that `Spec` allows runs
to completion in the code and leaves a memory valid for the new sequences, given the fuel for the
loops. Along a whole run of allowed operations, the code does so at every step
(`list_ops_keep_lists_well_formed`).
-/

set_option linter.style.nameCheck false

namespace Pintos

open DList

/-- The nodes of `l` with the elements `xs`, its headers included. -/
def list.nodes (l : list) (xs : List ℕ) : List ℕ := l.head :: xs ++ [l.tail]

@[simp] theorem list.mem_nodes {l : list} {xs : List ℕ} {x : ℕ} :
    x ∈ l.nodes xs ↔ x = l.head ∨ x ∈ xs ∨ x = l.tail := by
  simp [list.nodes]

theorem list.mem_nodes_of_sub {l : list} {xs xs' : List ℕ} (hsub : ∀ x ∈ xs', x ∈ xs) {x : ℕ}
    (hx : x ∈ l.nodes xs') : x ∈ l.nodes xs := by
  rw [list.mem_nodes] at hx ⊢
  rcases hx with hx | hx | hx
  · exact .inl hx
  · exact .inr (.inl (hsub x hx))
  · exact .inr (.inr hx)

/-- The lists there are, with their elements. -/
abbrev Lists := list → Option (List ℕ)

/-- `x` is a node of no list. -/
def Free (G : Lists) (x : ℕ) : Prop := ∀ l xs, G l = some xs → x ∉ l.nodes xs

/-- No node is in two lists. -/
def Apart (G : Lists) : Prop :=
  ∀ l l' xs xs', l ≠ l' → G l = some xs → G l' = some xs' → ∀ x ∈ l.nodes xs, x ∉ l'.nodes xs'

/-- Every list has fewer elements than `fuel`. -/
def Fits (fuel : ℕ) (G : Lists) : Prop := ∀ l xs, G l = some xs → xs.length < fuel

/-- The memory and the lists in it. -/
structure ListSys where
  m : Elems
  lists : Lists

/-- Every list is well formed in the memory, and no node is in two lists. -/
structure ListSys.Valid (s : ListSys) : Prop where
  wf : ∀ l xs, s.lists l = some xs → IsDList s.m l.head l.tail xs
  apart : Apart s.lists

/-- A call of a list operation. -/
inductive ListOp
  | init (l : list)
  | insert (before elem : ℕ)
  | splice (before first last : ℕ)
  | push_front (l : list) (elem : ℕ)
  | push_back (l : list) (elem : ℕ)
  | remove (elem : ℕ)
  | pop_front (l : list)
  | pop_back (l : list)
  | reverse (l : list)
  | insert_ordered (l : list) (elem : ℕ) (less : ℕ → ℕ → Bool)
  | unique (l : list) (duplicates : Option list) (less : ℕ → ℕ → Bool)

namespace ListOp

/-- The call on the memory, with `fuel` rounds for each loop. -/
def exec (fuel : ℕ) (m : Elems) : ListOp → Option (Except Fault Elems)
  | .init l => some (.ok (list_init m l))
  | .insert before elem => some (list_insert m before elem)
  | .splice before first last => some (list_splice m before first last)
  | .push_front l elem => some (list_push_front m l elem)
  | .push_back l elem => some (list_push_back m l elem)
  | .remove elem => some ((list_remove m elem).map Prod.fst)
  | .pop_front l => some ((list_pop_front m l).map Prod.fst)
  | .pop_back l => some ((list_pop_back m l).map Prod.fst)
  | .reverse l => list_reverse fuel m l
  | .insert_ordered l elem less => list_insert_ordered fuel m l elem less
  | .unique l duplicates less => list_unique fuel m l duplicates less

/-- The calls one after another. -/
def execAll (fuel : ℕ) (m : Elems) : List ListOp → Option (Except Fault Elems)
  | [] => some (.ok m)
  | op :: ops =>
    match op.exec fuel m with
    | some (.ok m) => execAll fuel m ops
    | r => r

end ListOp

open Function in
/-- What each operation does to the element sequences, and when it may be called. -/
inductive Spec : Lists → ListOp → Lists → Prop
  | init {G l} : l.head ≠ l.tail →
      (∀ l' xs, l' ≠ l → G l' = some xs → l.head ∉ l'.nodes xs ∧ l.tail ∉ l'.nodes xs) →
      Spec G (.init l) (update G l (some []))
  | insert {G l ys zs before elem} : G l = some (ys ++ zs) →
      (zs ++ [l.tail]).head? = some before → Free G elem →
      Spec G (.insert before elem) (update G l (some (ys ++ elem :: zs)))
  | splice {G l l' ys zs A R C before first last} : l ≠ l' → G l = some (ys ++ zs) →
      (zs ++ [l.tail]).head? = some before → G l' = some (A ++ R ++ C) →
      (R ++ C ++ [l'.tail]).head? = some first → (C ++ [l'.tail]).head? = some last →
      Spec G (.splice before first last) (update (update G l' (some (A ++ C))) l (some (ys ++ R ++ zs)))
  | splice_within {G l ys zs A R C before first last} : G l = some (A ++ R ++ C) →
      A ++ C = ys ++ zs → (zs ++ [l.tail]).head? = some before →
      (R ++ C ++ [l.tail]).head? = some first → (C ++ [l.tail]).head? = some last →
      Spec G (.splice before first last) (update G l (some (ys ++ R ++ zs)))
  | push_front {G l xs elem} : G l = some xs → Free G elem →
      Spec G (.push_front l elem) (update G l (some (elem :: xs)))
  | push_back {G l xs elem} : G l = some xs → Free G elem →
      Spec G (.push_back l elem) (update G l (some (xs ++ [elem])))
  | remove {G l ys zs elem} : G l = some (ys ++ elem :: zs) →
      Spec G (.remove elem) (update G l (some (ys ++ zs)))
  | pop_front {G l x xs} : G l = some (x :: xs) → Spec G (.pop_front l) (update G l (some xs))
  | pop_back {G l x xs} : G l = some (xs ++ [x]) → Spec G (.pop_back l) (update G l (some xs))
  | reverse {G l xs} : G l = some xs → Spec G (.reverse l) (update G l (some xs.reverse))
  | insert_ordered {G l xs elem less} : G l = some xs → Free G elem →
      Spec G (.insert_ordered l elem less) (update G l
        (some (xs.takeWhile (fun x => !less elem x) ++ elem :: xs.dropWhile fun x => !less elem x)))
  | unique {G l xs less} : G l = some xs →
      Spec G (.unique l none less) (update G l (some (uniqueSpec less xs).1))
  | unique_dup {G l d xs D less} : l ≠ d → G l = some xs → G d = some D →
      Spec G (.unique l (some d) less)
        (update (update G l (some (uniqueSpec less xs).1)) d (some (D ++ (uniqueSpec less xs).2)))

/-- An allowed operation on lists that all fit the fuel. -/
def specStep (fuel : ℕ) (G : Lists) (op : ListOp) (G' : Lists) : Prop := Fits fuel G ∧ Spec G op G'

/-! ## Updating the lists -/

namespace Apart

variable {G : Lists} {l : list} {xs' : List ℕ}

theorem update (hG : Apart G)
    (hnew : ∀ l' ys, l' ≠ l → G l' = some ys → ∀ x ∈ l.nodes xs', x ∉ l'.nodes ys) :
    Apart (Function.update G l (some xs')) := by
  intro l₁ l₂ ys₁ ys₂ hne h₁ h₂ x hx₁ hx₂
  by_cases e₁ : l₁ = l
  · subst e₁
    rw [Function.update_self, Option.some.injEq] at h₁
    rw [Function.update_of_ne (Ne.symm hne)] at h₂
    subst h₁
    exact hnew l₂ ys₂ (Ne.symm hne) h₂ x hx₁ hx₂
  · rw [Function.update_of_ne e₁] at h₁
    by_cases e₂ : l₂ = l
    · subst e₂
      rw [Function.update_self, Option.some.injEq] at h₂
      subst h₂
      exact hnew l₁ ys₁ e₁ h₁ x hx₂ hx₁
    · rw [Function.update_of_ne e₂] at h₂
      exact hG l₁ l₂ ys₁ ys₂ hne h₁ h₂ x hx₁ hx₂

/-- A list that keeps only nodes it had. -/
theorem update_of_sub (hG : Apart G) {xs : List ℕ} (hl : G l = some xs)
    (hsub : ∀ x ∈ l.nodes xs', x ∈ l.nodes xs) : Apart (Function.update G l (some xs')) :=
  hG.update fun l' ys hne h' x hx => hG l l' xs ys (Ne.symm hne) hl h' x (hsub x hx)

/-- A list that keeps the nodes it had and gains a node of no list. -/
theorem update_of_free (hG : Apart G) {xs : List ℕ} {e : ℕ} (hl : G l = some xs) (he : Free G e)
    (hsub : ∀ x ∈ l.nodes xs', x ∈ l.nodes xs ∨ x = e) : Apart (Function.update G l (some xs')) :=
  hG.update fun l' ys hne h' x hx => by
    rcases hsub x hx with hx | rfl
    · exact hG l l' xs ys (Ne.symm hne) hl h' x hx
    · exact he l' ys h'

end Apart

theorem Free.update {G : Lists} {e : ℕ} {l : list} {xs : List ℕ} (he : Free G e)
    (hl : e ∉ l.nodes xs) : Free (Function.update G l (some xs)) e := by
  intro l' ys h
  by_cases e' : l' = l
  · subst e'
    rw [Function.update_self, Option.some.injEq] at h
    exact h ▸ hl
  · rw [Function.update_of_ne e'] at h
    exact he l' ys h

theorem Fits.update {fuel : ℕ} {G : Lists} {l : list} {xs : List ℕ} (hG : Fits fuel G)
    (hl : xs.length < fuel) : Fits fuel (Function.update G l (some xs)) := by
  intro l' ys h
  by_cases e' : l' = l
  · subst e'
    rw [Function.update_self, Option.some.injEq] at h
    exact h ▸ hl
  · rw [Function.update_of_ne e'] at h
    exact hG l' ys h

theorem wf_update {G : Lists} {m' : Elems} {l : list} {xs' : List ℕ}
    (hl : IsDList m' l.head l.tail xs')
    (hother : ∀ l' ys, l' ≠ l → G l' = some ys → IsDList m' l'.head l'.tail ys) :
    ∀ l'' ys, Function.update G l (some xs') l'' = some ys → IsDList m' l''.head l''.tail ys := by
  intro l'' ys h
  by_cases e : l'' = l
  · subst e
    rw [Function.update_self, Option.some.injEq] at h
    exact h ▸ hl
  · rw [Function.update_of_ne e] at h
    exact hother l'' ys e h

namespace ListSys.Valid

variable {s : ListSys} {m' : Elems}

/-- The lists apart from `l` keep their elements when only `l`'s nodes and nodes of no list
are written. -/
theorem wf_other (hv : s.Valid) {l : list} {xs E : List ℕ} (hl : s.lists l = some xs)
    (hE : ∀ e ∈ E, Free s.lists e) (hframe : ∀ x, x ∉ l.nodes xs → x ∉ E → m' x = s.m x) :
    ∀ l' ys, l' ≠ l → s.lists l' = some ys → IsDList m' l'.head l'.tail ys :=
  fun l' ys hne h' => (hv.wf l' ys h').frame fun x hx =>
    hframe x (hv.apart l' l ys xs hne h' hl x hx) (fun hxE => hE x hxE l' ys h' hx)

/-- The same when the nodes of two lists, `l` and `d`, are written. -/
theorem wf_other₂ (hv : s.Valid) {l d : list} {xs D : List ℕ} (hl : s.lists l = some xs)
    (hd : s.lists d = some D) (hframe : ∀ x, x ∉ l.nodes xs → x ∉ d.nodes D → m' x = s.m x) :
    ∀ l' ys, l' ≠ l → l' ≠ d → s.lists l' = some ys → IsDList m' l'.head l'.tail ys :=
  fun l' ys hnl hnd h' => (hv.wf l' ys h').frame fun x hx =>
    hframe x (hv.apart l' l ys xs hnl h' hl x hx) (hv.apart l' d ys D hnd h' hd x hx)

/-! ## One operation -/

/-- An operation that leaves a list with a part of its nodes, and writes only them. -/
theorem of_sub (hv : s.Valid) {l : list} {xs xs' : List ℕ} (hl : s.lists l = some xs)
    (hnew : IsDList m' l.head l.tail xs') (hframe : ∀ x, x ∉ l.nodes xs → m' x = s.m x)
    (hsub : ∀ x ∈ xs', x ∈ xs) :
    (⟨m', Function.update s.lists l (some xs')⟩ : ListSys).Valid :=
  ⟨wf_update hnew (hv.wf_other hl (E := []) (by simp) fun x hx _ => hframe x hx),
    hv.apart.update_of_sub hl fun _ => list.mem_nodes_of_sub hsub⟩

/-- An operation that leaves a list with its nodes and a node of no list, and writes only
them. -/
theorem of_free (hv : s.Valid) {l : list} {xs xs' : List ℕ} {e : ℕ} (hl : s.lists l = some xs)
    (he : Free s.lists e) (hnew : IsDList m' l.head l.tail xs')
    (hframe : ∀ x, x ≠ e → x ∉ l.nodes xs → m' x = s.m x) (hsub : ∀ x ∈ xs', x ∈ xs ∨ x = e) :
    (⟨m', Function.update s.lists l (some xs')⟩ : ListSys).Valid := by
  refine ⟨wf_update hnew (hv.wf_other hl (E := [e]) (by simpa using he) fun x hx hxe =>
    hframe x (by simpa using hxe) hx), hv.apart.update_of_free hl he fun x hx => ?_⟩
  rw [list.mem_nodes] at hx ⊢
  rcases hx with hx | hx | hx
  · exact .inl (.inl hx)
  · rcases hsub x hx with hx | hx
    · exact .inl (.inr (.inl hx))
    · exact .inr hx
  · exact .inl (.inr (.inr hx))

theorem init (hv : s.Valid) {l : list} (hne : l.head ≠ l.tail)
    (hfree : ∀ l' xs, l' ≠ l → s.lists l' = some xs → l.head ∉ l'.nodes xs ∧ l.tail ∉ l'.nodes xs) :
    (⟨list_init s.m l, Function.update s.lists l (some [])⟩ : ListSys).Valid := by
  obtain ⟨hl, hframe⟩ := list_init_spec s.m hne
  refine ⟨wf_update hl fun l' ys hne' h' => (hv.wf l' ys h').frame fun x hx => ?_,
    hv.apart.update fun l' ys hne' h' x hx => ?_⟩
  · exact hframe x (fun h => (hfree l' ys hne' h').1 (h ▸ hx)) (fun h => (hfree l' ys hne' h').2 (h ▸ hx))
  · rw [list.mem_nodes] at hx
    rcases hx with rfl | hx | rfl
    · exact (hfree l' ys hne' h').1
    · exact absurd hx List.not_mem_nil
    · exact (hfree l' ys hne' h').2

theorem insert (hv : s.Valid) {l : list} {ys zs : List ℕ} {before elem : ℕ}
    (hl : s.lists l = some (ys ++ zs)) (hb : (zs ++ [l.tail]).head? = some before)
    (he : Free s.lists elem) :
    ∃ m', list_insert s.m before elem = .ok m' ∧
      (⟨m', Function.update s.lists l (some (ys ++ elem :: zs))⟩ : ListSys).Valid := by
  obtain ⟨m', hm', hl', hframe⟩ := list_insert_spec (hv.wf l _ hl) hb (he l _ hl)
  exact ⟨m', hm', hv.of_free hl he hl' hframe fun x hx => by simp at hx ⊢; tauto⟩

theorem push_front (hv : s.Valid) {l : list} {xs : List ℕ} {elem : ℕ} (hl : s.lists l = some xs)
    (he : Free s.lists elem) :
    ∃ m', list_push_front s.m l elem = .ok m' ∧
      (⟨m', Function.update s.lists l (some (elem :: xs))⟩ : ListSys).Valid := by
  obtain ⟨m', hm', hl', hframe⟩ := list_push_front_spec (hv.wf l _ hl) (he l _ hl)
  exact ⟨m', hm', hv.of_free hl he hl' hframe fun x hx => by simp at hx ⊢; tauto⟩

theorem push_back (hv : s.Valid) {l : list} {xs : List ℕ} {elem : ℕ} (hl : s.lists l = some xs)
    (he : Free s.lists elem) :
    ∃ m', list_push_back s.m l elem = .ok m' ∧
      (⟨m', Function.update s.lists l (some (xs ++ [elem]))⟩ : ListSys).Valid := by
  obtain ⟨m', hm', hl', hframe⟩ := list_push_back_spec (hv.wf l _ hl) (he l _ hl)
  exact ⟨m', hm', hv.of_free hl he hl' hframe fun x hx => by simp at hx ⊢; tauto⟩

theorem insert_ordered (hv : s.Valid) {fuel : ℕ} {l : list} {xs : List ℕ} {elem : ℕ}
    {less : ℕ → ℕ → Bool} (hl : s.lists l = some xs) (he : Free s.lists elem)
    (hfuel : xs.length < fuel) :
    ∃ m', list_insert_ordered fuel s.m l elem less = some (.ok m') ∧
      (⟨m', Function.update s.lists l (some (xs.takeWhile (fun x => !less elem x) ++
        elem :: xs.dropWhile fun x => !less elem x))⟩ : ListSys).Valid := by
  obtain ⟨m', hm', hl', hframe⟩ := list_insert_ordered_spec less (hv.wf l _ hl) (he l _ hl) hfuel
  refine ⟨m', hm', hv.of_free hl he hl' hframe fun x hx => ?_⟩
  rcases List.mem_append.mp hx with hx | hx
  · exact .inl ((List.takeWhile_sublist _).subset hx)
  · rcases List.mem_cons.mp hx with rfl | hx
    · exact .inr rfl
    · exact .inl ((List.dropWhile_sublist _).subset hx)

theorem splice (hv : s.Valid) {l l' : list} {ys zs A R C : List ℕ} {before first last : ℕ}
    (hne : l ≠ l') (hl : s.lists l = some (ys ++ zs)) (hb : (zs ++ [l.tail]).head? = some before)
    (hl' : s.lists l' = some (A ++ R ++ C)) (hf : (R ++ C ++ [l'.tail]).head? = some first)
    (hz : (C ++ [l'.tail]).head? = some last) :
    ∃ m', list_splice s.m before first last = .ok m' ∧
      (⟨m', Function.update (Function.update s.lists l' (some (A ++ C))) l
        (some (ys ++ R ++ zs))⟩ : ListSys).Valid := by
  have hdl' := hv.wf l' _ hl'
  obtain ⟨m', hm', hnew, hnew', hframe⟩ := list_splice_spec (hv.wf l _ hl) hb hdl' hf hz
    (hv.apart l l' _ _ hne hl hl')
  have hsub' : ∀ x ∈ l'.nodes (A ++ C), x ∈ l'.nodes (A ++ R ++ C) :=
    fun _ => list.mem_nodes_of_sub fun x hx => by simp at hx ⊢; tauto
  have happ₁ := hv.apart.update_of_sub hl' hsub'
  refine ⟨m', hm', ⟨?_, happ₁.update fun l'' ys'' hne'' h'' x hx hx'' => ?_⟩⟩
  · refine wf_update hnew fun l'' ys'' hne'' h'' => ?_
    by_cases e : l'' = l'
    · subst e
      rw [Function.update_self, Option.some.injEq] at h''
      exact h'' ▸ hnew'
    · rw [Function.update_of_ne e] at h''
      exact hv.wf_other₂ hl hl' (fun x h₁ h₂ => hframe x h₁ h₂) l'' ys'' hne'' e h''
  · have hx' : x ∈ l.nodes (ys ++ zs) ∨ x ∈ R := by
      simp only [list.mem_nodes, List.mem_append] at hx ⊢
      tauto
    have hxR : x ∈ R → x ∈ l'.nodes (A ++ R ++ C) := fun h => by simp [h]
    by_cases e : l'' = l'
    · subst e
      rw [Function.update_self, Option.some.injEq] at h''
      subst h''
      rcases hx' with hx' | hR
      · exact hv.apart l l'' _ _ hne hl hl' x hx' (hsub' x hx'')
      · exact hdl'.not_mem_of_mem_run hR hx''
    · rw [Function.update_of_ne e] at h''
      rcases hx' with hx' | hR
      · exact hv.apart l l'' _ _ (Ne.symm hne'') hl h'' x hx' hx''
      · exact hv.apart l' l'' _ _ (Ne.symm e) hl' h'' x (hxR hR) hx''

theorem splice_within (hv : s.Valid) {l : list} {ys zs A R C : List ℕ} {before first last : ℕ}
    (hl : s.lists l = some (A ++ R ++ C)) (hys : A ++ C = ys ++ zs)
    (hb : (zs ++ [l.tail]).head? = some before) (hf : (R ++ C ++ [l.tail]).head? = some first)
    (hz : (C ++ [l.tail]).head? = some last) :
    ∃ m', list_splice s.m before first last = .ok m' ∧
      (⟨m', Function.update s.lists l (some (ys ++ R ++ zs))⟩ : ListSys).Valid := by
  obtain ⟨m', hm', hnew, hframe⟩ := list_splice_within_spec (hv.wf l _ hl) hys hb hf hz
  refine ⟨m', hm', hv.of_sub hl hnew hframe fun x hx => ?_⟩
  have : x ∈ ys ++ zs ∨ x ∈ R := by simp at hx ⊢; tauto
  rw [← hys] at this
  simp only [List.mem_append] at this ⊢
  tauto

theorem remove (hv : s.Valid) {l : list} {ys zs : List ℕ} {elem : ℕ}
    (hl : s.lists l = some (ys ++ elem :: zs)) :
    ∃ m', (list_remove s.m elem).map Prod.fst = .ok m' ∧
      (⟨m', Function.update s.lists l (some (ys ++ zs))⟩ : ListSys).Valid := by
  obtain ⟨m', hm', hnew, hframe⟩ := list_remove_spec (hv.wf l _ hl)
  have hsub : ∀ x ∈ ys ++ zs, x ∈ ys ++ elem :: zs := fun x hx => by simp at hx ⊢; tauto
  exact ⟨m', by rw [hm']; rfl,
    hv.of_sub hl hnew (fun x hx => hframe x fun h => hx (list.mem_nodes_of_sub hsub h)) hsub⟩

theorem pop_front (hv : s.Valid) {l : list} {x : ℕ} {xs : List ℕ} (hl : s.lists l = some (x :: xs)) :
    ∃ m', (list_pop_front s.m l).map Prod.fst = .ok m' ∧
      (⟨m', Function.update s.lists l (some xs)⟩ : ListSys).Valid := by
  obtain ⟨m', hm', hnew, hframe⟩ := list_pop_front_spec (hv.wf l _ hl)
  have hsub : ∀ y ∈ xs, y ∈ x :: xs := fun y hy => List.mem_cons_of_mem x hy
  exact ⟨m', by rw [hm']; rfl,
    hv.of_sub hl hnew (fun y hy => hframe y fun h => hy (list.mem_nodes_of_sub hsub h)) hsub⟩

theorem pop_back (hv : s.Valid) {l : list} {x : ℕ} {xs : List ℕ}
    (hl : s.lists l = some (xs ++ [x])) :
    ∃ m', (list_pop_back s.m l).map Prod.fst = .ok m' ∧
      (⟨m', Function.update s.lists l (some xs)⟩ : ListSys).Valid := by
  obtain ⟨m', hm', hnew, hframe⟩ := list_pop_back_spec (hv.wf l _ hl)
  have hsub : ∀ y ∈ xs, y ∈ xs ++ [x] := fun y hy => List.mem_append_left _ hy
  exact ⟨m', by rw [hm']; rfl,
    hv.of_sub hl hnew (fun y hy => hframe y fun h => hy (list.mem_nodes_of_sub hsub h)) hsub⟩

theorem reverse (hv : s.Valid) {fuel : ℕ} {l : list} {xs : List ℕ} (hl : s.lists l = some xs)
    (hfuel : xs.length < fuel) :
    ∃ m', list_reverse fuel s.m l = some (.ok m') ∧
      (⟨m', Function.update s.lists l (some xs.reverse)⟩ : ListSys).Valid := by
  obtain ⟨m', hm', hnew, hframe⟩ := list_reverse_spec (hv.wf l _ hl) hfuel
  exact ⟨m', hm', hv.of_sub hl hnew hframe fun x hx => List.mem_reverse.mp hx⟩

theorem unique (hv : s.Valid) {fuel : ℕ} {l : list} {xs : List ℕ} {less : ℕ → ℕ → Bool}
    (hl : s.lists l = some xs) (hfuel : xs.length < fuel) :
    ∃ m', list_unique fuel s.m l none less = some (.ok m') ∧
      (⟨m', Function.update s.lists l (some (uniqueSpec less xs).1)⟩ : ListSys).Valid := by
  obtain ⟨m', hm', hnew, -, hframe⟩ :=
    list_unique_spec less (hv.wf l _ hl) (show DupsHold s.m none [] from trivial)
      (by simp [dupNodes]) hfuel
  exact ⟨m', hm', hv.of_sub hl hnew (fun x hx => hframe x hx List.not_mem_nil)
    fun x hx => (uniqueSpec_perm less xs).subset (List.mem_append_left _ hx)⟩

theorem unique_dup (hv : s.Valid) {fuel : ℕ} {l d : list} {xs D : List ℕ} {less : ℕ → ℕ → Bool}
    (hne : l ≠ d) (hl : s.lists l = some xs) (hd : s.lists d = some D) (hfuel : xs.length < fuel) :
    ∃ m', list_unique fuel s.m l (some d) less = some (.ok m') ∧
      (⟨m', Function.update (Function.update s.lists l (some (uniqueSpec less xs).1)) d
        (some (D ++ (uniqueSpec less xs).2))⟩ : ListSys).Valid := by
  have hll := hv.wf l _ hl
  obtain ⟨m', hm', hnew, hdup, hframe⟩ := list_unique_spec less hll
    (show DupsHold s.m (some d) D from hv.wf d _ hd)
    (fun y hy => hv.apart d l D xs (Ne.symm hne) hd hl y hy) hfuel
  have hperm := uniqueSpec_perm less xs
  have hkept : ∀ x ∈ (uniqueSpec less xs).1, x ∈ xs :=
    fun x hx => hperm.subset (List.mem_append_left _ hx)
  have hgone : ∀ x ∈ (uniqueSpec less xs).2, x ∈ xs :=
    fun x hx => hperm.subset (List.mem_append_right _ hx)
  have hapart : ∀ x ∈ (uniqueSpec less xs).2, x ∉ l.nodes (uniqueSpec less xs).1 := by
    intro x hx hx'
    have hnd : ((uniqueSpec less xs).1 ++ (uniqueSpec less xs).2).Nodup :=
      hperm.nodup_iff.mpr (List.nodup_append.mp (List.nodup_cons.mp hll.nodup).2).1
    rw [list.mem_nodes] at hx'
    rcases hx' with rfl | hx' | rfl
    · exact hll.head_not_mem (hgone _ hx)
    · exact (List.nodup_append.mp hnd).2.2 x hx' x hx rfl
    · exact hll.tail_not_mem (hgone _ hx)
  have happ₁ := hv.apart.update_of_sub hl fun _ => list.mem_nodes_of_sub hkept
  refine ⟨m', hm', ⟨?_, happ₁.update fun l'' ys'' hne'' h'' x hx hx'' => ?_⟩⟩
  · refine wf_update hdup fun l'' ys'' hne'' h'' => ?_
    by_cases e : l'' = l
    · subst e
      rw [Function.update_self, Option.some.injEq] at h''
      exact h'' ▸ hnew
    · rw [Function.update_of_ne e] at h''
      exact hv.wf_other₂ hl hd (fun x h₁ h₂ => hframe x h₁ h₂) l'' ys'' e hne'' h''
  · have hx' : x ∈ d.nodes D ∨ x ∈ (uniqueSpec less xs).2 := by
      simp only [list.mem_nodes, List.mem_append] at hx ⊢
      tauto
    by_cases e : l'' = l
    · subst e
      rw [Function.update_self, Option.some.injEq] at h''
      subst h''
      rcases hx' with hx' | hxg
      · exact hv.apart d l'' D xs (Ne.symm hne) hd hl x hx' (list.mem_nodes_of_sub hkept hx'')
      · exact hapart x hxg hx''
    · rw [Function.update_of_ne e] at h''
      rcases hx' with hx' | hxg
      · exact hv.apart d l'' D ys'' (Ne.symm hne'') hd h'' x hx' hx''
      · exact hv.apart l l'' xs ys'' (Ne.symm e) hl h'' x (by simp [hgone x hxg]) hx''

/-- From a valid state, every operation that `Spec` allows, on lists that fit the fuel, runs to
completion and leaves the memory valid for the new element sequences. -/
theorem step (hv : s.Valid) {fuel : ℕ} {op : ListOp} {G' : Lists} (hfits : Fits fuel s.lists)
    (hspec : Spec s.lists op G') :
    ∃ m', op.exec fuel s.m = some (.ok m') ∧ (⟨m', G'⟩ : ListSys).Valid := by
  cases hspec with
  | init hne hfree => exact ⟨_, rfl, hv.init hne hfree⟩
  | insert hl hb he =>
    obtain ⟨m', hm', hv'⟩ := hv.insert hl hb he
    exact ⟨m', by rw [ListOp.exec, hm'], hv'⟩
  | splice hne hl hb hl' hf hz =>
    obtain ⟨m', hm', hv'⟩ := hv.splice hne hl hb hl' hf hz
    exact ⟨m', by rw [ListOp.exec, hm'], hv'⟩
  | splice_within hl hys hb hf hz =>
    obtain ⟨m', hm', hv'⟩ := hv.splice_within hl hys hb hf hz
    exact ⟨m', by rw [ListOp.exec, hm'], hv'⟩
  | push_front hl he =>
    obtain ⟨m', hm', hv'⟩ := hv.push_front hl he
    exact ⟨m', by rw [ListOp.exec, hm'], hv'⟩
  | push_back hl he =>
    obtain ⟨m', hm', hv'⟩ := hv.push_back hl he
    exact ⟨m', by rw [ListOp.exec, hm'], hv'⟩
  | remove hl =>
    obtain ⟨m', hm', hv'⟩ := hv.remove hl
    exact ⟨m', by rw [ListOp.exec, hm'], hv'⟩
  | pop_front hl =>
    obtain ⟨m', hm', hv'⟩ := hv.pop_front hl
    exact ⟨m', by rw [ListOp.exec, hm'], hv'⟩
  | pop_back hl =>
    obtain ⟨m', hm', hv'⟩ := hv.pop_back hl
    exact ⟨m', by rw [ListOp.exec, hm'], hv'⟩
  | reverse hl => exact hv.reverse hl (hfits _ _ hl)
  | insert_ordered hl he => exact hv.insert_ordered hl he (hfits _ _ hl)
  | unique hl => exact hv.unique hl (hfits _ _ hl)
  | unique_dup hne hl hd => exact hv.unique_dup hne hl hd (hfits _ _ hl)

end ListSys.Valid

/-- Along every run of operations that `Spec` allows, from a memory valid for the lists, the code
runs every call to completion and ends in a memory valid for the final element sequences: every
list is well formed (a null `prev` before the head, a null `next` after the tail, the `next`
links from the head through the elements to the tail, each matched by the `prev` link back), its
elements are the sequence that the operations' specifications give, and no node is in two
lists. -/
theorem list_ops_keep_lists_well_formed {fuel : ℕ} {G G' : Lists} {ops : List ListOp}
    (hrun : Lts.Run (specStep fuel) G ops G') :
    ∀ m : Elems, (⟨m, G⟩ : ListSys).Valid →
      ∃ m', ListOp.execAll fuel m ops = some (.ok m') ∧ (⟨m', G'⟩ : ListSys).Valid := by
  induction hrun with
  | nil G => exact fun m hv => ⟨m, rfl, hv⟩
  | cons hstep _ ih =>
    intro m hv
    obtain ⟨m₁, hm₁, hv₁⟩ := hv.step hstep.1 hstep.2
    obtain ⟨m', hm', hv'⟩ := ih m₁ hv₁
    exact ⟨m', by rw [ListOp.execAll, hm₁]; exact hm', hv'⟩

theorem list_ops_push_twice_reverse :
    ∃ m', ListOp.execAll 3 (fun _ => ⟨none, none⟩)
        [.init ⟨0, 1⟩, .push_back ⟨0, 1⟩ 2, .push_back ⟨0, 1⟩ 3, .reverse ⟨0, 1⟩] = some (.ok m') ∧
      IsDList m' 0 1 [3, 2] := by
  have h₀ : Fits 3 (fun _ => none) := fun _ _ h => by simp at h
  have f₀ : ∀ e, Free (fun _ => none) e := fun _ _ _ h => by simp at h
  -- the sequences after each call: [], [2], [2, 3], [3, 2]
  have hrun : Lts.Run (specStep 3) (fun _ => none)
      [.init ⟨0, 1⟩, .push_back ⟨0, 1⟩ 2, .push_back ⟨0, 1⟩ 3, .reverse ⟨0, 1⟩]
      (Function.update (Function.update (Function.update (Function.update (fun _ => none)
        ⟨0, 1⟩ (some [])) ⟨0, 1⟩ (some ([] ++ [2]))) ⟨0, 1⟩ (some ([] ++ [2] ++ [3]))) ⟨0, 1⟩
        (some ([] ++ [2] ++ [3]).reverse)) :=
    .cons ⟨h₀, .init (by decide) fun _ _ _ h => by simp at h⟩ <|
    .cons ⟨h₀.update (by decide), .push_back (by simp) ((f₀ 2).update (by decide))⟩ <|
    .cons ⟨(h₀.update (by decide)).update (by decide),
      .push_back (by simp) (((f₀ 3).update (by decide)).update (by decide))⟩ <|
    .cons ⟨((h₀.update (by decide)).update (by decide)).update (by decide), .reverse (by simp)⟩ <|
    .nil _
  obtain ⟨m', hm', hv⟩ := list_ops_keep_lists_well_formed hrun (fun _ => ⟨none, none⟩)
    ⟨fun _ _ h => by simp at h, fun _ _ _ _ _ h => by simp at h⟩
  exact ⟨m', hm', hv.wf ⟨0, 1⟩ [3, 2] (by simp)⟩

end Pintos
