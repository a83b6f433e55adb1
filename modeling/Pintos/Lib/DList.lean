import Mathlib.Data.List.Chain
import Mathlib.Data.List.Nodup
import Mathlib.Logic.Function.Basic

/-!
# Doubly linked nodes in memory

A memory of nodes maps each address to the node's two links, `none` for a null link.
`Linked h a b` says that `a`'s `next` is `b` and `b`'s `prev` is `a`, and a list of addresses is
doubly linked when each consecutive pair is (`List.IsChain (Linked h)`). `IsDList h hd tl xs`
is a list with header nodes: `hd` and `tl` end the chain `hd :: xs ++ [tl]` of distinct nodes,
with a null `prev` before `hd` and a null `next` after `tl`. Its elements `xs` are determined by
the memory (`IsDList.unique`).

A chain reads the `next` links of all its nodes but the last and the `prev` links of all but
the first, so writes elsewhere keep it (`isChain_frame`). Exchanging every node's two links
reverses it (`isChain_swap_reverse`).
-/

namespace DList

/-- A node's two links; `none` is a null link. -/
structure Links (α : Type*) where
  prev : Option α
  next : Option α
  deriving DecidableEq, Repr

variable {α : Type*}

/-- `a`'s `next` is `b` and `b`'s `prev` is `a`. -/
def Linked (h : α → Links α) (a b : α) : Prop := (h a).next = some b ∧ (h b).prev = some a

section Updates

variable [DecidableEq α]

/-- The memory after `a->next = n`. -/
def setNext (h : α → Links α) (a : α) (n : Option α) : α → Links α :=
  Function.update h a { h a with next := n }

/-- The memory after `a->prev = p`. -/
def setPrev (h : α → Links α) (a : α) (p : Option α) : α → Links α :=
  Function.update h a { h a with prev := p }

/-- The memory after `swap (&a->prev, &a->next)`. -/
def swapLinks (h : α → Links α) (a : α) : α → Links α :=
  Function.update h a ⟨(h a).next, (h a).prev⟩

variable (h : α → Links α) (a b : α)

@[simp] theorem setNext_next (n : Option α) :
    (setNext h a n b).next = if b = a then n else (h b).next := by
  unfold setNext
  by_cases hb : b = a
  · subst hb; simp
  · simp [hb]

@[simp] theorem setNext_prev (n : Option α) : (setNext h a n b).prev = (h b).prev := by
  unfold setNext
  by_cases hb : b = a
  · subst hb; simp
  · simp [Function.update_of_ne hb]

@[simp] theorem setPrev_prev (p : Option α) :
    (setPrev h a p b).prev = if b = a then p else (h b).prev := by
  unfold setPrev
  by_cases hb : b = a
  · subst hb; simp
  · simp [hb]

@[simp] theorem setPrev_next (p : Option α) : (setPrev h a p b).next = (h b).next := by
  unfold setPrev
  by_cases hb : b = a
  · subst hb; simp
  · simp [Function.update_of_ne hb]

@[simp] theorem swapLinks_prev : (swapLinks h a b).prev = if b = a then (h a).next else (h b).prev := by
  unfold swapLinks
  by_cases hb : b = a
  · subst hb; simp
  · simp [hb]

@[simp] theorem swapLinks_next : (swapLinks h a b).next = if b = a then (h a).prev else (h b).next := by
  unfold swapLinks
  by_cases hb : b = a
  · subst hb; simp
  · simp [hb]

theorem setNext_of_ne (n : Option α) (hb : b ≠ a) : setNext h a n b = h b :=
  Function.update_of_ne hb _ _

theorem setPrev_of_ne (p : Option α) (hb : b ≠ a) : setPrev h a p b = h b :=
  Function.update_of_ne hb _ _

theorem swapLinks_of_ne (hb : b ≠ a) : swapLinks h a b = h b :=
  Function.update_of_ne hb _ _

end Updates

/-! ## Chains -/

variable {h h' : α → Links α}

theorem mem_of_mem_dropLast {x : α} {l : List α} (hx : x ∈ l.dropLast) : x ∈ l :=
  (List.dropLast_sublist l).subset hx

/-- A chain reads only the `next` links before its last node and the `prev` links after its
first: a memory that agrees there keeps it. -/
theorem isChain_frame :
    ∀ {l : List α}, l.IsChain (Linked h) →
      (∀ x ∈ l.dropLast, (h' x).next = (h x).next) → (∀ x ∈ l.tail, (h' x).prev = (h x).prev) →
      l.IsChain (Linked h')
  | [], _, _, _ => .nil
  | [_], _, _, _ => .singleton _
  | a :: b :: l, hc, hn, hp => by
    rw [List.isChain_cons_cons] at hc ⊢
    obtain ⟨⟨hab, hba⟩, hc⟩ := hc
    refine ⟨⟨?_, ?_⟩, isChain_frame hc (fun x hx => hn x ?_) (fun x hx => hp x ?_)⟩
    · rw [hn a (by simp), hab]
    · rw [hp b (by simp), hba]
    · rw [List.dropLast_cons_cons]
      exact List.mem_cons_of_mem _ hx
    · exact List.mem_of_mem_tail hx

theorem isChain_frame_of_forall {l : List α} (hc : l.IsChain (Linked h)) (hl : ∀ x ∈ l, h' x = h x) :
    l.IsChain (Linked h') :=
  isChain_frame hc (fun x hx => by rw [hl x (mem_of_mem_dropLast hx)])
    (fun x hx => by rw [hl x (List.mem_of_mem_tail hx)])

theorem isChain_swap_reverse :
    ∀ {l : List α}, l.IsChain (Linked h) →
      (∀ x ∈ l, (h' x).prev = (h x).next ∧ (h' x).next = (h x).prev) → l.reverse.IsChain (Linked h')
  | [], _, _ => .nil
  | [_], _, _ => .singleton _
  | a :: b :: l, hc, hs => by
    rw [List.isChain_cons_cons] at hc
    obtain ⟨⟨hab, hba⟩, hc⟩ := hc
    have ih := isChain_swap_reverse hc fun x hx => hs x (List.mem_cons_of_mem _ hx)
    rw [List.reverse_cons]
    refine List.isChain_append.mpr ⟨ih, .singleton _, fun x hx y hy => ?_⟩
    rw [List.getLast?_reverse, List.head?_cons, Option.mem_some_iff] at hx
    rw [List.head?_cons, Option.mem_some_iff] at hy
    subst hx hy
    exact ⟨by rw [(hs b (by simp)).2, hba], by rw [(hs a (by simp)).1, hab]⟩

/-- From one node, the `next` links fix the chain up to the first time it meets `b`. -/
theorem chain_unique {b : α} :
    ∀ {a : α} {xs ys : List α}, (a :: xs ++ [b]).IsChain (Linked h) →
      (a :: ys ++ [b]).IsChain (Linked h) → b ∉ xs → b ∉ ys → xs = ys
  | a, [], [], _, _, _, _ => rfl
  | a, [], y :: ys, hx, hy, _, hby => by
    simp only [List.cons_append, List.nil_append, List.isChain_cons_cons] at hx hy
    have : y = b := Option.some.inj (hy.1.1.symm.trans hx.1.1)
    exact absurd (this ▸ List.mem_cons_self) hby
  | a, x :: xs, [], hx, hy, hbx, _ => by
    simp only [List.cons_append, List.nil_append, List.isChain_cons_cons] at hx hy
    have : x = b := Option.some.inj (hx.1.1.symm.trans hy.1.1)
    exact absurd (this ▸ List.mem_cons_self) hbx
  | a, x :: xs, y :: ys, hx, hy, hbx, hby => by
    simp only [List.cons_append, List.isChain_cons_cons] at hx hy
    have hxy : x = y := Option.some.inj (hx.1.1.symm.trans hy.1.1)
    subst hxy
    rw [chain_unique (by simpa only [List.cons_append] using hx.2) (by simpa only [List.cons_append] using hy.2)
      (fun h => hbx (List.mem_cons_of_mem _ h))
      (fun h => hby (List.mem_cons_of_mem _ h))]

theorem exists_linked_to {R : α → α → Prop} :
    ∀ {a : α} {l : List α}, (a :: l).IsChain R → ∀ {x}, x ∈ l → ∃ y, R y x
  | _, [], _, _, hx => absurd hx List.not_mem_nil
  | a, b :: l, hc, x, hx => by
    rw [List.isChain_cons_cons] at hc
    rcases List.mem_cons.mp hx with rfl | hx
    · exact ⟨a, hc.1⟩
    · exact exists_linked_to hc.2 hx

theorem exists_linked_from {R : α → α → Prop} {b : α} :
    ∀ {l : List α}, (l ++ [b]).IsChain R → ∀ {x}, x ∈ l → ∃ y, R x y
  | [], _, _, hx => absurd hx List.not_mem_nil
  | [a], hc, x, hx => by
    rw [List.mem_singleton.mp hx]
    exact ⟨b, (List.isChain_pair.mp hc)⟩
  | a :: c :: l, hc, x, hx => by
    rw [List.cons_append, List.cons_append, List.isChain_cons_cons] at hc
    rcases List.mem_cons.mp hx with rfl | hx
    · exact ⟨c, hc.1⟩
    · exact exists_linked_from (by simpa only [List.cons_append] using hc.2) hx

theorem not_mem_tail_of_head_eq {R : List α} {f : α} (hnd : R.Nodup) (hf : R.head? = some f) :
    f ∉ R.tail := by
  obtain ⟨R', rfl⟩ := List.head?_eq_some_iff.mp hf
  exact (List.nodup_cons.mp hnd).1

theorem not_mem_dropLast_of_getLast_eq {R : List α} {z : α} (hnd : R.Nodup)
    (hz : R.getLast? = some z) : z ∉ R.dropLast := by
  obtain ⟨R', rfl⟩ := List.getLast?_eq_some_iff.mp hz
  rw [List.dropLast_concat]
  exact fun hm => (List.nodup_append.mp hnd).2.2 z hm z (List.mem_singleton_self z) rfl

/-! ## Linking a chain in and out -/

/-- The links `isChain_link_in` and `isChain_link_out` rely on: in a list of distinct nodes
`A ++ p :: b :: B`, the part up to `p` is apart from `b` and the part from `b` apart from `p`. -/
theorem nodup_split {A B : List α} {p b : α} (hnd : (A ++ p :: b :: B).Nodup) :
    (∀ x ∈ A, x ≠ p) ∧ (∀ x ∈ A ++ [p], x ≠ b) ∧ (∀ x ∈ b :: B, x ≠ p) ∧ ∀ x ∈ B, x ≠ b := by
  rw [List.nodup_append] at hnd
  obtain ⟨-, hpb, hA⟩ := hnd
  rw [List.nodup_cons, List.mem_cons, not_or, List.nodup_cons] at hpb
  refine ⟨fun x hx => hA x hx p (by simp), fun x hx => ?_, fun x hx => ?_, fun x hx => ?_⟩
  · rcases List.mem_append.mp hx with hx | hx
    · exact hA x hx b (by simp)
    · rw [List.mem_singleton.mp hx]
      exact hpb.1.1
  · rcases List.mem_cons.mp hx with rfl | hx
    · exact fun h => hpb.1.1 h.symm
    · exact fun h => hpb.1.2 (h ▸ hx)
  · exact fun h => hpb.2.1 (h ▸ hx)

/-- Linking the chain `R`, from `f` to `z`, in between `p` and `b`: the chain through `p` and
`b` becomes one through `R`, where only `p`'s `next`, `b`'s `prev` and the nodes of `R` have
changed. -/
theorem isChain_link_in {A R B : List α} {p b f z : α}
    (hc : (A ++ p :: b :: B).IsChain (Linked h)) (hnd : (A ++ p :: b :: B).Nodup)
    (hdisj : ∀ x ∈ A ++ p :: b :: B, x ∉ R) (hR : R.IsChain (Linked h'))
    (hf : R.head? = some f) (hz : R.getLast? = some z) (hpf : Linked h' p f) (hzb : Linked h' z b)
    (hnext : ∀ x, x ∉ R → x ≠ p → (h' x).next = (h x).next)
    (hprev : ∀ x, x ∉ R → x ≠ b → (h' x).prev = (h x).prev) :
    (A ++ p :: (R ++ b :: B)).IsChain (Linked h') := by
  obtain ⟨hAp, hAb, hBp, hBb⟩ := nodup_split hnd
  have hsub₁ : ∀ x ∈ A ++ [p], x ∈ A ++ p :: b :: B := fun x hx => by simp at hx ⊢; tauto
  have hsub₂ : ∀ x ∈ b :: B, x ∈ A ++ p :: b :: B := fun x hx => by simp at hx ⊢; tauto
  rw [List.isChain_append_cons_cons] at hc
  obtain ⟨hc₁, -, hc₂⟩ := hc
  -- the two ends keep their chains: what changed is outside them, or read by no link of theirs
  have h₁ : (A ++ [p]).IsChain (Linked h') := isChain_frame hc₁
    (fun x hx => by
      rw [List.dropLast_concat] at hx
      exact hnext x (hdisj x (hsub₁ x (by simp [hx]))) (hAp x hx))
    (fun x hx => hprev x (hdisj x (hsub₁ x (List.mem_of_mem_tail hx)))
      (hAb x (List.mem_of_mem_tail hx)))
  have h₂ : (b :: B).IsChain (Linked h') := isChain_frame hc₂
    (fun x hx => hnext x (hdisj x (hsub₂ x (mem_of_mem_dropLast hx))) (hBp x (mem_of_mem_dropLast hx)))
    (fun x hx => hprev x (hdisj x (hsub₂ x (List.mem_cons_of_mem _ hx))) (hBb x hx))
  rw [← List.singleton_append, ← List.append_assoc]
  refine List.isChain_append.mpr ⟨h₁, List.isChain_append.mpr ⟨hR, h₂, ?_⟩, ?_⟩
  · intro x hx y hy
    rw [hz, Option.mem_some_iff] at hx
    rw [List.head?_cons, Option.mem_some_iff] at hy
    exact hx ▸ hy ▸ hzb
  · intro x hx y hy
    rw [List.getLast?_concat, Option.mem_some_iff] at hx
    rcases R with _ | ⟨r, R⟩
    · simp at hf
    · rw [List.cons_append, List.head?_cons, Option.mem_some_iff] at hy
      rw [List.head?_cons, Option.some.injEq] at hf
      exact hx ▸ hy ▸ hf ▸ hpf

/-- Linking `R` out from between `p` and `n`: the chain through `p`, `R` and `n` becomes one
from `p` straight to `n`, where only `p`'s `next` and `n`'s `prev` have changed. -/
theorem isChain_link_out {A R B : List α} {p n : α}
    (hc : (A ++ p :: (R ++ n :: B)).IsChain (Linked h)) (hnd : (A ++ p :: (R ++ n :: B)).Nodup)
    (hpn : Linked h' p n)
    (hnext : ∀ x, x ∉ R → x ≠ p → (h' x).next = (h x).next)
    (hprev : ∀ x, x ∉ R → x ≠ n → (h' x).prev = (h x).prev) :
    (A ++ p :: n :: B).IsChain (Linked h') := by
  have hsub : (A ++ p :: n :: B).Sublist (A ++ p :: (R ++ n :: B)) :=
    List.Sublist.append_left (List.Sublist.cons_cons _ (List.sublist_append_right R _)) A
  have hnd' := hnd.sublist hsub
  obtain ⟨hAp, hAn, hBp, hBn⟩ := nodup_split hnd'
  have hdisj : ∀ x ∈ A ++ p :: n :: B, x ∉ R := by
    rw [List.nodup_append] at hnd
    obtain ⟨-, hpR, hA⟩ := hnd
    rw [List.nodup_cons, List.nodup_append] at hpR
    intro x hx hxR
    rcases List.mem_append.mp hx with hx | hx
    · exact hA x hx x (by simp [hxR]) rfl
    · rcases List.mem_cons.mp hx with rfl | hx
      · exact hpR.1 (by simp [hxR])
      · exact hpR.2.2.2 x hxR x hx rfl
  have hc₁ : (A ++ [p]).IsChain (Linked h) := by
    rw [← List.singleton_append, ← List.append_assoc] at hc
    exact (List.isChain_append.mp hc).1
  have hc₂ : (n :: B).IsChain (Linked h) := by
    rw [← List.singleton_append, ← List.append_assoc, List.isChain_append] at hc
    exact (List.isChain_append.mp hc.2.1).2.1
  have hsub₁ : ∀ x ∈ A ++ [p], x ∈ A ++ p :: n :: B := fun x hx => by simp at hx ⊢; tauto
  have hsub₂ : ∀ x ∈ n :: B, x ∈ A ++ p :: n :: B := fun x hx => by simp at hx ⊢; tauto
  have h₁ : (A ++ [p]).IsChain (Linked h') := isChain_frame hc₁
    (fun x hx => by
      rw [List.dropLast_concat] at hx
      exact hnext x (hdisj x (hsub₁ x (by simp [hx]))) (hAp x hx))
    (fun x hx => hprev x (hdisj x (hsub₁ x (List.mem_of_mem_tail hx)))
      (hAn x (List.mem_of_mem_tail hx)))
  have h₂ : (n :: B).IsChain (Linked h') := isChain_frame hc₂
    (fun x hx => hnext x (hdisj x (hsub₂ x (mem_of_mem_dropLast hx))) (hBp x (mem_of_mem_dropLast hx)))
    (fun x hx => hprev x (hdisj x (hsub₂ x (List.mem_cons_of_mem _ hx))) (hBn x hx))
  rw [← List.singleton_append, ← List.append_assoc]
  refine List.isChain_append.mpr ⟨h₁, h₂, fun x hx y hy => ?_⟩
  rw [List.getLast?_concat, Option.mem_some_iff] at hx
  rw [List.head?_cons, Option.mem_some_iff] at hy
  exact hx ▸ hy ▸ hpn

/-! ## Lists with header nodes -/

/-- `hd` and `tl` are the header nodes of a doubly linked list with elements `xs`. -/
structure IsDList (h : α → Links α) (hd tl : α) (xs : List α) : Prop where
  head_prev : (h hd).prev = none
  tail_next : (h tl).next = none
  chain : (hd :: xs ++ [tl]).IsChain (Linked h)
  nodup : (hd :: xs ++ [tl]).Nodup

namespace IsDList

variable {hd tl : α} {xs ys : List α}

theorem tail_not_mem (hl : IsDList h hd tl xs) : tl ∉ xs := by
  have := hl.nodup
  rw [List.cons_append, List.nodup_cons, List.nodup_append] at this
  exact fun hx => this.2.2.2 tl hx tl (by simp) rfl

theorem head_not_mem (hl : IsDList h hd tl xs) : hd ∉ xs := by
  have := hl.nodup
  rw [List.cons_append, List.nodup_cons, List.mem_append, not_or] at this
  exact this.1.1

theorem head_ne_tail (hl : IsDList h hd tl xs) : hd ≠ tl := by
  have := hl.nodup
  rw [List.cons_append, List.nodup_cons, List.mem_append, not_or] at this
  exact fun heq => this.1.2 (by simp [heq])

theorem mem_of_mem_nodes_of_ne {x : α} (hx : x ∈ hd :: xs ++ [tl]) (hhd : x ≠ hd) (htl : x ≠ tl) :
    x ∈ xs := by
  simp only [List.cons_append, List.mem_cons, List.mem_append] at hx
  tauto

/-- Every node after the head has a `prev` link. -/
theorem prev_isSome (hl : IsDList h hd tl xs) {x : α} (hx : x ∈ xs ++ [tl]) : (h x).prev.isSome := by
  obtain ⟨y, -, hy⟩ := exists_linked_to (by simpa only [List.cons_append] using hl.chain) hx
  rw [hy]
  rfl

/-- Every node before the tail has a `next` link. -/
theorem next_isSome (hl : IsDList h hd tl xs) {x : α} (hx : x ∈ hd :: xs) : (h x).next.isSome := by
  obtain ⟨y, hy, -⟩ := exists_linked_from hl.chain hx
  rw [hy]
  rfl

/-- The elements between two splits of the node list. -/
theorem nodes_split {ys zs A B : List α} {p b : α} (hA : hd :: ys = A ++ [p]) (hB : zs ++ [tl] = b :: B) :
    hd :: (ys ++ zs) ++ [tl] = A ++ p :: b :: B := by
  calc hd :: (ys ++ zs) ++ [tl] = (hd :: ys) ++ (zs ++ [tl]) := by simp
    _ = A ++ p :: b :: B := by rw [hA, hB]; simp

theorem nodes_split_mid {ys zs R A B : List α} {p b : α} (hA : hd :: ys = A ++ [p])
    (hB : zs ++ [tl] = b :: B) : hd :: (ys ++ R ++ zs) ++ [tl] = A ++ p :: (R ++ b :: B) := by
  calc hd :: (ys ++ R ++ zs) ++ [tl] = (hd :: ys) ++ R ++ (zs ++ [tl]) := by simp
    _ = A ++ p :: (R ++ b :: B) := by rw [hA, hB]; simp

/-- A run put in among the elements: the same nodes as the run and the rest side by side. -/
theorem nodes_perm (ys R zs : List α) :
    (hd :: (ys ++ R ++ zs) ++ [tl]).Perm (R ++ (hd :: (ys ++ zs) ++ [tl])) := by
  have : (hd :: ys ++ R ++ (zs ++ [tl])).Perm (R ++ (hd :: ys) ++ (zs ++ [tl])) :=
    List.perm_append_comm.append_right _
  simpa using this

theorem not_mem_of_mem_run {ys R zs : List α} (hl : IsDList h hd tl (ys ++ R ++ zs)) {x : α}
    (hx : x ∈ R) : x ∉ hd :: (ys ++ zs) ++ [tl] := by
  have hnd := (nodes_perm ys R zs).nodup_iff.mp hl.nodup
  exact fun hy => (List.nodup_append.mp hnd).2.2 x hx x hy rfl

theorem linked_of_split {ys zs : List α} {p b : α} (hl : IsDList h hd tl (ys ++ zs))
    (hp : (hd :: ys).getLast? = some p) (hb : (zs ++ [tl]).head? = some b) : Linked h p b := by
  obtain ⟨A, hA⟩ := List.getLast?_eq_some_iff.mp hp
  obtain ⟨B, hB⟩ := List.head?_eq_some_iff.mp hb
  have hc := hl.chain
  rw [nodes_split hA hB] at hc
  exact (List.isChain_append_cons_cons.mp hc).2.1

theorem mem_nodes_of_getLast_eq {ys zs : List α} {p : α} (hp : (hd :: ys).getLast? = some p) :
    p ∈ hd :: (ys ++ zs) ++ [tl] := by
  obtain ⟨A, hA⟩ := List.getLast?_eq_some_iff.mp hp
  have : p ∈ hd :: ys := by rw [hA]; simp
  simp only [List.mem_cons] at this
  simp only [List.cons_append, List.mem_cons, List.mem_append]
  tauto

theorem mem_nodes_of_head_eq {ys zs : List α} {b : α} (hb : (zs ++ [tl]).head? = some b) :
    b ∈ hd :: (ys ++ zs) ++ [tl] := by
  obtain ⟨B, hB⟩ := List.head?_eq_some_iff.mp hb
  have : b ∈ zs ++ [tl] := by rw [hB]; simp
  simp only [List.mem_append, List.mem_singleton] at this
  simp only [List.cons_append, List.mem_cons, List.mem_append]
  tauto

theorem ne_of_split {ys zs : List α} {p b : α} (hl : IsDList h hd tl (ys ++ zs))
    (hp : (hd :: ys).getLast? = some p) (hb : (zs ++ [tl]).head? = some b) : p ≠ b := by
  obtain ⟨A, hA⟩ := List.getLast?_eq_some_iff.mp hp
  obtain ⟨B, hB⟩ := List.head?_eq_some_iff.mp hb
  have hnd := hl.nodup
  rw [nodes_split hA hB] at hnd
  exact fun h => (nodup_split hnd).2.2.1 b List.mem_cons_self h.symm

/-- The head's `next` is the first element, or the tail. -/
theorem head_next (hl : IsDList h hd tl xs) : (h hd).next = (xs ++ [tl]).head? := by
  have hl' : IsDList h hd tl ([] ++ xs) := hl
  obtain ⟨b, hb⟩ : ∃ b, (xs ++ [tl]).head? = some b := ⟨_, List.head?_eq_some_head (by simp)⟩
  rw [hb]
  exact (linked_of_split hl' rfl hb).1

/-- The tail's `prev` is the last element, or the head. -/
theorem tail_prev (hl : IsDList h hd tl xs) : (h tl).prev = (hd :: xs).getLast? := by
  have hl' : IsDList h hd tl (xs ++ []) := by rwa [List.append_nil]
  obtain ⟨p, hp⟩ : ∃ p, (hd :: xs).getLast? = some p := ⟨_, List.getLast?_eq_some_getLast (by simp)⟩
  rw [hp]
  exact (linked_of_split hl' hp rfl).2

/-- A run of the elements is a chain of its own. -/
theorem chain_infix {ys R zs : List α} (hl : IsDList h hd tl (ys ++ R ++ zs)) : R.IsChain (Linked h) :=
  hl.chain.infix ⟨hd :: ys, zs ++ [tl], by simp⟩

/-- Linking the chain `R`, of nodes outside the list, in at a point of it: `p` is the node
before the point and `b` the node at it, and only `p`'s `next`, `b`'s `prev` and the nodes of
`R` have changed. -/
theorem link_in {ys zs R : List α} {p b f z : α} (hl : IsDList h hd tl (ys ++ zs))
    (hp : (hd :: ys).getLast? = some p) (hb : (zs ++ [tl]).head? = some b)
    (hR : R.IsChain (Linked h')) (hRnd : R.Nodup) (hf : R.head? = some f) (hz : R.getLast? = some z)
    (hdisj : ∀ x ∈ hd :: (ys ++ zs) ++ [tl], x ∉ R) (hpf : Linked h' p f) (hzb : Linked h' z b)
    (hnext : ∀ x, x ∉ R → x ≠ p → (h' x).next = (h x).next)
    (hprev : ∀ x, x ∉ R → x ≠ b → (h' x).prev = (h x).prev) :
    IsDList h' hd tl (ys ++ R ++ zs) := by
  obtain ⟨A, hA⟩ := List.getLast?_eq_some_iff.mp hp
  obtain ⟨B, hB⟩ := List.head?_eq_some_iff.mp hb
  have hsplit := nodes_split hA hB
  have hnd := hl.nodup
  rw [hsplit] at hnd
  obtain ⟨-, hAb, hBp, -⟩ := nodup_split hnd
  have hhd : hd ∈ A ++ [p] := hA ▸ List.mem_cons_self
  have htl : tl ∈ b :: B := hB ▸ List.mem_append_right zs (List.mem_singleton_self tl)
  refine ⟨?_, ?_, ?_, ?_⟩
  · rw [hprev hd (hdisj hd List.mem_cons_self) (hAb hd hhd), hl.head_prev]
  · rw [hnext tl (hdisj tl (by simp)) (hBp tl htl), hl.tail_next]
  · rw [nodes_split_mid hA hB]
    exact isChain_link_in (hsplit ▸ hl.chain) hnd (hsplit ▸ hdisj) hR hf hz hpf hzb hnext hprev
  · -- the new nodes are those of `R` and the old ones, apart
    rw [(nodes_perm ys R zs).nodup_iff, List.nodup_append]
    exact ⟨hRnd, hl.nodup, fun x hx y hy hxy => hdisj y hy (hxy ▸ hx)⟩

/-- Linking the run `R` out of the list: `p` is the node before it and `n` the node after it, now
linked to each other, and only `p`'s `next`, `n`'s `prev` and the nodes of `R` have changed. -/
theorem link_out {ys zs R : List α} {p n : α} (hl : IsDList h hd tl (ys ++ R ++ zs))
    (hp : (hd :: ys).getLast? = some p) (hn : (zs ++ [tl]).head? = some n) (hpn : Linked h' p n)
    (hnext : ∀ x, x ∉ R → x ≠ p → (h' x).next = (h x).next)
    (hprev : ∀ x, x ∉ R → x ≠ n → (h' x).prev = (h x).prev) :
    IsDList h' hd tl (ys ++ zs) := by
  obtain ⟨A, hA⟩ := List.getLast?_eq_some_iff.mp hp
  obtain ⟨B, hB⟩ := List.head?_eq_some_iff.mp hn
  have hsub : (hd :: (ys ++ zs) ++ [tl]).Sublist (hd :: (ys ++ R ++ zs) ++ [tl]) := by
    rw [List.append_assoc ys]
    exact ((List.sublist_append_right R zs).append_left ys).cons_cons hd |>.append_right [tl]
  have hnd := hl.nodup.sublist hsub
  have hsplit := nodes_split hA hB
  rw [hsplit] at hnd
  obtain ⟨-, hAn, hBp, -⟩ := nodup_split hnd
  have hhd : hd ∈ A ++ [p] := hA ▸ List.mem_cons_self
  have htl : tl ∈ n :: B := hB ▸ List.mem_append_right zs (List.mem_singleton_self tl)
  have hhdR : hd ∉ R := fun hR => hl.head_not_mem (by simp [hR])
  have htlR : tl ∉ R := fun hR => hl.tail_not_mem (by simp [hR])
  refine ⟨?_, ?_, ?_, hl.nodup.sublist hsub⟩
  · rw [hprev hd hhdR (hAn hd hhd), hl.head_prev]
  · rw [hnext tl htlR (hBp tl htl), hl.tail_next]
  · have hc := hl.chain
    rw [nodes_split_mid hA hB] at hc
    rw [hsplit]
    exact isChain_link_out hc (nodes_split_mid hA hB ▸ hl.nodup) hpn hnext hprev

/-- A chain of the elements, from `f` to `z`, linked to the two headers is a list. -/
theorem of_chain {f z : α} (hhd : (h hd).prev = none) (htl : (h tl).next = none)
    (hc : xs.IsChain (Linked h)) (hf : xs.head? = some f) (hz : xs.getLast? = some z)
    (hdf : Linked h hd f) (hzt : Linked h z tl) (hnd : (hd :: xs ++ [tl]).Nodup) :
    IsDList h hd tl xs where
  head_prev := hhd
  tail_next := htl
  chain := by
    rw [← List.singleton_append]
    refine List.isChain_append.mpr ⟨List.isChain_append.mpr ⟨.singleton _, hc, ?_⟩, .singleton _, ?_⟩
    · intro x hx y hy
      rw [List.getLast?_singleton, Option.mem_some_iff] at hx
      rw [hf, Option.mem_some_iff] at hy
      exact hx ▸ hy ▸ hdf
    · intro x hx y hy
      rw [List.getLast?_append, hz, Option.some_or, Option.mem_some_iff] at hx
      rw [List.head?_singleton, Option.mem_some_iff] at hy
      exact hx ▸ hy ▸ hzt
  nodup := hnd

/-- The memory determines the elements. -/
theorem unique (hx : IsDList h hd tl xs) (hy : IsDList h hd tl ys) : xs = ys :=
  chain_unique hx.chain hy.chain hx.tail_not_mem hy.tail_not_mem

/-- A memory that agrees on the list's nodes keeps it. -/
theorem frame (hl : IsDList h hd tl xs) (hagree : ∀ x ∈ hd :: xs ++ [tl], h' x = h x) :
    IsDList h' hd tl xs where
  head_prev := by rw [hagree hd (by simp), hl.head_prev]
  tail_next := by rw [hagree tl (by simp), hl.tail_next]
  chain := isChain_frame_of_forall hl.chain hagree
  nodup := hl.nodup

end IsDList

end DList
