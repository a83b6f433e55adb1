import Mathlib.Data.List.TakeWhile
import Pintos.Lib.DList
import Pintos.Lib.WeakOrder
import Pintos.Threads.Kernel

/-!
# Doubly linked lists (`lib/kernel/list.c`)

A `struct list_elem` is its two links, and the memory `Elems` gives the links of the element at
each address; `NULL` is `none`. A `struct list` is the addresses of its `head` and `tail`
elements. An element argument is the address of a `struct list_elem`, never `NULL`, so the
`ASSERT (elem != NULL)`s hold; a pointer read from a link may be `NULL`, and a read through it
is undefined (`deref`).

The pointer writes of `list_splice` are two blocks, "Cleanly remove FIRST...LAST from its
current list" (`unlink`) and "Splice FIRST...LAST into new list" (`link_before`); `list_remove`
is the first with `first = last = elem` and `list_insert` the second. Their specs
(`unlink_spec`, `link_before_spec`) are stated over `DList.IsDList`, the list with header nodes
`head` and `tail` and element sequence `xs`, and every operation's spec is assembled from them:
each keeps the list well formed, changes its sequence as the operation says, and writes nothing
outside the nodes it involves.

The loops of `list_reverse`, `list_insert_ordered` and `list_unique` walk the links, so they are
defined with `fuel`; `none` is the loop not ending within it, and a list of `n` elements needs
`n + 1` rounds.
-/

set_option linter.style.nameCheck false

namespace Pintos

open DList

/-- The links of every `struct list_elem`, by address. -/
abbrev Elems := ℕ → Links ℕ

/-- `struct list`: the addresses of its `head` and `tail` elements. -/
structure list where
  head : ℕ
  tail : ℕ
  deriving DecidableEq, Repr

/-- A read through a pointer; through `NULL` it is undefined. -/
def deref : Option ℕ → Except Fault ℕ
  | some a => .ok a
  | none => .error .undefined

section Predicates

variable (m : Elems) (elem : ℕ)

/-- `is_head (elem)`. -/
def is_head : Bool := (m elem).prev.isNone && (m elem).next.isSome

/-- `is_interior (elem)`. -/
def is_interior : Bool := (m elem).prev.isSome && (m elem).next.isSome

/-- `is_tail (elem)`. -/
def is_tail : Bool := (m elem).prev.isSome && (m elem).next.isNone

end Predicates

/-- `list_init (list)`. -/
def list_init (m : Elems) (list : list) : Elems :=
  let m := setPrev m list.head none
  let m := setNext m list.head (some list.tail)
  let m := setPrev m list.tail (some list.head)
  setNext m list.tail none

/-- `list_begin (list)`. -/
def list_begin (m : Elems) (list : list) : Option ℕ := (m list.head).next

/-- `list_end (list)`: `&list->tail`. -/
def list_end (list : list) : ℕ := list.tail

/-- `list_next (elem)`. -/
def list_next (m : Elems) (elem : ℕ) : Except Fault (Option ℕ) :=
  if is_head m elem || is_interior m elem then .ok (m elem).next else .error .panic

/-- `list_prev (elem)`. -/
def list_prev (m : Elems) (elem : ℕ) : Except Fault (Option ℕ) :=
  if is_interior m elem || is_tail m elem then .ok (m elem).prev else .error .panic

/-- `list_empty (list)`. -/
def list_empty (m : Elems) (list : list) : Bool := list_begin m list == some (list_end list)

/-- "Splice FIRST...LAST into new list", the last four lines of `list_splice`; with
`first = last = elem` they are `list_insert`'s. -/
def link_before (m : Elems) (before first last : ℕ) : Except Fault Elems := do
  let m := setPrev m first (m before).prev
  let m := setNext m last (some before)
  let p ← deref (m before).prev
  let m := setNext m p (some first)
  pure (setPrev m before (some last))

/-- "Cleanly remove FIRST...LAST from its current list", two lines of `list_splice`; with
`first = last = elem` they are `list_remove`'s. -/
def unlink (m : Elems) (first last : ℕ) : Except Fault Elems := do
  let p ← deref (m first).prev
  let m := setNext m p (m last).next
  let n ← deref (m last).next
  pure (setPrev m n (m first).prev)

/-- `list_insert (before, elem)`. -/
def list_insert (m : Elems) (before elem : ℕ) : Except Fault Elems :=
  if !(is_interior m before || is_tail m before) then .error .panic
  else link_before m before elem elem

/-- `list_splice (before, first, last)`: moves `first` up to `last`, exclusive, before
`before`. -/
def list_splice (m : Elems) (before first last : ℕ) : Except Fault Elems :=
  if !(is_interior m before || is_tail m before) then .error .panic
  else if first = last then .ok m
  else do
    let last ← list_prev m last
    if !is_interior m first then throw .panic
    -- `is_interior (NULL)` is false
    let some last := last | throw .panic
    if !is_interior m last then throw .panic
    let m ← unlink m first last
    link_before m before first last

/-- `list_push_front (list, elem)`; `list_insert (NULL, elem)` fails its `ASSERT`. -/
def list_push_front (m : Elems) (list : list) (elem : ℕ) : Except Fault Elems :=
  match list_begin m list with
  | some before => list_insert m before elem
  | none => .error .panic

/-- `list_push_back (list, elem)`. -/
def list_push_back (m : Elems) (list : list) (elem : ℕ) : Except Fault Elems :=
  list_insert m (list_end list) elem

/-- `list_remove (elem)`: the memory after it and the element that followed `elem`. -/
def list_remove (m : Elems) (elem : ℕ) : Except Fault (Elems × Option ℕ) :=
  if !is_interior m elem then .error .panic
  else do
    let m ← unlink m elem elem
    pure (m, (m elem).next)

/-- `list_front (list)`. -/
def list_front (m : Elems) (list : list) : Except Fault (Option ℕ) :=
  if list_empty m list then .error .panic else .ok (m list.head).next

/-- `list_back (list)`. -/
def list_back (m : Elems) (list : list) : Except Fault (Option ℕ) :=
  if list_empty m list then .error .panic else .ok (m list.tail).prev

/-- `list_pop_front (list)`: the memory after it and the element removed; `list_remove (NULL)`
fails its `ASSERT`. -/
def list_pop_front (m : Elems) (list : list) : Except Fault (Elems × ℕ) := do
  let some front ← list_front m list | throw .panic
  let (m, _) ← list_remove m front
  pure (m, front)

/-- `list_pop_back (list)`. -/
def list_pop_back (m : Elems) (list : list) : Except Fault (Elems × ℕ) := do
  let some back ← list_back m list | throw .panic
  let (m, _) ← list_remove m back
  pure (m, back)

/-- The loop of `list_reverse`,
`for (e = list_begin (list); e != list_end (list); e = e->prev) swap (&e->prev, &e->next);`,
from `e`, with `fuel` rounds at most. -/
def reverseLoop (tail : ℕ) : ℕ → Elems → Option ℕ → Option (Except Fault Elems)
  | 0, _, _ => none
  | fuel + 1, m, e =>
    if e = some tail then some (.ok m)
    else match e with
      | none => some (.error .undefined)
      | some e =>
        let m := swapLinks m e
        reverseLoop tail fuel m (m e).prev

/-- The two swaps after the loop of `list_reverse`: `swap (&list->head.next, &list->tail.prev)`
and `swap (&list->head.next->prev, &list->tail.prev->next)`. -/
def swapEnds (m : Elems) (list : list) : Except Fault Elems := do
  let m := setPrev (setNext m list.head (m list.tail).prev) list.tail (m list.head).next
  let a ← deref (m list.head).next
  let b ← deref (m list.tail).prev
  let t := (m a).prev
  let m := setPrev m a (m b).next
  pure (setNext m b t)

/-- `list_reverse (list)`, with `fuel` rounds of its loop at most. -/
def list_reverse (fuel : ℕ) (m : Elems) (list : list) : Option (Except Fault Elems) :=
  if list_empty m list then some (.ok m)
  else match reverseLoop list.tail fuel m (list_begin m list) with
    | some (.ok m) => some (swapEnds m list)
    | r => r

/-- The loop of `list_insert_ordered`,
`for (e = list_begin (list); e != list_end (list); e = list_next (e)) if (less (elem, e, aux)) break;`,
from `e`: the element it stops at. `less` compares the structures that hold the elements, which
the list operations do not change. -/
def insertOrderedLoop (less : ℕ → ℕ → Bool) (tail elem : ℕ) :
    ℕ → Elems → Option ℕ → Option (Except Fault ℕ)
  | 0, _, _ => none
  | fuel + 1, m, e =>
    if e = some tail then some (.ok tail)
    else match e with
      -- `less (elem, NULL, aux)` reads through `NULL`
      | none => some (.error .undefined)
      | some e =>
        if less elem e then some (.ok e)
        else match list_next m e with
          | .ok e => insertOrderedLoop less tail elem fuel m e
          | .error f => some (.error f)

/-- `list_insert_ordered (list, elem, less, aux)`, with `fuel` rounds of its loop at most. -/
def list_insert_ordered (fuel : ℕ) (m : Elems) (list : list) (elem : ℕ) (less : ℕ → ℕ → Bool) :
    Option (Except Fault Elems) :=
  match insertOrderedLoop less list.tail elem fuel m (list_begin m list) with
  | some (.ok e) => some (list_insert m e elem)
  | some (.error f) => some (.error f)
  | none => none

/-- The body of the test in `list_unique`'s loop:
`list_remove (next); if (duplicates != NULL) list_push_back (duplicates, next);`. -/
def moveDuplicate (m : Elems) (duplicates : Option list) (next : ℕ) : Except Fault Elems := do
  let (m, _) ← list_remove m next
  match duplicates with
  | none => pure m
  | some d => list_push_back m d next

/-- The loop of `list_unique`, `while ((next = list_next (elem)) != list_end (list))`, from
`elem`, the element kept last. -/
def uniqueLoop (less : ℕ → ℕ → Bool) (tail : ℕ) (duplicates : Option list) :
    ℕ → Elems → ℕ → Option (Except Fault Elems)
  | 0, _, _ => none
  | fuel + 1, m, elem =>
    match list_next m elem with
    | .error f => some (.error f)
    | .ok next =>
      if next = some tail then some (.ok m)
      else match next with
        -- `less (elem, NULL, aux)` reads through `NULL`
        | none => some (.error .undefined)
        | some next =>
          if !less elem next && !less next elem then
            match moveDuplicate m duplicates next with
            | .ok m => uniqueLoop less tail duplicates fuel m elem
            | .error f => some (.error f)
          else uniqueLoop less tail duplicates fuel m next

/-- `list_unique (list, duplicates, less, aux)`, with `fuel` rounds of its loop at most;
`list_next (NULL)` fails its `ASSERT`. -/
def list_unique (fuel : ℕ) (m : Elems) (list : list) (duplicates : Option Pintos.list)
    (less : ℕ → ℕ → Bool) : Option (Except Fault Elems) :=
  if list_empty m list then some (.ok m)
  else match list_begin m list with
    | some elem => uniqueLoop less list.tail duplicates fuel m elem
    | none => some (.error .panic)

/-! ## Linking a run in and out -/

section Links

variable {m : Elems} {hd tl : ℕ}

theorem link_before_eq {before first last p : ℕ} (hbp : (m before).prev = some p)
    (hfb : first ≠ before) :
    link_before m before first last = .ok (setPrev (setNext (setNext (setPrev m first (some p))
      last (some before)) p (some first)) before (some last)) := by
  have hb : (setNext (setPrev m first (some p)) last (some before) before).prev = some p := by
    rw [setNext_prev, setPrev_prev, if_neg (Ne.symm hfb), hbp]
  simp only [link_before, hbp, bind, Except.bind, hb, deref, pure, Except.pure]

/-- Linking the chain `R`, from `first` to `last`, in before `before`: the list gains `R` at that
point, and only the nodes of `R`, `before` and the node before it change. -/
theorem link_before_spec {ys zs R : List ℕ} {before first last : ℕ}
    (hl : IsDList m hd tl (ys ++ zs)) (hb : (zs ++ [tl]).head? = some before)
    (hR : R.IsChain (Linked m)) (hRnd : R.Nodup) (hf : R.head? = some first)
    (hz : R.getLast? = some last) (hdisj : ∀ x ∈ hd :: (ys ++ zs) ++ [tl], x ∉ R) :
    ∃ m', link_before m before first last = .ok m' ∧ IsDList m' hd tl (ys ++ R ++ zs) ∧
      ∀ x, x ∉ R → x ∉ hd :: (ys ++ zs) ++ [tl] → m' x = m x := by
  obtain ⟨p, hp⟩ : ∃ p, (hd :: ys).getLast? = some p := ⟨_, List.getLast?_eq_some_getLast (by simp)⟩
  have hpb := hl.linked_of_split hp hb
  have hpn : p ∈ hd :: (ys ++ zs) ++ [tl] := IsDList.mem_nodes_of_getLast_eq hp
  have hbn : before ∈ hd :: (ys ++ zs) ++ [tl] := IsDList.mem_nodes_of_head_eq hb
  have hfR : first ∈ R := List.mem_of_head? hf
  have hzR : last ∈ R := List.mem_of_getLast? hz
  have hpR : p ∉ R := hdisj p hpn
  have hbR : before ∉ R := hdisj before hbn
  have hfb : first ≠ before := fun h => hbR (h ▸ hfR)
  have hzb : last ≠ before := fun h => hbR (h ▸ hzR)
  have hfp : first ≠ p := fun h => hpR (h ▸ hfR)
  have hzp : last ≠ p := fun h => hpR (h ▸ hzR)
  refine ⟨_, link_before_eq hpb.2 hfb, ?_, fun x hxR hx => ?_⟩
  · refine hl.link_in hp hb ?_ hRnd hf hz hdisj ⟨?_, ?_⟩ ⟨?_, ?_⟩ (fun x hxR hxp => ?_)
      (fun x hxR hxb => ?_)
    · refine isChain_frame hR (fun x hx => ?_) (fun x hx => ?_)
      · have hxz : x ≠ last := fun h => not_mem_dropLast_of_getLast_eq hRnd hz (h ▸ hx)
        have hxp : x ≠ p := fun h => hpR (h ▸ mem_of_mem_dropLast hx)
        simp [hxz, hxp]
      · have hxf : x ≠ first := fun h => not_mem_tail_of_head_eq hRnd hf (h ▸ hx)
        have hxb : x ≠ before := fun h => hbR (h ▸ List.mem_of_mem_tail hx)
        simp [hxf, hxb]
    · simp
    · simp [hfb]
    · simp [hzp]
    · simp
    · have hxz : x ≠ last := fun h => hxR (h ▸ hzR)
      simp [hxz, hxp]
    · have hxf : x ≠ first := fun h => hxR (h ▸ hfR)
      simp [hxf, hxb]
  · have hxp : x ≠ p := fun h => hx (h ▸ hpn)
    have hxb : x ≠ before := fun h => hx (h ▸ hbn)
    have hxf : x ≠ first := fun h => hxR (h ▸ hfR)
    have hxz : x ≠ last := fun h => hxR (h ▸ hzR)
    rw [setPrev_of_ne _ _ _ _ hxb, setNext_of_ne _ _ _ _ hxp, setNext_of_ne _ _ _ _ hxz,
      setPrev_of_ne _ _ _ _ hxf]

theorem unlink_eq {first last p n : ℕ} (hfp : (m first).prev = some p)
    (hzn : (m last).next = some n) :
    unlink m first last = .ok (setPrev (setNext m p (some n)) n (some p)) := by
  have hn : (setNext m p (some n) last).next = some n := by
    rw [setNext_next]
    split_ifs <;> simp [hzn]
  simp only [unlink, hfp, hzn, bind, Except.bind, deref, hn, setNext_prev, pure, Except.pure]

/-- Linking the run `R`, from `first` to `last`, out of the list: the list loses `R`, and only
the nodes before and after `R` change. -/
theorem unlink_spec {ys R zs : List ℕ} {first last : ℕ} (hl : IsDList m hd tl (ys ++ R ++ zs))
    (hf : R.head? = some first) (hz : R.getLast? = some last) :
    ∃ m', unlink m first last = .ok m' ∧ IsDList m' hd tl (ys ++ zs) ∧
      ∀ x, x ∉ hd :: (ys ++ zs) ++ [tl] → m' x = m x := by
  obtain ⟨p, hp⟩ : ∃ p, (hd :: ys).getLast? = some p := ⟨_, List.getLast?_eq_some_getLast (by simp)⟩
  obtain ⟨n, hn⟩ : ∃ n, (zs ++ [tl]).head? = some n := ⟨_, List.head?_eq_some_head (by simp)⟩
  obtain ⟨R', rfl⟩ := List.head?_eq_some_iff.mp hf
  have hl₁ : IsDList m hd tl (ys ++ (first :: R' ++ zs)) := by rwa [← List.append_assoc]
  have hpf := hl₁.linked_of_split hp (show (first :: R' ++ zs ++ [tl]).head? = some first by simp)
  have hl₂ : IsDList m hd tl (ys ++ first :: R' ++ zs) := hl
  have hzn := hl₂.linked_of_split (by rw [← List.cons_append, List.getLast?_append, hz]; rfl) hn
  refine ⟨_, unlink_eq hpf.2 hzn.1, hl.link_out hp hn ⟨by simp, by simp⟩ (fun x _ hxp => ?_)
    (fun x _ hxn => ?_), fun x hx => ?_⟩
  · simp [hxp]
  · simp [hxn]
  · have hxp : x ≠ p := fun h => hx (h ▸ IsDList.mem_nodes_of_getLast_eq hp)
    have hxn : x ≠ n := fun h => hx (h ▸ IsDList.mem_nodes_of_head_eq hn)
    rw [setPrev_of_ne _ _ _ _ hxn, setNext_of_ne _ _ _ _ hxp]

/-- `before` passes `ASSERT (is_interior (before) || is_tail (before))` when it has a `prev`. -/
theorem interior_or_tail_of_prev {e : ℕ} (he : (m e).prev.isSome) :
    (is_interior m e || is_tail m e) = true := by
  unfold is_interior is_tail
  cases (m e).next <;> simp [he]

theorem is_interior_of_mem {xs : List ℕ} (hl : IsDList m hd tl xs) {x : ℕ} (hx : x ∈ xs) :
    is_interior m x = true := by
  unfold is_interior
  rw [hl.prev_isSome (List.mem_append_left _ hx), hl.next_isSome (List.mem_cons_of_mem _ hx)]
  rfl

theorem mem_of_head_eq {ys zs : List ℕ} {b : ℕ} (hb : (zs ++ [tl]).head? = some b) :
    b ∈ ys ++ zs ++ [tl] := by
  have := List.mem_of_head? hb
  simp only [List.mem_append] at this ⊢
  tauto

end Links

/-! ## The operations on one list -/

section Ops

variable {m : Elems} {hd tl : ℕ}

/-- `list_init` makes the list empty, writing only its two headers. -/
theorem list_init_spec (m : Elems) {l : list} (hne : l.head ≠ l.tail) :
    IsDList (list_init m l) l.head l.tail [] ∧
      ∀ x, x ≠ l.head → x ≠ l.tail → list_init m l x = m x := by
  refine ⟨⟨?_, ?_, ?_, ?_⟩, fun x hh ht => ?_⟩
  · simp [list_init, hne]
  · simp [list_init]
  · simp [list_init, Linked, hne]
  · simp [hne]
  · simp only [list_init]
    rw [setNext_of_ne _ _ _ _ ht, setPrev_of_ne _ _ _ _ ht, setNext_of_ne _ _ _ _ hh,
      setPrev_of_ne _ _ _ _ hh]

/-- `list_insert` puts `elem`, a node of no list, before `before`; it writes only `elem`,
`before` and the node before it. -/
theorem list_insert_spec {ys zs : List ℕ} {before elem : ℕ} (hl : IsDList m hd tl (ys ++ zs))
    (hb : (zs ++ [tl]).head? = some before) (helem : elem ∉ hd :: (ys ++ zs) ++ [tl]) :
    ∃ m', list_insert m before elem = .ok m' ∧ IsDList m' hd tl (ys ++ elem :: zs) ∧
      ∀ x, x ≠ elem → x ∉ hd :: (ys ++ zs) ++ [tl] → m' x = m x := by
  obtain ⟨m', hm', hl', hframe⟩ := link_before_spec hl hb (List.isChain_singleton elem)
    (List.nodup_singleton elem) rfl rfl (fun x hx hxe => helem (List.mem_singleton.mp hxe ▸ hx))
  refine ⟨m', ?_, by simpa using hl', fun x hx hxn => hframe x (by simpa using hx) hxn⟩
  rw [list_insert, interior_or_tail_of_prev (hl.prev_isSome (mem_of_head_eq hb))]
  exact hm'

/-- `list_remove` takes `elem` out and returns the node after it; it writes only the nodes
before and after `elem`. -/
theorem list_remove_spec {ys zs : List ℕ} {elem : ℕ} (hl : IsDList m hd tl (ys ++ elem :: zs)) :
    ∃ m', list_remove m elem = .ok (m', (zs ++ [tl]).head?) ∧ IsDList m' hd tl (ys ++ zs) ∧
      ∀ x, x ∉ hd :: (ys ++ zs) ++ [tl] → m' x = m x := by
  have hl₁ : IsDList m hd tl (ys ++ [elem] ++ zs) := by simpa using hl
  obtain ⟨m', hm', hl', hframe⟩ := unlink_spec hl₁ rfl rfl
  obtain ⟨n, hn⟩ : ∃ n, (zs ++ [tl]).head? = some n := ⟨_, List.head?_eq_some_head (by simp)⟩
  have hnext : (m' elem).next = some n := by
    have hl₂ : IsDList m hd tl ((ys ++ [elem]) ++ zs) := hl₁
    rw [hframe elem (hl₁.not_mem_of_mem_run (List.mem_singleton_self elem))]
    exact (hl₂.linked_of_split (by rw [← List.cons_append, List.getLast?_append]; rfl) hn).1
  have hm'' : unlink m elem elem = .ok m' := hm'
  refine ⟨m', ?_, hl', hframe⟩
  rw [list_remove, is_interior_of_mem hl (by simp), hn]
  simp only [Bool.not_true, Bool.false_eq_true, if_false, hm'', bind, Except.bind, hnext]
  rfl

/-- The source side of a `list_splice` of the non-empty run `R`: `first` is its first node,
`last` the node after it, and the checks before the writes pass. -/
theorem splice_source {A R C : List ℕ} {first last : ℕ} (hl : IsDList m hd tl (A ++ R ++ C))
    (hR : R ≠ []) (hf : (R ++ C ++ [tl]).head? = some first) (hz : (C ++ [tl]).head? = some last) :
    ∃ r, R.head? = some first ∧ R.getLast? = some r ∧ first ≠ last ∧
      list_prev m last = .ok (some r) ∧ is_interior m first = true ∧ is_interior m r = true := by
  obtain ⟨r, hr⟩ : ∃ r, R.getLast? = some r := ⟨_, List.getLast?_eq_some_getLast hR⟩
  have hRf : R.head? = some first := by
    obtain ⟨x, R', rfl⟩ := List.exists_cons_of_ne_nil hR
    simpa using hf
  have hfR : first ∈ R := List.mem_of_head? hRf
  have hrR : r ∈ R := List.mem_of_getLast? hr
  have hmem : ∀ x ∈ R, x ∈ A ++ R ++ C := fun x hx => by simp [hx]
  have hlast : last ∉ R := fun h => hl.not_mem_of_mem_run h (IsDList.mem_nodes_of_head_eq hz)
  have hl₂ : IsDList m hd tl ((A ++ R) ++ C) := hl
  have hrz := hl₂.linked_of_split (by rw [← List.cons_append, List.getLast?_append, hr]; rfl) hz
  refine ⟨r, hRf, hr, fun h => hlast (h ▸ hfR), ?_, is_interior_of_mem hl (hmem first hfR),
    is_interior_of_mem hl (hmem r hrR)⟩
  rw [list_prev, interior_or_tail_of_prev (by rw [hrz.2]; rfl), if_pos rfl, hrz.2]

theorem list_splice_eq {before first last r : ℕ} (hb : (m before).prev.isSome) (hne : first ≠ last)
    (hprev : list_prev m last = .ok (some r)) (hf : is_interior m first = true)
    (hr : is_interior m r = true) :
    list_splice m before first last = unlink m first r >>= fun m => link_before m before first r := by
  rw [list_splice, interior_or_tail_of_prev hb, if_neg (by simp), if_neg hne, hprev]
  simp only [hf, hr, bind, Except.bind, Bool.not_true, Bool.false_eq_true, if_false]

/-- `list_splice` between two lists moves the run `R` of the second, from `first` up to `last`
exclusive, before `before` in the first; it writes only nodes of the two lists. -/
theorem list_splice_spec {hd' tl' : ℕ} {ys zs A R C : List ℕ} {before first last : ℕ}
    (hl : IsDList m hd tl (ys ++ zs)) (hb : (zs ++ [tl]).head? = some before)
    (hl' : IsDList m hd' tl' (A ++ R ++ C)) (hf : (R ++ C ++ [tl']).head? = some first)
    (hz : (C ++ [tl']).head? = some last)
    (hdisj : ∀ x ∈ hd :: (ys ++ zs) ++ [tl], x ∉ hd' :: (A ++ R ++ C) ++ [tl']) :
    ∃ m', list_splice m before first last = .ok m' ∧ IsDList m' hd tl (ys ++ R ++ zs) ∧
      IsDList m' hd' tl' (A ++ C) ∧
      ∀ x, x ∉ hd :: (ys ++ zs) ++ [tl] → x ∉ hd' :: (A ++ R ++ C) ++ [tl'] → m' x = m x := by
  have hbp := hl.prev_isSome (mem_of_head_eq hb)
  have hsub : ∀ x ∈ hd' :: (A ++ C) ++ [tl'], x ∈ hd' :: (A ++ R ++ C) ++ [tl'] :=
    fun x hx => by simp at hx ⊢; tauto
  rcases eq_or_ne R [] with rfl | hR
  · -- an empty run: `first == last`, and nothing moves
    have hfz : first = last := Option.some.inj (hf.symm.trans hz)
    refine ⟨m, ?_, by simpa using hl, by simpa using hl', fun _ _ _ => rfl⟩
    rw [list_splice, interior_or_tail_of_prev hbp, if_neg (by simp), if_pos hfz]
  obtain ⟨r, hRf, hr, hne, hprev, hfi, hri⟩ := splice_source hl' hR hf hz
  obtain ⟨m₁, hm₁, hl₁', hframe₁⟩ := unlink_spec hl' hRf hr
  have hl₁ : IsDList m₁ hd tl (ys ++ zs) :=
    hl.frame fun x hx => hframe₁ x fun h => hdisj x hx (hsub x h)
  have hRm : ∀ x ∈ R, m₁ x = m x := fun x hx => hframe₁ x (hl'.not_mem_of_mem_run hx)
  have hRc : R.IsChain (Linked m₁) := isChain_frame_of_forall hl'.chain_infix hRm
  have hRnd : R.Nodup := hl'.nodup.sublist ((List.sublist_append_left _ C).trans
    ((List.sublist_append_right A _).trans (by simp)) |>.trans (List.sublist_append_left _ _))
  obtain ⟨m₂, hm₂, hl₂, hframe₂⟩ := link_before_spec hl₁ hb hRc hRnd hRf hr
    (fun x hx hxR => hdisj x hx (by simp [hxR]))
  refine ⟨m₂, ?_, hl₂, hl₁'.frame fun x hx => ?_, fun x hx hx' => ?_⟩
  · rw [list_splice_eq hbp hne hprev hfi hri, hm₁]
    exact hm₂
  · rw [hframe₂ x (fun hxR => hl'.not_mem_of_mem_run hxR hx) (fun h => hdisj x h (hsub x hx))]
  · have hxR : x ∉ R := fun h => hx' (by simp [h])
    rw [hframe₂ x hxR hx, hframe₁ x fun h => hx' (hsub x h)]

/-- `list_splice` within one list moves the run `R`, from `first` up to `last` exclusive, before
`before`, which is outside it; it writes only nodes of the list. -/
theorem list_splice_within_spec {ys zs A R C : List ℕ} {before first last : ℕ}
    (hl : IsDList m hd tl (A ++ R ++ C)) (hys : A ++ C = ys ++ zs)
    (hb : (zs ++ [tl]).head? = some before) (hf : (R ++ C ++ [tl]).head? = some first)
    (hz : (C ++ [tl]).head? = some last) :
    ∃ m', list_splice m before first last = .ok m' ∧ IsDList m' hd tl (ys ++ R ++ zs) ∧
      ∀ x, x ∉ hd :: (A ++ R ++ C) ++ [tl] → m' x = m x := by
  have hbp : (m before).prev.isSome := hl.prev_isSome (by
    have : before ∈ ys ++ zs ++ [tl] := mem_of_head_eq hb
    rw [← hys] at this
    simp only [List.mem_append] at this ⊢
    tauto)
  rcases eq_or_ne R [] with rfl | hR
  · have hfz : first = last := Option.some.inj (hf.symm.trans hz)
    refine ⟨m, ?_, by simpa [← hys] using hl, fun _ _ => rfl⟩
    rw [list_splice, interior_or_tail_of_prev hbp, if_neg (by simp), if_pos hfz]
  obtain ⟨r, hRf, hr, hne, hprev, hfi, hri⟩ := splice_source hl hR hf hz
  obtain ⟨m₁, hm₁, hl₁, hframe₁⟩ := unlink_spec hl hRf hr
  have hRm : ∀ x ∈ R, m₁ x = m x := fun x hx => hframe₁ x (hl.not_mem_of_mem_run hx)
  have hRc : R.IsChain (Linked m₁) := isChain_frame_of_forall hl.chain_infix hRm
  have hRnd : R.Nodup := hl.nodup.sublist ((List.sublist_append_left _ C).trans
    ((List.sublist_append_right A _).trans (by simp)) |>.trans (List.sublist_append_left _ _))
  rw [hys] at hl₁
  obtain ⟨m₂, hm₂, hl₂, hframe₂⟩ := link_before_spec hl₁ hb hRc hRnd hRf hr
    (fun x hx hxR => hl.not_mem_of_mem_run hxR (by rw [hys]; exact hx))
  refine ⟨m₂, ?_, hl₂, fun x hx => ?_⟩
  · rw [list_splice_eq hbp hne hprev hfi hri, hm₁]
    exact hm₂
  · have hxR : x ∉ R := fun h => hx (by simp [h])
    have hx₁ : x ∉ hd :: (ys ++ zs) ++ [tl] := fun h => hx (by
      rw [← hys] at h
      simp only [List.cons_append, List.mem_cons, List.mem_append] at h ⊢
      tauto)
    rw [hframe₂ x hxR hx₁, hframe₁ x (by rw [hys]; exact hx₁)]

theorem list_empty_iff {l : list} {xs : List ℕ} (hl : IsDList m l.head l.tail xs) :
    list_empty m l = true ↔ xs = [] := by
  rw [list_empty, list_begin, hl.head_next, list_end]
  rcases xs with _ | ⟨x, xs⟩
  · simp
  · have hx : x ≠ l.tail := fun h => hl.tail_not_mem (h ▸ List.mem_cons_self)
    simp [hx]

/-- `list_push_front` puts `elem`, a node of no list, first. -/
theorem list_push_front_spec {l : list} {xs : List ℕ} {elem : ℕ} (hl : IsDList m l.head l.tail xs)
    (helem : elem ∉ l.head :: xs ++ [l.tail]) :
    ∃ m', list_push_front m l elem = .ok m' ∧ IsDList m' l.head l.tail (elem :: xs) ∧
      ∀ x, x ≠ elem → x ∉ l.head :: xs ++ [l.tail] → m' x = m x := by
  obtain ⟨b, hb⟩ : ∃ b, (xs ++ [l.tail]).head? = some b := ⟨_, List.head?_eq_some_head (by simp)⟩
  have hl' : IsDList m l.head l.tail ([] ++ xs) := hl
  obtain ⟨m', hm', hl'', hframe⟩ := list_insert_spec hl' hb helem
  refine ⟨m', ?_, hl'', hframe⟩
  rw [list_push_front, list_begin, hl.head_next, hb]
  exact hm'

/-- `list_push_back` puts `elem`, a node of no list, last. -/
theorem list_push_back_spec {l : list} {xs : List ℕ} {elem : ℕ} (hl : IsDList m l.head l.tail xs)
    (helem : elem ∉ l.head :: xs ++ [l.tail]) :
    ∃ m', list_push_back m l elem = .ok m' ∧ IsDList m' l.head l.tail (xs ++ [elem]) ∧
      ∀ x, x ≠ elem → x ∉ l.head :: xs ++ [l.tail] → m' x = m x := by
  have hl' : IsDList m l.head l.tail (xs ++ []) := by rwa [List.append_nil]
  obtain ⟨m', hm', hl'', hframe⟩ :=
    list_insert_spec hl' (show ([] ++ [l.tail]).head? = some l.tail from rfl)
      (by rwa [List.append_nil])
  exact ⟨m', hm', hl'', fun x hx hxn => hframe x hx (by rwa [List.append_nil])⟩

/-- `list_pop_front` takes the first element out and returns it. -/
theorem list_pop_front_spec {l : list} {x : ℕ} {xs : List ℕ}
    (hl : IsDList m l.head l.tail (x :: xs)) :
    ∃ m', list_pop_front m l = .ok (m', x) ∧ IsDList m' l.head l.tail xs ∧
      ∀ y, y ∉ l.head :: xs ++ [l.tail] → m' y = m y := by
  have hl' : IsDList m l.head l.tail ([] ++ x :: xs) := hl
  obtain ⟨m', hm', hl'', hframe⟩ := list_remove_spec hl'
  have hfront : list_front m l = .ok (some x) := by
    rw [list_front, if_neg (by rw [list_empty_iff hl]; simp), hl.head_next]
    rfl
  refine ⟨m', ?_, hl'', hframe⟩
  simp only [list_pop_front, hfront, hm', bind, Except.bind, pure, Except.pure]

/-- `list_pop_back` takes the last element out and returns it. -/
theorem list_pop_back_spec {l : list} {x : ℕ} {xs : List ℕ}
    (hl : IsDList m l.head l.tail (xs ++ [x])) :
    ∃ m', list_pop_back m l = .ok (m', x) ∧ IsDList m' l.head l.tail xs ∧
      ∀ y, y ∉ l.head :: xs ++ [l.tail] → m' y = m y := by
  have hl' : IsDList m l.head l.tail (xs ++ x :: []) := hl
  obtain ⟨m', hm', hl'', hframe⟩ := list_remove_spec hl'
  have hback : list_back m l = .ok (some x) := by
    rw [list_back, if_neg (by rw [list_empty_iff hl]; simp), hl.tail_prev, ← List.cons_append,
      List.getLast?_append]
    rfl
  refine ⟨m', ?_, by simpa using hl'', fun y hy => hframe y (by simpa using hy)⟩
  simp only [list_pop_back, hback, hm', bind, Except.bind, pure, Except.pure]

end Ops

/-! ## `list_reverse` -/

section Reverse

variable {m : Elems} {hd tl : ℕ}

/-- Swapping the links of distinct nodes one after another swaps each of them once. -/
theorem foldl_swapLinks_apply : ∀ (todo : List ℕ) (m : Elems), todo.Nodup → ∀ y,
    todo.foldl swapLinks m y = if y ∈ todo then ⟨(m y).next, (m y).prev⟩ else m y
  | [], _, _, _ => rfl
  | x :: todo, m, hnd, y => by
    rw [List.foldl_cons, foldl_swapLinks_apply todo _ (List.nodup_cons.mp hnd).2 y]
    by_cases hy : y ∈ todo
    · have hyx : y ≠ x := fun h => (List.nodup_cons.mp hnd).1 (h ▸ hy)
      rw [if_pos hy, if_pos (List.mem_cons_of_mem _ hy), swapLinks_of_ne _ _ _ hyx]
    · rw [if_neg hy]
      by_cases hyx : y = x
      · subst hyx
        simp [swapLinks]
      · rw [if_neg (by simp [hyx, hy]), swapLinks_of_ne _ _ _ hyx]

/-- The loop swaps the links of the nodes it visits, and after each swap follows the old `next`
link, now the `prev` one, to the node after. -/
theorem reverseLoop_spec : ∀ (todo : List ℕ) (m : Elems) (fuel : ℕ),
    (todo ++ [tl]).IsChain (Linked m) → (todo ++ [tl]).Nodup → todo.length < fuel →
    reverseLoop tl fuel m (todo ++ [tl]).head? = some (.ok (todo.foldl swapLinks m))
  | _, _, 0, _, _, hlen => absurd hlen (Nat.not_lt_zero _)
  | [], _, fuel + 1, _, _, _ => by simp [reverseLoop]
  | x :: todo, m, fuel + 1, hc, hnd, hlen => by
    rw [List.cons_append] at hc hnd
    have hx : x ∉ todo ++ [tl] := (List.nodup_cons.mp hnd).1
    have hxt : x ≠ tl := fun h => hx (by simp [h])
    obtain ⟨b, B, hbB⟩ := List.exists_cons_of_ne_nil (show todo ++ [tl] ≠ [] by simp)
    have hxb : Linked m x b := by
      rw [hbB] at hc
      exact (List.isChain_cons_cons.mp hc).1
    have hnext : (swapLinks m x x).prev = (todo ++ [tl]).head? := by
      rw [swapLinks_prev, if_pos rfl, hxb.1, hbB, List.head?_cons]
    -- the swap is at `x`, which no link of the rest of the chain reads
    have hc' : (todo ++ [tl]).IsChain (Linked (swapLinks m x)) :=
      isChain_frame_of_forall hc.tail fun y hy => swapLinks_of_ne _ _ _ fun h => hx (h ▸ hy)
    rw [List.cons_append, List.head?_cons, reverseLoop, if_neg (by simpa using hxt)]
    dsimp only
    rw [hnext, reverseLoop_spec todo _ fuel hc' (List.nodup_cons.mp hnd).2 (by simp at hlen; omega),
      List.foldl_cons]

/-- `list_reverse` reverses the elements, and writes only the list's nodes. -/
theorem list_reverse_spec {l : list} {xs : List ℕ} {fuel : ℕ} (hl : IsDList m l.head l.tail xs)
    (hfuel : xs.length < fuel) :
    ∃ m', list_reverse fuel m l = some (.ok m') ∧ IsDList m' l.head l.tail xs.reverse ∧
      ∀ y, y ∉ l.head :: xs ++ [l.tail] → m' y = m y := by
  rcases eq_or_ne xs [] with rfl | hne
  · exact ⟨m, by rw [list_reverse, if_pos ((list_empty_iff hl).mpr rfl)], hl, fun _ _ => rfl⟩
  obtain ⟨f, hf⟩ : ∃ f, xs.head? = some f := ⟨_, List.head?_eq_some_head hne⟩
  obtain ⟨z, hz⟩ : ∃ z, xs.getLast? = some z := ⟨_, List.getLast?_eq_some_getLast hne⟩
  have hfx : f ∈ xs := List.mem_of_head? hf
  have hzx : z ∈ xs := List.mem_of_getLast? hz
  have hht : l.head ≠ l.tail := hl.head_ne_tail
  have hfh : f ≠ l.head := fun h => hl.head_not_mem (h ▸ hfx)
  have hft : f ≠ l.tail := fun h => hl.tail_not_mem (h ▸ hfx)
  have hzh : z ≠ l.head := fun h => hl.head_not_mem (h ▸ hzx)
  have hzt : z ≠ l.tail := fun h => hl.tail_not_mem (h ▸ hzx)
  have hnd : (xs ++ [l.tail]).Nodup := (List.nodup_cons.mp hl.nodup).2
  have hxnd : xs.Nodup := (List.nodup_append.mp hnd).1
  have hl₀ : IsDList m l.head l.tail ([] ++ xs) := hl
  have hl₁ : IsDList m l.head l.tail (xs ++ []) := by rwa [List.append_nil]
  have hhf : Linked m l.head f := hl₀.linked_of_split rfl (by rw [List.head?_append, hf]; rfl)
  have hzl : Linked m z l.tail :=
    hl₁.linked_of_split (by rw [List.getLast?_cons, hz]; rfl) rfl
  have hms := foldl_swapLinks_apply xs m hxnd
  have hloop : reverseLoop l.tail fuel m (list_begin m l) = some (.ok (xs.foldl swapLinks m)) := by
    rw [list_begin, hl.head_next]
    exact reverseLoop_spec xs m fuel (by simpa only [List.cons_append, List.tail_cons] using hl.chain.tail)
      hnd hfuel
  set ms := xs.foldl swapLinks m
  have e₁ : (ms l.tail).prev = some z := by rw [hms, if_neg hl.tail_not_mem, hzl.2]
  have e₂ : (ms l.head).next = some f := by rw [hms, if_neg hl.head_not_mem, hhf.1]
  set m₁ := setPrev (setNext ms l.head (some z)) l.tail (some f) with hm₁
  have h₁ : (m₁ l.head).next = some z := by simp [hm₁]
  have h₂ : (m₁ l.tail).prev = some f := by simp [hm₁]
  have h₃ : (m₁ z).prev = some l.tail := by simp [hm₁, hzt, hms, hzx, hzl.1]
  have h₄ : (m₁ f).next = some l.head := by simp [hm₁, hfh, hms, hfx, hhf.2]
  set m' := setNext (setPrev m₁ z (some l.head)) f (some l.tail) with hm'
  have hswap : swapEnds ms l = .ok m' := by
    simp only [swapEnds, e₁, e₂, ← hm₁, h₁, h₂, deref, bind, Except.bind, h₃, h₄, pure,
      Except.pure, hm']
  -- the elements' own links, swapped, chain them backwards; the ends are then relinked
  have hrev : xs.reverse.IsChain (Linked ms) := by
    have hl₂ : IsDList m l.head l.tail ([] ++ xs ++ []) := by rwa [List.append_nil]
    exact isChain_swap_reverse hl₂.chain_infix fun x hx => by rw [hms, if_pos hx]; exact ⟨rfl, rfl⟩
  have hrnd : xs.reverse.Nodup := List.nodup_reverse.mpr hxnd
  have hrf : xs.reverse.getLast? = some f := by rw [List.getLast?_reverse, hf]
  have hrz : xs.reverse.head? = some z := by rw [List.head?_reverse, hz]
  have hchain : xs.reverse.IsChain (Linked m') := by
    refine isChain_frame hrev (fun x hx => ?_) (fun x hx => ?_)
    · have hxf : x ≠ f := fun h => not_mem_dropLast_of_getLast_eq hrnd hrf (h ▸ hx)
      have hxh : x ≠ l.head := fun h => hl.head_not_mem (List.mem_reverse.mp (h ▸ mem_of_mem_dropLast hx))
      simp [hm', hm₁, hxf, hxh]
    · have hxz : x ≠ z := fun h => not_mem_tail_of_head_eq hrnd hrz (h ▸ hx)
      have hxt : x ≠ l.tail := fun h => hl.tail_not_mem (List.mem_reverse.mp (h ▸ List.mem_of_mem_tail hx))
      simp [hm', hm₁, hxz, hxt]
  refine ⟨m', ?_, IsDList.of_chain ?_ ?_ hchain hrz hrf ⟨?_, ?_⟩ ⟨?_, ?_⟩ ?_, fun y hy => ?_⟩
  · rw [list_reverse, if_neg (by rw [list_empty_iff hl]; exact hne), hloop]
    exact congrArg some hswap
  · simp [hm', hm₁, Ne.symm hzh, hht, hms, hl.head_not_mem, hl.head_prev]
  · simp [hm', hm₁, Ne.symm hft, Ne.symm hht, hms, hl.tail_not_mem, hl.tail_next]
  · simp [hm', Ne.symm hfh, h₁]
  · simp [hm']
  · simp [hm']
  · simp [hm', Ne.symm hzt, h₂]
  · exact ((List.reverse_perm xs).append_right [l.tail] |>.cons l.head).nodup_iff.mpr hl.nodup
  · have hyh : y ≠ l.head := fun h => hy (by simp [h])
    have hyt : y ≠ l.tail := fun h => hy (by simp [h])
    have hyx : y ∉ xs := fun h => hy (by simp [h])
    have hyf : y ≠ f := fun h => hyx (h ▸ hfx)
    have hyz : y ≠ z := fun h => hyx (h ▸ hzx)
    rw [hm', setNext_of_ne _ _ _ _ hyf, setPrev_of_ne _ _ _ _ hyz, hm₁, setPrev_of_ne _ _ _ _ hyt,
      setNext_of_ne _ _ _ _ hyh, hms, if_neg hyx]

end Reverse

/-! ## `list_insert_ordered` -/

section InsertOrdered

variable {m : Elems} {hd tl : ℕ}

theorem head?_append_singleton (l : List ℕ) (a : ℕ) : (l ++ [a]).head? = some (l.headD a) := by
  cases l <;> rfl

/-- The node after `x` in a chain that goes on to `tl`. -/
theorem next_of_chain {x tl : ℕ} {todo : List ℕ} (hc : (x :: todo ++ [tl]).IsChain (Linked m)) :
    (m x).next = (todo ++ [tl]).head? := by
  obtain ⟨b, B, hbB⟩ := List.exists_cons_of_ne_nil (show todo ++ [tl] ≠ [] by simp)
  rw [List.cons_append, hbB] at hc
  rw [(List.isChain_cons_cons.mp hc).1.1, hbB, List.head?_cons]

/-- The loop stops at the first element above `elem`, or at the tail. -/
theorem insertOrderedLoop_spec (less : ℕ → ℕ → Bool) {elem : ℕ} : ∀ (todo : List ℕ) (fuel : ℕ),
    (todo ++ [tl]).IsChain (Linked m) → tl ∉ todo → (∀ x ∈ todo, is_interior m x = true) →
    todo.length < fuel →
    insertOrderedLoop less tl elem fuel m (todo ++ [tl]).head? =
      some (.ok ((todo.dropWhile fun x => !less elem x).headD tl))
  | _, 0, _, _, _, hlen => absurd hlen (Nat.not_lt_zero _)
  | [], fuel + 1, _, _, _, _ => by simp [insertOrderedLoop]
  | x :: todo, fuel + 1, hc, ht, hint, hlen => by
    have hxt : x ≠ tl := fun h => ht (h ▸ List.mem_cons_self)
    rw [List.cons_append, List.head?_cons, insertOrderedLoop, if_neg (by simpa using hxt)]
    by_cases hless : less elem x
    · rw [if_pos hless, List.dropWhile_cons_of_neg (by simp [hless])]
      rfl
    · -- `x` is not above `elem`: the loop goes on to the node after it
      have hnext : list_next m x = .ok (todo ++ [tl]).head? := by
        rw [list_next, if_pos (by simp [hint x List.mem_cons_self]), next_of_chain hc]
      rw [if_neg hless, hnext, List.dropWhile_cons_of_pos (by simpa using hless)]
      exact insertOrderedLoop_spec less todo fuel hc.tail (fun h => ht (List.mem_cons_of_mem _ h))
        (fun y hy => hint y (List.mem_cons_of_mem _ hy)) (by simp at hlen; omega)

/-- `list_insert_ordered` puts `elem`, a node of no list, before the first element above it. -/
theorem list_insert_ordered_spec (less : ℕ → ℕ → Bool) {l : list} {xs : List ℕ} {elem fuel : ℕ}
    (hl : IsDList m l.head l.tail xs) (helem : elem ∉ l.head :: xs ++ [l.tail])
    (hfuel : xs.length < fuel) :
    ∃ m', list_insert_ordered fuel m l elem less = some (.ok m') ∧
      IsDList m' l.head l.tail
        (xs.takeWhile (fun x => !less elem x) ++ elem :: xs.dropWhile fun x => !less elem x) ∧
      ∀ x, x ≠ elem → x ∉ l.head :: xs ++ [l.tail] → m' x = m x := by
  have hloop : insertOrderedLoop less l.tail elem fuel m (xs ++ [l.tail]).head? =
      some (.ok ((xs.dropWhile fun x => !less elem x).headD l.tail)) :=
    insertOrderedLoop_spec less xs fuel
      (by simpa only [List.cons_append, List.tail_cons] using hl.chain.tail) hl.tail_not_mem
      (fun x hx => is_interior_of_mem hl hx) hfuel
  have hsplit := (List.takeWhile_append_dropWhile (p := fun x => !less elem x) (l := xs)).symm
  have hl' : IsDList m l.head l.tail
      (xs.takeWhile (fun x => !less elem x) ++ xs.dropWhile fun x => !less elem x) := hsplit ▸ hl
  obtain ⟨m', hm', hl'', hframe⟩ :=
    list_insert_spec hl' (head?_append_singleton _ _) (by rwa [← hsplit])
  refine ⟨m', ?_, hl'', fun x hx hxn => hframe x hx (by rwa [← hsplit])⟩
  rw [list_insert_ordered, list_begin, hl.head_next, hloop]
  exact congrArg some hm'

end InsertOrdered

/-! ## `list_unique` -/

/-- What `list_unique` does to the elements after `elem`, the element it kept last: the ones it
keeps, and the ones it removes, each equal to the element kept before it. -/
def uniqueSplit (less : ℕ → ℕ → Bool) : ℕ → List ℕ → List ℕ × List ℕ
  | _, [] => ([], [])
  | elem, x :: xs =>
    if WeakOrder.Incomp less elem x then
      ((uniqueSplit less elem xs).1, x :: (uniqueSplit less elem xs).2)
    else (x :: (uniqueSplit less x xs).1, (uniqueSplit less x xs).2)

/-- The nodes of the `duplicates` list with elements `D`; none without one. -/
def dupNodes : Option list → List ℕ → List ℕ
  | none, _ => []
  | some d, D => d.head :: D ++ [d.tail]

/-- The `duplicates` list, if there is one, has the elements `D`. -/
def DupsHold (m : Elems) : Option list → List ℕ → Prop
  | none, _ => True
  | some d, D => IsDList m d.head d.tail D

/-- What `list_unique` keeps of the elements `xs`, and what it removes. -/
def uniqueSpec (less : ℕ → ℕ → Bool) : List ℕ → List ℕ × List ℕ
  | [] => ([], [])
  | e :: xs => (e :: (uniqueSplit less e xs).1, (uniqueSplit less e xs).2)

/-- The elements kept and removed are the elements, rearranged. -/
theorem uniqueSplit_perm (less : ℕ → ℕ → Bool) : ∀ (e : ℕ) (xs : List ℕ),
    ((uniqueSplit less e xs).1 ++ (uniqueSplit less e xs).2).Perm xs
  | _, [] => .nil
  | e, x :: xs => by
    by_cases h : WeakOrder.Incomp less e x
    · rw [uniqueSplit, if_pos h]
      exact List.perm_middle.trans ((uniqueSplit_perm less e xs).cons x)
    · rw [uniqueSplit, if_neg h]
      exact (uniqueSplit_perm less x xs).cons x

theorem uniqueSpec_perm (less : ℕ → ℕ → Bool) :
    ∀ xs : List ℕ, ((uniqueSpec less xs).1 ++ (uniqueSpec less xs).2).Perm xs
  | [] => .nil
  | e :: xs => (uniqueSplit_perm less e xs).cons e

section Unique

variable {m : Elems} {hd tl : ℕ}

/-- Moving the duplicate `x` out of the list, and to the end of `duplicates` if there is one. -/
theorem moveDuplicate_spec {ys zs D : List ℕ} {dup : Option list} {x : ℕ}
    (hl : IsDList m hd tl (ys ++ x :: zs)) (hD : DupsHold m dup D)
    (hdisj : ∀ y ∈ dupNodes dup D, y ∉ hd :: (ys ++ x :: zs) ++ [tl]) :
    ∃ m', moveDuplicate m dup x = .ok m' ∧ IsDList m' hd tl (ys ++ zs) ∧
      DupsHold m' dup (D ++ [x]) ∧ (∀ y ∈ dupNodes dup (D ++ [x]), y ∉ hd :: (ys ++ zs) ++ [tl]) ∧
      ∀ y, y ∉ hd :: (ys ++ x :: zs) ++ [tl] → y ∉ dupNodes dup D → m' y = m y := by
  obtain ⟨m₁, hm₁, hl₁, hframe₁⟩ := list_remove_spec hl
  have hsub : ∀ y ∈ hd :: (ys ++ zs) ++ [tl], y ∈ hd :: (ys ++ x :: zs) ++ [tl] :=
    fun y hy => by simp at hy ⊢; tauto
  have hx : x ∉ hd :: (ys ++ zs) ++ [tl] := by
    have hl' : IsDList m hd tl (ys ++ [x] ++ zs) := by simpa using hl
    exact hl'.not_mem_of_mem_run (List.mem_singleton_self x)
  have hxm : x ∈ hd :: (ys ++ x :: zs) ++ [tl] := by simp
  cases dup with
  | none =>
    refine ⟨m₁, ?_, hl₁, trivial, fun y hy => absurd hy List.not_mem_nil,
      fun y hy _ => hframe₁ y fun h => hy (hsub y h)⟩
    simp only [moveDuplicate, hm₁, bind, Except.bind, pure, Except.pure]
  | some d =>
    have hD₁ : IsDList m₁ d.head d.tail D :=
      IsDList.frame hD fun y hy => hframe₁ y fun h => hdisj y hy (hsub y h)
    obtain ⟨m₂, hm₂, hD₂, hframe₂⟩ := list_push_back_spec hD₁ fun h => hdisj x h hxm
    refine ⟨m₂, ?_, hl₁.frame fun y hy => hframe₂ y (fun h => hx (h ▸ hy))
      (fun h => hdisj y h (hsub y hy)), hD₂, fun y hy hy' => ?_, fun y hy hy' => ?_⟩
    · simp only [moveDuplicate, hm₁, bind, Except.bind]
      exact hm₂
    · have : y ∈ d.head :: D ++ [d.tail] ∨ y = x := by
        simp only [dupNodes, List.cons_append, List.mem_cons, List.mem_append] at hy ⊢
        tauto
      rcases this with hy | rfl
      · exact hdisj y hy (hsub y hy')
      · exact hx hy'
    · rw [hframe₂ y (fun h => hy (h ▸ hxm)) hy', hframe₁ y fun h => hy (hsub y h)]

/-- The loop from `elem`, the element kept last, with `todo` after it: it keeps and removes the
elements as `uniqueSplit` says, and appends those it removes to `duplicates`. -/
theorem uniqueLoop_spec (less : ℕ → ℕ → Bool) {dup : Option list} :
    ∀ (todo K D : List ℕ) (elem : ℕ) (m : Elems) (fuel : ℕ),
      IsDList m hd tl (K ++ elem :: todo) → DupsHold m dup D →
      (∀ y ∈ dupNodes dup D, y ∉ hd :: (K ++ elem :: todo) ++ [tl]) → todo.length < fuel →
      ∃ m', uniqueLoop less tl dup fuel m elem = some (.ok m') ∧
        IsDList m' hd tl (K ++ elem :: (uniqueSplit less elem todo).1) ∧
        DupsHold m' dup (D ++ (uniqueSplit less elem todo).2) ∧
        ∀ y, y ∉ hd :: (K ++ elem :: todo) ++ [tl] → y ∉ dupNodes dup D → m' y = m y
  | _, _, _, _, _, 0, _, _, _, hlen => absurd hlen (Nat.not_lt_zero _)
  | todo, K, D, elem, m, fuel + 1, hl, hD, hdisj, hlen => by
    have hl' : IsDList m hd tl ((K ++ [elem]) ++ todo) := by simpa using hl
    have hnext : list_next m elem = .ok (todo ++ [tl]).head? := by
      rw [list_next, if_pos (by simp [is_interior_of_mem hl (by simp : elem ∈ K ++ elem :: todo)])]
      obtain ⟨b, hb⟩ : ∃ b, (todo ++ [tl]).head? = some b := ⟨_, List.head?_eq_some_head (by simp)⟩
      rw [hb, (hl'.linked_of_split (by rw [← List.cons_append, List.getLast?_append]; rfl) hb).1]
    rcases todo with _ | ⟨x, todo⟩
    · refine ⟨m, ?_, by simpa [uniqueSplit] using hl, by simpa [uniqueSplit] using hD,
        fun _ _ _ => rfl⟩
      rw [uniqueLoop, hnext]
      simp
    have hxt : x ≠ tl := fun h => hl.tail_not_mem (by simp [h])
    have hlen' : todo.length < fuel := by simp at hlen; omega
    rw [uniqueLoop, hnext]
    simp only [List.cons_append, List.head?_cons, Option.some.injEq, hxt, if_false]
    by_cases hinc : WeakOrder.Incomp less elem x
    · -- `x` is equal to `elem`: it goes, and `elem` stays the element kept last
      have hinc' : (!less elem x && !less x elem) = true := hinc
      have hl₂ : IsDList m hd tl ((K ++ [elem]) ++ x :: todo) := by simpa using hl
      obtain ⟨m₁, hm₁, hl₁, hD₁, hdisj₁, hframe₁⟩ := moveDuplicate_spec hl₂ hD (by simpa using hdisj)
      obtain ⟨m', hm', hl', hD', hframe'⟩ := uniqueLoop_spec less todo K (D ++ [x]) elem m₁ fuel
        (by simpa using hl₁) hD₁ (by simpa using hdisj₁) hlen'
      refine ⟨m', ?_, by simpa [uniqueSplit, hinc] using hl', by simpa [uniqueSplit, hinc] using hD',
        fun y hy hy' => ?_⟩
      · rw [if_pos hinc', hm₁]
        exact hm'
      · have hyx : y ≠ x := fun h => hy (by simp [h])
        have hyD : y ∉ dupNodes dup (D ++ [x]) := by
          cases dup with
          | none => exact List.not_mem_nil
          | some d =>
            simp only [dupNodes, List.cons_append, List.mem_cons, List.mem_append] at hy' ⊢
            tauto
        rw [hframe' y (fun h => hy (by simp at h ⊢; tauto)) hyD,
          hframe₁ y (by simpa using hy) hy']
    · -- `x` is kept, and becomes the element kept last
      have hinc' : (!less elem x && !less x elem) = false := Bool.eq_false_iff.mpr hinc
      obtain ⟨m', hm', hl', hD', hframe'⟩ := uniqueLoop_spec less todo (K ++ [elem]) D x m fuel
        (by simpa using hl) hD (by simpa using hdisj) hlen'
      refine ⟨m', ?_, by simpa [uniqueSplit, hinc] using hl', by simpa [uniqueSplit, hinc] using hD',
        fun y hy hy' => hframe' y (by simpa using hy) hy'⟩
      rw [if_neg (by rw [hinc']; exact Bool.false_ne_true)]
      exact hm'

/-- `list_unique` keeps and removes the elements as `uniqueSpec` says, appends the removed ones
to `duplicates` in order, and writes only nodes of the two lists. -/
theorem list_unique_spec (less : ℕ → ℕ → Bool) {l : list} {dup : Option list} {xs D : List ℕ}
    {fuel : ℕ} (hl : IsDList m l.head l.tail xs) (hD : DupsHold m dup D)
    (hdisj : ∀ y ∈ dupNodes dup D, y ∉ l.head :: xs ++ [l.tail]) (hfuel : xs.length < fuel) :
    ∃ m', list_unique fuel m l dup less = some (.ok m') ∧
      IsDList m' l.head l.tail (uniqueSpec less xs).1 ∧
      DupsHold m' dup (D ++ (uniqueSpec less xs).2) ∧
      ∀ y, y ∉ l.head :: xs ++ [l.tail] → y ∉ dupNodes dup D → m' y = m y := by
  rcases xs with _ | ⟨e, xs⟩
  · exact ⟨m, by rw [list_unique, if_pos ((list_empty_iff hl).mpr rfl)], hl,
      by simpa [uniqueSpec] using hD, fun _ _ _ => rfl⟩
  have hl' : IsDList m l.head l.tail ([] ++ e :: xs) := hl
  obtain ⟨m', hm', hl'', hD', hframe⟩ :=
    uniqueLoop_spec less xs [] D e m fuel hl' hD hdisj (by simp at hfuel; omega)
  refine ⟨m', ?_, hl'', hD', hframe⟩
  rw [list_unique, if_neg (by rw [list_empty_iff hl]; simp), list_begin, hl.head_next]
  exact hm'

end Unique

end Pintos
