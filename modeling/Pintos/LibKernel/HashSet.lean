import Mathlib.Data.Finset.Card
import Pintos.Lib.KeySet
import Pintos.LibKernel.Hash

/-!
# The hash table is a set

`HashInv` is the representation invariant of a `struct hash`: the bucket count is a power of
two of at least four and is the number of buckets, every element sits in the bucket
`find_bucket` names (`Placed`), no element is in the table twice, and `elem_cnt` counts the
elements. Each function that changes the table keeps it: the pushes and removals of
`insert_elem` and `remove_elem`, and `rehash`, which moves every element into a new array or,
when the bucket count stays or `malloc` fails, leaves the table as it was (`rehash_spec`).

Over it the table refines `KeySet`, the set searched by "neither is less than the other", for
`less` and `hash` functions that give such elements one hash (`Compat`). `Refines h S` is the
invariant with the table's elements making up `S`; every call the caller may make keeps it and
answers as `KeySet.Step` allows (`Refines.step`), so by `Lts.Run.simulate` every run of calls
from `hash_init` is a run of the set (`hash_refines_set`).
-/

set_option linter.style.nameCheck false

namespace Pintos

variable {α : Type*}

/-- The elements of the table, bucket by bucket. -/
def hash.elems (h : Pintos.hash α) : List α := h.buckets.flatten

/-- Every element of bucket `i` belongs there. -/
def Placed (h : hash α) : Prop := ∀ i, ∀ e ∈ h.buckets.getD i [], find_bucket h e = i

/-- The representation invariant of a table. -/
structure HashInv (h : hash α) : Prop where
  pow : h.bucket_cnt.isPowerOfTwo
  four_le : 4 ≤ h.bucket_cnt
  length : h.buckets.length = h.bucket_cnt
  placed : Placed h
  nodup : h.elems.Nodup
  count : h.elem_cnt = h.elems.length

theorem mem_elems {h : hash α} {e : α} : e ∈ h.elems ↔ ∃ i, e ∈ h.buckets.getD i [] := by
  simp only [hash.elems, List.mem_flatten, List.getD_eq_getElem?_getD]
  constructor
  · rintro ⟨b, hb, he⟩
    obtain ⟨i, hi⟩ := List.mem_iff_getElem?.mp hb
    exact ⟨i, by rw [hi]; exact he⟩
  · rintro ⟨i, hi⟩
    cases hb : h.buckets[i]? with
    | none => rw [hb] at hi; exact absurd hi List.not_mem_nil
    | some b => rw [hb] at hi; exact ⟨b, List.mem_of_getElem? hb, hi⟩

/-- A placed element is in the bucket `find_bucket` names. -/
theorem Placed.mem_bucket {h : hash α} (hp : Placed h) {e : α} (he : e ∈ h.elems) :
    e ∈ h.buckets.getD (find_bucket h e) [] := by
  obtain ⟨i, hi⟩ := mem_elems.mp he
  rwa [hp i e hi]

/-! ## Pushing on a bucket -/

/-- Pushing `e` on one bucket adds `e` to the elements. -/
theorem flatten_modify_cons_perm {l : List (List α)} {i : ℕ} (hi : i < l.length) (e : α) :
    (l.modify i (e :: ·)).flatten.Perm (e :: l.flatten) := by
  have hsplit : l = l.take i ++ l[i] :: l.drop (i + 1) := by
    rw [← List.drop_eq_getElem_cons hi, List.take_append_drop]
  rw [List.modify_eq_take_cons_drop hi]
  conv => rhs; rw [hsplit]
  simp only [List.flatten_append, List.flatten_cons, List.cons_append]
  exact List.perm_middle

theorem getD_modify_cons (l : List (List α)) (i j : ℕ) (e : α) {x : α}
    (hx : x ∈ (l.modify i (e :: ·)).getD j []) : (i = j ∧ x = e) ∨ x ∈ l.getD j [] := by
  rw [List.getD_eq_getElem?_getD, List.getElem?_modify] at hx
  rw [List.getD_eq_getElem?_getD]
  split_ifs at hx with hij
  · cases hb : l[j]? with
    | none => rw [hb] at hx; exact absurd hx List.not_mem_nil
    | some b =>
      rw [hb] at hx
      rcases List.mem_cons.mp hx with rfl | hx
      · exact .inl ⟨hij, rfl⟩
      · exact .inr hx
  · exact .inr (by simpa using hx)

/-- An element pushed on the bucket it belongs in is placed. -/
theorem Placed.push {h : hash α} (hp : Placed h) (e : α) :
    Placed { h with buckets := h.buckets.modify (find_bucket h e) (e :: ·) } := by
  intro j x hx
  rcases getD_modify_cons _ _ _ e hx with ⟨rfl, rfl⟩ | hx
  · rfl
  · exact hp j x hx

/-- `h'` holds the elements of `h`, with its functions and its count. -/
structure SameContents (h h' : hash α) : Prop where
  hash_eq : h'.hash = h.hash
  less_eq : h'.less = h.less
  elem_cnt_eq : h'.elem_cnt = h.elem_cnt
  perm : h'.elems.Perm h.elems

theorem SameContents.refl (h : hash α) : SameContents h h :=
  ⟨rfl, rfl, rfl, List.Perm.refl _⟩

/-! ## `rehash` -/

/-- The inner moving loop changes nothing but the buckets. -/
theorem moveBucket_frame : ∀ (es : List α) (h : hash α),
    moveBucket h es = { h with buckets := (moveBucket h es).buckets }
  | [], _ => rfl
  | e :: es, h => by
    rw [moveBucket]
    conv_lhs => rw [moveBucket_frame es]

/-- The inner loop pushes each element of the old bucket on the bucket it belongs in. The
induction is on the old bucket, over every table, since each push changes the table. -/
theorem moveBucket_spec : ∀ (es : List α) {h : hash α}, h.bucket_cnt.isPowerOfTwo →
    h.buckets.length = h.bucket_cnt → Placed h →
    (moveBucket h es).buckets.length = h.bucket_cnt ∧ Placed (moveBucket h es) ∧
      (moveBucket h es).elems.Perm (es ++ h.elems)
  | [], _, _, hlen, hp => ⟨hlen, hp, List.Perm.refl _⟩
  | e :: es, h, hpow, hlen, hp => by
    set h₁ : hash α := { h with buckets := h.buckets.modify (find_bucket h e) (e :: ·) }
    have hi : find_bucket h e < h.buckets.length := hlen ▸ find_bucket_lt h hpow e
    have hlen₁ : h₁.buckets.length = h.bucket_cnt := by
      rw [List.length_modify, hlen]
    obtain ⟨hlen', hp', hperm⟩ := moveBucket_spec es (h := h₁) hpow hlen₁ (hp.push e)
    refine ⟨hlen', hp', ?_⟩
    calc (moveBucket h (e :: es)).elems
        _ = (moveBucket h₁ es).elems := rfl
        List.Perm _ (es ++ h₁.elems) := hperm
        List.Perm _ (es ++ e :: h.elems) := (flatten_modify_cons_perm hi e).append_left es
        List.Perm _ ((e :: es) ++ h.elems) := List.perm_middle

theorem moveBuckets_frame : ∀ (bs : List (List α)) (h : hash α),
    moveBuckets h bs = { h with buckets := (moveBuckets h bs).buckets }
  | [], _ => rfl
  | b :: bs, h => by
    rw [moveBuckets]
    conv_lhs => rw [moveBuckets_frame bs]
    generalize (moveBuckets (moveBucket h b) bs).buckets = buckets
    rw [moveBucket_frame b h]

/-- The outer loop moves every element of every old bucket. -/
theorem moveBuckets_spec : ∀ (bs : List (List α)) {h : hash α}, h.bucket_cnt.isPowerOfTwo →
    h.buckets.length = h.bucket_cnt → Placed h →
    (moveBuckets h bs).buckets.length = h.bucket_cnt ∧ Placed (moveBuckets h bs) ∧
      (moveBuckets h bs).elems.Perm (bs.flatten ++ h.elems)
  | [], _, _, hlen, hp => ⟨hlen, hp, List.Perm.refl _⟩
  | b :: bs, h, hpow, hlen, hp => by
    obtain ⟨hlen₁, hp₁, hperm₁⟩ := moveBucket_spec b hpow hlen hp
    have hcnt : (moveBucket h b).bucket_cnt = h.bucket_cnt := by rw [moveBucket_frame b h]
    obtain ⟨hlen', hp', hperm⟩ := moveBuckets_spec bs (hcnt ▸ hpow) (hcnt ▸ hlen₁) hp₁
    refine ⟨hcnt ▸ hlen', hp', ?_⟩
    calc (moveBuckets h (b :: bs)).elems
        _ = (moveBuckets (moveBucket h b) bs).elems := rfl
        List.Perm _ (bs.flatten ++ (moveBucket h b).elems) := hperm
        List.Perm _ (bs.flatten ++ (b ++ h.elems)) := hperm₁.append_left _
        List.Perm _ ((b :: bs).flatten ++ h.elems) := by
          rw [List.flatten_cons, ← List.append_assoc]
          exact List.perm_append_comm.append_right _

/-- `rehash` keeps the invariant and the elements: it leaves the table as it was when the bucket
count would not change or `malloc` fails, and otherwise moves every element into an array of
`idealBucketCount` buckets. -/
theorem rehash_spec {h : hash α} (hinv : HashInv h) (alloc : Bool) :
    HashInv (rehash h alloc) ∧ SameContents h (rehash h alloc) := by
  dsimp only [rehash]
  split_ifs
  · exact ⟨hinv, SameContents.refl h⟩
  · exact ⟨hinv, SameContents.refl h⟩
  · set n := idealBucketCount h.elem_cnt
    set h₀ : hash α := { h with buckets := List.replicate n [], bucket_cnt := n }
    have hpow : n.isPowerOfTwo := idealBucketCount_isPowerOfTwo _
    have hp₀ : Placed h₀ := by
      intro i e he
      rw [List.getD_eq_getElem?_getD, List.getElem?_replicate] at he
      split_ifs at he <;> exact absurd he List.not_mem_nil
    obtain ⟨hlen, hp, hperm⟩ :=
      moveBuckets_spec h.buckets (h := h₀) hpow List.length_replicate hp₀
    have hperm' : (moveBuckets h₀ h.buckets).elems.Perm h.elems := by
      refine hperm.trans ?_
      simp [h₀, hash.elems]
    rw [moveBuckets_frame h.buckets h₀] at hlen hp hperm' ⊢
    refine ⟨⟨hpow, four_le_idealBucketCount _, hlen, hp, hperm'.nodup_iff.mpr hinv.nodup, ?_⟩,
      ⟨rfl, rfl, rfl, hperm'⟩⟩
    exact hinv.count.trans hperm'.length_eq.symm

/-! ## Finding -/

/-- What `find_elem` answers: an element of the bucket that is neither less than `e` nor
greater. -/
theorem find_elem_some {h : hash α} {i : ℕ} {e x : α} (hf : find_elem h i e = some x) :
    x ∈ h.buckets.getD i [] ∧ WeakOrder.Incomp h.less x e :=
  ⟨List.mem_of_find?_eq_some hf, by have hp := List.find?_some hf; exact hp⟩

/-- `less` and `hash` give one hash to elements neither of which is less than the other. -/
def Compat (hash : α → UInt32) (less : α → α → Bool) : Prop :=
  ∀ a b, WeakOrder.Incomp less a b → hash a = hash b

/-- Where `find_elem` finds nothing in the bucket of `e`, no element of the table is equal to
`e`: an equal element has the hash of `e`, so it sits in that bucket. -/
theorem find_elem_eq_none {h : hash α} (hp : Placed h) (hc : Compat h.hash h.less) {e : α}
    (hf : find_elem h (find_bucket h e) e = none) :
    ∀ x ∈ h.elems, ¬ WeakOrder.Incomp h.less x e := by
  intro x hx hxe
  have hbucket : find_bucket h x = find_bucket h e := by
    unfold find_bucket
    rw [hc x e hxe]
  have hmem := hp.mem_bucket hx
  rw [hbucket] at hmem
  exact List.find?_eq_none.mp hf x hmem hxe

/-! ## Inserting and clearing -/

/-- `insert_elem` on the bucket an element belongs in adds it to a table that lacks it. -/
theorem insert_elem_spec {h : hash α} (hinv : HashInv h) {e : α} (he : e ∉ h.elems) :
    HashInv (insert_elem h (find_bucket h e) e) ∧
      (insert_elem h (find_bucket h e) e).elems.Perm (e :: h.elems) := by
  have hi : find_bucket h e < h.buckets.length := hinv.length ▸ find_bucket_lt h hinv.pow e
  have hperm : (insert_elem h (find_bucket h e) e).elems.Perm (e :: h.elems) :=
    flatten_modify_cons_perm hi e
  have hnd : (e :: h.elems).Nodup := List.nodup_cons.mpr ⟨he, hinv.nodup⟩
  refine ⟨⟨hinv.pow, hinv.four_le, ?_, hinv.placed.push e, hperm.nodup_iff.mpr hnd, ?_⟩,
    hperm⟩
  · exact (List.length_modify _ _ _).trans hinv.length
  · show h.elem_cnt + 1 = _
    rw [hperm.length_eq, hinv.count, List.length_cons]

/-- `hash_clear` empties every bucket of a table of the right shape. -/
theorem hash_clear_spec {h : hash α} (hpow : h.bucket_cnt.isPowerOfTwo) (h4 : 4 ≤ h.bucket_cnt)
    (hlen : h.buckets.length = h.bucket_cnt) (destructor : Bool) :
    HashInv (hash_clear h destructor).1 ∧ (hash_clear h destructor).1.elems = [] := by
  have hnil : (hash_clear h destructor).1.elems = [] := by
    simp [hash_clear, hash.elems]
  refine ⟨⟨hpow, h4, (List.length_map _).trans hlen, fun i e he => ?_, hnil ▸ List.nodup_nil,
    hnil ▸ rfl⟩, hnil⟩
  exact absurd (mem_elems.mpr ⟨i, he⟩) (hnil ▸ List.not_mem_nil)

/-! ## Unlinking -/

variable [DecidableEq α]

theorem getD_map_erase (l : List (List α)) (i : ℕ) (e : α) :
    (l.map (·.erase e)).getD i [] = (l.getD i []).erase e := by
  simp only [List.getD_eq_getElem?_getD, List.getElem?_map]
  cases l[i]? <;> rfl

/-- Unlinking an element that is in at most one bucket takes it out of the elements. -/
theorem flatten_map_erase : ∀ {l : List (List α)}, l.flatten.Nodup → ∀ e : α,
    (l.map (·.erase e)).flatten = l.flatten.erase e
  | [], _, _ => rfl
  | b :: l, hnd, e => by
    rw [List.flatten_cons] at hnd
    rw [List.map_cons, List.flatten_cons, List.flatten_cons,
      flatten_map_erase (List.nodup_append.mp hnd).2.1 e]
    by_cases he : e ∈ b
    · have hl : e ∉ l.flatten := fun h' => (List.nodup_append.mp hnd).2.2 e he e h' rfl
      rw [List.erase_append_left _ he, List.erase_of_not_mem hl]
    · rw [List.erase_of_not_mem he, List.erase_append_right _ he]

theorem Placed.erase {h : hash α} (hp : Placed h) (e : α) :
    Placed { h with buckets := h.buckets.map (·.erase e) } := by
  intro j x hx
  rw [getD_map_erase] at hx
  exact hp j x (List.mem_of_mem_erase hx)

/-- `remove_elem` of an element of the table takes it out. -/
theorem remove_elem_spec {h : hash α} (hinv : HashInv h) {x : α} (hx : x ∈ h.elems) :
    HashInv (remove_elem h x) ∧ (remove_elem h x).elems = h.elems.erase x := by
  have helems : (remove_elem h x).elems = h.elems.erase x := flatten_map_erase hinv.nodup x
  refine ⟨⟨hinv.pow, hinv.four_le, ?_, hinv.placed.erase x, ?_, ?_⟩, helems⟩
  · exact (List.length_map _).trans hinv.length
  · exact helems ▸ hinv.nodup.erase x
  · show h.elem_cnt - 1 = _
    rw [helems, List.length_erase_of_mem hx, hinv.count]

/-! ## The set the table holds -/

/-- `h` is a valid table with the functions `hash` and `less`, holding the set `S`. -/
structure Refines (hash : α → UInt32) (less : α → α → Bool) (h : Pintos.hash α)
    (S : Finset α) : Prop where
  inv : HashInv h
  hash_eq : h.hash = hash
  less_eq : h.less = less
  elems_eq : h.elems.toFinset = S

/-- A call the caller may make: an element inserted is in no table. -/
def FreshCall (h : hash α) : KeySet.Op α → Prop
  | .insert new | .replace new => new ∉ h.elems
  | _ => True

/-- The function a call names, with the outcome of `rehash`'s `malloc` and the destructor
`hash_clear` is given. -/
def hash.call (h : Pintos.hash α) (alloc destructor : Bool) :
    KeySet.Op α → Pintos.hash α × Option α
  | .insert new => hash_insert h new alloc
  | .replace new => hash_replace h new alloc
  | .delete e => hash_delete h e alloc
  | .find e => (h, hash_find h e)
  | .clear => ((hash_clear h destructor).1, none)

/-- A call the caller may make, and its answer, for some outcome of the allocation. -/
def hashStep (h : hash α) (c : KeySet.Op α × Option α) (h' : hash α) : Prop :=
  FreshCall h c.1 ∧ ∃ alloc destructor, h.call alloc destructor c.1 = (h', c.2)

/-- The relation the table searches by: neither element is less than the other. -/
def ElemEq (less : α → α → Bool) (x e : α) : Prop := WeakOrder.Incomp less x e = true

section Refines

variable {hash : α → UInt32} {less : α → α → Bool} {h h' : Pintos.hash α} {S : Finset α}

namespace Refines

theorem mem_iff (hR : Refines hash less h S) {x : α} : x ∈ h.elems ↔ x ∈ S := by
  rw [← hR.elems_eq, List.mem_toFinset]

theorem size (hR : Refines hash less h S) : hash_size h = S.card := by
  rw [← hR.elems_eq, List.toFinset_card_of_nodup hR.inv.nodup, ← hR.inv.count]
  rfl

theorem of_sameContents (hR : Refines hash less h S) (hinv : HashInv h')
    (hk : SameContents h h') :
    Refines hash less h' S :=
  ⟨hinv, hk.hash_eq.trans hR.hash_eq, hk.less_eq.trans hR.less_eq,
    (List.toFinset_eq_of_perm _ _ hk.perm).trans hR.elems_eq⟩

theorem rehash (hR : Refines hash less h S) (alloc : Bool) :
    Refines hash less (Pintos.rehash h alloc) S :=
  hR.of_sameContents (rehash_spec hR.inv alloc).1 (rehash_spec hR.inv alloc).2

theorem insert_elem (hR : Refines hash less h S) {e : α} (he : e ∉ h.elems) :
    Refines hash less (Pintos.insert_elem h (find_bucket h e) e) (insert e S) := by
  obtain ⟨hinv, hperm⟩ := insert_elem_spec hR.inv he
  refine ⟨hinv, hR.hash_eq, hR.less_eq, ?_⟩
  rw [List.toFinset_eq_of_perm _ _ hperm, List.toFinset_cons, hR.elems_eq]

theorem remove_elem (hR : Refines hash less h S) {x : α} (hx : x ∈ h.elems) :
    Refines hash less (Pintos.remove_elem h x) (S.erase x) := by
  obtain ⟨hinv, helems⟩ := remove_elem_spec hR.inv hx
  refine ⟨hinv, hR.hash_eq, hR.less_eq, ?_⟩
  ext y
  rw [helems, List.mem_toFinset, hR.inv.nodup.mem_erase_iff, Finset.mem_erase, ← hR.elems_eq,
    List.mem_toFinset]

/-- `find_elem` on the bucket of `e` answers as a lookup of the set must. -/
theorem find_elem_some (hR : Refines hash less h S) {e x : α}
    (hf : find_elem h (find_bucket h e) e = some x) : x ∈ S ∧ ElemEq less x e := by
  obtain ⟨hx, hxe⟩ := Pintos.find_elem_some hf
  rw [← hR.less_eq]
  exact ⟨hR.mem_iff.mp (mem_elems.mpr ⟨_, hx⟩), hxe⟩

theorem find_elem_none (hR : Refines hash less h S) (hc : Compat hash less) {e : α}
    (hf : find_elem h (find_bucket h e) e = none) : ∀ x ∈ S, ¬ ElemEq less x e := by
  intro x hx
  have hc' : Compat h.hash h.less := hR.hash_eq ▸ hR.less_eq ▸ hc
  exact hR.less_eq ▸ find_elem_eq_none hR.inv.placed hc' hf x (hR.mem_iff.mpr hx)

/-! ### One call -/

variable (hc : Compat hash less)
include hc

theorem on_insert (hR : Refines hash less h S) {new : α} (hnew : new ∉ h.elems) (alloc : Bool) :
    ∃ S', KeySet.Step (ElemEq less) S (.insert new, (hash_insert h new alloc).2) S' ∧
      Refines hash less (hash_insert h new alloc).1 S' := by
  cases hf : find_elem h (find_bucket h new) new with
  | none =>
    refine ⟨insert new S, ?_, ?_⟩
    · simp only [hash_insert, hf]
      exact .insert_none (hR.find_elem_none hc hf)
    · simp only [hash_insert, hf, Option.isNone_none, if_true]
      exact (hR.insert_elem hnew).rehash alloc
  | some x =>
    obtain ⟨hx, hxe⟩ := hR.find_elem_some hf
    refine ⟨S, ?_, ?_⟩
    · simp only [hash_insert, hf]
      exact .insert_some hx hxe
    · simp only [hash_insert, hf, Option.isNone_some, Bool.false_eq_true, if_false]
      exact hR.rehash alloc

/-- `hash_replace` takes out the element it answers and puts `new` in the bucket it found it
in, which is the bucket of `new` in the table without it too. -/
theorem on_replace (hR : Refines hash less h S) {new : α} (hnew : new ∉ h.elems) (alloc : Bool) :
    ∃ S', KeySet.Step (ElemEq less) S (.replace new, (hash_replace h new alloc).2) S' ∧
      Refines hash less (hash_replace h new alloc).1 S' := by
  cases hf : find_elem h (find_bucket h new) new with
  | none =>
    refine ⟨insert new S, ?_, ?_⟩
    · simp only [hash_replace, hf]
      exact .replace_none (hR.find_elem_none hc hf)
    · simp only [hash_replace, hf]
      exact (hR.insert_elem hnew).rehash alloc
  | some x =>
    obtain ⟨hx, hxe⟩ := hR.find_elem_some hf
    have hxh : x ∈ h.elems := hR.mem_iff.mpr hx
    have hR₁ := hR.remove_elem hxh
    have hnew₁ : new ∉ (Pintos.remove_elem h x).elems := by
      rw [(remove_elem_spec hR.inv hxh).2]
      exact fun hm => hnew (List.mem_of_mem_erase hm)
    refine ⟨insert new (S.erase x), ?_, ?_⟩
    · simp only [hash_replace, hf]
      exact .replace_some hx hxe
    · simp only [hash_replace, hf]
      exact (hR₁.insert_elem hnew₁).rehash alloc

theorem on_delete (hR : Refines hash less h S) (e : α) (alloc : Bool) :
    ∃ S', KeySet.Step (ElemEq less) S (.delete e, (hash_delete h e alloc).2) S' ∧
      Refines hash less (hash_delete h e alloc).1 S' := by
  cases hf : find_elem h (find_bucket h e) e with
  | none =>
    refine ⟨S, ?_, ?_⟩
    · simp only [hash_delete, hf]
      exact .delete_none (hR.find_elem_none hc hf)
    · simp only [hash_delete, hf]
      exact hR
  | some x =>
    obtain ⟨hx, hxe⟩ := hR.find_elem_some hf
    have hxh : x ∈ h.elems := hR.mem_iff.mpr hx
    refine ⟨S.erase x, ?_, ?_⟩
    · simp only [hash_delete, hf]
      exact .delete_some hx hxe
    · simp only [hash_delete, hf]
      exact (hR.remove_elem hxh).rehash alloc

theorem on_find (hR : Refines hash less h S) (e : α) :
    KeySet.Step (ElemEq less) S (.find e, hash_find h e) S := by
  cases hf : find_elem h (find_bucket h e) e with
  | none =>
    rw [hash_find, hf]
    exact .find_none (hR.find_elem_none hc hf)
  | some x =>
    obtain ⟨hx, hxe⟩ := hR.find_elem_some hf
    rw [hash_find, hf]
    exact .find_some hx hxe

omit hc in
theorem on_clear (hR : Refines hash less h S) (destructor : Bool) :
    Refines hash less (hash_clear h destructor).1 ∅ := by
  obtain ⟨hinv, hnil⟩ := hash_clear_spec hR.inv.pow hR.inv.four_le hR.inv.length destructor
  exact ⟨hinv, hR.hash_eq, hR.less_eq, by rw [hnil]; rfl⟩

/-- Every call the caller may make answers as the set must, and leaves a table holding the set
the call leaves. -/
theorem step (hR : Refines hash less h S) {c : KeySet.Op α × Option α} (hs : hashStep h c h') :
    ∃ S', KeySet.Step (ElemEq less) S c S' ∧ Refines hash less h' S' := by
  obtain ⟨op, r⟩ := c
  obtain ⟨hfresh, alloc, destructor, hcall⟩ := hs
  cases op with
  | insert new =>
    obtain ⟨S', hS', hR'⟩ := hR.on_insert hc hfresh alloc
    rw [show hash_insert h new alloc = (h', r) from hcall] at hS' hR'
    exact ⟨S', hS', hR'⟩
  | replace new =>
    obtain ⟨S', hS', hR'⟩ := hR.on_replace hc hfresh alloc
    rw [show hash_replace h new alloc = (h', r) from hcall] at hS' hR'
    exact ⟨S', hS', hR'⟩
  | delete e =>
    obtain ⟨S', hS', hR'⟩ := hR.on_delete hc e alloc
    rw [show hash_delete h e alloc = (h', r) from hcall] at hS' hR'
    exact ⟨S', hS', hR'⟩
  | find e =>
    obtain ⟨rfl, rfl⟩ := Prod.mk.inj (show (h, hash_find h e) = (h', r) from hcall)
    exact ⟨S, hR.on_find hc e, hR⟩
  | clear =>
    obtain ⟨rfl, rfl⟩ :=
      Prod.mk.inj (show ((hash_clear h destructor).1, none) = (h', r) from hcall)
    exact ⟨∅, .clear, hR.on_clear destructor⟩

omit hc in
/-- The table `hash_init` makes holds nothing. -/
theorem init {alloc : Bool} (hinit : hash_init hash less alloc = some h) :
    Refines hash less h ∅ := by
  unfold hash_init at hinit
  split at hinit
  · obtain ⟨hinv, hnil⟩ := hash_clear_spec (h := ⟨0, 4, List.replicate 4 [], hash, less⟩)
      ⟨2, rfl⟩ le_rfl List.length_replicate false
    rw [Option.some.injEq] at hinit
    subst hinit
    exact ⟨hinv, rfl, rfl, by rw [hnil]; rfl⟩
  · exact absurd hinit (by simp)

end Refines

/-- Every run of calls from `hash_init` is a run of the set it refines: each answer is one the
set allows, and the table holds the set at the end. -/
theorem hash_refines_set (hc : Compat hash less) {alloc : Bool} {h₀ : Pintos.hash α}
    {cs : List (KeySet.Op α × Option α)} (hinit : hash_init hash less alloc = some h₀)
    (hrun : Lts.Run hashStep h₀ cs h) :
    ∃ S, Lts.Run (KeySet.Step (ElemEq less)) ∅ cs S ∧ Refines hash less h S :=
  Lts.Run.simulate (fun hs hR => hR.step hc hs) hrun (Refines.init hinit)

end Refines

/-! ## Runs of insertions -/

/-- `hash_insert` of each element of `es` in turn, with every allocation succeeding. -/
def hash_insert_all (h : hash α) (es : List α) : hash α :=
  es.foldl (fun h e => (hash_insert h e true).1) h

/-- Each element of `es` is new to the table it is inserted in and finds no equal element. -/
def insertsFresh : hash α → List α → Bool
  | _, [] => true
  | h, e :: es =>
    !h.elems.contains e && (hash_insert h e true).2.isNone && insertsFresh (hash_insert h e true).1 es

/-- Fresh insertions, each answered by `none`, are a run of calls. -/
theorem run_hash_insert_all :
    ∀ {h : hash α} {es : List α}, insertsFresh h es = true →
      Lts.Run hashStep h (es.map fun e => (.insert e, none)) (hash_insert_all h es)
  | h, [], _ => .nil h
  | h, e :: es, hf => by
    simp only [insertsFresh, Bool.and_eq_true, Bool.not_eq_true', Option.isNone_iff_eq_none] at hf
    obtain ⟨⟨hnew, hnone⟩, hrest⟩ := hf
    have hfresh : e ∉ h.elems := by simpa using hnew
    refine .cons ⟨hfresh, true, false, ?_⟩ (run_hash_insert_all hrest)
    show hash_insert h e true = ((hash_insert h e true).1, none)
    rw [← hnone]

/-! ## A table of naturals -/

/-- Naturals hashed by their value and ordered by `<`: equal numbers have one hash. -/
theorem nat_compat : Compat (fun n : ℕ => n.toUInt32) (fun a b => decide (a < b)) := by
  intro a b hab
  simp only [WeakOrder.Incomp, Bool.and_eq_true, Bool.not_eq_true', decide_eq_false_iff_not] at hab
  rw [show a = b by omega]

/-- The table of naturals that `hash_init` sets up. -/
def emptyNatTable : hash ℕ :=
  (hash_clear ⟨0, 4, List.replicate 4 [], fun n => n.toUInt32, fun a b => decide (a < b)⟩ false).1

/-- The numbers `0, 4, ..., 60`. -/
def natInserts : List ℕ := (List.range 16).map (4 * ·)

def natSet : Finset ℕ := natInserts.toFinset

/-- `natInserts` inserted from `hash_init`: the numbers share the first of the four buckets until
the sixteenth insertion rehashes the table into eight, where they fill buckets 0 and 4. -/
def natTable : hash ℕ := hash_insert_all emptyNatTable natInserts

example : natTable.bucket_cnt = 8 ∧ (natTable.buckets.getD 0 []).length = 8 ∧
    (natTable.buckets.getD 4 []).length = 8 := by decide +kernel

theorem natTable_run :
    Lts.Run hashStep emptyNatTable (natInserts.map fun e => (.insert e, none)) natTable :=
  run_hash_insert_all (by decide +kernel)

theorem natTable_refines :
    Refines (fun n : ℕ => n.toUInt32) (fun a b => decide (a < b)) natTable natSet := by
  have hinit : hash_init (fun n : ℕ => n.toUInt32) (fun a b => decide (a < b)) true =
      some emptyNatTable := rfl
  obtain ⟨S, hS, hR⟩ := hash_refines_set nat_compat hinit natTable_run
  rw [KeySet.Run.inserts_none hS, Finset.empty_union] at hR
  exact hR

end Pintos
