import Pintos.Threads.Vaddr

/-!
# Page directories (`userprog/pagedir.c`)

A page directory is modelled as the map from user pages to their page-table entries, together
with the page-directory slots (`pd_no`) that have a page table; the two-level layout of
`pde`/`pte` words is below this level. Every entry lies in an existing page table (`wf`), so a
read through `lookup_page` is `Pagedir.entry`, the zero entry where nothing was written.

`pagedir_set_page` may have to allocate a page table from the kernel pool, which can fail:
whether a page is available is its argument `ptPage`. The frames `pagedir_destroy` returns to
the user pool are `Pagedir.presentPages`.
-/

namespace Pintos

/-- A page-table entry: its frame (`pte_get_page`) and the `PTE_P`, `PTE_W`, `PTE_A`, `PTE_D`
bits. -/
structure Pte where
  kpage : Nat
  present : Bool
  writable : Bool
  accessed : Bool
  dirty : Bool
  deriving DecidableEq, Repr

def Pte.zero : Pte := ⟨0, false, false, false, false⟩

/-- `pte_create_user (kpage, writable)`. -/
def pte_create_user (kpage : Nat) (writable : Bool) : Pte := ⟨kpage, true, writable, false, false⟩

namespace Pagedir

/-- The page table that holds the entry of `va`. -/
def pd_no (va : Nat) : Nat := va / (PGSIZE * 1024)

end Pagedir

/-- A page directory: the entries written for user pages, keyed by page, and the `pd_no` of
every page table. -/
structure Pagedir where
  ptes : List (Nat × Pte)
  tables : List Nat
  wf : ∀ e ∈ ptes, Pagedir.pd_no e.1 ∈ tables

namespace Pagedir

/-- What `pagedir_create` returns: no user mappings. -/
def empty : Pagedir := ⟨[], [], fun _ h => nomatch h⟩

/-- The entry of `va`'s page. -/
def entry (pd : Pagedir) (va : Nat) : Pte := (pd.ptes.lookup (pg_round_down va)).getD Pte.zero

/-- `va`'s page table exists. -/
def hasTable (pd : Pagedir) (va : Nat) : Prop := pd_no va ∈ pd.tables

instance (pd : Pagedir) (va : Nat) : Decidable (pd.hasTable va) :=
  inferInstanceAs (Decidable (pd_no va ∈ pd.tables))

theorem pd_no_pg_round_down (va : Nat) : pd_no (pg_round_down va) = pd_no va := by
  unfold pd_no pg_round_down
  rw [← Nat.div_div_eq_div_mul, ← Nat.div_div_eq_div_mul, Nat.mul_div_cancel _ (by decide)]

/-- Write the entry of `va`'s page, whose page table exists. -/
def write (pd : Pagedir) (va : Nat) (pte : Pte) (h : pd.hasTable va) : Pagedir where
  ptes := (pg_round_down va, pte) :: pd.ptes.filter (·.1 ≠ pg_round_down va)
  tables := pd.tables
  wf := by
    intro e he
    rcases List.mem_cons.mp he with rfl | he
    · rw [pd_no_pg_round_down]; exact h
    · exact pd.wf e (List.mem_filter.mp he).1

/-- Add the page table of `va`. -/
def addTable (pd : Pagedir) (va : Nat) : Pagedir where
  ptes := pd.ptes
  tables := pd_no va :: pd.tables
  wf := fun e he => List.mem_cons_of_mem _ (pd.wf e he)

theorem hasTable_addTable (pd : Pagedir) (va : Nat) : (pd.addTable va).hasTable va :=
  List.mem_cons_self

/-- The frames of the present entries, which `pagedir_destroy` frees. -/
def presentPages (pd : Pagedir) : List Nat :=
  (pd.ptes.filter (·.2.present)).map (·.2.kpage)

end Pagedir

open Pagedir

/-- `pagedir_get_page (pd, uaddr)`: the kernel address of `uaddr`, or `NULL`. -/
def pagedir_get_page (pd : Pagedir) (uaddr : Nat) : Option Nat :=
  if (pd.entry uaddr).present then some ((pd.entry uaddr).kpage + pg_ofs uaddr) else none

/-- `pagedir_set_page (pd, upage, kpage, writable)`. When `upage`'s page table is missing it
is created with a kernel page, if `ptPage` says there is one. `none` is the failed `ASSERT`
that `upage` is not mapped yet; `some (false, pd)` is the allocation failure. -/
def pagedir_set_page (pd : Pagedir) (upage kpage : Nat) (writable ptPage : Bool) :
    Option (Bool × Pagedir) :=
  if h : pd.hasTable upage then
    if (pd.entry upage).present then none
    else some (true, pd.write upage (pte_create_user kpage writable) h)
  else if ptPage then
    some (true, (pd.addTable upage).write upage (pte_create_user kpage writable)
      (hasTable_addTable pd upage))
  else some (false, pd)

/-- `pagedir_clear_page (pd, upage)`: clear `PTE_P`, keeping the other bits. -/
def pagedir_clear_page (pd : Pagedir) (upage : Nat) : Pagedir :=
  if h : pd.hasTable upage ∧ (pd.entry upage).present = true then
    pd.write upage { pd.entry upage with present := false } h.1
  else pd

/-- `pagedir_is_dirty`. -/
def pagedir_is_dirty (pd : Pagedir) (vpage : Nat) : Bool := (pd.entry vpage).dirty

/-- `pagedir_set_dirty`. -/
def pagedir_set_dirty (pd : Pagedir) (vpage : Nat) (dirty : Bool) : Pagedir :=
  if h : pd.hasTable vpage then pd.write vpage { pd.entry vpage with dirty := dirty } h else pd

/-- `pagedir_is_accessed`. -/
def pagedir_is_accessed (pd : Pagedir) (vpage : Nat) : Bool := (pd.entry vpage).accessed

/-- `pagedir_set_accessed`. -/
def pagedir_set_accessed (pd : Pagedir) (vpage : Nat) (accessed : Bool) : Pagedir :=
  if h : pd.hasTable vpage then pd.write vpage { pd.entry vpage with accessed := accessed } h
  else pd

/-! ## Spec lemmas -/

namespace Pagedir

private theorem lookup_cons_eq (l : List (Nat × Pte)) (k a : Nat) (v : Pte) :
    ((k, v) :: l).lookup a = if a = k then some v else l.lookup a := by
  by_cases ha : a = k
  · subst ha
    simp
  · have hb : (a == k) = false := by simp [ha]
    simp [List.lookup_cons, hb, ha]

private theorem lookup_filter_ne (l : List (Nat × Pte)) (k a : Nat) :
    (l.filter (·.1 ≠ k)).lookup a = if a = k then none else l.lookup a := by
  induction l with
  | nil => simp
  | cons e l ih =>
    obtain ⟨k', v⟩ := e
    rw [lookup_cons_eq]
    by_cases hk : k' = k
    · subst hk
      simp only [List.filter_cons, ne_eq, not_true_eq_false, decide_false, Bool.false_eq_true,
        if_false, ih]
      split_ifs <;> rfl
    · simp only [List.filter_cons, ne_eq, hk, not_false_eq_true, decide_true, if_true,
        lookup_cons_eq, ih]
      split_ifs <;> first | rfl | (subst_vars; contradiction)

private theorem mem_of_lookup {l : List (Nat × Pte)} {a : Nat} {e : Pte}
    (h : l.lookup a = some e) : (a, e) ∈ l := by
  induction l with
  | nil => cases h
  | cons p l ih =>
    obtain ⟨k, v⟩ := p
    rw [lookup_cons_eq] at h
    split at h
    · rename_i hak
      subst hak
      obtain rfl := Option.some.inj h
      exact List.mem_cons_self
    · exact List.mem_cons_of_mem _ (ih h)

theorem hasTable_of_present {pd : Pagedir} {va : Nat} (h : (pd.entry va).present = true) :
    pd.hasTable va := by
  unfold entry at h
  cases hl : pd.ptes.lookup (pg_round_down va) with
  | none =>
    rw [hl] at h
    simp [Pte.zero] at h
  | some e =>
    unfold hasTable
    rw [← pd_no_pg_round_down]
    exact pd.wf _ (mem_of_lookup hl)

/-- Without a page table there is no entry: every written entry lies in an existing table. -/
theorem entry_of_not_hasTable {pd : Pagedir} {va : Nat} (h : ¬pd.hasTable va) :
    pd.entry va = Pte.zero := by
  unfold entry
  cases hl : pd.ptes.lookup (pg_round_down va) with
  | none => rfl
  | some e =>
    refine absurd ?_ h
    unfold hasTable
    rw [← pd_no_pg_round_down]
    exact pd.wf _ (mem_of_lookup hl)

theorem entry_write (pd : Pagedir) (va va' : Nat) (pte : Pte) (h : pd.hasTable va) :
    (pd.write va pte h).entry va' =
      if pg_round_down va' = pg_round_down va then pte else pd.entry va' := by
  unfold entry write
  rw [lookup_cons_eq, lookup_filter_ne]
  by_cases hv : pg_round_down va' = pg_round_down va <;> simp [hv]

@[simp] theorem entry_addTable (pd : Pagedir) (va va' : Nat) :
    (pd.addTable va).entry va' = pd.entry va' := rfl

private theorem lookup_of_mem {l : List (Nat × Pte)} (hnd : (l.map Prod.fst).Nodup) {e : Nat × Pte}
    (he : e ∈ l) : l.lookup e.1 = some e.2 := by
  induction l with
  | nil => cases he
  | cons p l ih =>
    obtain ⟨k, v⟩ := p
    rw [List.map_cons, List.nodup_cons] at hnd
    rw [lookup_cons_eq]
    rcases List.mem_cons.mp he with rfl | hl
    · simp
    · -- a later entry's key differs from the head's, since the keys are distinct
      have hne : e.1 ≠ k := fun hk => hnd.1 (List.mem_map.mpr ⟨e, hl, hk⟩)
      rw [if_neg hne, ih hnd.2 hl]

theorem entry_of_mem {pd : Pagedir} (hnd : (pd.ptes.map Prod.fst).Nodup) {e : Nat × Pte}
    (he : e ∈ pd.ptes) (hk : pg_round_down e.1 = e.1) : pd.entry e.1 = e.2 := by
  rw [entry, hk, lookup_of_mem hnd he]
  rfl

theorem nodup_keys_write {pd : Pagedir} {va : Nat} {pte : Pte} {h : pd.hasTable va}
    (hnd : (pd.ptes.map Prod.fst).Nodup) : ((pd.write va pte h).ptes.map Prod.fst).Nodup := by
  simp only [write, List.map_cons, List.nodup_cons]
  constructor
  · simp
  · exact List.Nodup.sublist ((List.filter_sublist).map _) hnd

private theorem map_filter_eq_filterMap (K : List Nat) (q : Nat → Bool) (g : Nat → Nat) :
    (K.filter q).map g = K.filterMap fun k => if q k then some (g k) else none := by
  induction K with
  | nil => rfl
  | cons k K ih => by_cases hq : q k <;> simp [hq, ih]

/-- With distinct page-aligned keys, the frames of the present entries are, up to order, those
read page by page off any list of distinct aligned pages that holds every key. -/
theorem presentPages_perm {pd : Pagedir} {K : List Nat} (hnd : (pd.ptes.map Prod.fst).Nodup)
    (hK : K.Nodup) (hkeys : ∀ e ∈ pd.ptes, e.1 ∈ K) (hal : ∀ k ∈ K, pg_round_down k = k) :
    pd.presentPages.Perm
      (K.filterMap fun k => if (pd.entry k).present then some (pd.entry k).kpage else none) := by
  have hentry : ∀ e ∈ pd.ptes, pd.entry e.1 = e.2 := fun e he => entry_of_mem hnd he (hal _ (hkeys e he))
  have hperm : ((pd.ptes.filter (·.2.present)).map Prod.fst).Perm (K.filter fun k => (pd.entry k).present) := by
    apply (List.perm_ext_iff_of_nodup (List.Nodup.sublist ((List.filter_sublist).map _) hnd)
      (hK.filter _)).mpr
    intro k
    simp only [List.mem_map, List.mem_filter]
    constructor
    · rintro ⟨e, ⟨he, hp⟩, rfl⟩
      exact ⟨hkeys e he, by rw [hentry e he]; exact hp⟩
    · rintro ⟨hk, hp⟩
      unfold entry at hp
      rw [hal k hk] at hp
      cases hl : pd.ptes.lookup k with
      | none => rw [hl] at hp; simp [Pte.zero] at hp
      | some v =>
        rw [hl] at hp
        exact ⟨(k, v), ⟨mem_of_lookup hl, hp⟩, rfl⟩
  have hmap : pd.presentPages = ((pd.ptes.filter (·.2.present)).map Prod.fst).map fun k => (pd.entry k).kpage := by
    rw [presentPages, List.map_map]
    refine List.map_congr_left fun e he => ?_
    simp [hentry e (List.mem_filter.mp he).1]
  rw [hmap, ← map_filter_eq_filterMap]
  exact hperm.map _

theorem mem_presentPages {pd : Pagedir} {k : Nat} :
    k ∈ pd.presentPages ↔ ∃ e ∈ pd.ptes, e.2.present = true ∧ e.2.kpage = k := by
  simp [presentPages, and_assoc]

end Pagedir

theorem pagedir_get_page_isSome {pd : Pagedir} {uaddr : Nat} :
    (pagedir_get_page pd uaddr).isSome ↔ (pd.entry uaddr).present = true := by
  unfold pagedir_get_page
  split <;> simp_all

/-! ## What each call does to the entries -/

namespace Pagedir

theorem entry_congr (pd : Pagedir) {va va' : Nat} (h : pg_round_down va = pg_round_down va') :
    pd.entry va = pd.entry va' := by
  unfold entry
  rw [h]

theorem hasTable_congr (pd : Pagedir) {va va' : Nat} (h : pg_round_down va = pg_round_down va') :
    pd.hasTable va ↔ pd.hasTable va' := by
  unfold hasTable
  rw [← pd_no_pg_round_down va, h, pd_no_pg_round_down]

end Pagedir

theorem Pte.with_present_false {e : Pte} (h : e.present = false) : { e with present := false } = e := by
  cases e
  subst h
  rfl

section Calls

variable {pd pd' : Pagedir} {upage kpage vpage : Nat} {writable ptPage ok : Bool}

/-- A successful `pagedir_set_page` writes `upage`'s entry and no other, and keeps every page
table; a failed one changes nothing. -/
theorem pagedir_set_page_entry (h : pagedir_set_page pd upage kpage writable ptPage = some (ok, pd')) :
    (ok = true → pd'.hasTable upage ∧ (∀ va, pd.hasTable va → pd'.hasTable va) ∧
      ∀ va, pd'.entry va =
        if pg_round_down va = pg_round_down upage then pte_create_user kpage writable else pd.entry va) ∧
    (ok = false → pd' = pd) := by
  unfold pagedir_set_page at h
  split_ifs at h with ht hp hpt
  · obtain ⟨rfl, rfl⟩ := Prod.mk.inj (Option.some.inj h)
    exact ⟨fun _ => ⟨ht, fun _ hva => hva, fun va => entry_write pd upage va _ ht⟩,
      fun hf => absurd hf (by decide)⟩
  · obtain ⟨rfl, rfl⟩ := Prod.mk.inj (Option.some.inj h)
    refine ⟨fun _ => ⟨hasTable_addTable pd upage, fun _ hva => List.mem_cons_of_mem _ hva, fun va => ?_⟩,
      fun hf => absurd hf (by decide)⟩
    rw [entry_write, entry_addTable]
  · obtain ⟨rfl, rfl⟩ := Prod.mk.inj (Option.some.inj h)
    exact ⟨fun hf => absurd hf (by decide), fun _ => rfl⟩

/-- `pagedir_set_page` succeeds exactly when the page table is there or can be made. -/
theorem pagedir_set_page_ok (h : pagedir_set_page pd upage kpage writable ptPage = some (ok, pd')) :
    ok = (decide (pd.hasTable upage) || ptPage) := by
  unfold pagedir_set_page at h
  split_ifs at h with ht _ hpt
  · obtain ⟨rfl, rfl⟩ := Prod.mk.inj (Option.some.inj h)
    simp [ht]
  · obtain ⟨rfl, rfl⟩ := Prod.mk.inj (Option.some.inj h)
    simp [hpt]
  · obtain ⟨rfl, rfl⟩ := Prod.mk.inj (Option.some.inj h)
    simp [ht, hpt]

theorem pagedir_clear_page_tables : (pagedir_clear_page pd upage).tables = pd.tables := by
  unfold pagedir_clear_page
  split <;> rfl

/-- `pagedir_clear_page` clears the present bit of `upage`'s entry, keeping its other fields,
and of no other entry. -/
theorem pagedir_clear_page_entry (va : Nat) :
    (pagedir_clear_page pd upage).entry va =
      if pg_round_down va = pg_round_down upage then { pd.entry va with present := false }
      else pd.entry va := by
  unfold pagedir_clear_page
  split_ifs with h hva hva
  · rw [entry_write, if_pos hva, pd.entry_congr hva]
  · rw [entry_write, if_neg hva]
  · -- nothing was written: the entry was not present anyway
    have hnp : (pd.entry upage).present = false := by
      by_cases ht : pd.hasTable upage
      · simpa [ht] using h
      · rw [entry_of_not_hasTable ht]
        rfl
    rw [pd.entry_congr hva, Pte.with_present_false hnp]
  · rfl

theorem pagedir_set_dirty_tables (dirty : Bool) : (pagedir_set_dirty pd vpage dirty).tables = pd.tables := by
  unfold pagedir_set_dirty
  split <;> rfl

theorem pagedir_set_dirty_entry (dirty : Bool) (va : Nat) :
    (pagedir_set_dirty pd vpage dirty).entry va =
      if pd.hasTable vpage ∧ pg_round_down va = pg_round_down vpage then { pd.entry va with dirty := dirty }
      else pd.entry va := by
  unfold pagedir_set_dirty
  by_cases ht : pd.hasTable vpage
  · rw [dif_pos ht, entry_write]
    by_cases hva : pg_round_down va = pg_round_down vpage
    · rw [if_pos hva, if_pos ⟨ht, hva⟩, pd.entry_congr hva]
    · rw [if_neg hva, if_neg fun hc => hva hc.2]
  · rw [dif_neg ht, if_neg fun hc => ht hc.1]

theorem pagedir_set_accessed_tables (accessed : Bool) :
    (pagedir_set_accessed pd vpage accessed).tables = pd.tables := by
  unfold pagedir_set_accessed
  split <;> rfl

theorem pagedir_set_accessed_entry (accessed : Bool) (va : Nat) :
    (pagedir_set_accessed pd vpage accessed).entry va =
      if pd.hasTable vpage ∧ pg_round_down va = pg_round_down vpage then
        { pd.entry va with accessed := accessed }
      else pd.entry va := by
  unfold pagedir_set_accessed
  by_cases ht : pd.hasTable vpage
  · rw [dif_pos ht, entry_write]
    by_cases hva : pg_round_down va = pg_round_down vpage
    · rw [if_pos hva, if_pos ⟨ht, hva⟩, pd.entry_congr hva]
    · rw [if_neg hva, if_neg fun hc => hva hc.2]
  · rw [dif_neg ht, if_neg fun hc => ht hc.1]

end Calls

end Pintos