import Pintos.Lib.Bytes
import Pintos.LibKernel.HashSet
import Pintos.Threads.Vaddr
import Pintos.Vm.State

/-!
# The supplemental page table is a hash table (`vm/page.c`)

The table of a thread's pages is a `struct hash` over `struct suppPage`, hashed by `page_hash`
(the Fowler-Noll-Vo hash of the four bytes of `va`) and ordered by `page_less` (the `va`s). Two
pages are then equal for the table exactly when their `va`s are (`elemEq_page_less`), and such
pages have one hash (`compat_page`). A page is known by its record, so a page inserted is one
the table does not hold.

Over the refinement of `hash.c` (`hash_refines_set`), the table never holds two pages at one
`va`, and `spt_find_page` finds the page at the page-aligned address: it answers what
`List.find?` by `va` answers on the pages the table holds, the lookup the thread-level model
(`Pintos.Vm.Page`) makes on a thread's pages (`spt_find_page_eq_find?`).
-/

set_option linter.style.nameCheck false

namespace Pintos

/-- `page_hash (e, aux)`. -/
def page_hash (page : SuppPage) : UInt32 := hash_bytes (leBytes 4 page.va)

/-- `page_less (a, b, aux)`. -/
def page_less (page_a page_b : SuppPage) : Bool := decide (page_a.va < page_b.va)

/-- `supplemental_page_table_init (spt)`; `none` when `hash_init` found no buckets, which the
source does not check. -/
def supplemental_page_table_init (alloc : Bool) : Option (hash SuppPage) :=
  hash_init page_hash page_less alloc

/-- `spt_insert_page (spt, page)`: whether `hash_insert` inserted. -/
def spt_insert_page (spt : hash SuppPage) (page : SuppPage) (alloc : Bool) :
    hash SuppPage × Bool :=
  ((hash_insert spt page alloc).1, (hash_insert spt page alloc).2.isNone)

/-- `spt_find_page (spt, va)`. The probe `temp` is a stack record of which only `va` is set; the
rest is whatever the stack held. -/
def spt_find_page (spt : hash SuppPage) (temp : SuppPage) (va : ℕ) : Option SuppPage :=
  hash_find spt { temp with va := pg_round_down va }

/-- `spt_remove_page (spt, page)`, before the `free`. -/
def spt_remove_page (spt : hash SuppPage) (page : SuppPage) (alloc : Bool) : hash SuppPage :=
  (hash_delete spt page alloc).1

theorem elemEq_page_less (a b : SuppPage) : ElemEq page_less a b ↔ a.va = b.va := by
  simp only [ElemEq, WeakOrder.Incomp, page_less, Bool.and_eq_true, Bool.not_eq_true',
    decide_eq_false_iff_not, Nat.not_lt]
  omega

theorem compat_page : Compat page_hash page_less := by
  intro a b hab
  rw [page_hash, page_hash, (elemEq_page_less a b).mp hab]

/-- In a table without two pages at one `va`, the lookup answers the one page at the address. -/
theorem spt_find_page_eq_find? {h : hash SuppPage} {S : Finset SuppPage}
    (hR : Refines page_hash page_less h S) (hd : KeySet.Distinct (ElemEq page_less) S)
    (temp : SuppPage) (va : ℕ) :
    spt_find_page h temp va = h.elems.find? (fun p => p.va = pg_round_down va) := by
  have hstep := hR.on_find compat_page { temp with va := pg_round_down va }
  rw [← spt_find_page] at hstep
  generalize spt_find_page h temp va = r at hstep ⊢
  cases hstep with
  | find_some hx hxe =>
    rename_i x
    have hxva : x.va = pg_round_down va := (elemEq_page_less _ _).mp hxe
    cases hfind : h.elems.find? (fun p => p.va = pg_round_down va) with
    | none =>
      exact absurd (by simpa using hxva) (List.find?_eq_none.mp hfind x (hR.mem_iff.mpr hx))
    | some y =>
      have hy : y ∈ S := hR.mem_iff.mp (List.mem_of_find?_eq_some hfind)
      have hyva : y.va = pg_round_down va := by simpa using List.find?_some hfind
      have hxy : ElemEq page_less x y := (elemEq_page_less _ _).mpr (hxva.trans hyva.symm)
      rw [hd x hx y hy hxy]
  | find_none hnone =>
    refine (List.find?_eq_none.mpr fun p hp hpva => ?_).symm
    exact hnone p (hR.mem_iff.mp hp) ((elemEq_page_less _ _).mpr (by simpa using hpva))

/-- The hash table refines a finite set, for every `hash` and `less` that give equal elements one
hash: along every run of calls from `hash_init`, with any outcome of `rehash`'s allocations,
each answer is one the set allows (`KeySet.Step`), `hash_size` is the set's size, the bucket count
is a power of two of at least four, and every element sits in the bucket its hash masks to. For
the supplemental page table this means no two pages at one `va`, and `spt_find_page` answers
the page at the page-aligned address, if there is one. -/
theorem hash_table_refines_finite_set :
    (∀ {α : Type} [DecidableEq α] (hash : α → UInt32) (less : α → α → Bool),
      Compat hash less →
      ∀ {alloc : Bool} {h₀ h : Pintos.hash α} {cs : List (KeySet.Op α × Option α)},
        hash_init hash less alloc = some h₀ → Lts.Run hashStep h₀ cs h →
        ∃ S, Lts.Run (KeySet.Step (ElemEq less)) ∅ cs S ∧ hash_size h = S.card ∧
          h.elems.toFinset = S ∧ h.bucket_cnt.isPowerOfTwo ∧ 4 ≤ h.bucket_cnt ∧
          ∀ e ∈ h.elems, e ∈ h.buckets.getD ((hash e).toNat &&& (h.bucket_cnt - 1)) []) ∧
    (∀ {alloc : Bool} {h₀ h : Pintos.hash SuppPage}
        {cs : List (KeySet.Op SuppPage × Option SuppPage)},
        supplemental_page_table_init alloc = some h₀ → Lts.Run hashStep h₀ cs h →
        (∀ p ∈ h.elems, ∀ q ∈ h.elems, p.va = q.va → p = q) ∧
        ∀ (temp : SuppPage) (va : ℕ),
          spt_find_page h temp va = h.elems.find? (fun p => p.va = pg_round_down va)) := by
  constructor
  · intro α _ hash less hc alloc h₀ h cs hinit hrun
    obtain ⟨S, hS, hR⟩ := hash_refines_set hc hinit hrun
    refine ⟨S, hS, hR.size, hR.elems_eq, hR.inv.pow, hR.inv.four_le, fun e he => ?_⟩
    have hmem := hR.inv.placed.mem_bucket he
    rwa [find_bucket, hR.hash_eq] at hmem
  · intro alloc h₀ h cs hinit hrun
    obtain ⟨S, hS, hR⟩ := hash_refines_set compat_page hinit hrun
    have hd : KeySet.Distinct (ElemEq page_less) S := by
      refine KeySet.Run.distinct (fun a b hab => ?_) (fun a b c hab hbc => ?_) hS
      · exact (elemEq_page_less b a).mpr ((elemEq_page_less a b).mp hab).symm
      · exact (elemEq_page_less a c).mpr
          (((elemEq_page_less a b).mp hab).trans ((elemEq_page_less b c).mp hbc))
    refine ⟨fun p hp q hq hpq => ?_, spt_find_page_eq_find? hR hd⟩
    exact hd p (hR.mem_iff.mp hp) q (hR.mem_iff.mp hq) ((elemEq_page_less p q).mpr hpq)

/-- The sixteen numbers of `natTable` inserted from `hash_init`, with the rehash into eight
buckets that the last insertion makes: the table still holds the set of the calls. -/
theorem hash_refines_set_after_rehash :
    natTable.bucket_cnt = 8 ∧ (natTable.buckets.getD 0 []).length = 8 ∧
    ∃ S, Lts.Run (KeySet.Step (ElemEq fun a b : ℕ => decide (a < b))) ∅
        (natInserts.map fun e => (.insert e, none)) S ∧
      hash_size natTable = S.card ∧ natTable.elems.toFinset = S ∧ natTable.bucket_cnt.isPowerOfTwo ∧
      4 ≤ natTable.bucket_cnt ∧
      ∀ e ∈ natTable.elems, e ∈ natTable.buckets.getD ((e.toUInt32).toNat &&& (natTable.bucket_cnt - 1)) [] := by
  have hinit : hash_init (fun n : ℕ => n.toUInt32) (fun a b => decide (a < b)) true =
      some emptyNatTable := rfl
  exact ⟨by decide +kernel, by decide +kernel,
    hash_table_refines_finite_set.1 (fun n : ℕ => n.toUInt32) (fun a b => decide (a < b)) nat_compat
      hinit natTable_run⟩

end Pintos
