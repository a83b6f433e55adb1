import Pintos.Threads.Kernel
import Pintos.LibKernel.Bitmap

/-!
# The page allocator's user pool (`threads/palloc.c`)

A `Pool` is the first page after the pool's own `used_map` and the bitmap of pages in use.
The virtual-memory paths only allocate single user pages (`palloc_get_page (PAL_USER |
PAL_ZERO)` in `vm_frame_allocate`) and free them (`palloc_free_page` in `vm_frame_free` and
`pagedir_destroy`), so this module models `palloc_get_multiple` and `palloc_free_multiple` at
`page_cnt = 1` on the user pool. `PAL_ASSERT` is not passed by these callers.

`palloc_get_page_spec` says what an allocation does, `palloc_free_page_spec` what a free does;
`used` is the set of pages in use, the view the ownership invariant is stated in.
-/

namespace Pintos

open Bitmap

/-- The `enum palloc_flags` bits that the callers modelled here pass. -/
structure PallocFlags where
  /-- `PAL_ZERO`: zero the page -/
  zero : Bool
  /-- `PAL_USER`: take it from the user pool -/
  user : Bool
  deriving DecidableEq, Repr

/-- `PAL_USER | PAL_ZERO`, what `vm_do_claim_page` passes. -/
def PAL_USER_ZERO : PallocFlags := ⟨true, true⟩

/-- `struct pool`. `init_pool` places `base` on a page boundary after the bitmap's own pages,
and a pool of RAM pages has fewer than `BITMAP_ERROR` pages. -/
structure Pool where
  base : Nat
  used_map : Bitmap
  base_aligned : pg_ofs base = 0
  size_lt : bitmap_size used_map < BITMAP_ERROR

namespace Pool

/-- The pool's pages, by index. -/
def page (p : Pool) (idx : Nat) : Nat := p.base + PGSIZE * idx

/-- `page_from_pool`. -/
def page_from_pool (p : Pool) (page : Nat) : Bool :=
  decide (pg_no p.base ≤ pg_no page ∧ pg_no page < pg_no p.base + bitmap_size p.used_map)

/-- The page of the pool at `page` is in use. -/
def used (p : Pool) (page : Nat) : Prop :=
  ∃ idx < bitmap_size p.used_map, page = p.page idx ∧ bitmap_test p.used_map idx = true

/-- The page of the pool at `page` is free. -/
def free (p : Pool) (page : Nat) : Prop :=
  ∃ idx < bitmap_size p.used_map, page = p.page idx ∧ bitmap_test p.used_map idx = false

end Pool

/-- `init_pool (p, base, page_cnt, name)`: `page_cnt` pages from `base`, all free. -/
def init_pool (base page_cnt : Nat) (h : pg_ofs base = 0) (hcnt : page_cnt < BITMAP_ERROR) :
    Pool :=
  ⟨base, bitmap_create page_cnt, h, by simpa [bitmap_size, bitmap_create] using hcnt⟩

theorem init_pool_free (base page_cnt : Nat) (h : pg_ofs base = 0) (hcnt : page_cnt < BITMAP_ERROR)
    (idx : Nat) : bitmap_test (init_pool base page_cnt h hcnt).used_map idx = false := by
  simp [init_pool, bitmap_test, bitmap_create, List.getD_eq_getElem?_getD, List.getElem?_replicate]
  split <;> rfl

/-- `palloc_get_page (flags)` on the user pool: the first free page, marked used and zeroed
under `PAL_ZERO`, or `NULL` when every page is in use. -/
def palloc_get_page (p : Pool) (m : Mem) (flags : PallocFlags) : Option Nat × Pool × Mem :=
  let r := bitmap_scan_and_flip p.used_map 0 1 false
  if r.1 ≠ BITMAP_ERROR then
    let page := p.page r.1
    (some page, { p with used_map := r.2, size_lt := by simpa [r] using p.size_lt },
      if flags.zero then memset m page 0 PGSIZE else m)
  else (none, p, m)

/-- `palloc_free_page (page)` for a page of the user pool: fill it with `0xcc`, check that it
was in use and mark it free. -/
def palloc_free_page (p : Pool) (m : Mem) (page : Nat) : Except Fault (Pool × Mem) :=
  if pg_ofs page ≠ 0 then .error .panic
  else if page = 0 then .ok (p, m)
  else if !p.page_from_pool page then .error .panic
  else
    let idx := pg_no page - pg_no p.base
    if bitmap_all p.used_map idx 1 then
      .ok ({ p with
          used_map := bitmap_set_multiple p.used_map idx 1 false
          size_lt := by simpa using p.size_lt },
        memset m page 0xcc PGSIZE)
    else .error .panic

/-! ## Spec lemmas -/

theorem Pool.page_injective (p : Pool) {i j : Nat} (h : p.page i = p.page j) : i = j := by
  unfold Pool.page at h
  have : PGSIZE * i = PGSIZE * j := by omega
  exact Nat.eq_of_mul_eq_mul_left (by decide) this

theorem Pool.pg_no_page (p : Pool) (idx : Nat) : pg_no (p.page idx) = pg_no p.base + idx := by
  unfold Pool.page pg_no
  have hb := p.base_aligned
  unfold pg_ofs at hb
  have hbase : p.base = PGSIZE * (p.base / PGSIZE) := by
    have := Nat.div_add_mod p.base PGSIZE
    omega
  rw [hbase, ← Nat.mul_add, Nat.mul_div_cancel_left _ (by decide),
    Nat.mul_div_cancel_left _ (by decide)]

/-- A successful allocation hands out a page that was free and marks exactly it used. -/
theorem palloc_get_page_spec {p p' : Pool} {m m' : Mem} {flags : PallocFlags} {page : Nat}
    (h : palloc_get_page p m flags = (some page, p', m')) :
    p.free page ∧ p'.base = p.base ∧ bitmap_size p'.used_map = bitmap_size p.used_map ∧
      ∃ idx, page = p.page idx ∧ ∀ j, bitmap_test p'.used_map j =
        if j = idx then true else bitmap_test p.used_map j := by
  unfold palloc_get_page bitmap_scan_and_flip at h
  by_cases hs : bitmap_scan p.used_map 0 1 false = BITMAP_ERROR
  · simp [hs] at h
  · simp only [hs, ne_eq, not_false_eq_true, if_true, Prod.mk.injEq, Option.some.injEq] at h
    obtain ⟨rfl, rfl, -⟩ := h
    obtain ⟨-, hlt, hfree, -⟩ := bitmap_scan_spec hs
    rw [bitmap_contains_one] at hfree
    refine ⟨⟨_, by omega, rfl, by simpa using hfree⟩, rfl, by simp, _, rfl, fun j => ?_⟩
    rw [bitmap_test_set_multiple]
    by_cases hj : j = bitmap_scan p.used_map 0 1 false
    · simp [hj]; omega
    · simp only [hj, if_false]
      split_ifs <;> first | rfl | omega

/-- Allocation fails only when no page of the pool is free. -/
theorem palloc_get_page_none {p p' : Pool} {m m' : Mem} {flags : PallocFlags}
    (h : palloc_get_page p m flags = (none, p', m')) :
    p' = p ∧ m' = m ∧ ∀ idx < bitmap_size p.used_map, bitmap_test p.used_map idx = true := by
  unfold palloc_get_page bitmap_scan_and_flip at h
  by_cases hs : bitmap_scan p.used_map 0 1 false = BITMAP_ERROR
  · simp only [hs, ne_eq, not_true_eq_false, if_false, Prod.mk.injEq] at h
    obtain ⟨-, rfl, rfl⟩ := h
    refine ⟨rfl, rfl, fun idx hidx => ?_⟩
    have := bitmap_scan_eq_error p.size_lt hs idx (Nat.zero_le _) (by omega)
    simpa [bitmap_contains_one] using this
  · simp [hs] at h

/-- What a successful allocation leaves in memory: the page zeroed under `PAL_ZERO`. -/
theorem palloc_get_page_mem {p : Pool} {m : Mem} {flags : PallocFlags} {page : Nat}
    (h : (palloc_get_page p m flags).1 = some page) :
    (palloc_get_page p m flags).2.2 = if flags.zero then memset m page 0 PGSIZE else m := by
  unfold palloc_get_page at h ⊢
  dsimp only at h ⊢
  by_cases herr : (Bitmap.bitmap_scan_and_flip p.used_map 0 1 false).1 = BITMAP_ERROR
  · rw [if_neg (Classical.not_not.mpr herr)] at h
    cases h
  · rw [if_pos herr, Option.some.injEq] at h
    rw [if_pos herr, h]

/-- A successful free keeps every free page free and, unless it is `NULL`, frees its page. -/
theorem palloc_free_page_spec {p p' : Pool} {m m' : Mem} {page : Nat}
    (h : palloc_free_page p m page = .ok (p', m')) :
    p'.base = p.base ∧ (∀ k, p.free k → p'.free k) ∧ (page ≠ 0 → p'.free page) := by
  unfold palloc_free_page at h
  dsimp only at h
  split_ifs at h with hofs hnull hpool
  · cases h
    exact ⟨rfl, fun _ hk => hk, fun hne => absurd hnull hne⟩
  cases h
  refine ⟨rfl, ?_, fun _ => ?_⟩
  · rintro k ⟨idx, hidx, rfl, htest⟩
    refine ⟨idx, by simpa using hidx, rfl, ?_⟩
    rw [bitmap_test_set_multiple]
    split_ifs <;> simp [htest]
  · -- the page is the pool's page number `pg_no page - pg_no base`
    have hin : pg_no p.base ≤ pg_no page ∧ pg_no page < pg_no p.base + bitmap_size p.used_map := by
      simpa [Pool.page_from_pool] using hpool
    have hb := p.base_aligned
    simp only [pg_ofs, pg_no, PGSIZE_eq, ne_eq, Decidable.not_not] at hofs hb hin
    refine ⟨pg_no page - pg_no p.base, ?_, ?_, ?_⟩
    · simp only [bitmap_size_set_multiple, pg_no, PGSIZE_eq]
      omega
    · simp only [Pool.page, pg_no, PGSIZE_eq]
      omega
    · rw [bitmap_test_set_multiple, if_pos]
      simp only [pg_no, PGSIZE_eq]
      omega

end Pintos
