import Pintos.Threads.Palloc
import Pintos.Lib.Extent
import Pintos.Lib.Run
import Pintos.Lib.EState

/-!
# Both pools of the page allocator (`threads/palloc.c`)

`palloc_init` splits free RAM, from 1 MB to the end of RAM, into the kernel pool and the user
pool. `init_pool` places each pool's `used_map` in the pool's first pages, sized for the whole
count, and the pool's pages after it. `palloc_get_multiple` takes the first run of `page_cnt`
free pages of the pool its flags name, and `palloc_free_multiple` gives a run back to the pool
that holds its first page.

The system is the allocator together with the runs it has handed out and not taken back
(`PallocSys`, stepping by `PallocStep`). `PallocInv` says that the pools and their maps lie
where `palloc_init` put them (`Layout`) and that, in each pool, the live runs are disjoint
extents of the pool whose indices are exactly the set bits of `used_map` (`PoolInv`, over the
`Extent` library). `palloc_get_multiple_one` connects the one-page allocator of the
virtual-memory model to this one.
-/

namespace Pintos

open Bitmap

/-- `DIV_ROUND_UP (x, step)` of `lib/round.h`. -/
def DIV_ROUND_UP (x step : Nat) : Nat := (x + step - 1) / step

/-- `bitmap_buf_size (bit_cnt)`: a `struct bitmap` (its `bit_cnt` and `bits`, four bytes each)
and the bits in four-byte `elem_type` words. -/
def bitmap_buf_size (bit_cnt : Nat) : Nat := 8 + 4 * DIV_ROUND_UP bit_cnt 32

/-- The page allocator: the kernel and the user pool, where each pool's `used_map` lies
(`bitmap_create_in_buf` places the `struct bitmap` at the first byte of the pool's memory), and
kernel memory. -/
structure Palloc where
  kernel_pool : Pool
  user_pool : Pool
  kernel_map : Nat
  user_map : Nat
  mem : Mem

namespace Palloc

/-- `flags & PAL_USER ? &user_pool : &kernel_pool`. -/
def pool (s : Palloc) (user : Bool) : Pool := if user then s.user_pool else s.kernel_pool

/-- Where the `used_map` of the pool `user` names lies. -/
def map (s : Palloc) (user : Bool) : Nat := if user then s.user_map else s.kernel_map

def setPool (s : Palloc) (user : Bool) (p : Pool) : Palloc :=
  if user then { s with user_pool := p } else { s with kernel_pool := p }

/-- The pages `init_pool` gave the `used_map` of pool `u`: from the map to the pool's first page. -/
def MapPages (s : Palloc) (u : Bool) (a : Nat) : Prop := s.map u ≤ a ∧ a < (s.pool u).base

/-- The bytes of the `used_map` of pool `u`: the `struct bitmap` and its bits. -/
def InMap (s : Palloc) (u : Bool) (a : Nat) : Prop :=
  s.map u ≤ a ∧ a < s.map u + bitmap_buf_size (bitmap_size (s.pool u).used_map)

/-- The bytes of the run `e` of pool `u`: pages `e.1` to `e.1 + e.2` of the pool. -/
def RunBytes (s : Palloc) (u : Bool) (e : Nat × Nat) (a : Nat) : Prop :=
  (s.pool u).page e.1 ≤ a ∧ a < (s.pool u).page (e.1 + e.2)

@[simp] theorem pool_setPool_self (s : Palloc) (u : Bool) (p : Pool) : (s.setPool u p).pool u = p := by
  cases u <;> rfl

@[simp] theorem pool_setPool_not (s : Palloc) (u : Bool) (p : Pool) :
    (s.setPool u p).pool (!u) = s.pool (!u) := by
  cases u <;> rfl

@[simp] theorem map_setPool (s : Palloc) (u v : Bool) (p : Pool) : (s.setPool u p).map v = s.map v := by
  cases u <;> rfl

@[simp] theorem mem_setPool (s : Palloc) (u : Bool) (p : Pool) : (s.setPool u p).mem = s.mem := by
  cases u <;> rfl

@[simp] theorem pool_with_mem (s : Palloc) (m : Mem) (u : Bool) : ({ s with mem := m } : Palloc).pool u = s.pool u :=
  rfl

@[simp] theorem map_with_mem (s : Palloc) (m : Mem) (u : Bool) : ({ s with mem := m } : Palloc).map u = s.map u :=
  rfl

/-- The pool `palloc_free_multiple` gives `pages` back to: the kernel pool if it holds the page,
else the user pool if it does, else none. -/
def poolOf (s : Palloc) (pages : Nat) : Option Bool :=
  if s.kernel_pool.page_from_pool pages then some false
  else if s.user_pool.page_from_pool pages then some true
  else none

theorem pg_ofs_add_pages {base : Nat} (h : pg_ofs base = 0) (n : Nat) :
    pg_ofs (base + n * PGSIZE) = 0 := by
  simp only [pg_ofs, PGSIZE_eq] at h ⊢
  omega

/-- `init_pool (p, base, page_cnt, name)`: the `used_map` in the first `bm_pages` pages, as many
as a bitmap of all `page_cnt` pages needs, and the pool's pages after it. -/
def init_pool (base page_cnt : Nat) (h : pg_ofs base = 0) (hcnt : page_cnt < BITMAP_ERROR) :
    Except Fault Pool :=
  let bm_pages := DIV_ROUND_UP (bitmap_buf_size page_cnt) PGSIZE
  if bm_pages > page_cnt then .error .panic
  else .ok (Pintos.init_pool (base + bm_pages * PGSIZE) (page_cnt - bm_pages)
    (pg_ofs_add_pages h bm_pages) (Nat.sub_lt_of_lt hcnt))

end Palloc

/-- The free memory of a machine whose RAM ends below `PHYS_BASE` has fewer pages than
`BITMAP_ERROR`. -/
theorem free_pages_lt {init_ram_pages : Nat} (hram : init_ram_pages * PGSIZE < PHYS_BASE) :
    (PHYS_BASE + init_ram_pages * PGSIZE - (PHYS_BASE + 1024 * 1024)) / PGSIZE <
      BITMAP_ERROR := by
  simp only [PGSIZE_eq, PHYS_BASE_eq, BITMAP_ERROR, SIZE_MAX] at hram ⊢
  omega

/-- Free memory starts 1 MB above `PHYS_BASE`, on a page boundary. -/
theorem pg_ofs_free_start : pg_ofs (PHYS_BASE + 1024 * 1024) = 0 := by
  simp only [pg_ofs, PGSIZE_eq, PHYS_BASE_eq]

/-- The user pool takes at most half of the free pages. -/
theorem min_half_lt {free_pages limit : Nat} (h : free_pages < BITMAP_ERROR) :
    min (free_pages / 2) limit < BITMAP_ERROR :=
  Nat.lt_of_le_of_lt ((Nat.min_le_left _ _).trans (Nat.div_le_self _ _)) h

/-- `palloc_init (user_page_limit)` on a machine of `init_ram_pages` pages: free memory runs from
1 MB to the end of RAM; half of it, at most `user_page_limit` pages, goes to the user pool after
the kernel pool. `ptov` asserts that the end of RAM lies below `PHYS_BASE` (`start.S` caps RAM
at 64 MB, so `init_ram_pages * PGSIZE` does not wrap). -/
def palloc_init (init_ram_pages user_page_limit : Nat) (mem : Mem) : Except Fault Palloc :=
  if hram : init_ram_pages * PGSIZE < PHYS_BASE then
    let free_start := PHYS_BASE + 1024 * 1024
    let free_end := PHYS_BASE + init_ram_pages * PGSIZE
    let free_pages := (free_end - free_start) / PGSIZE
    let user_pages := min (free_pages / 2) user_page_limit
    let kernel_pages := free_pages - user_pages
    have hfree : free_pages < BITMAP_ERROR := free_pages_lt hram
    do
      let kernel_pool ← Palloc.init_pool free_start kernel_pages pg_ofs_free_start
        (Nat.sub_lt_of_lt hfree)
      let user_pool ← Palloc.init_pool (free_start + kernel_pages * PGSIZE) user_pages
        (Palloc.pg_ofs_add_pages pg_ofs_free_start kernel_pages) (min_half_lt hfree)
      pure ⟨kernel_pool, user_pool, free_start, free_start + kernel_pages * PGSIZE, mem⟩
  else .error .panic

/-- `palloc_get_multiple (flags, page_cnt)`: the first run of `page_cnt` free pages of the pool
the flags name, marked used and zeroed under `PAL_ZERO`, or `NULL`. The pools lie above
`PHYS_BASE`, so `pages != NULL` is that the scan found a run. -/
def palloc_get_multiple (s : Palloc) (flags : PallocFlags) (page_cnt : Nat) : Option Nat × Palloc :=
  let pool := s.pool flags.user
  if page_cnt = 0 then (none, s)
  else
    let r := bitmap_scan_and_flip pool.used_map 0 page_cnt false
    if r.1 ≠ BITMAP_ERROR then
      let pages := pool.page r.1
      let s := s.setPool flags.user
        { pool with used_map := r.2, size_lt := by simpa [r] using pool.size_lt }
      (some pages, if flags.zero then { s with mem := memset s.mem pages 0 (PGSIZE * page_cnt) } else s)
    else (none, s)

/-- `palloc_free_multiple (pages, page_cnt)`: fill the pages with `0xcc`, check that each is in
use in the pool that holds the first, and mark them free. -/
def palloc_free_multiple (s : Palloc) (pages page_cnt : Nat) : Except Fault Palloc :=
  if pg_ofs pages ≠ 0 then .error .panic
  else if pages = 0 ∨ page_cnt = 0 then .ok s
  else
    match s.poolOf pages with
    | none => .error .panic
    | some user =>
      let pool := s.pool user
      let page_idx := pg_no pages - pg_no pool.base
      let mem := memset s.mem pages 0xcc (PGSIZE * page_cnt)
      if bitmap_all pool.used_map page_idx page_cnt then
        .ok { s.setPool user { pool with
            used_map := bitmap_set_multiple pool.used_map page_idx page_cnt false
            size_lt := by simpa using pool.size_lt } with mem }
      else .error .panic

/-! ## The allocator and its clients -/

/-- The allocator with the runs it has handed out and not taken back: for each pool (`true` for
the user pool), the first page index and the page count of every live run. -/
structure PallocSys where
  palloc : Palloc
  live : Bool → List (Nat × Nat)

/-- The calls of the allocator's clients. -/
inductive PallocOp
  | get (flags : PallocFlags) (page_cnt : Nat)
  | free (pages page_cnt : Nat)

/-- What `palloc_init` sets up, with nothing handed out. -/
def PallocInit (init_ram_pages user_page_limit : Nat) (s : PallocSys) : Prop :=
  (∃ mem, palloc_init init_ram_pages user_page_limit mem = .ok s.palloc) ∧ ∀ u, s.live u = []

/-- One call. A run handed out is recorded by the index `palloc_free_multiple` computes for its
first page; a client frees only a live run, with the count it was allocated with. -/
inductive PallocStep : PallocSys → PallocOp → PallocSys → Prop
  | get_some {s : PallocSys} {flags : PallocFlags} {page_cnt pages : Nat} {pa : Palloc} :
      palloc_get_multiple s.palloc flags page_cnt = (some pages, pa) →
      PallocStep s (.get flags page_cnt)
        ⟨pa, Function.update s.live flags.user
          ((pg_no pages - pg_no (s.palloc.pool flags.user).base, page_cnt) :: s.live flags.user)⟩
  | get_none {s : PallocSys} {flags : PallocFlags} {page_cnt : Nat} {pa : Palloc} :
      palloc_get_multiple s.palloc flags page_cnt = (none, pa) →
      PallocStep s (.get flags page_cnt) ⟨pa, s.live⟩
  | free {s : PallocSys} {u : Bool} {e : Nat × Nat} {pa : Palloc} :
      e ∈ s.live u → palloc_free_multiple s.palloc ((s.palloc.pool u).page e.1) e.2 = .ok pa →
      PallocStep s (.free ((s.palloc.pool u).page e.1) e.2)
        ⟨pa, Function.update s.live u ((s.live u).erase e)⟩

/-- The states some sequence of calls reaches from `palloc_init`. -/
def PallocReachable (init_ram_pages user_page_limit : Nat) : PallocSys → Prop :=
  Lts.Reachable (PallocInit init_ram_pages user_page_limit) PallocStep

/-! ## The invariant -/

/-- Where `palloc_init` put the pools: above `PHYS_BASE`, the kernel pool's map, its pages, the
user pool's map and its pages, in that order, each map's bytes inside its own pages. -/
structure Layout (s : Palloc) : Prop where
  above : PHYS_BASE ≤ s.kernel_map
  kernel_map : s.kernel_map + bitmap_buf_size (bitmap_size s.kernel_pool.used_map) ≤ s.kernel_pool.base
  kernel_user : s.kernel_pool.page (bitmap_size s.kernel_pool.used_map) ≤ s.user_map
  user_map : s.user_map + bitmap_buf_size (bitmap_size s.user_pool.used_map) ≤ s.user_pool.base

/-- The live runs of a pool are non-empty disjoint extents of it, and `used_map` marks exactly
their pages. -/
structure PoolInv (p : Pool) (E : List (Nat × Nat)) : Prop where
  runs : ∀ e ∈ E, 0 < e.2 ∧ e.1 + e.2 ≤ bitmap_size p.used_map
  disjoint : E.Pairwise Extent.Disjoint
  marks : Extent.Marks (bitmap_test p.used_map) E

structure PallocInv (s : PallocSys) : Prop where
  layout : Layout s.palloc
  pool : ∀ u, PoolInv (s.palloc.pool u) (s.live u)

/-- `t` is `s` with the bits of pool `u` replaced by `bits`: the places and sizes of the pools,
the maps and the other pool stay. -/
structure Palloc.Updates (s t : Palloc) (u : Bool) (bits : Nat → Bool) : Prop where
  base : (t.pool u).base = (s.pool u).base
  size : bitmap_size (t.pool u).used_map = bitmap_size (s.pool u).used_map
  test : bitmap_test (t.pool u).used_map = bits
  other : t.pool (!u) = s.pool (!u)
  map : ∀ v, t.map v = s.map v

/-! ## Spec lemmas -/

/-- The index `palloc_free_multiple` computes for a page of the pool is the page's own. -/
theorem Pool.index_page (p : Pool) (idx : Nat) : pg_no (p.page idx) - pg_no p.base = idx := by
  rw [Pool.pg_no_page, Nat.add_sub_cancel_left]

theorem bitmap_test_set_multiple_fill (b : Bitmap) {idx n : Nat} (hle : idx + n ≤ bitmap_size b)
    (value : Bool) :
    bitmap_test (bitmap_set_multiple b idx n value) = Extent.fill (bitmap_test b) (idx, n) value := by
  funext j
  rw [bitmap_test_set_multiple]
  by_cases hj : Extent.Mem (idx, n) j
  · obtain ⟨h₁, h₂⟩ := hj
    rw [Extent.fill_of_mem ⟨h₁, h₂⟩, if_pos ⟨h₁, h₂, by dsimp only at h₂; omega⟩]
  · rw [Extent.fill_of_not_mem hj, if_neg (fun h => hj ⟨h.1, h.2.1⟩)]

theorem clear_of_contains {b : Bitmap} {idx n : Nat} (h : bitmap_contains b idx n true = false) :
    ∀ j, Extent.Mem (idx, n) j → bitmap_test b j = false := by
  rintro j ⟨h₁, h₂⟩
  have hnot : ¬∃ i < n, bitmap_test b (idx + i) = true := by
    rw [← bitmap_contains_iff]
    simp [h]
  have := fun hj : bitmap_test b j = true => hnot ⟨j - idx, by dsimp only at h₂; omega, by
    rw [Nat.add_sub_cancel' h₁]; exact hj⟩
  simpa using this

namespace Palloc

variable {s t : Palloc} {u : Bool} {bits : Nat → Bool}

theorem Updates.with_mem (h : s.Updates t u bits) (m : Mem) : s.Updates { t with mem := m } u bits :=
  ⟨h.base, h.size, h.test, h.other, h.map⟩

theorem Updates.setPool {p : Pool} (hb : p.base = (s.pool u).base)
    (hs : bitmap_size p.used_map = bitmap_size (s.pool u).used_map) :
    s.Updates (s.setPool u p) u (bitmap_test p.used_map) := by
  refine ⟨by simpa using hb, by simpa using hs, by simp, by simp, by simp⟩

end Palloc

/-- The pools' places and sizes, and the maps, are all a layout depends on. -/
theorem Layout.updates {s t : Palloc} {u : Bool} {bits : Nat → Bool} (hl : Layout s)
    (h : s.Updates t u bits) : Layout t := by
  have hm := h.map
  cases u
  · have hb : t.kernel_pool.base = s.kernel_pool.base := h.base
    have hs : bitmap_size t.kernel_pool.used_map = bitmap_size s.kernel_pool.used_map := h.size
    have ho : t.user_pool = s.user_pool := h.other
    have hk : t.kernel_map = s.kernel_map := hm false
    have hu : t.user_map = s.user_map := hm true
    refine ⟨?_, ?_, ?_, ?_⟩
    · rw [hk]; exact hl.above
    · rw [hk, hs, hb]; exact hl.kernel_map
    · simp only [Pool.page, hs, hb, hu]; exact hl.kernel_user
    · rw [hu, ho]; exact hl.user_map
  · have hb : t.user_pool.base = s.user_pool.base := h.base
    have hs : bitmap_size t.user_pool.used_map = bitmap_size s.user_pool.used_map := h.size
    have ho : t.kernel_pool = s.kernel_pool := h.other
    have hk : t.kernel_map = s.kernel_map := hm false
    have hu : t.user_map = s.user_map := hm true
    refine ⟨?_, ?_, ?_, ?_⟩
    · rw [hk]; exact hl.above
    · rw [hk, ho]; exact hl.kernel_map
    · rw [ho, hu]; exact hl.kernel_user
    · rw [hu, hs, hb]; exact hl.user_map

namespace Palloc

/-- `page_from_pool` finds the pool of each of its pages: the kernel pool's pages end before the
user pool's map begins. -/
theorem poolOf_page {s : Palloc} {u : Bool} (hl : Layout s) {idx : Nat}
    (hidx : idx < bitmap_size (s.pool u).used_map) : s.poolOf ((s.pool u).page idx) = some u := by
  have hk := s.kernel_pool.base_aligned
  have hu := s.user_pool.base_aligned
  have hku := hl.kernel_user
  have hum := hl.user_map
  simp only [pg_ofs, Pool.page, PGSIZE_eq] at hk hu hku
  cases u
  · have hin : s.kernel_pool.page_from_pool (s.kernel_pool.page idx) = true := by
      simp only [Pool.page_from_pool, Pool.pg_no_page, decide_eq_true_eq]
      exact ⟨by omega, by simpa [pool] using hidx⟩
    simp only [poolOf, pool, Bool.false_eq_true, if_false, hin, if_true]
  · have hout : s.kernel_pool.page_from_pool (s.user_pool.page idx) = false := by
      simp only [Pool.page_from_pool, Pool.page, pg_no, PGSIZE_eq]
      apply decide_eq_false
      omega
    have hin : s.user_pool.page_from_pool (s.user_pool.page idx) = true := by
      simp only [Pool.page_from_pool, Pool.pg_no_page, decide_eq_true_eq]
      exact ⟨by omega, by simpa [pool] using hidx⟩
    simp only [poolOf, pool, hout, hin, if_true, Bool.false_eq_true, if_false]

end Palloc

/-- What a successful allocation does: `page_cnt` is positive, and the pages are the first run
of clear bits, now set, zeroed under `PAL_ZERO`. -/
theorem palloc_get_multiple_some {s pa : Palloc} {flags : PallocFlags} {n pages : Nat}
    (h : palloc_get_multiple s flags n = (some pages, pa)) :
    ∃ idx, pages = (s.pool flags.user).page idx ∧ 0 < n ∧
      idx + n ≤ bitmap_size (s.pool flags.user).used_map ∧
      (∀ j, Extent.Mem (idx, n) j → bitmap_test (s.pool flags.user).used_map j = false) ∧
      s.Updates pa flags.user (Extent.fill (bitmap_test (s.pool flags.user).used_map) (idx, n) true) ∧
      pa.mem = if flags.zero then memset s.mem pages 0 (PGSIZE * n) else s.mem := by
  set b := (s.pool flags.user).used_map with hb
  unfold palloc_get_multiple at h
  by_cases hn : n = 0
  · simp [hn] at h
  by_cases hs : bitmap_scan b 0 n false = BITMAP_ERROR
  · simp [hn, ← hb, bitmap_scan_and_flip_of_eq hs] at h
  simp only [hn, if_false, ← hb, bitmap_scan_and_flip_of_ne hs, ne_eq, hs, not_false_eq_true, if_true,
    Prod.mk.injEq, Option.some.injEq] at h
  obtain ⟨rfl, rfl⟩ := h
  obtain ⟨-, hle, hclear, -⟩ := bitmap_scan_spec hs
  have hup := Palloc.Updates.setPool (s := s) (u := flags.user)
    (p := { s.pool flags.user with used_map := bitmap_set_multiple b (bitmap_scan b 0 n false) n true
                                   size_lt := by simpa using (s.pool flags.user).size_lt })
    rfl (by simp [b])
  rw [show bitmap_test (bitmap_set_multiple b (bitmap_scan b 0 n false) n true) = _ from
    bitmap_test_set_multiple_fill b hle true] at hup
  refine ⟨_, rfl, Nat.pos_of_ne_zero hn, hle, clear_of_contains hclear, ?_, ?_⟩
  · split
    · exact hup.with_mem _
    · exact hup
  · split <;> simp

/-- An allocation that returns `NULL` changes nothing, and of a positive count it means that no
run of that many clear bits is left. -/
theorem palloc_get_multiple_none {s pa : Palloc} {flags : PallocFlags} {n : Nat}
    (h : palloc_get_multiple s flags n = (none, pa)) :
    pa = s ∧ (0 < n → ∀ j, j + n ≤ bitmap_size (s.pool flags.user).used_map →
      ∃ i < n, bitmap_test (s.pool flags.user).used_map (j + i) = true) := by
  unfold palloc_get_multiple at h
  by_cases hn : n = 0
  · simp only [hn, if_true, Prod.mk.injEq] at h
    exact ⟨h.2.symm, fun hpos => absurd hn (Nat.pos_iff_ne_zero.mp hpos)⟩
  by_cases hs : bitmap_scan (s.pool flags.user).used_map 0 n false = BITMAP_ERROR
  · simp only [hn, if_false, bitmap_scan_and_flip_of_eq hs, ne_eq, not_true_eq_false, Prod.mk.injEq] at h
    refine ⟨h.2.symm, fun _ j hj => ?_⟩
    have := bitmap_scan_eq_error (s.pool flags.user).size_lt hs j (Nat.zero_le _) hj
    exact (bitmap_contains_iff _ _ _ _).mp this
  · simp [hn, bitmap_scan_and_flip_of_ne hs, hs] at h

/-! ## The invariant along every run -/

namespace PoolInv

variable {p p' : Pool} {E : List (Nat × Nat)}

theorem nil (hclear : ∀ j, bitmap_test p.used_map j = false) : PoolInv p [] :=
  ⟨by simp, List.Pairwise.nil, fun j => by simp [hclear j]⟩

/-- Handing out a clear run of the pool. -/
theorem get (hp : PoolInv p E) {idx n : Nat} (hpos : 0 < n) (hle : idx + n ≤ bitmap_size p.used_map)
    (hclear : ∀ j, Extent.Mem (idx, n) j → bitmap_test p.used_map j = false)
    (hsize : bitmap_size p'.used_map = bitmap_size p.used_map)
    (htest : bitmap_test p'.used_map = Extent.fill (bitmap_test p.used_map) (idx, n) true) :
    PoolInv p' ((idx, n) :: E) where
  runs := by
    rw [hsize]
    rintro e (he | ⟨_, he⟩)
    · exact ⟨hpos, hle⟩
    · exact hp.runs e he
  disjoint := Extent.pairwise_cons hp.disjoint (Extent.disjoint_of_clear hp.marks hclear)
  marks := by rw [htest]; exact hp.marks.cons

/-- Taking back a live run. -/
theorem free (hp : PoolInv p E) {e : Nat × Nat} (he : e ∈ E)
    (hsize : bitmap_size p'.used_map = bitmap_size p.used_map)
    (htest : bitmap_test p'.used_map = Extent.fill (bitmap_test p.used_map) e false) :
    PoolInv p' (E.erase e) where
  runs := by
    rw [hsize]
    exact fun f hf => hp.runs f (List.mem_of_mem_erase hf)
  disjoint := Extent.pairwise_erase hp.disjoint e
  marks := by rw [htest]; exact hp.marks.erase hp.disjoint he

end PoolInv

/-- A free of a live run passes every check of `palloc_free_multiple` and clears exactly its
bits. -/
theorem palloc_free_multiple_live {s : Palloc} {u : Bool} {E : List (Nat × Nat)} {e : Nat × Nat}
    (hl : Layout s) (hp : PoolInv (s.pool u) E) (he : e ∈ E) :
    ∃ pa, palloc_free_multiple s ((s.pool u).page e.1) e.2 = .ok pa ∧
      s.Updates pa u (Extent.fill (bitmap_test (s.pool u).used_map) e false) := by
  obtain ⟨hpos, hle⟩ := hp.runs e he
  have haligned := (s.pool u).base_aligned
  have habove : PHYS_BASE ≤ (s.pool u).base := by
    have := hl.above
    have := hl.kernel_map
    have := hl.kernel_user
    have := hl.user_map
    cases u <;> simp only [Palloc.pool, Pool.page, if_true, Bool.false_eq_true, if_false] at * <;> omega
  have hofs : pg_ofs ((s.pool u).page e.1) = 0 := by
    simp only [pg_ofs, Pool.page, PGSIZE_eq] at haligned ⊢
    omega
  have hne : ¬((s.pool u).page e.1 = 0 ∨ e.2 = 0) := by
    simp only [Pool.page, PHYS_BASE_eq] at habove ⊢
    omega
  have hall : bitmap_all (s.pool u).used_map e.1 e.2 = true := by
    unfold bitmap_all
    rw [Bool.not_eq_true', Bool.eq_false_iff]
    intro hc
    obtain ⟨i, hi, hbit⟩ := (bitmap_contains_iff _ _ _ _).mp hc
    rw [hp.marks.mem he ⟨by omega, by omega⟩] at hbit
    cases hbit
  refine ⟨{ s.setPool u { s.pool u with
      used_map := bitmap_set_multiple (s.pool u).used_map e.1 e.2 false
      size_lt := by simpa using (s.pool u).size_lt } with
    mem := memset s.mem ((s.pool u).page e.1) 0xcc (PGSIZE * e.2) }, ?_, ?_⟩
  · unfold palloc_free_multiple
    rw [if_neg (by rw [hofs]; exact fun h => h rfl), if_neg hne, Palloc.poolOf_page hl (by omega)]
    dsimp only
    simp only [Pool.index_page, if_pos hall]
  · have hup := Palloc.Updates.setPool (s := s) (u := u)
      (p := { s.pool u with used_map := bitmap_set_multiple (s.pool u).used_map e.1 e.2 false
                            size_lt := by simpa using (s.pool u).size_lt }) rfl (by simp)
    rw [show bitmap_test (bitmap_set_multiple (s.pool u).used_map e.1 e.2 false) = _ from
      bitmap_test_set_multiple_fill _ hle false] at hup
    exact hup.with_mem _

namespace PallocInv

variable {s t : PallocSys}

/-- A call that changes one pool's bits keeps the invariant once that pool's runs are right. -/
theorem of_updates (hi : PallocInv s) {pa : Palloc} {u : Bool} {bits : Nat → Bool}
    (h : s.palloc.Updates pa u bits) {E : List (Nat × Nat)} (hu : PoolInv (pa.pool u) E) :
    PallocInv ⟨pa, Function.update s.live u E⟩ where
  layout := hi.layout.updates h
  pool v := by
    by_cases hv : v = u
    · subst hv
      simpa using hu
    · have hnot : v = !u := by cases u <;> cases v <;> simp_all
      subst hnot
      show PoolInv (pa.pool (!u)) (Function.update s.live u E (!u))
      rw [Function.update_of_ne hv, h.other]
      exact hi.pool (!u)

theorem step (hi : PallocInv s) {op : PallocOp} (h : PallocStep s op t) : PallocInv t := by
  cases h with
  | get_some hget =>
    obtain ⟨idx, rfl, hpos, hle, hclear, hup, -⟩ := palloc_get_multiple_some hget
    rw [Pool.index_page]
    exact hi.of_updates hup ((hi.pool _).get hpos hle hclear hup.size hup.test)
  | get_none hget =>
    obtain ⟨rfl, -⟩ := palloc_get_multiple_none hget
    exact hi
  | @free u e pa he hfree =>
    obtain ⟨pa', hfree', hup⟩ := palloc_free_multiple_live hi.layout (hi.pool u) he
    rw [hfree] at hfree'
    cases hfree'
    exact hi.of_updates hup ((hi.pool u).free he hup.size hup.test)

end PallocInv

/-! ## `palloc_init` -/

/-- The bitmap is sized from the count before the map's pages are taken away, so it fits in
those pages. -/
theorem bitmap_buf_size_fits (page_cnt : Nat) :
    bitmap_buf_size (page_cnt - DIV_ROUND_UP (bitmap_buf_size page_cnt) PGSIZE) ≤
      DIV_ROUND_UP (bitmap_buf_size page_cnt) PGSIZE * PGSIZE := by
  unfold bitmap_buf_size DIV_ROUND_UP
  simp only [PGSIZE_eq]
  omega

theorem Palloc.init_pool_ok {base page_cnt : Nat} {h : pg_ofs base = 0}
    {hcnt : page_cnt < BITMAP_ERROR} {p : Pool} (hp : Palloc.init_pool base page_cnt h hcnt = .ok p) :
    p.base = base + DIV_ROUND_UP (bitmap_buf_size page_cnt) PGSIZE * PGSIZE ∧
      bitmap_size p.used_map = page_cnt - DIV_ROUND_UP (bitmap_buf_size page_cnt) PGSIZE ∧
      DIV_ROUND_UP (bitmap_buf_size page_cnt) PGSIZE ≤ page_cnt ∧
      ∀ j, bitmap_test p.used_map j = false := by
  unfold Palloc.init_pool at hp
  dsimp only at hp
  split at hp
  · cases hp
  · cases hp
    refine ⟨rfl, by simp [Pintos.init_pool, bitmap_size, bitmap_create], by omega, init_pool_free _ _ _ _⟩

/-- `palloc_init` lays the pools out as `Layout` says, with every page free. -/
theorem palloc_init_ok {R L : Nat} {mem : Mem} {pa : Palloc} (h : palloc_init R L mem = .ok pa) :
    Layout pa ∧ ∀ u j, bitmap_test (pa.pool u).used_map j = false := by
  unfold palloc_init at h
  split at h
  · dsimp only at h
    obtain ⟨kp, hk, h⟩ := Except.bind_eq_ok.mp h
    obtain ⟨up, hu, h⟩ := Except.bind_eq_ok.mp h
    cases h
    obtain ⟨hkb, hks, hkle, hkf⟩ := Palloc.init_pool_ok hk
    obtain ⟨hub, hus, -, huf⟩ := Palloc.init_pool_ok hu
    refine ⟨⟨Nat.le_add_right _ _, ?_, ?_, ?_⟩, fun u j => by cases u <;> simp [Palloc.pool, hkf, huf]⟩
    · rw [hkb, hks]
      exact Nat.add_le_add_left (bitmap_buf_size_fits _) _
    · -- the kernel pool's pages end where the user pool's map begins
      rw [Pool.page, hkb, hks, Nat.add_assoc, Nat.mul_comm PGSIZE, ← Nat.add_mul, Nat.add_sub_cancel' hkle]
    · rw [hub, hus]
      exact Nat.add_le_add_left (bitmap_buf_size_fits _) _
  · cases h

theorem PallocInv.init {R L : Nat} {s : PallocSys} (h : PallocInit R L s) : PallocInv s := by
  obtain ⟨⟨mem, hm⟩, hlive⟩ := h
  obtain ⟨hl, hclear⟩ := palloc_init_ok hm
  exact ⟨hl, fun u => by rw [hlive u]; exact PoolInv.nil (hclear u)⟩

theorem PallocInv.reachable {R L : Nat} {s : PallocSys} (h : PallocReachable R L s) : PallocInv s :=
  Lts.Reachable.invariant PallocInv.init (fun hst hi => hi.step hst) h

/-! ## The calls as functions -/

/-- The state a client's `palloc_get_multiple (flags, page_cnt)` leads to. -/
def PallocSys.afterGet (s : PallocSys) (flags : PallocFlags) (page_cnt : Nat) : PallocSys :=
  match palloc_get_multiple s.palloc flags page_cnt with
  | (some pages, pa) => ⟨pa, Function.update s.live flags.user
      ((pg_no pages - pg_no (s.palloc.pool flags.user).base, page_cnt) :: s.live flags.user)⟩
  | (none, pa) => ⟨pa, s.live⟩

/-- The state a client's free of the run `e` of pool `u` leads to; a free that fails its checks
changes nothing here, and `afterFree_step` shows that a free of a live run never does. -/
def PallocSys.afterFree (s : PallocSys) (u : Bool) (e : Nat × Nat) : PallocSys :=
  match palloc_free_multiple s.palloc ((s.palloc.pool u).page e.1) e.2 with
  | .ok pa => ⟨pa, Function.update s.live u ((s.live u).erase e)⟩
  | .error _ => s

theorem PallocSys.afterGet_step (s : PallocSys) (flags : PallocFlags) (page_cnt : Nat) :
    PallocStep s (.get flags page_cnt) (s.afterGet flags page_cnt) := by
  unfold PallocSys.afterGet
  split
  · exact .get_some ‹_›
  · exact .get_none ‹_›

/-- A client's free of a live run always goes through. -/
theorem PallocSys.afterFree_step {R L : Nat} {s : PallocSys} (hr : PallocReachable R L s)
    {u : Bool} {e : Nat × Nat} (he : e ∈ s.live u) :
    PallocStep s (.free ((s.palloc.pool u).page e.1) e.2) (s.afterFree u e) := by
  have hi := PallocInv.reachable hr
  obtain ⟨pa, hfree, -⟩ := palloc_free_multiple_live hi.layout (hi.pool u) he
  unfold PallocSys.afterFree
  rw [hfree]
  exact .free he hfree

/-! ## Runs as bytes -/

namespace Palloc

variable {s : Palloc} {u : Bool} {e f : Nat × Nat} {a : Nat}

/-- A byte of a run lies in the run's page of index `(a - base) / PGSIZE`. -/
theorem RunBytes.mem (h : s.RunBytes u e a) :
    (s.pool u).base ≤ a ∧ Extent.Mem e ((a - (s.pool u).base) / PGSIZE) := by
  obtain ⟨h₁, h₂⟩ := h
  simp only [Pool.page, PGSIZE_eq] at h₁ h₂ ⊢
  exact ⟨by omega, by omega, by omega⟩

theorem RunBytes.disjoint (hd : Extent.Disjoint e f) (he : s.RunBytes u e a) : ¬s.RunBytes u f a :=
  fun hf => hd _ he.mem.2 hf.mem.2

/-- The bytes of a run of the pool lie between its pool's first page and the next region. -/
theorem RunBytes.lt_end (h : s.RunBytes u e a) (hle : e.1 + e.2 ≤ bitmap_size (s.pool u).used_map) :
    a < (s.pool u).page (bitmap_size (s.pool u).used_map) := by
  have := h.2
  simp only [Pool.page, PGSIZE_eq] at this ⊢
  omega

/-- Every byte of a run of either pool lies outside both maps' pages. -/
theorem RunBytes.not_mapPages (hl : Layout s) (h : s.RunBytes u e a)
    (hle : e.1 + e.2 ≤ bitmap_size (s.pool u).used_map) (v : Bool) : ¬s.MapPages v a := by
  have hlo := h.mem.1
  have hhi := h.lt_end hle
  have := hl.kernel_map
  have := hl.kernel_user
  have := hl.user_map
  rintro ⟨hm₁, hm₂⟩
  cases u <;> cases v <;> simp only [pool, map, Pool.page, if_true, Bool.false_eq_true, if_false] at * <;>
    omega

/-- A kernel-pool run and a user-pool run share no byte: the kernel pool ends below the user
pool's map. -/
theorem RunBytes.kernel_user (hl : Layout s) (he : s.RunBytes false e a)
    (hle : e.1 + e.2 ≤ bitmap_size s.kernel_pool.used_map) : ¬s.RunBytes true f a := by
  intro hf
  have h₁ := he.lt_end hle
  have h₂ := hf.mem.1
  have := hl.kernel_user
  have := hl.user_map
  simp only [pool, if_true, Bool.false_eq_true, if_false] at h₁ h₂
  omega

theorem InMap.mapPages (hl : Layout s) (h : s.InMap u a) : s.MapPages u a := by
  obtain ⟨h₁, h₂⟩ := h
  have := hl.kernel_map
  have := hl.user_map
  cases u <;> simp only [MapPages, pool, map, if_true, Bool.false_eq_true, if_false] at * <;>
    exact ⟨h₁, by omega⟩

end Palloc

/-- The runs of the pool, as the clients see them: no page of a live run is handed out again,
and the pages `palloc_get_multiple` finds free are the ones no live run holds. -/
theorem palloc_get_multiple_none_iff {s : PallocSys} (hi : PallocInv s) (flags : PallocFlags)
    {n : Nat} (hn : 0 < n) :
    (palloc_get_multiple s.palloc flags n).1 = none ↔
      ¬∃ j, j + n ≤ bitmap_size (s.palloc.pool flags.user).used_map ∧
        ∀ i < n, ∀ e ∈ s.live flags.user, ¬Extent.Mem e (j + i) := by
  have hm := (hi.pool flags.user).marks
  constructor
  · intro hnone ⟨j, hj, hfree⟩
    have hpair : palloc_get_multiple s.palloc flags n = (none, (palloc_get_multiple s.palloc flags n).2) := by
      rw [← hnone]
    obtain ⟨-, hfull⟩ := palloc_get_multiple_none hpair
    obtain ⟨i, hi', hbit⟩ := hfull hn j hj
    obtain ⟨e, he, hmem⟩ := (hm (j + i)).mp hbit
    exact hfree i hi' e he hmem
  · intro hnot
    cases hg : palloc_get_multiple s.palloc flags n with
    | mk r pa =>
      cases r with
      | none => rfl
      | some pages =>
        obtain ⟨idx, -, -, hle, hclear, -⟩ := palloc_get_multiple_some hg
        refine absurd ⟨idx, hle, fun i hi' e he hmem => ?_⟩ hnot
        have := hm.mem he hmem
        rw [hclear (idx + i) ⟨Nat.le_add_right _ _, by dsimp only; omega⟩] at this
        cases this

theorem palloc_get_multiple_zeroed {s pa : Palloc} {flags : PallocFlags} {n pages : Nat}
    (h : palloc_get_multiple s flags n = (some pages, pa)) (hz : flags.zero = true) :
    ∀ a, pages ≤ a → a < pages + PGSIZE * n → pa.mem a = 0 := by
  obtain ⟨-, -, -, -, -, -, hmem⟩ := palloc_get_multiple_some h
  intro a h₁ h₂
  rw [hmem, if_pos hz, memset_apply, if_pos ⟨h₁, h₂⟩]

theorem palloc_runs_exclusive {R L : Nat} {s : PallocSys} (hr : PallocReachable R L s) :
    (∀ u, ∀ e ∈ s.live u, 0 < e.2 ∧ e.1 + e.2 ≤ bitmap_size (s.palloc.pool u).used_map ∧
        ∀ a, s.palloc.RunBytes u e a → ∀ v, ¬s.palloc.MapPages v a) ∧
    (∀ v a, s.palloc.InMap v a → s.palloc.MapPages v a) ∧
    (∀ u, (s.live u).Pairwise fun e f => ∀ a, s.palloc.RunBytes u e a → ¬s.palloc.RunBytes u f a) ∧
    (∀ e ∈ s.live false, ∀ f ∈ s.live true, ∀ a,
        s.palloc.RunBytes false e a → ¬s.palloc.RunBytes true f a) ∧
    (∀ u j, bitmap_test (s.palloc.pool u).used_map j = true ↔ ∃ e ∈ s.live u, Extent.Mem e j) ∧
    (∀ flags n, 0 < n → ((palloc_get_multiple s.palloc flags n).1 = none ↔
        ¬∃ j, j + n ≤ bitmap_size (s.palloc.pool flags.user).used_map ∧
          ∀ i < n, ∀ e ∈ s.live flags.user, ¬Extent.Mem e (j + i))) ∧
    (∀ flags n pages pa, palloc_get_multiple s.palloc flags n = (some pages, pa) → flags.zero = true →
        ∀ a, pages ≤ a → a < pages + PGSIZE * n → pa.mem a = 0) ∧
    (∀ u, ∀ e ∈ s.live u, ∃ pa, palloc_free_multiple s.palloc ((s.palloc.pool u).page e.1) e.2 = .ok pa) := by
  have hi := PallocInv.reachable hr
  refine ⟨fun u e he => ?_, fun v a h => h.mapPages hi.layout, fun u => ?_, fun e he f _ a hae => ?_,
    fun u => (hi.pool u).marks, fun flags _ hn => palloc_get_multiple_none_iff hi flags hn,
    fun _ _ _ _ h hz => palloc_get_multiple_zeroed h hz, fun u e he => ?_⟩
  · obtain ⟨hpos, hle⟩ := (hi.pool u).runs e he
    exact ⟨hpos, hle, fun a ha => ha.not_mapPages hi.layout hle⟩
  · exact (hi.pool u).disjoint.imp fun hd a hae => Palloc.RunBytes.disjoint hd hae
  · exact hae.kernel_user hi.layout ((hi.pool false).runs e he).2
  · obtain ⟨pa, hfree, -⟩ := palloc_free_multiple_live hi.layout (hi.pool u) he
    exact ⟨pa, hfree⟩

/-- A machine of 260 pages: four pages of free memory, two for each pool, of which each pool's
map takes one. -/
def pallocBoot : PallocSys :=
  ⟨⟨Pintos.init_pool (PHYS_BASE + 0x101000) 1 (by decide) (by decide),
    Pintos.init_pool (PHYS_BASE + 0x103000) 1 (by decide) (by decide),
    PHYS_BASE + 0x100000, PHYS_BASE + 0x102000, fun _ => 0⟩, fun _ => []⟩

theorem pallocBoot_reachable : PallocReachable 260 SIZE_MAX pallocBoot :=
  Lts.Reachable.of_init ⟨⟨fun _ => 0, rfl⟩, fun _ => rfl⟩

theorem three_lt_bitmap_error : 3 < BITMAP_ERROR := by decide

/-- A machine of 264 pages: eight pages of free memory, four for each pool, of which each pool's
map takes one. -/
def pallocSmall : PallocSys :=
  ⟨⟨Pintos.init_pool (PHYS_BASE + 0x101000) 3 (by decide) three_lt_bitmap_error,
    Pintos.init_pool (PHYS_BASE + 0x105000) 3 (by decide) three_lt_bitmap_error,
    PHYS_BASE + 0x100000, PHYS_BASE + 0x104000, fun _ => 0⟩, fun _ => []⟩

/-- Three one-page allocations from the user pool, and the free of the middle one: two live
runs with a free page between them. -/
def pallocFragmented : PallocSys :=
  (((pallocSmall.afterGet ⟨false, true⟩ 1).afterGet ⟨false, true⟩ 1).afterGet ⟨false, true⟩ 1).afterFree
    true (1, 1)

theorem pallocFragmented_reachable : PallocReachable 264 SIZE_MAX pallocFragmented := by
  have h₀ : PallocReachable 264 SIZE_MAX pallocSmall :=
    Lts.Reachable.of_init ⟨⟨fun _ => 0, rfl⟩, fun _ => rfl⟩
  have h₃ := ((h₀.of_step (PallocSys.afterGet_step _ ⟨false, true⟩ 1)).of_step
    (PallocSys.afterGet_step _ ⟨false, true⟩ 1)).of_step (PallocSys.afterGet_step _ ⟨false, true⟩ 1)
  exact h₃.of_step (PallocSys.afterFree_step h₃ (by decide))

theorem palloc_runs_exclusive_fragmented :
    PallocReachable 264 SIZE_MAX pallocFragmented ∧ pallocFragmented.live true = [(2, 1), (0, 1)] ∧
    (∀ u, ∀ e ∈ pallocFragmented.live u,
        0 < e.2 ∧ e.1 + e.2 ≤ bitmap_size (pallocFragmented.palloc.pool u).used_map ∧
        ∀ a, pallocFragmented.palloc.RunBytes u e a → ∀ v, ¬pallocFragmented.palloc.MapPages v a) ∧
    (∀ v a, pallocFragmented.palloc.InMap v a → pallocFragmented.palloc.MapPages v a) ∧
    (∀ u, (pallocFragmented.live u).Pairwise fun e f =>
        ∀ a, pallocFragmented.palloc.RunBytes u e a → ¬pallocFragmented.palloc.RunBytes u f a) ∧
    (∀ e ∈ pallocFragmented.live false, ∀ f ∈ pallocFragmented.live true, ∀ a,
        pallocFragmented.palloc.RunBytes false e a → ¬pallocFragmented.palloc.RunBytes true f a) ∧
    (∀ u j, bitmap_test (pallocFragmented.palloc.pool u).used_map j = true ↔
        ∃ e ∈ pallocFragmented.live u, Extent.Mem e j) ∧
    (∀ flags n, 0 < n → ((palloc_get_multiple pallocFragmented.palloc flags n).1 = none ↔
        ¬∃ j, j + n ≤ bitmap_size (pallocFragmented.palloc.pool flags.user).used_map ∧
          ∀ i < n, ∀ e ∈ pallocFragmented.live flags.user, ¬Extent.Mem e (j + i))) ∧
    (∀ flags n pages pa, palloc_get_multiple pallocFragmented.palloc flags n = (some pages, pa) →
        flags.zero = true → ∀ a, pages ≤ a → a < pages + PGSIZE * n → pa.mem a = 0) ∧
    (∀ u, ∀ e ∈ pallocFragmented.live u, ∃ pa,
        palloc_free_multiple pallocFragmented.palloc ((pallocFragmented.palloc.pool u).page e.1) e.2 =
          .ok pa) :=
  ⟨pallocFragmented_reachable, by decide, palloc_runs_exclusive pallocFragmented_reachable⟩

/-- A request for no pages returns `NULL`, although a run of zero free pages is always there. -/
theorem palloc_get_zero_pages_null :
    PallocReachable 260 SIZE_MAX pallocBoot ∧
    (palloc_get_multiple pallocBoot.palloc ⟨false, false⟩ 0).1 = none ∧
    ∃ j, j + 0 ≤ bitmap_size (pallocBoot.palloc.pool false).used_map ∧
      ∀ i < 0, ∀ e ∈ pallocBoot.live false, ¬Extent.Mem e (j + i) :=
  ⟨pallocBoot_reachable, rfl, 0, Nat.zero_le _, fun i hi => absurd hi (Nat.not_lt_zero i)⟩

/-! ## The one-page allocator of the virtual-memory model -/

/-- On the user pool, a one-page allocation is the `palloc_get_page` that `vm_frame_allocate`
calls in the virtual-memory model. -/
theorem palloc_get_multiple_one (s : Palloc) {flags : PallocFlags} (hu : flags.user = true) :
    palloc_get_multiple s flags 1 =
      ((palloc_get_page s.user_pool s.mem flags).1,
        { s with user_pool := (palloc_get_page s.user_pool s.mem flags).2.1
                 mem := (palloc_get_page s.user_pool s.mem flags).2.2 }) := by
  have hpool : s.pool flags.user = s.user_pool := by rw [hu]; rfl
  have hset : ∀ p, s.setPool flags.user p = { s with user_pool := p } := by rw [hu]; exact fun _ => rfl
  unfold palloc_get_multiple palloc_get_page
  simp only [hpool, hset, one_ne_zero, if_false, Nat.mul_one]
  split
  · split <;> rfl
  · rfl

end Pintos
