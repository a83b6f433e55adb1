import Pintos.Threads.PallocPools

/-!
# The kernel heap (`threads/malloc.c`)

`malloc` rounds a request up to the smallest of seven block sizes, 16 to 1024 bytes, and takes a
block from that descriptor's free list, carving a fresh page ("arena") into blocks when the list
is empty. A request too big for every descriptor gets its own run of pages, whose arena header
records the page count. `free` puts a block back at the front of its list and returns the arena
to the page allocator once all its blocks are free.

The arena headers live at the start of each arena's page: `arenas a` is the header at `a`, and a
page with no header reads `none` (its `magic` is not `ARENA_MAGIC`). The free lists are the block
addresses from front to back. Sizes are `size_t`, so the additions in `malloc`'s page count and
the product in `calloc` wrap modulo `2 ^ 32`.

That wrap is what the results are about. `calloc` catches a wrapped product only when it falls
below a factor (`calloc_size`), and `malloc`'s page count for a request within a page of
`SIZE_MAX` wraps to one page (`malloc_big_page_cnt`).
-/

namespace Pintos

/-- `sizeof (struct arena)`: `magic`, `desc` and `free_cnt`, four bytes each on the target. -/
def arenaHeader : Nat := 12

/-- `size_t` addition. -/
def addSize (a b : Nat) : Nat := (a + b) % 2 ^ 32

/-- `memcpy (dst, src, size)` within kernel memory. -/
def memcpy (m : Mem) (dst src size : Nat) : Mem :=
  fun a => if dst ≤ a ∧ a < dst + size then m (src + (a - dst)) else m a

/-- `struct desc`, with its free list as the block addresses from front to back. -/
structure Desc where
  block_size : Nat
  blocks_per_arena : Nat
  free_list : List Nat
  deriving DecidableEq, Repr

/-- `struct arena`: the owning descriptor, by its index in `descs`, or `none` for a big block;
and `free_cnt`, the free blocks or, for a big block, its pages. -/
structure Arena where
  desc : Option Nat
  free_cnt : Nat
  deriving DecidableEq, Repr

/-- The heap: the page allocator it takes pages from (with kernel memory), the descriptors, and
the arena header at each page. -/
structure Heap where
  palloc : Palloc
  descs : List Desc
  arenas : Nat → Option Arena

abbrev MallocM := EStateM Fault Heap

namespace Malloc

/-- The loop of `malloc_init` from `block_size`, with `fuel` of the ten slots of `descs` left. -/
def initDescs : Nat → Nat → List Desc
  | _, 0 => []
  | block_size, fuel + 1 =>
    if block_size < PGSIZE / 2 then
      ⟨block_size, (PGSIZE - arenaHeader) / block_size, []⟩ :: initDescs (block_size * 2) fuel
    else []

/-- `malloc_init ()`, over the page allocator `palloc_init` set up. -/
def malloc_init (p : Palloc) : Heap := ⟨p, initDescs 16 10, fun _ => none⟩

/-- `&descs[i]`. -/
def getDesc (i : Nat) : MallocM Desc := do
  match (← get).descs[i]? with
  | some d => return d
  | none => throw .undefined

def setDesc (i : Nat) (d : Desc) : MallocM Unit :=
  modify fun s => { s with descs := s.descs.set i d }

def setArena (a : Nat) (arena : Option Arena) : MallocM Unit :=
  modify fun s => { s with arenas := Function.update s.arenas a arena }

def setMem (m : Mem) : MallocM Unit :=
  modify fun s => { s with palloc := { s.palloc with mem := m } }

/-- `arena_to_block (a, idx)` in an arena of blocks of `block_size` bytes. -/
def arena_to_block (a block_size idx : Nat) : Nat := a + arenaHeader + idx * block_size

/-- `block_to_arena (b)`: the header on `b`'s page, after its `ASSERT`s on the magic number and
on `b`'s alignment in the arena. -/
def block_to_arena (b : Nat) : MallocM (Nat × Arena) := do
  let a := pg_round_down b
  match (← get).arenas a with
  | none => throw .panic
  | some arena =>
    match arena.desc with
    | some i =>
      let d ← getDesc i
      if (pg_ofs b + 2 ^ 32 - arenaHeader) % 2 ^ 32 % d.block_size = 0 then return (a, arena)
      else throw .panic
    | none => if pg_ofs b = arenaHeader then return (a, arena) else throw .panic

/-- `palloc_get_multiple (0, page_cnt)`: kernel pages, not zeroed. -/
def getPages (page_cnt : Nat) : MallocM (Option Nat) := do
  let s ← get
  let r := palloc_get_multiple s.palloc ⟨false, false⟩ page_cnt
  set { s with palloc := r.2 }
  return r.1

/-- `palloc_free_multiple (pages, page_cnt)`. -/
def freePages (pages page_cnt : Nat) : MallocM Unit := do
  let s ← get
  match palloc_free_multiple s.palloc pages page_cnt with
  | .ok p => set { s with palloc := p }
  | .error e => throw e

/-- `malloc (size)`. -/
def malloc (size : Nat) : MallocM (Option Nat) := do
  if size = 0 then return none
  match (← get).descs.findIdx? (fun d => decide (size ≤ d.block_size)) with
  | none =>
    -- a big block: `DIV_ROUND_UP (size + sizeof *a, PGSIZE)` pages, on `size_t`
    let page_cnt := addSize (addSize size arenaHeader) (PGSIZE - 1) / PGSIZE
    match ← getPages page_cnt with
    | none => return none
    | some a =>
      setArena a (some ⟨none, page_cnt⟩)
      return some (a + arenaHeader)
  | some i =>
    let d ← getDesc i
    if d.free_list = [] then
      match ← getPages 1 with
      | none => return none
      | some a =>
        setArena a (some ⟨some i, d.blocks_per_arena⟩)
        let blocks := (List.range d.blocks_per_arena).map (arena_to_block a d.block_size)
        setDesc i { d with free_list := d.free_list ++ blocks }
    let d ← getDesc i
    match d.free_list with
    | [] => throw .panic
    | b :: rest =>
      setDesc i { d with free_list := rest }
      let (a, arena) ← block_to_arena b
      setArena a (some { arena with free_cnt := arena.free_cnt - 1 })
      return some b

/-- `calloc (a, b)`. -/
def calloc (a b : Nat) : MallocM (Option Nat) := do
  let size := a * b % 2 ^ 32
  if size < a ∨ size < b then return none
  let p ← malloc size
  if let some p := p then
    setMem (memset (← get).palloc.mem p 0 size)
  return p

/-- `block_size (block)`. -/
def block_size (block : Nat) : MallocM Nat := do
  let (_, arena) ← block_to_arena block
  match arena.desc with
  | some i => return (← getDesc i).block_size
  | none => return PGSIZE * arena.free_cnt - pg_ofs block

/-- `free (p)`. -/
def free (p : Nat) : MallocM Unit := do
  if p = 0 then return
  let (a, arena) ← block_to_arena p
  match arena.desc with
  | some i =>
    let d ← getDesc i
    setMem (memset (← get).palloc.mem p 0xcc d.block_size)
    setDesc i { d with free_list := p :: d.free_list }
    let free_cnt := arena.free_cnt + 1
    if d.blocks_per_arena ≤ free_cnt then
      if free_cnt ≠ d.blocks_per_arena then throw .panic
      -- `list_remove` of each of the arena's blocks, then the page goes back
      let d ← getDesc i
      let blocks := (List.range d.blocks_per_arena).map (arena_to_block a d.block_size)
      setDesc i { d with free_list := blocks.foldl List.erase d.free_list }
      freePages a 1
      setArena a none
    else setArena a (some { arena with free_cnt := free_cnt })
  | none =>
    freePages a arena.free_cnt
    setArena a none

/-- `realloc (old_block, new_size)`. -/
def realloc (old_block new_size : Nat) : MallocM (Option Nat) := do
  if new_size = 0 then
    free old_block
    return none
  let new_block ← malloc new_size
  if old_block ≠ 0 then
    if let some nb := new_block then
      let old_size ← block_size old_block
      setMem (memcpy (← get).palloc.mem nb old_block (min new_size old_size))
      free old_block
  return new_block

/-! ## Big blocks -/

theorem getPages_apply (page_cnt : Nat) (s : Heap) :
    getPages page_cnt s = .ok (palloc_get_multiple s.palloc ⟨false, false⟩ page_cnt).1
      { s with palloc := (palloc_get_multiple s.palloc ⟨false, false⟩ page_cnt).2 } := rfl

/-- The page count `malloc` asks for a request too big for every descriptor. -/
def bigPageCnt (size : Nat) : Nat := addSize (addSize size arenaHeader) (PGSIZE - 1) / PGSIZE

theorem findIdx?_eq_none_of_big {s : Heap} {size : Nat} (hbig : ∀ d ∈ s.descs, d.block_size < size) :
    s.descs.findIdx? (fun d => decide (size ≤ d.block_size)) = none := by
  rw [List.findIdx?_eq_none_iff]
  intro d hd
  simpa using hbig d hd

/-- A request bigger than every block size takes `bigPageCnt size` pages, headed by a big-block
arena, and returns the byte after the header. -/
theorem malloc_of_big {s : Heap} {size : Nat} (h0 : size ≠ 0)
    (hbig : ∀ d ∈ s.descs, d.block_size < size) :
    malloc size s =
      match palloc_get_multiple s.palloc ⟨false, false⟩ (bigPageCnt size) with
      | (none, pa) => .ok none { s with palloc := pa }
      | (some a, pa) => .ok (some (a + arenaHeader))
          ⟨pa, s.descs, Function.update s.arenas a (some ⟨none, bigPageCnt size⟩)⟩ := by
  unfold malloc
  simp only [h0, if_false, EStateM.get_bind_apply, findIdx?_eq_none_of_big hbig]
  rw [EStateM.bind_ok (getPages_apply _ s)]
  unfold bigPageCnt
  rcases palloc_get_multiple s.palloc ⟨false, false⟩
    (addSize (addSize size arenaHeader) (PGSIZE - 1) / PGSIZE) with ⟨_ | a, pa⟩
  · rfl
  · rfl

/-- The byte after a big block's header is where `block_to_arena` finds it. -/
theorem block_to_arena_big {s : Heap} {a n : Nat} (ha : pg_ofs a = 0)
    (harena : s.arenas a = some ⟨none, n⟩) :
    block_to_arena (a + arenaHeader) s = .ok (a, ⟨none, n⟩) s := by
  have hofs : pg_ofs (a + arenaHeader) = arenaHeader := by
    simp only [pg_ofs, PGSIZE_eq, arenaHeader] at ha ⊢
    omega
  have hdown : pg_round_down (a + arenaHeader) = a := by
    have := pg_round_down_add_ofs (a + arenaHeader)
    omega
  simp [block_to_arena, hdown, harena, hofs]

/-- The bytes `block_size` reports for a big block of `n` pages: all of them but the header. -/
theorem block_size_big {s : Heap} {a n : Nat} (ha : pg_ofs a = 0)
    (harena : s.arenas a = some ⟨none, n⟩) :
    block_size (a + arenaHeader) s = .ok (PGSIZE * n - arenaHeader) s := by
  have hofs : pg_ofs (a + arenaHeader) = arenaHeader := by
    simp only [pg_ofs, PGSIZE_eq, arenaHeader] at ha ⊢
    omega
  simp [block_size, EStateM.bind_ok (block_to_arena_big ha harena), hofs]

theorem Pool.pg_ofs_page (p : Pool) (idx : Nat) : pg_ofs (p.page idx) = 0 := by
  have hb := p.base_aligned
  simp only [Pool.page, pg_ofs, PGSIZE_eq] at hb ⊢
  omega

/-- A successful big allocation: the block after the header of a fresh page-aligned arena of
`bigPageCnt size` pages. -/
theorem malloc_of_big_some {s s' : Heap} {size p : Nat} (h0 : size ≠ 0)
    (hbig : ∀ d ∈ s.descs, d.block_size < size) (h : malloc size s = .ok (some p) s') :
    ∃ a, p = a + arenaHeader ∧ pg_ofs a = 0 ∧ s'.arenas a = some ⟨none, bigPageCnt size⟩ := by
  rw [malloc_of_big h0 hbig] at h
  rcases hget : palloc_get_multiple s.palloc ⟨false, false⟩ (bigPageCnt size) with ⟨_ | a, pa⟩
  · rw [hget] at h
    cases h
  · rw [hget] at h
    cases h
    obtain ⟨idx, rfl, -⟩ := palloc_get_multiple_some hget
    exact ⟨_, rfl, Pool.pg_ofs_page _ _, by simp⟩

/-- The eleven requests closest to `SIZE_MAX` wrap `size + sizeof *a + PGSIZE - 1` past zero
and ask for a single page. -/
theorem bigPageCnt_of_near_max {size : Nat} (hlo : 2 ^ 32 - 11 ≤ size) (hhi : size < 2 ^ 32) :
    bigPageCnt size = 1 := by
  simp only [bigPageCnt, addSize, arenaHeader, PGSIZE_eq]
  omega

/-- For such a request, any block `malloc` returns is one page less its header. -/
theorem malloc_near_max_one_page {s s' : Heap} {size p : Nat} (hlo : 2 ^ 32 - 11 ≤ size)
    (hhi : size < 2 ^ 32) (hbig : ∀ d ∈ s.descs, d.block_size < size)
    (h : malloc size s = .ok (some p) s') :
    block_size p s' = .ok (PGSIZE - arenaHeader) s' := by
  obtain ⟨a, rfl, ha, harena⟩ := malloc_of_big_some (by omega) hbig h
  rw [bigPageCnt_of_near_max hlo hhi] at harena
  rw [block_size_big ha harena, Nat.mul_one]

/-! ## `calloc` -/

/-- When the wrapped product is at least both factors, `calloc` is `malloc` of the wrapped
product, zeroed. -/
theorem calloc_of_guard {a b : Nat} (s : Heap) (ha : a ≤ a * b % 2 ^ 32) (hb : b ≤ a * b % 2 ^ 32) :
    calloc a b s =
      match malloc (a * b % 2 ^ 32) s with
      | .ok (some p) s' => .ok (some p)
          ⟨{ s'.palloc with mem := memset s'.palloc.mem p 0 (a * b % 2 ^ 32) }, s'.descs, s'.arenas⟩
      | r => r := by
  unfold calloc
  simp only [show ¬ (a * b % 2 ^ 32 < a ∨ a * b % 2 ^ 32 < b) by omega, if_false]
  rcases hm : malloc (a * b % 2 ^ 32) s with ⟨_ | p, s'⟩ | ⟨e, s'⟩
  · rw [EStateM.bind_ok hm]
    rfl
  · rw [EStateM.bind_ok hm]
    rfl
  · rw [EStateM.bind_error hm]

/-- A product that wraps to a value at least both factors, and above every block size, gets a
block of the wrapped size's pages: less than the product, zero-filled up to the wrapped size. -/
theorem calloc_wrapped {s s' : Heap} {a b p : Nat} (hwrap : 2 ^ 32 ≤ a * b)
    (ha : a ≤ a * b % 2 ^ 32) (hb : b ≤ a * b % 2 ^ 32)
    (hbig : ∀ d ∈ s.descs, d.block_size < a * b % 2 ^ 32)
    (h : calloc a b s = .ok (some p) s') :
    ∃ n, block_size p s' = .ok n s' ∧ n < a * b ∧
      ∀ i < a * b % 2 ^ 32, s'.palloc.mem (p + i) = 0 := by
  have h0 : a * b % 2 ^ 32 ≠ 0 := by
    intro hz
    have : a = 0 := by omega
    subst this
    simp at hwrap
  rw [calloc_of_guard s ha hb] at h
  rcases hm : malloc (a * b % 2 ^ 32) s with ⟨_ | p', s₁⟩ | ⟨e, s₁⟩ <;> rw [hm] at h
  · cases h
  · cases h
    obtain ⟨a', rfl, ha', harena⟩ := malloc_of_big_some h0 hbig hm
    refine ⟨_, block_size_big (s := ⟨_, s₁.descs, s₁.arenas⟩) ha' harena, ?_, ?_⟩
    · -- the pages hold at most the wrapped size plus a page, and the product exceeds `2 ^ 32`
      have hcnt : PGSIZE * bigPageCnt (a * b % 2 ^ 32) ≤ a * b % 2 ^ 32 + arenaHeader + (PGSIZE - 1) := by
        unfold bigPageCnt addSize
        have := Nat.mul_div_le (((a * b % 2 ^ 32 + arenaHeader) % 2 ^ 32 + (PGSIZE - 1)) % 2 ^ 32) PGSIZE
        have := Nat.mod_le ((a * b % 2 ^ 32 + arenaHeader) % 2 ^ 32 + (PGSIZE - 1)) (2 ^ 32)
        have := Nat.mod_le (a * b % 2 ^ 32 + arenaHeader) (2 ^ 32)
        omega
      have hmod : a * b % 2 ^ 32 + 2 ^ 32 ≤ a * b := by
        have := Nat.mod_add_div (a * b) (2 ^ 32)
        have : 1 ≤ a * b / 2 ^ 32 := (Nat.one_le_div_iff (by norm_num)).mpr hwrap
        omega
      simp only [PGSIZE_eq, arenaHeader] at hcnt ⊢
      omega
    · intro i hi
      simp only [memset_apply]
      rw [if_pos ⟨by omega, by omega⟩]
  · cases h

/-- `malloc_init`'s blocks are at most 1024 bytes. -/
theorem initDescs_block_size : ∀ d ∈ initDescs 16 10, d.block_size ≤ 1024 := by decide

theorem malloc_init_big (pa : Palloc) {size : Nat} (h : 1024 < size) :
    ∀ d ∈ (malloc_init pa).descs, d.block_size < size :=
  fun d hd => lt_of_le_of_lt (initDescs_block_size d hd) h

/-! ## From boot

A machine of 336 pages of RAM: `palloc_init` finds 80 free pages above 1 MB and gives 40 to the
kernel pool, whose first page holds its `used_map`. -/

set_option maxRecDepth 20000 in
/-- `calloc (65537, 65537)`: the product `2 ^ 32 + 2 ^ 17 + 1` wraps to `131073`, which is above
both factors, so the guard passes and the caller gets 33 pages for a 4 GB request. -/
theorem calloc_underallocates_at_boot :
    ∃ pa, palloc_init 336 1000 (fun _ => 0) = .ok pa ∧
      ∃ p h n, calloc 65537 65537 (malloc_init pa) = .ok (some p) h ∧
        block_size p h = .ok n h ∧ n < 65537 * 65537 ∧ ∀ i < 131073, h.palloc.mem (p + i) = 0 := by
  obtain ⟨pa, hpa, p, h, hc⟩ : ∃ pa, palloc_init 336 1000 (fun _ => 0) = .ok pa ∧
      ∃ p h, calloc 65537 65537 (malloc_init pa) = .ok (some p) h := ⟨_, rfl, _, _, rfl⟩
  obtain ⟨n, hn, hlt, hzero⟩ :=
    calloc_wrapped (by decide) (by decide) (by decide) (malloc_init_big pa (by decide)) hc
  exact ⟨pa, hpa, p, h, n, hc, hn, hlt, fun i hi => hzero i (lt_of_lt_of_eq hi (by decide))⟩

set_option maxRecDepth 20000 in
/-- `malloc (SIZE_MAX)` from boot returns a block of one page less its header. -/
theorem malloc_size_max_at_boot :
    ∃ pa, palloc_init 336 1000 (fun _ => 0) = .ok pa ∧
      ∃ p h, malloc SIZE_MAX (malloc_init pa) = .ok (some p) h ∧
        block_size p h = .ok (PGSIZE - arenaHeader) h ∧ PGSIZE - arenaHeader < SIZE_MAX := by
  obtain ⟨pa, hpa, p, h, hm⟩ : ∃ pa, palloc_init 336 1000 (fun _ => 0) = .ok pa ∧
      ∃ p h, malloc SIZE_MAX (malloc_init pa) = .ok (some p) h := ⟨_, rfl, _, _, rfl⟩
  exact ⟨pa, hpa, p, h, hm,
    malloc_near_max_one_page (by decide) (by decide) (malloc_init_big pa (by decide)) hm, by decide⟩

end Malloc

end Pintos
