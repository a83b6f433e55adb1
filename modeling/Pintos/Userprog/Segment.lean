import Pintos.Vm.Page

/-!
# Loading an ELF segment (`validate_segment`, `load`'s `PT_LOAD` case, `load_segment`)

`load` checks each `PT_LOAD` header with `validate_segment`, computes `file_page`, `mem_page`,
`read_bytes` and `zero_bytes` in 32-bit arithmetic, and calls `load_segment`, whose loop hands
one page at a time to `vm_supt_install_filesys`; the page is read lazily by
`lazy_load_segment` on its first fault. The loop is generic in what installs a page
(`load_segment_loop`); `segmentInstall` is the `VM` build's.

`load_segment_loop_eq` says what the loop does: it installs the closed-form pages `segPage`,
one per page of `[mem_page, mem_page + read_bytes + zero_bytes)`. On an accepted header
(`load_segment_plan`) the pages cover the segment, each reads and zeroes a page in all, and
lazily loading a page puts the segment's bytes in place when the file holds them
(`load_segment_exact`); under `VM` every page is registered (`load_segment_registers`). A page
after the last one that reads the file gets the offset where the reading stopped, not
`file_page + i * PGSIZE`, an entirely zero segment reads nothing even when `p_vaddr` is not
page-aligned, and `validate_segment` does not check that the file holds `p_filesz` bytes from
`p_offset`, so the lazy load of a page past the file's end fails (`lazy_load_segment_short`).
-/

namespace Pintos

/-- `ROUND_UP (x, step)` in 32-bit arithmetic. -/
def ROUND_UP (x step : Nat) : Nat := (x + step - 1) % 2 ^ 32 / step * step

/-- `PF_W`, the writable flag of `p_flags`. -/
def PF_W : Nat := 2

/-- The fields of `struct Elf32_Phdr` that `validate_segment` and the `PT_LOAD` case read, each
an `Elf32_Word`, `Elf32_Addr` or `Elf32_Off`: 32 bits. -/
structure Elf32_Phdr where
  p_offset : Nat
  p_vaddr : Nat
  p_filesz : Nat
  p_memsz : Nat
  p_flags : Nat
  p_offset_lt : p_offset < 2 ^ 32
  p_vaddr_lt : p_vaddr < 2 ^ 32
  p_filesz_lt : p_filesz < 2 ^ 32
  p_memsz_lt : p_memsz < 2 ^ 32
  deriving DecidableEq

/-- `validate_segment (phdr, file)` for a file of `file_length` bytes, its checks in order. -/
def validate_segment (phdr : Elf32_Phdr) (file_length : Nat) : Bool :=
  pg_ofs phdr.p_offset == pg_ofs phdr.p_vaddr &&
    !(phdr.p_offset > file_length) &&
    !(phdr.p_memsz < phdr.p_filesz) &&
    phdr.p_memsz != 0 &&
    is_user_vaddr phdr.p_vaddr &&
    is_user_vaddr ((phdr.p_vaddr + phdr.p_memsz) % 2 ^ 32) &&
    -- the region cannot wrap around
    !((phdr.p_vaddr + phdr.p_memsz) % 2 ^ 32 < phdr.p_vaddr) &&
    !(phdr.p_vaddr < PGSIZE)

/-- The arguments of `load_segment` in `load`'s `PT_LOAD` case: `file_page`, `mem_page`,
`read_bytes`, `zero_bytes` and `writable`. -/
def segmentArgs (phdr : Elf32_Phdr) : Nat × Nat × Nat × Nat × Bool :=
  let writable := phdr.p_flags &&& PF_W != 0
  let file_page := pg_round_down phdr.p_offset
  let mem_page := pg_round_down phdr.p_vaddr
  let page_offset := pg_ofs phdr.p_vaddr
  if phdr.p_filesz > 0 then
    -- a normal segment: read the initial part from disk and zero the rest
    let read_bytes := (page_offset + phdr.p_filesz) % 2 ^ 32
    let zero_bytes :=
      (ROUND_UP ((page_offset + phdr.p_memsz) % 2 ^ 32) PGSIZE + 2 ^ 32 - read_bytes) % 2 ^ 32
    (file_page, mem_page, read_bytes, zero_bytes, writable)
  else
    (file_page, mem_page, 0, ROUND_UP ((page_offset + phdr.p_memsz) % 2 ^ 32) PGSIZE, writable)

/-! ## `load_segment` -/

section Loop

variable {σ : Type} (install : σ → Nat → Nat → Nat → Nat → Bool → σ × Except Fault Bool)

/-- The loop of `load_segment`: page `upage` gets `page_read_bytes` bytes of the file at `ofs`
and `page_zero_bytes` zeros, which `install` registers; `fuel` bounds the iterations. The
counters are `uint32_t`, so `zero_bytes -= page_zero_bytes` wraps. -/
def load_segment_loop : Nat → σ → Nat → Nat → Nat → Nat → Bool → σ × Except Fault Bool
  | 0, s, _, _, _, _, _ => (s, .error .undefined)
  | fuel + 1, s, ofs, upage, read_bytes, zero_bytes, writable =>
    if read_bytes > 0 ∨ zero_bytes > 0 then
      let page_read_bytes := if read_bytes < PGSIZE then read_bytes else PGSIZE
      let page_zero_bytes := PGSIZE - page_read_bytes
      match install s upage ofs page_read_bytes page_zero_bytes writable with
      | (s, .ok true) =>
        load_segment_loop fuel s (ofs + page_read_bytes) (upage + PGSIZE)
          (read_bytes - page_read_bytes) ((zero_bytes + 2 ^ 32 - page_zero_bytes) % 2 ^ 32)
          writable
      | r => r
    else (s, .ok true)

/-- `load_segment (file, ofs, upage, read_bytes, zero_bytes, writable)`: its three `ASSERT`s,
then the loop, with one more turn than the pages it can fill. -/
def load_segment (s : σ) (ofs upage read_bytes zero_bytes : Nat) (writable : Bool) :
    σ × Except Fault Bool :=
  if (read_bytes + zero_bytes) % 2 ^ 32 % PGSIZE ≠ 0 ∨ pg_ofs upage ≠ 0 ∨ ofs % PGSIZE ≠ 0 then
    (s, .error .panic)
  else
    load_segment_loop install ((read_bytes + zero_bytes) / PGSIZE + 1) s ofs upage read_bytes
      zero_bytes writable

end Loop

/-! ## What the loop installs -/

/-- One page of a segment as `load_segment` hands it on. -/
structure SegPage where
  upage : Nat
  ofs : Nat
  read_bytes : Nat
  zero_bytes : Nat
  deriving DecidableEq, Repr

/-- Page `i` of a segment of `read_bytes` bytes to read from `ofs` into `upage` and on: the
reading so far stops at `ofs + min read_bytes (i * PGSIZE)`. -/
def segPage (ofs upage read_bytes i : Nat) : SegPage :=
  let r := min (read_bytes - i * PGSIZE) PGSIZE
  ⟨upage + i * PGSIZE, ofs + min read_bytes (i * PGSIZE), r, PGSIZE - r⟩

section Install

variable {σ : Type} (install : σ → Nat → Nat → Nat → Nat → Bool → σ × Except Fault Bool)

/-- Install `pages` in order, stopping at the first that is not installed. -/
def installAll (s : σ) (writable : Bool) : List SegPage → σ × Except Fault Bool
  | [] => (s, .ok true)
  | p :: ps =>
    match install s p.upage p.ofs p.read_bytes p.zero_bytes writable with
    | (s, .ok true) => installAll s writable ps
    | r => r

theorem segPage_zero (ofs upage read_bytes : Nat) :
    segPage ofs upage read_bytes 0 =
      ⟨upage, ofs, if read_bytes < PGSIZE then read_bytes else PGSIZE,
        PGSIZE - if read_bytes < PGSIZE then read_bytes else PGSIZE⟩ := by
  have hP : PGSIZE = 4096 := rfl
  simp only [segPage, Nat.zero_mul, Nat.sub_zero, Nat.add_zero, Nat.min_zero, SegPage.mk.injEq,
    true_and]
  rw [hP]
  split_ifs <;> omega

/-- After one page, the rest of a segment is the segment from its next page. -/
theorem segPage_succ (ofs upage read_bytes i : Nat) :
    segPage (ofs + if read_bytes < PGSIZE then read_bytes else PGSIZE) (upage + PGSIZE)
        (read_bytes - if read_bytes < PGSIZE then read_bytes else PGSIZE) i =
      segPage ofs upage read_bytes (i + 1) := by
  have hP : PGSIZE = 4096 := rfl
  simp only [segPage, SegPage.mk.injEq]
  rw [hP]
  split_ifs <;> refine ⟨by omega, by omega, ?_, ?_⟩ <;> omega

/-- The loop installs the pages `segPage` of a segment of `n` pages, given the fuel. -/
theorem load_segment_loop_eq (writable : Bool) :
    ∀ (n fuel : Nat) (s : σ) (ofs upage read_bytes zero_bytes : Nat),
      read_bytes + zero_bytes = n * PGSIZE → zero_bytes < 2 ^ 32 → n < fuel →
      load_segment_loop install fuel s ofs upage read_bytes zero_bytes writable =
        installAll install s writable ((List.range n).map (segPage ofs upage read_bytes)) := by
  have hP : PGSIZE = 4096 := rfl
  intro n
  induction n with
  | zero =>
    intro fuel s ofs upage read_bytes zero_bytes hsum _ hfuel
    obtain ⟨fuel, rfl⟩ := Nat.exists_eq_add_one_of_ne_zero (show fuel ≠ 0 by omega)
    rw [load_segment_loop, if_neg (by omega)]
    rfl
  | succ n ih =>
    intro fuel s ofs upage read_bytes zero_bytes hsum hzero hfuel
    obtain ⟨fuel, rfl⟩ := Nat.exists_eq_add_one_of_ne_zero (show fuel ≠ 0 by omega)
    -- one turn installs page 0; the rest is the segment from page 1, with no wrap of the
    -- zero count since the pages left are whole
    have hwrap : (zero_bytes + 2 ^ 32 - (PGSIZE - if read_bytes < PGSIZE then read_bytes else
        PGSIZE)) % 2 ^ 32 = zero_bytes - (PGSIZE - if read_bytes < PGSIZE then read_bytes else
        PGSIZE) := by
      rw [hP] at hsum ⊢
      split_ifs <;> omega
    have hrest := ih fuel
    rw [load_segment_loop, if_pos (by rw [hP] at hsum; omega), List.range_succ_eq_map,
      List.map_cons, segPage_zero, installAll, List.map_map]
    dsimp only
    generalize install s upage ofs _ _ writable = res
    rcases res with ⟨s', _ | _ | _⟩
    · rfl
    · rfl
    · dsimp only
      rw [hwrap, hrest s' _ _ _ _ (by rw [hP] at hsum ⊢; split_ifs <;> omega) (by omega)
        (by omega)]
      exact congrArg _ (List.map_congr_left fun i _ => segPage_succ ofs upage read_bytes i)

end Install

/-! ## The pages of a segment -/

/-- Byte `j` of a page that reads `read_bytes` bytes of `file` from `ofs` and zeroes the rest:
what `lazy_load_segment` leaves in the frame. -/
def pageByte (file : List UInt8) (ofs read_bytes j : Nat) : UInt8 :=
  if j < read_bytes then file.getD (ofs + j) 0 else 0

section Pages

variable (ofs upage read_bytes : Nat)

theorem segPage_size (i : Nat) :
    (segPage ofs upage read_bytes i).read_bytes + (segPage ofs upage read_bytes i).zero_bytes =
      PGSIZE := by
  simp only [segPage]
  omega

/-- The first `n` pages read `min read_bytes (n * PGSIZE)` bytes in all. -/
theorem sum_segPage_read_bytes (n : Nat) :
    (((List.range n).map (segPage ofs upage read_bytes)).map (·.read_bytes)).sum =
      min read_bytes (n * PGSIZE) := by
  have hP : PGSIZE = 4096 := rfl
  induction n with
  | zero => simp
  | succ n ih =>
    rw [List.range_succ, List.map_append, List.map_append, List.sum_append, ih]
    simp only [List.map_cons, List.map_nil, List.sum_cons, List.sum_nil, segPage]
    rw [hP]
    omega

/-- A page that reads the file reads it from `ofs + i * PGSIZE`: every page before it read a
whole page. -/
theorem segPage_ofs_of_pos {i : Nat} (h : 0 < (segPage ofs upage read_bytes i).read_bytes) :
    (segPage ofs upage read_bytes i).ofs = ofs + i * PGSIZE := by
  simp only [segPage] at h ⊢
  omega

/-- No page reads past `ofs + read_bytes`. -/
theorem segPage_read_end (i : Nat) :
    (segPage ofs upage read_bytes i).ofs + (segPage ofs upage read_bytes i).read_bytes ≤
      ofs + read_bytes := by
  simp only [segPage]
  omega

/-- Byte `j` of page `i` is byte `i * PGSIZE + j` of the file's part from `ofs`, or a zero past
`read_bytes`. -/
theorem pageByte_segPage (file : List UInt8) (i : Nat) {j : Nat} (hj : j < PGSIZE) :
    pageByte file (segPage ofs upage read_bytes i).ofs (segPage ofs upage read_bytes i).read_bytes
        j = if i * PGSIZE + j < read_bytes then file.getD (ofs + (i * PGSIZE + j)) 0 else 0 := by
  unfold pageByte segPage
  dsimp only
  by_cases h : i * PGSIZE + j < read_bytes
  · simp only [if_pos h, if_pos (show j < min (read_bytes - i * PGSIZE) PGSIZE by omega)]
    congr 1
    omega
  · simp only [if_neg h, if_neg (show ¬ j < min (read_bytes - i * PGSIZE) PGSIZE by omega)]

end Pages

/-! ## An accepted header -/

section Header

variable (phdr : Elf32_Phdr)

/-- What `validate_segment` ensures: the same page offset in the file and in memory, a segment
no smaller in memory than in the file and not empty, and a region in user space from page 1 on
that does not wrap. -/
theorem validate_segment_bounds {file_length : Nat} (hv : validate_segment phdr file_length = true) :
    pg_ofs phdr.p_offset = pg_ofs phdr.p_vaddr ∧ phdr.p_offset ≤ file_length ∧
      phdr.p_filesz ≤ phdr.p_memsz ∧ 0 < phdr.p_memsz ∧ PGSIZE ≤ phdr.p_vaddr ∧
      phdr.p_vaddr + phdr.p_memsz < PHYS_BASE := by
  have hm := phdr.p_memsz_lt
  have hvl := phdr.p_vaddr_lt
  simp only [validate_segment, Bool.and_eq_true, beq_iff_eq, Bool.not_eq_true', decide_eq_false_iff_not,
    bne_iff_ne, ne_eq, is_user_vaddr_iff] at hv
  obtain ⟨⟨⟨⟨⟨⟨⟨hofs, hlen⟩, hsz⟩, hne⟩, -⟩, hend⟩, hwrap⟩, hpage⟩ := hv
  -- with both terms below `2 ^ 32`, a sum that wrapped would be below `p_vaddr`
  have hnowrap : phdr.p_vaddr + phdr.p_memsz < 2 ^ 32 := by
    by_contra h
    rw [Nat.mod_eq_sub_mod (by omega), Nat.mod_eq_of_lt (by omega)] at hwrap
    omega
  rw [Nat.mod_eq_of_lt hnowrap] at hend
  exact ⟨hofs, by omega, by omega, by omega, by omega, hend⟩

/-- `ROUND_UP` of a sum that stays below `PHYS_BASE` does not wrap. -/
theorem ROUND_UP_of_lt {x : Nat} (hx : x < PHYS_BASE) : ROUND_UP x PGSIZE = (x + PGSIZE - 1) / PGSIZE * PGSIZE := by
  have hP : PGSIZE = 4096 := rfl
  rw [ROUND_UP, Nat.mod_eq_of_lt (by rw [hP]; simp only [PHYS_BASE] at hx; omega)]

/-- The bytes the segment's pages read from the file: the page's head and the file part, or
nothing for an entirely zero segment. -/
def segReadBytes : Nat := if 0 < phdr.p_filesz then pg_ofs phdr.p_vaddr + phdr.p_filesz else 0

/-- The pages of the segment: `ROUND_UP (page_offset + p_memsz, PGSIZE) / PGSIZE` of them. -/
def segPageCount : Nat := (pg_ofs phdr.p_vaddr + phdr.p_memsz + PGSIZE - 1) / PGSIZE

/-- On an accepted header the arithmetic of `load` does not wrap. -/
theorem segmentArgs_of_valid {file_length : Nat} (hv : validate_segment phdr file_length = true) :
    segmentArgs phdr = (pg_round_down phdr.p_offset, pg_round_down phdr.p_vaddr,
      segReadBytes phdr, segPageCount phdr * PGSIZE - segReadBytes phdr,
      phdr.p_flags &&& PF_W != 0) := by
  obtain ⟨-, -, hsz, -, -, hend⟩ := validate_segment_bounds phdr hv
  have hP : PGSIZE = 4096 := rfl
  have hpo : pg_ofs phdr.p_vaddr ≤ phdr.p_vaddr := Nat.mod_le _ _
  have hsum : pg_ofs phdr.p_vaddr + phdr.p_memsz < PHYS_BASE := by omega
  simp only [PHYS_BASE] at hsum hend
  unfold segmentArgs segReadBytes segPageCount
  dsimp only
  rw [Nat.mod_eq_of_lt (show pg_ofs phdr.p_vaddr + phdr.p_memsz < 2 ^ 32 by omega),
    ROUND_UP_of_lt (by simp only [PHYS_BASE]; omega)]
  split_ifs with hf
  · rw [Nat.mod_eq_of_lt (show pg_ofs phdr.p_vaddr + phdr.p_filesz < 2 ^ 32 by omega)]
    congr 4
    rw [hP] at ⊢
    omega
  · simp

/-- The pages `load_segment` installs for the header. -/
def segmentPages : List SegPage :=
  (List.range (segPageCount phdr)).map
    (segPage (pg_round_down phdr.p_offset) (pg_round_down phdr.p_vaddr) (segReadBytes phdr))

theorem length_segmentPages : (segmentPages phdr).length = segPageCount phdr := by
  simp [segmentPages]

theorem segmentPages_size : ∀ p ∈ segmentPages phdr, p.read_bytes + p.zero_bytes = PGSIZE := by
  intro p hp
  obtain ⟨i, -, rfl⟩ := List.mem_map.mp hp
  exact segPage_size _ _ _ i

section Facts

variable {phdr} {file_length : Nat} (hv : validate_segment phdr file_length = true)
include hv

theorem segReadBytes_le : segReadBytes phdr ≤ segPageCount phdr * PGSIZE := by
  obtain ⟨-, -, hsz, -, -, -⟩ := validate_segment_bounds phdr hv
  have hP : PGSIZE = 4096 := rfl
  unfold segReadBytes segPageCount
  rw [hP]
  split_ifs <;> omega

theorem segPageCount_mul_lt : segPageCount phdr * PGSIZE < PHYS_BASE + PGSIZE := by
  obtain ⟨-, -, -, -, -, hend⟩ := validate_segment_bounds phdr hv
  have hP : PGSIZE = 4096 := rfl
  have hpo : pg_ofs phdr.p_vaddr ≤ phdr.p_vaddr := Nat.mod_le _ _
  unfold segPageCount
  simp only [PHYS_BASE] at hend ⊢
  rw [hP]
  omega

/-- `load_segment` on an accepted header installs `segmentPages`, and its loop ends: the three
`ASSERT`s hold, the zero count never wraps, and the fuel covers every page. -/
theorem load_segment_plan {σ : Type}
    (install : σ → Nat → Nat → Nat → Nat → Bool → σ × Except Fault Bool) (s : σ) :
    load_segment install s (segmentArgs phdr).1 (segmentArgs phdr).2.1 (segmentArgs phdr).2.2.1
        (segmentArgs phdr).2.2.2.1 (segmentArgs phdr).2.2.2.2 =
      installAll install s (phdr.p_flags &&& PF_W != 0) (segmentPages phdr) := by
  have hle := segReadBytes_le hv
  have hP : PGSIZE = 4096 := rfl
  have hN : segPageCount phdr * PGSIZE < 2 ^ 32 := by
    have hlt := segPageCount_mul_lt hv
    simp only [PHYS_BASE] at hlt
    rw [hP] at hlt ⊢
    omega
  have hsum : segReadBytes phdr + (segPageCount phdr * PGSIZE - segReadBytes phdr) =
      segPageCount phdr * PGSIZE := by omega
  rw [segmentArgs_of_valid phdr hv]
  dsimp only
  unfold load_segment
  rw [if_neg, hsum, Nat.mul_div_cancel _ (by decide)]
  · exact load_segment_loop_eq install _ _ _ s _ _ _ _ hsum (by omega) (Nat.lt_succ_self _)
  · -- the three `ASSERT`s
    rw [hsum, Nat.mod_eq_of_lt hN]
    simp only [pg_ofs, pg_round_down, Nat.mul_mod_left, ne_eq, not_true_eq_false, or_self,
      not_false_eq_true]

/-- The pages are those of `[pg_round_down (p_vaddr), ROUND_UP (p_vaddr + p_memsz, PGSIZE))`. -/
theorem segmentPages_upage :
    (segmentPages phdr).map (·.upage) =
        (List.range (segPageCount phdr)).map (fun i => pg_round_down phdr.p_vaddr + i * PGSIZE) ∧
      pg_round_down phdr.p_vaddr + segPageCount phdr * PGSIZE =
        ROUND_UP (phdr.p_vaddr + phdr.p_memsz) PGSIZE := by
  obtain ⟨-, -, -, -, -, hend⟩ := validate_segment_bounds phdr hv
  have hP : PGSIZE = 4096 := rfl
  refine ⟨by simp [segmentPages, segPage], ?_⟩
  rw [ROUND_UP_of_lt hend]
  unfold pg_round_down segPageCount pg_ofs
  rw [hP]
  omega


/-- The pages read `segReadBytes` bytes in all: `page_offset + p_filesz`, or nothing. -/
theorem segmentPages_read_sum :
    ((segmentPages phdr).map (·.read_bytes)).sum = segReadBytes phdr := by
  rw [segmentPages, sum_segPage_read_bytes, Nat.min_eq_left (segReadBytes_le hv)]

omit hv in
/-- A page that reads the file starts `i` pages after `file_page`. -/
theorem segmentPages_ofs (i : Nat) (h : i < (segmentPages phdr).length)
    (hpos : 0 < (segmentPages phdr)[i].read_bytes) :
    (segmentPages phdr)[i].ofs = pg_round_down phdr.p_offset + i * PGSIZE := by
  simp only [segmentPages, List.getElem_map, List.getElem_range] at hpos ⊢
  exact segPage_ofs_of_pos _ _ _ hpos

/-- No page reads past the segment's part of the file. -/
theorem segmentPages_read_end :
    ∀ p ∈ segmentPages phdr, p.ofs + p.read_bytes ≤ phdr.p_offset + phdr.p_filesz := by
  obtain ⟨hofs, -, -, -, -, -⟩ := validate_segment_bounds phdr hv
  have hP : PGSIZE = 4096 := rfl
  intro p hp
  obtain ⟨i, -, rfl⟩ := List.mem_map.mp hp
  calc _ ≤ pg_round_down phdr.p_offset + segReadBytes phdr := segPage_read_end _ _ _ i
    _ ≤ phdr.p_offset + phdr.p_filesz := by
      unfold pg_round_down segReadBytes
      unfold pg_ofs at hofs ⊢
      rw [hP] at hofs ⊢
      split_ifs <;> omega

/-- Byte `k` of the segment is in page `(page_offset + k) / PGSIZE`, at `(page_offset + k) %
PGSIZE`, and the page holds there the file's byte `p_offset + k` in its first `p_filesz` bytes
and a zero after. -/
theorem segmentPages_byte (file : List UInt8) {k : Nat} (hk : k < phdr.p_memsz) :
    ∃ h : (pg_ofs phdr.p_vaddr + k) / PGSIZE < (segmentPages phdr).length,
      pageByte file (segmentPages phdr)[(pg_ofs phdr.p_vaddr + k) / PGSIZE].ofs
          (segmentPages phdr)[(pg_ofs phdr.p_vaddr + k) / PGSIZE].read_bytes
          ((pg_ofs phdr.p_vaddr + k) % PGSIZE) =
        if k < phdr.p_filesz then file.getD (phdr.p_offset + k) 0 else 0 := by
  obtain ⟨hofs, -, -, -, -, -⟩ := validate_segment_bounds phdr hv
  have hP : PGSIZE = 4096 := rfl
  have hi : (pg_ofs phdr.p_vaddr + k) / PGSIZE < (segmentPages phdr).length := by
    rw [length_segmentPages, segPageCount, hP]
    omega
  refine ⟨hi, ?_⟩
  simp only [segmentPages, List.getElem_map, List.getElem_range]
  rw [pageByte_segPage _ _ _ _ _ (Nat.mod_lt _ (by decide)), Nat.div_add_mod']
  unfold segReadBytes pg_round_down
  unfold pg_ofs at hofs ⊢
  rw [hP] at hofs ⊢
  split_ifs <;> first | omega | (congr 1 <;> omega)

end Facts

end Header

/-! ## The `VM` build -/

/-- `load_segment`'s page step under `VM`: `ASSERT (pagedir_get_page (curr->pagedir, upage) ==
NULL)`, then `vm_supt_install_filesys (curr->spt, upage, file, ofs, page_read_bytes,
page_zero_bytes, writable)` by thread `t`. `alloc upage` is what the two `malloc`s of that call
return. -/
def segmentInstall (t : Tid) (file : Nat) (alloc : Nat → Option Nat × Bool) (s : Vm)
    (upage ofs page_read_bytes page_zero_bytes : Nat) (writable : Bool) : Vm × Except Fault Bool :=
  match (s.thread t).bind (·.pagedir) with
  | none => (s, .error .undefined)
  | some pd =>
    if (pagedir_get_page pd upage).isSome then (s, .error .panic)
    else
      vm_supt_install_filesys s t upage file ofs page_read_bytes page_zero_bytes writable
        (alloc upage).1 (alloc upage).2

@[simp] theorem thread_file_pages (s : Vm) (fps : Nat → Option FilePage) :
    ({ s with file_pages := fps } : Vm).thread = s.thread := rfl

/-- A page installed for a segment: a lazily loaded file page whose `aux` is the `file_page`
block at `a`. -/
def segmentSuppPage (upage : Nat) (writable : Bool) (a : Nat) : SuppPage :=
  ⟨upage, .VM_FILE, writable, none, false, SIZE_MAX, none, 0, 0, 0, false,
    some .lazy_load_segment, some a⟩

theorem thread_sptInsert (s : Vm) (t t' : Tid) (page : SuppPage) :
    (sptInsert s t page).thread t' = if t' = t then
      (s.thread t).map fun th => { th with spt := th.spt.map (page :: ·) } else s.thread t' :=
  Vm.thread_setThread t t' _ fun _ => rfl

@[simp] theorem file_pages_sptInsert (s : Vm) (t : Tid) (page : SuppPage) :
    (sptInsert s t page).file_pages = s.file_pages := rfl

theorem page_sptInsert_of_ne (s : Vm) (t t' : Tid) (page : SuppPage) {v : Nat} (hv : v ≠ page.va) :
    (sptInsert s t page).page ⟨t', v⟩ = s.page ⟨t', v⟩ := by
  unfold Vm.page
  rw [thread_sptInsert]
  split
  · rename_i h
    subst h
    cases s.thread t' with
    | none => rfl
    | some th =>
      cases hspt : th.spt with
      | none => simp [hspt]
      | some spt => simp [hspt, Ne.symm hv]
  · rfl

/-- Installing an aligned page that thread `t` has neither mapped nor registered, when both
`malloc`s succeed: its `file_page` block is written, and the page registered. -/
theorem segmentInstall_eq {s : Vm} {t : Tid} {th : VmThread} {pd : Pagedir}
    {spt : List SuppPage} {file upage ofs rb zb a : Nat} {writable : Bool}
    {alloc : Nat → Option Nat × Bool} (ht : s.thread t = some th) (hpd : th.pagedir = some pd)
    (hspt : th.spt = some spt) (hmap : pagedir_get_page pd upage = none)
    (hfree : spt.find? (·.va = upage) = none) (halloc : alloc upage = (some a, true))
    (hup : pg_round_down upage = upage) :
    segmentInstall t file alloc s upage ofs rb zb writable =
      (sptInsert { s with file_pages := Function.update s.file_pages a (some ⟨file, ofs, rb, zb⟩) }
        t (segmentSuppPage upage writable a), .ok true) := by
  simp only [segmentInstall, ht, Option.bind_some, hpd, hmap, Option.isSome_none,
    Bool.false_eq_true, if_false, halloc, vm_supt_install_filesys,
    vm_alloc_page_with_initializer, allocPage, thread_file_pages, hspt, hup, hfree, if_true]
  rfl

theorem page_sptInsert_self {s : Vm} {t : Tid} {th : VmThread} {spt : List SuppPage}
    (ht : s.thread t = some th) (hspt : th.spt = some spt) (page : SuppPage) :
    (sptInsert s t page).page ⟨t, page.va⟩ = some page := by
  unfold Vm.page
  rw [thread_sptInsert]
  simp [ht, hspt]

/-- `load_segment`'s installs under `VM` for pages at distinct aligned addresses that thread
`t` has neither mapped nor registered, with distinct `file_page` blocks: each page is
registered as a lazily loaded file page whose block holds where and how much to read, and no
other address of `t` nor other block changes. -/
theorem installAll_segmentInstall (t : Tid) (file : Nat) (alloc : Nat → Option Nat × Bool)
    (writable : Bool) (pd : Pagedir) :
    ∀ (pages : List SegPage) (s : Vm) (th : VmThread) (spt : List SuppPage),
      s.thread t = some th → th.pagedir = some pd → th.spt = some spt →
      (pages.map (·.upage)).Nodup → (pages.map fun p => (alloc p.upage).1).Nodup →
      (∀ p ∈ pages, pagedir_get_page pd p.upage = none ∧ spt.find? (·.va = p.upage) = none ∧
        pg_round_down p.upage = p.upage ∧ ∃ a, alloc p.upage = (some a, true)) →
      ∃ s', installAll (segmentInstall t file alloc) s writable pages = (s', .ok true) ∧
        (∀ p ∈ pages, ∃ a, alloc p.upage = (some a, true) ∧
          s'.page ⟨t, p.upage⟩ = some (segmentSuppPage p.upage writable a) ∧
          s'.file_pages a = some ⟨file, p.ofs, p.read_bytes, p.zero_bytes⟩) ∧
        (∀ v ∉ pages.map (·.upage), s'.page ⟨t, v⟩ = s.page ⟨t, v⟩) ∧
        ∀ b, some b ∉ pages.map (fun p => (alloc p.upage).1) → s'.file_pages b = s.file_pages b := by
  intro pages
  induction pages with
  | nil =>
    intro s _ _ _ _ _ _ _ _
    exact ⟨s, rfl, by simp, fun _ _ => rfl, fun _ _ => rfl⟩
  | cons p ps ih =>
    intro s th spt ht hpd hspt hup hblk hfree
    obtain ⟨hmap, hnew, hal, a, ha⟩ := hfree p (by simp)
    rw [List.map_cons, List.nodup_cons] at hup hblk
    have hinst := @segmentInstall_eq s t th pd spt file p.upage p.ofs p.read_bytes p.zero_bytes a
      writable alloc ht hpd hspt hmap hnew ha hal
    set s₁ := sptInsert { s with file_pages := (Function.update s.file_pages a
      (some ⟨file, p.ofs, p.read_bytes, p.zero_bytes⟩)) } t (segmentSuppPage p.upage writable a)
    have ht₁ : s₁.thread t =
        some { th with spt := some (segmentSuppPage p.upage writable a :: spt) } := by
      rw [thread_sptInsert, if_pos rfl, thread_file_pages, ht]
      simp [hspt]
    have hfree₁ : ∀ q ∈ ps, pagedir_get_page pd q.upage = none ∧
        (segmentSuppPage p.upage writable a :: spt).find? (·.va = q.upage) = none ∧
        pg_round_down q.upage = q.upage ∧ ∃ a, alloc q.upage = (some a, true) := by
      intro q hq
      obtain ⟨hmq, hnq, haq, hq'⟩ := hfree q (List.mem_cons_of_mem _ hq)
      have hne : p.upage ≠ q.upage := fun h => hup.1 (h ▸ List.mem_map_of_mem hq)
      exact ⟨hmq, by simp [segmentSuppPage, hne, hnq], haq, hq'⟩
    obtain ⟨s', hrun, hpages, hother, hblocks⟩ := ih s₁ _ _ ht₁ hpd rfl hup.2 hblk.2 hfree₁
    have hold : ∀ v, v ≠ p.upage → s₁.page ⟨t, v⟩ = s.page ⟨t, v⟩ := fun v hv =>
      page_sptInsert_of_ne _ t t _ hv
    refine ⟨s', by simp only [installAll, hinst]; exact hrun, ?_, ?_, ?_⟩
    · intro q hq
      rcases List.mem_cons.mp hq with rfl | hq
      · refine ⟨a, ha, ?_, ?_⟩
        · rw [hother _ hup.1]
          exact page_sptInsert_self (by rw [thread_file_pages]; exact ht) hspt _
        · rw [hblocks a (by rw [show some a = (alloc q.upage).1 by rw [ha]]; exact hblk.1)]
          simp [s₁]
      · exact hpages q hq
    · intro v hv
      simp only [List.map_cons, List.mem_cons, not_or] at hv
      rw [hother v hv.2, hold v hv.1]
    · intro b hb
      simp only [List.map_cons, List.mem_cons, not_or] at hb
      rw [hblocks b hb.2]
      have hba : b ≠ a := fun h => hb.1 (by rw [h, ha])
      simp [s₁, hba]

theorem segmentPages_upage_nodup (phdr : Elf32_Phdr) :
    ((segmentPages phdr).map (·.upage)).Nodup ∧
      ∀ p ∈ segmentPages phdr, pg_round_down p.upage = p.upage := by
  have hP : PGSIZE = 4096 := rfl
  refine ⟨?_, fun p hp => ?_⟩
  · simp only [segmentPages, List.map_map]
    refine (List.nodup_range).map fun i j hij => ?_
    simp only [Function.comp, segPage] at hij
    rw [hP] at hij
    omega
  · obtain ⟨i, -, rfl⟩ := List.mem_map.mp hp
    simp only [segPage, pg_round_down]
    rw [hP]
    omega

/-- `load_segment` under `VM` on an accepted header, for a thread that has none of the pages
mapped or registered and gets a distinct `file_page` block for each: the loop ends, every page
of the segment is registered as a lazily loaded file page with the segment's `writable`, and
its block says where and how much to read; nothing else of the thread's table changes. -/
theorem load_segment_registers (t : Tid) (file : Nat) (alloc : Nat → Option Nat × Bool)
    {phdr : Elf32_Phdr} {file_length : Nat} (hv : validate_segment phdr file_length = true)
    {s : Vm} {th : VmThread} {pd : Pagedir} {spt : List SuppPage} (ht : s.thread t = some th)
    (hpd : th.pagedir = some pd) (hspt : th.spt = some spt)
    (hblk : ((segmentPages phdr).map fun p => (alloc p.upage).1).Nodup)
    (hfree : ∀ p ∈ segmentPages phdr, pagedir_get_page pd p.upage = none ∧
      spt.find? (·.va = p.upage) = none ∧ ∃ a, alloc p.upage = (some a, true)) :
    ∃ s', load_segment (segmentInstall t file alloc) s (segmentArgs phdr).1
        (segmentArgs phdr).2.1 (segmentArgs phdr).2.2.1 (segmentArgs phdr).2.2.2.1
        (segmentArgs phdr).2.2.2.2 = (s', .ok true) ∧
      (∀ p ∈ segmentPages phdr, ∃ a, alloc p.upage = (some a, true) ∧
        s'.page ⟨t, p.upage⟩ = some (segmentSuppPage p.upage (phdr.p_flags &&& PF_W != 0) a) ∧
        s'.file_pages a = some ⟨file, p.ofs, p.read_bytes, p.zero_bytes⟩) ∧
      ∀ v ∉ (segmentPages phdr).map (·.upage), s'.page ⟨t, v⟩ = s.page ⟨t, v⟩ := by
  obtain ⟨hnodup, haligned⟩ := segmentPages_upage_nodup phdr
  obtain ⟨s', hrun, hpages, hother, -⟩ :=
    installAll_segmentInstall t file alloc (phdr.p_flags &&& PF_W != 0) pd (segmentPages phdr) s
      th spt ht hpd hspt hnodup hblk fun p hp =>
        ⟨(hfree p hp).1, (hfree p hp).2.1, haligned p hp, (hfree p hp).2.2⟩
  exact ⟨s', by rw [load_segment_plan hv]; exact hrun, hpages, hother⟩

section Lazy

variable {s : Vm} {r : PageRef} {a : Nat} {fpage : FilePage} {page : SuppPage} {fr : Frame}

/-- `lazy_load_segment` on a page with a frame and a `file_page` block, from a file that holds
the bytes to read: the frame holds the page's bytes. -/
theorem lazy_load_segment_loads (hfp : s.file_pages a = some fpage) (hpage : s.page r = some page)
    (hfr : page.frame.bind s.frame = some fr) (hkva : fr.kva ≠ 0)
    (hlen : fpage.ofs + fpage.read_bytes ≤ (s.files fpage.file).length) :
    ∃ s', lazy_load_segment s r (some a) = (s', .ok true) ∧
      ∀ j < fpage.read_bytes + fpage.zero_bytes,
        s'.mem (fr.kva + j) = pageByte (s.files fpage.file) fpage.ofs fpage.read_bytes j := by
  have hbytes : (((s.files fpage.file).drop fpage.ofs).take fpage.read_bytes).length =
      fpage.read_bytes := by
    simp only [List.length_take, List.length_drop]
    omega
  simp only [lazy_load_segment, hfp, hpage, hfr, hkva, if_false, file_read_at, hbytes, ne_eq,
    not_true_eq_false, Prod.mk.injEq, and_true, exists_eq_left']
  intro j hj
  simp only [memset_apply, writeBytes_apply, hbytes, pageByte]
  by_cases hjr : j < fpage.read_bytes
  · rw [if_neg (by omega), if_pos (by omega), if_pos hjr, Nat.add_sub_cancel_left,
      List.getD_eq_getElem?_getD, List.getD_eq_getElem?_getD, List.getElem?_take_of_lt hjr,
      List.getElem?_drop]
  · rw [if_pos (by omega), if_neg hjr]

/-- From a file that ends before the bytes to read, `lazy_load_segment` fails. -/
theorem lazy_load_segment_short (hfp : s.file_pages a = some fpage) (hpage : s.page r = some page)
    (hfr : page.frame.bind s.frame = some fr) (hkva : fr.kva ≠ 0)
    (hlen : (s.files fpage.file).length - fpage.ofs < fpage.read_bytes) :
    ∃ s', lazy_load_segment s r (some a) = (s', .ok false) := by
  simp [lazy_load_segment, hfp, hpage, hfr, hkva, file_read_at, hlen]

end Lazy

/-- `load` and `load_segment` on a header that `validate_segment` accepts: the loop ends after
installing `segmentPages` with the segment's `writable`, which are the pages from
`pg_round_down (p_vaddr)` to `ROUND_UP (p_vaddr + p_memsz, PGSIZE)`; each reads and zeroes one
page in all, together they read `page_offset + p_filesz` bytes, or none when `p_filesz = 0`, and
each that reads the file reads it from `file_page + i * PGSIZE`. Loading page `i` lazily, from
a file that holds `p_filesz` bytes from `p_offset`, puts byte `p_offset + k` of the file at
segment byte `k < p_filesz` and zeros after, for each `k` the page covers. -/
theorem load_segment_exact {σ : Type}
    (install : σ → Nat → Nat → Nat → Nat → Bool → σ × Except Fault Bool) (s : σ)
    {phdr : Elf32_Phdr} {file_length : Nat} (hv : validate_segment phdr file_length = true) :
    load_segment install s (segmentArgs phdr).1 (segmentArgs phdr).2.1 (segmentArgs phdr).2.2.1
        (segmentArgs phdr).2.2.2.1 (segmentArgs phdr).2.2.2.2 =
      installAll install s (phdr.p_flags &&& PF_W != 0) (segmentPages phdr) ∧
    (segmentPages phdr).map (·.upage) =
      (List.range (segPageCount phdr)).map (fun i => pg_round_down phdr.p_vaddr + i * PGSIZE) ∧
    pg_round_down phdr.p_vaddr + segPageCount phdr * PGSIZE =
      ROUND_UP (phdr.p_vaddr + phdr.p_memsz) PGSIZE ∧
    (∀ p ∈ segmentPages phdr, p.read_bytes + p.zero_bytes = PGSIZE) ∧
    ((segmentPages phdr).map (·.read_bytes)).sum =
      (if 0 < phdr.p_filesz then pg_ofs phdr.p_vaddr + phdr.p_filesz else 0) ∧
    (∀ i (h : i < (segmentPages phdr).length), 0 < (segmentPages phdr)[i].read_bytes →
      (segmentPages phdr)[i].ofs = pg_round_down phdr.p_offset + i * PGSIZE) ∧
    ∀ (vm : Vm) (r : PageRef) (a f : Nat) (page : SuppPage) (fr : Frame) (i : Nat)
      (h : i < (segmentPages phdr).length),
      vm.file_pages a = some ⟨f, (segmentPages phdr)[i].ofs, (segmentPages phdr)[i].read_bytes,
        (segmentPages phdr)[i].zero_bytes⟩ →
      vm.page r = some page → page.frame.bind vm.frame = some fr → fr.kva ≠ 0 →
      phdr.p_offset + phdr.p_filesz ≤ (vm.files f).length →
      ∃ vm', lazy_load_segment vm r (some a) = (vm', .ok true) ∧
        ∀ k < phdr.p_memsz, (pg_ofs phdr.p_vaddr + k) / PGSIZE = i →
          vm'.mem (fr.kva + (pg_ofs phdr.p_vaddr + k) % PGSIZE) =
            if k < phdr.p_filesz then (vm.files f).getD (phdr.p_offset + k) 0 else 0 := by
  obtain ⟨hupage, hend⟩ := segmentPages_upage hv
  refine ⟨load_segment_plan hv install s, hupage, hend, segmentPages_size phdr,
    segmentPages_read_sum hv, segmentPages_ofs, ?_⟩
  intro vm r a f page fr i h hfp hpage hfr hkva hlen
  have hread := segmentPages_read_end hv _ (List.getElem_mem h)
  obtain ⟨vm', hload, hmem⟩ := lazy_load_segment_loads hfp hpage hfr hkva (by simp only; omega)
  refine ⟨vm', hload, fun k hk hi => ?_⟩
  obtain ⟨hi', hbyte⟩ := segmentPages_byte hv (vm.files f) hk
  subst hi
  have hsize := segmentPages_size phdr _ (List.getElem_mem h)
  rw [hmem _ (by rw [hsize]; exact Nat.mod_lt _ (by decide))]
  exact hbyte

/-- An install that only records the pages it is handed. -/
def recordInstall (l : List SegPage) (upage ofs read_bytes zero_bytes : Nat) (_ : Bool) :
    List SegPage × Except Fault Bool :=
  (l ++ [⟨upage, ofs, read_bytes, zero_bytes⟩], .ok true)

/-- A three-page entirely zero segment at page offset 16 of the file and of memory. -/
def zeroSegment : Elf32_Phdr := ⟨16, 0x08048010, 0, 0x2000, 0, by decide, by decide, by decide,
  by decide⟩

/-- A two-page writable segment with 100 bytes from the file. -/
def shortSegment : Elf32_Phdr := ⟨0, 0x08048000, 100, 0x2000, 2, by decide, by decide, by decide,
  by decide⟩

/-- `load_segment` on the zero segment reads nothing, not its 16 head bytes; on the short
segment its second page gets offset 100, not `PGSIZE`; and `validate_segment` accepts the short
segment from an empty file, whose first page has 100 bytes to read. -/
theorem load_segment_counterexample :
    validate_segment zeroSegment 16 = true ∧
    load_segment recordInstall [] (segmentArgs zeroSegment).1 (segmentArgs zeroSegment).2.1
        (segmentArgs zeroSegment).2.2.1 (segmentArgs zeroSegment).2.2.2.1
        (segmentArgs zeroSegment).2.2.2.2 =
      ([⟨0x08048000, 0, 0, 4096⟩, ⟨0x08049000, 0, 0, 4096⟩, ⟨0x0804a000, 0, 0, 4096⟩], .ok true) ∧
    pg_ofs zeroSegment.p_vaddr + zeroSegment.p_filesz = 16 ∧
    validate_segment shortSegment 0 = true ∧
    load_segment recordInstall [] (segmentArgs shortSegment).1 (segmentArgs shortSegment).2.1
        (segmentArgs shortSegment).2.2.1 (segmentArgs shortSegment).2.2.2.1
        (segmentArgs shortSegment).2.2.2.2 =
      ([⟨0x08048000, 0, 100, 3996⟩, ⟨0x08049000, 100, 0, 4096⟩], .ok true) :=
  ⟨by decide, rfl, rfl, by decide, rfl⟩

/-- The short segment from a file that holds its 100 bytes. -/
theorem load_segment_exact_at_short_segment :
    validate_segment shortSegment 100 = true ∧
    load_segment recordInstall [] (segmentArgs shortSegment).1 (segmentArgs shortSegment).2.1
        (segmentArgs shortSegment).2.2.1 (segmentArgs shortSegment).2.2.2.1
        (segmentArgs shortSegment).2.2.2.2 =
      installAll recordInstall [] (shortSegment.p_flags &&& PF_W != 0)
        (segmentPages shortSegment) :=
  ⟨by decide, (@load_segment_exact _ recordInstall [] shortSegment 100 (by decide)).1⟩

end Pintos
