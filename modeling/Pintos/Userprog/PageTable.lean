import Pintos.Userprog.Pagedir
import Pintos.Threads.Kernel
import Pintos.Lib.Word
import Pintos.Lib.Run
import Mathlib.Data.List.Nodup
import Mathlib.Data.List.Perm.Basic

/-!
# Page tables as words (`userprog/pagedir.c`, `threads/pte.h`)

`Pintos.Userprog.Pagedir` is the page directory the virtual-memory model reads: a map from user
pages to entries. This module is the code below it. Kernel memory is a map of 32-bit words; a
directory is a page of 1024 PDEs, of which the 768 below `pd_no (PHYS_BASE)` cover user space;
a page table is created on demand from a zeroed page; and a PTE word keeps the frame's physical
address in its high 20 bits and `PTE_P`, `PTE_W`, `PTE_U`, `PTE_A`, `PTE_D` in its low bits.

`wordPte` reads an entry word the way `pte_get_page` and the flag tests do, and `Abstracts`
relates a directory in memory to an abstract `Pagedir`. Every function of `pagedir.c` keeps
`Abstracts` and returns what its abstract counterpart returns; so in every state that a
sequence of calls reaches, the word-level directory behaves as the finite map.
-/

namespace Pintos

namespace PageTable

open UInt32

/-- Kernel memory as the MMU reads it: the 32-bit word at each address. -/
abbrev WordMem := Nat → UInt32

/-! ## `threads/pte.h` -/

def PTE_P : UInt32 := 0x1
def PTE_W : UInt32 := 0x2
def PTE_U : UInt32 := 0x4
def PTE_A : UInt32 := 0x20
def PTE_D : UInt32 := 0x40
def PTE_ADDR : UInt32 := 0xfffff000

/-- `vtop (vaddr)` of a kernel address, as the 32-bit physical address. -/
def vtop (vaddr : Nat) : UInt32 := (vaddr - PHYS_BASE).toUInt32

/-- `ptov (paddr)`. Every physical address the tables hold is of RAM, below `PHYS_BASE`, so its
`ASSERT` holds. -/
def ptov (paddr : UInt32) : Nat := paddr.toNat + PHYS_BASE

/-- `pt_no (va)`: bits 12 to 21, `(va & PTMASK) >> PTSHIFT`. -/
def pt_no (va : Nat) : Nat := va / PGSIZE % 1024

/-- `pde_create (pt)`. -/
def pde_create (pt : Nat) : UInt32 := vtop pt ||| PTE_U ||| PTE_P ||| PTE_W

/-- `pde_get_pt (pde)`. -/
def pde_get_pt (pde : UInt32) : Nat := ptov (pde &&& PTE_ADDR)

/-- `pte_create_kernel (page, writable)`. -/
def pte_create_kernel (page : Nat) (writable : Bool) : UInt32 :=
  vtop page ||| PTE_P ||| (if writable then PTE_W else 0)

/-- `pte_create_user (page, writable)`. -/
def pte_create_user (page : Nat) (writable : Bool) : UInt32 := pte_create_kernel page writable ||| PTE_U

/-- `pte_get_page (pte)`. -/
def pte_get_page (pte : UInt32) : Nat := ptov (pte &&& PTE_ADDR)

/-! ## `userprog/pagedir.c` -/

/-- The page `palloc_get_page (PAL_ZERO)` returns, zeroed. -/
def zeroPage (m : WordMem) (page : Nat) : WordMem :=
  fun a => if page ≤ a ∧ a < page + PGSIZE then 0 else m a

/-- The address of the PDE of `vaddr` in the directory at `pd`. -/
def pdeAddr (pd vaddr : Nat) : Nat := pd + 4 * Pagedir.pd_no vaddr

/-- `lookup_page (pd, vaddr, create)`: the address of `vaddr`'s PTE. A missing page table is
made, when `create` asks for one, from the page `pt` that `palloc_get_page (PAL_ZERO)`
returns, unless that is `NULL`. -/
def lookup_page (m : WordMem) (pd vaddr : Nat) (create : Bool) (pt : Option Nat) :
    Option Nat × WordMem :=
  if m (pdeAddr pd vaddr) = 0 then
    match create, pt with
    | true, some pt =>
      let m := Function.update (zeroPage m pt) (pdeAddr pd vaddr) (pde_create pt)
      (some (pde_get_pt (m (pdeAddr pd vaddr)) + 4 * pt_no vaddr), m)
    | _, _ => (none, m)
  else (some (pde_get_pt (m (pdeAddr pd vaddr)) + 4 * pt_no vaddr), m)

/-- `pagedir_create ()` with the page `palloc_get_page (0)` returned: a copy of
`init_page_dir`. -/
def pagedir_create (m : WordMem) (init_page_dir : Nat) (pd : Option Nat) : Option Nat × WordMem :=
  match pd with
  | none => (none, m)
  | some pd => (some pd, fun a => if pd ≤ a ∧ a < pd + PGSIZE then m (init_page_dir + (a - pd)) else m a)

/-- `pagedir_set_page (pd, upage, kpage, writable)`, with its `ASSERT`s; `pt` is what the
page-table allocation in `lookup_page` returns. `false` is that allocation failing. -/
def pagedir_set_page (m : WordMem) (init_page_dir init_ram_pages pd upage kpage : Nat) (writable : Bool)
    (pt : Option Nat) : Except Fault (Bool × WordMem) :=
  if pg_ofs upage ≠ 0 ∨ pg_ofs kpage ≠ 0 ∨ is_user_vaddr upage = false ∨ kpage < PHYS_BASE ∨
      (vtop kpage).toNat / PGSIZE ≥ init_ram_pages ∨ pd = init_page_dir then .error .panic
  else
    match lookup_page m pd upage true pt with
    | (some pte, m) =>
      if (m pte &&& PTE_P) = 0 then .ok (true, Function.update m pte (pte_create_user kpage writable))
      else .error .panic
    | (none, m) => .ok (false, m)

/-- `pagedir_get_page (pd, uaddr)`. -/
def pagedir_get_page (m : WordMem) (pd uaddr : Nat) : Except Fault (Option Nat) :=
  if is_user_vaddr uaddr = false then .error .panic
  else
    match (lookup_page m pd uaddr false none).1 with
    | some pte =>
      if (m pte &&& PTE_P) != 0 then .ok (some (pte_get_page (m pte) + pg_ofs uaddr)) else .ok none
    | none => .ok none

/-- `pagedir_clear_page (pd, upage)`: clear `PTE_P`, keeping the other bits. -/
def pagedir_clear_page (m : WordMem) (pd upage : Nat) : Except Fault WordMem :=
  if pg_ofs upage ≠ 0 ∨ is_user_vaddr upage = false then .error .panic
  else
    match (lookup_page m pd upage false none).1 with
    | some pte => if (m pte &&& PTE_P) != 0 then .ok (Function.update m pte (m pte &&& ~~~PTE_P)) else .ok m
    | none => .ok m

/-- `pagedir_is_dirty` and `pagedir_is_accessed`: the bit `flag` of `vpage`'s PTE, `false` when
there is no page table. -/
def pagedir_is_flag (flag : UInt32) (m : WordMem) (pd vpage : Nat) : Bool :=
  match (lookup_page m pd vpage false none).1 with
  | some pte => (m pte &&& flag) != 0
  | none => false

/-- `pagedir_set_dirty` and `pagedir_set_accessed`: set or clear the bit `flag` of `vpage`'s
PTE, when there is a page table. -/
def pagedir_set_flag (flag : UInt32) (m : WordMem) (pd vpage : Nat) (value : Bool) : WordMem :=
  match (lookup_page m pd vpage false none).1 with
  | some pte => Function.update m pte (if value then m pte ||| flag else m pte &&& ~~~flag)
  | none => m

/-- `pagedir_is_dirty (pd, vpage)`. -/
def pagedir_is_dirty (m : WordMem) (pd vpage : Nat) : Bool := pagedir_is_flag PTE_D m pd vpage

/-- `pagedir_set_dirty (pd, vpage, dirty)`. -/
def pagedir_set_dirty (m : WordMem) (pd vpage : Nat) (dirty : Bool) : WordMem :=
  pagedir_set_flag PTE_D m pd vpage dirty

/-- `pagedir_is_accessed (pd, vpage)`. -/
def pagedir_is_accessed (m : WordMem) (pd vpage : Nat) : Bool := pagedir_is_flag PTE_A m pd vpage

/-- `pagedir_set_accessed (pd, vpage, accessed)`. -/
def pagedir_set_accessed (m : WordMem) (pd vpage : Nat) (accessed : Bool) : WordMem :=
  pagedir_set_flag PTE_A m pd vpage accessed

/-- The frames of one page table's present entries, in order. -/
def tableFrames (m : WordMem) (pt : Nat) : List Nat :=
  (List.range 1024).filterMap fun j =>
    if (m (pt + 4 * j) &&& PTE_P) != 0 then some (pte_get_page (m (pt + 4 * j))) else none

/-- `pagedir_destroy (pd)`: the pages it hands to `palloc_free_page`, in order. -/
def pagedir_destroy (m : WordMem) (init_page_dir pd : Nat) : Except Fault (List Nat) :=
  if pd = 0 then .ok []
  else if pd = init_page_dir then .error .panic
  else
    .ok ((List.range (Pagedir.pd_no PHYS_BASE)).flatMap (fun i =>
        if (m (pd + 4 * i) &&& PTE_P) != 0 then
          tableFrames m (pde_get_pt (m (pd + 4 * i))) ++ [pde_get_pt (m (pd + 4 * i))]
        else []) ++ [pd])

/-! ## Reading entry words -/

theorem bit_PTE_P : ∀ j, PTE_P.bit j = decide (j = 0) :=
  bit_eq_of_fin (by decide) fun _ hj => decide_eq_false (by omega)

theorem bit_PTE_W : ∀ j, PTE_W.bit j = decide (j = 1) :=
  bit_eq_of_fin (by decide) fun _ hj => decide_eq_false (by omega)

theorem bit_PTE_U : ∀ j, PTE_U.bit j = decide (j = 2) :=
  bit_eq_of_fin (by decide) fun _ hj => decide_eq_false (by omega)

theorem bit_PTE_A : ∀ j, PTE_A.bit j = decide (j = 5) :=
  bit_eq_of_fin (by decide) fun _ hj => decide_eq_false (by omega)

theorem bit_PTE_D : ∀ j, PTE_D.bit j = decide (j = 6) :=
  bit_eq_of_fin (by decide) fun _ hj => decide_eq_false (by omega)

theorem bit_PTE_ADDR : ∀ j, PTE_ADDR.bit j = decide (12 ≤ j ∧ j < 32) :=
  bit_eq_of_fin (by decide) fun _ hj => decide_eq_false (by omega)

@[simp] theorem test_P (w : UInt32) : ((w &&& PTE_P) != 0) = w.bit 0 := and_bne_zero bit_PTE_P (by decide)
@[simp] theorem test_W (w : UInt32) : ((w &&& PTE_W) != 0) = w.bit 1 := and_bne_zero bit_PTE_W (by decide)
@[simp] theorem test_U (w : UInt32) : ((w &&& PTE_U) != 0) = w.bit 2 := and_bne_zero bit_PTE_U (by decide)
@[simp] theorem test_A (w : UInt32) : ((w &&& PTE_A) != 0) = w.bit 5 := and_bne_zero bit_PTE_A (by decide)
@[simp] theorem test_D (w : UInt32) : ((w &&& PTE_D) != 0) = w.bit 6 := and_bne_zero bit_PTE_D (by decide)

theorem and_P_eq_zero {w : UInt32} : (w &&& PTE_P) = 0 ↔ w.bit 0 = false := by
  have h := test_P w
  constructor
  · intro hz
    rw [← h, hz]
    rfl
  · intro hb
    exact bne_eq_false_iff_eq.mp (h.trans hb)

/-- A page above `PHYS_BASE` whose physical address fits a word: what `palloc` hands out. -/
def KernelPage (p : Nat) : Prop := pg_ofs p = 0 ∧ PHYS_BASE ≤ p ∧ p - PHYS_BASE < WORD_MOD

theorem bit_vtop_low {k j : Nat} (hk : pg_ofs k = 0) (hj : j < 12) : (vtop k).bit j = false := by
  apply bit_of_mod_eq_zero (k := 12) _ hj
  simp only [vtop, Nat.toUInt32_eq, UInt32.toNat_ofNat', pg_ofs, PGSIZE_eq, PHYS_BASE_eq] at hk ⊢
  omega

theorem ptov_vtop {k : Nat} (hk : KernelPage k) : ptov (vtop k) = k := by
  obtain ⟨-, h₁, h₂⟩ := hk
  simp only [ptov, vtop, Nat.toUInt32_eq, UInt32.toNat_ofNat', WORD_MOD] at h₂ ⊢
  rw [Nat.mod_eq_of_lt h₂]
  omega

/-- The address field of a word built from an aligned address and low flags is the address. -/
theorem vtop_or_and_addr {k : Nat} (hk : pg_ofs k = 0) {f : UInt32} (hf : ∀ j, 12 ≤ j → f.bit j = false) :
    (vtop k ||| f) &&& PTE_ADDR = vtop k := by
  apply ext_bit
  intro j hj
  rw [bit_and, bit_or, bit_PTE_ADDR]
  by_cases hlow : j < 12
  · simp [bit_vtop_low hk hlow, hlow]
  · simp [hf j (by omega), hj, show 12 ≤ j by omega]

/-- An entry word as `pte_get_page` and the flag tests read it. -/
def wordPte (w : UInt32) : Pte :=
  ⟨pte_get_page w, (w &&& PTE_P) != 0, (w &&& PTE_W) != 0, (w &&& PTE_A) != 0, (w &&& PTE_D) != 0⟩

/-- A word-level `pte_create_user` reads as the abstract entry of the same name. -/
theorem wordPte_create_user {k : Nat} (hk : KernelPage k) (writable : Bool) :
    wordPte (pte_create_user k writable) = Pintos.pte_create_user k writable := by
  have hflags : ∀ j, 12 ≤ j → (PTE_P ||| (if writable then PTE_W else 0) ||| PTE_U).bit j = false := by
    intro j hj
    cases writable <;> simp [bit_PTE_P, bit_PTE_W, bit_PTE_U] <;> omega
  have hword : pte_create_user k writable = vtop k ||| (PTE_P ||| (if writable then PTE_W else 0) ||| PTE_U) := by
    simp only [pte_create_user, pte_create_kernel, UInt32.or_assoc]
  have hlow := fun j (hj : j < 12) => bit_vtop_low hk.1 hj
  rw [wordPte, Pintos.pte_create_user, pte_get_page, hword, vtop_or_and_addr hk.1 hflags, ptov_vtop hk]
  cases writable <;>
    simp [bit_PTE_P, bit_PTE_W, bit_PTE_U, hlow 0 (by decide), hlow 1 (by decide),
      hlow 5 (by decide), hlow 6 (by decide)]

theorem bit_create_user_U (k : Nat) (writable : Bool) :
    (pte_create_user k writable).bit 2 = true := by
  simp [pte_create_user, bit_PTE_U]

/-! ## Updating entry words -/

section Flags

variable {f : UInt32} {i : Nat}

theorem bit_or_flag (hf : ∀ j, f.bit j = decide (j = i)) (w : UInt32) (j : Nat) :
    (w ||| f).bit j = if j = i then true else w.bit j := by
  rw [bit_or, hf]
  by_cases hj : j = i <;> simp [hj]

theorem bit_clear_flag (hf : ∀ j, f.bit j = decide (j = i)) (w : UInt32) (j : Nat) :
    (w &&& ~~~f).bit j = if j = i then false else w.bit j := by
  rw [bit_and, bit_not, hf]
  by_cases hj : j = i
  · simp [hj]
  · by_cases hlt : j < 32
    · simp [hj, hlt]
    · have hw := bit_of_le (x := w) (j := j) (by omega)
      simp [hj, hlt, hw]

/-- `if value then w | f else w & ~f`, the update of `pagedir_set_dirty` and
`pagedir_set_accessed`, sets bit `i` to `value` and keeps the rest. -/
theorem bit_setFlag (hf : ∀ j, f.bit j = decide (j = i)) (w : UInt32) (value : Bool) (j : Nat) :
    (if value then w ||| f else w &&& ~~~f).bit j = if j = i then value else w.bit j := by
  cases value
  · exact bit_clear_flag hf w j
  · exact bit_or_flag hf w j

end Flags

theorem pte_get_page_congr {w w' : UInt32} (h : ∀ j, 12 ≤ j → w'.bit j = w.bit j) :
    pte_get_page w' = pte_get_page w := by
  unfold pte_get_page
  congr 1
  apply ext_bit
  intro j _
  rw [bit_and, bit_and, bit_PTE_ADDR]
  by_cases hlow : j < 12
  · simp [show ¬12 ≤ j by omega]
  · rw [h j (by omega)]

theorem wordPte_setFlag_D (w : UInt32) (value : Bool) :
    wordPte (if value then w ||| PTE_D else w &&& ~~~PTE_D) = { wordPte w with dirty := value } := by
  have hb := bit_setFlag bit_PTE_D w value
  have hpage : pte_get_page (if value then w ||| PTE_D else w &&& ~~~PTE_D) = pte_get_page w :=
    pte_get_page_congr fun j hj => by rw [hb, if_neg (by omega)]
  simp only [wordPte, test_P, test_W, test_A, test_D, hb, hpage]
  simp

theorem wordPte_setFlag_A (w : UInt32) (value : Bool) :
    wordPte (if value then w ||| PTE_A else w &&& ~~~PTE_A) = { wordPte w with accessed := value } := by
  have hb := bit_setFlag bit_PTE_A w value
  have hpage : pte_get_page (if value then w ||| PTE_A else w &&& ~~~PTE_A) = pte_get_page w :=
    pte_get_page_congr fun j hj => by rw [hb, if_neg (by omega)]
  simp only [wordPte, test_P, test_W, test_A, test_D, hb, hpage]
  simp

theorem wordPte_clear_P (w : UInt32) :
    wordPte (w &&& ~~~PTE_P) = { wordPte w with present := false } := by
  have hb := bit_clear_flag bit_PTE_P w
  have hpage : pte_get_page (w &&& ~~~PTE_P) = pte_get_page w :=
    pte_get_page_congr fun j hj => by rw [hb, if_neg (by omega)]
  simp only [wordPte, test_P, test_W, test_A, test_D, hb, hpage]
  simp

/-! ## A directory in memory and the map it stands for -/

/-- The word `w` stands for the entry `e`: the same flags and, while present, the same frame and
the user bit set. -/
structure PteAbstracts (w : UInt32) (e : Pte) : Prop where
  present : (wordPte w).present = e.present
  writable : (wordPte w).writable = e.writable
  accessed : (wordPte w).accessed = e.accessed
  dirty : (wordPte w).dirty = e.dirty
  kpage : e.present = true → (wordPte w).kpage = e.kpage
  user : e.present = true → w.bit 2 = true

theorem PteAbstracts.zero : PteAbstracts 0 Pte.zero where
  present := by simp [wordPte, Pte.zero]
  writable := by simp [wordPte, Pte.zero]
  accessed := by simp [wordPte, Pte.zero]
  dirty := by simp [wordPte, Pte.zero]
  kpage h := by simp [Pte.zero] at h
  user h := by simp [Pte.zero] at h

theorem PteAbstracts.create_user {k : Nat} (hk : KernelPage k) (writable : Bool) :
    PteAbstracts (pte_create_user k writable) (Pintos.pte_create_user k writable) := by
  have hw := wordPte_create_user hk writable
  exact ⟨by rw [hw], by rw [hw], by rw [hw], by rw [hw], fun _ => by rw [hw],
    fun _ => bit_create_user_U k writable⟩

theorem PteAbstracts.set_dirty {w : UInt32} {e : Pte} (h : PteAbstracts w e) (dirty : Bool) :
    PteAbstracts (if dirty then w ||| PTE_D else w &&& ~~~PTE_D) { e with dirty := dirty } := by
  have hw := wordPte_setFlag_D w dirty
  have hu : (if dirty then w ||| PTE_D else w &&& ~~~PTE_D).bit 2 = w.bit 2 := by
    rw [bit_setFlag bit_PTE_D, if_neg (by decide)]
  exact ⟨by rw [hw]; exact h.present, by rw [hw]; exact h.writable, by rw [hw]; exact h.accessed,
    by rw [hw], fun hp => by rw [hw]; exact h.kpage hp, fun hp => by rw [hu]; exact h.user hp⟩

theorem PteAbstracts.set_accessed {w : UInt32} {e : Pte} (h : PteAbstracts w e) (accessed : Bool) :
    PteAbstracts (if accessed then w ||| PTE_A else w &&& ~~~PTE_A) { e with accessed := accessed } := by
  have hw := wordPte_setFlag_A w accessed
  have hu : (if accessed then w ||| PTE_A else w &&& ~~~PTE_A).bit 2 = w.bit 2 := by
    rw [bit_setFlag bit_PTE_A, if_neg (by decide)]
  exact ⟨by rw [hw]; exact h.present, by rw [hw]; exact h.writable, by rw [hw],
    by rw [hw]; exact h.dirty, fun hp => by rw [hw]; exact h.kpage hp, fun hp => by rw [hu]; exact h.user hp⟩

/-- Clearing `PTE_P` keeps the frame and the other bits: the entry is the same, not present. -/
theorem PteAbstracts.clear_present {w : UInt32} {e : Pte} (h : PteAbstracts w e) :
    PteAbstracts (w &&& ~~~PTE_P) { e with present := false } := by
  have hw := wordPte_clear_P w
  exact ⟨by rw [hw], by rw [hw]; exact h.writable, by rw [hw]; exact h.accessed,
    by rw [hw]; exact h.dirty, fun hp => (Bool.false_ne_true hp).elim,
    fun hp => (Bool.false_ne_true hp).elim⟩

theorem PteAbstracts.and_P_eq_zero {w : UInt32} {e : Pte} (h : PteAbstracts w e)
    (hp : e.present = false) : (w &&& PTE_P) = 0 :=
  bne_eq_false_iff_eq.mp (h.present.trans hp)

/-- Two pages share no byte. -/
def PagesDisjoint (p q : Nat) : Prop := p + PGSIZE ≤ q ∨ q + PGSIZE ≤ p

/-- The page table that PDE `i` of the directory at `pd` points to. -/
def tableOf (m : WordMem) (pd i : Nat) : Nat := pde_get_pt (m (pd + 4 * i))

/-- The address of `va`'s PTE, through its PDE: what `lookup_page` returns. -/
def pteAddr (m : WordMem) (pd va : Nat) : Nat := tableOf m pd (Pagedir.pd_no va) + 4 * pt_no va

/-- The directory at `pd` in `m` stands for the abstract directory `a`: each user PDE is empty
or points to a page table of its own, exactly the slots of `a.tables` have one, and through
them every user page's PTE word stands for `a`'s entry of it. The directory and its page tables
are disjoint pages, so writing one entry touches no other. -/
structure Abstracts (m : WordMem) (pd : Nat) (a : Pagedir) : Prop where
  pd_page : KernelPage pd
  pde : ∀ i < 768, m (pd + 4 * i) = 0 ∨ ∃ pt, KernelPage pt ∧ m (pd + 4 * i) = pde_create pt
  tables : ∀ i < 768, m (pd + 4 * i) ≠ 0 ↔ i ∈ a.tables
  tables_user : ∀ i ∈ a.tables, i < 768
  tables_nodup : a.tables.Nodup
  disjoint_pd : ∀ i < 768, m (pd + 4 * i) ≠ 0 → PagesDisjoint (tableOf m pd i) pd
  disjoint : ∀ i < 768, ∀ j < 768, i ≠ j → m (pd + 4 * i) ≠ 0 → m (pd + 4 * j) ≠ 0 →
    PagesDisjoint (tableOf m pd i) (tableOf m pd j)
  entry : ∀ va < PHYS_BASE, a.hasTable va → PteAbstracts (m (pteAddr m pd va)) (a.entry va)
  keys : ∀ e ∈ a.ptes, e.1 < PHYS_BASE ∧ pg_ofs e.1 = 0
  keys_nodup : (a.ptes.map Prod.fst).Nodup

/-- A page `palloc` may hand out for a new page table: a kernel page that is neither the
directory nor one of its page tables. -/
def Fresh (m : WordMem) (pd p : Nat) : Prop :=
  KernelPage p ∧ PagesDisjoint p pd ∧ ∀ i < 768, m (pd + 4 * i) ≠ 0 → PagesDisjoint p (tableOf m pd i)

/-! ### Addresses -/

theorem pd_no_lt {va : Nat} (hva : va < PHYS_BASE) : Pagedir.pd_no va < 768 := by
  simp only [Pagedir.pd_no, PGSIZE_eq, PHYS_BASE_eq] at hva ⊢
  omega

theorem pt_no_lt (va : Nat) : 4 * pt_no va < PGSIZE := by
  simp only [pt_no, PGSIZE_eq]
  omega

/-- Two addresses are in one page exactly when they have the same PDE and PTE slots. -/
theorem pg_round_down_eq_iff {va va' : Nat} :
    pg_round_down va' = pg_round_down va ↔
      Pagedir.pd_no va' = Pagedir.pd_no va ∧ pt_no va' = pt_no va := by
  simp only [pg_round_down, Pagedir.pd_no, pt_no, PGSIZE_eq]
  omega

theorem ne_of_pagesDisjoint {p q x y : Nat} (h : PagesDisjoint p q) (hx : p ≤ x ∧ x < p + PGSIZE)
    (hy : q ≤ y ∧ y < q + PGSIZE) : x ≠ y := by
  unfold PagesDisjoint at h
  omega

theorem pde_get_pt_create {p : Nat} (hp : KernelPage p) : pde_get_pt (pde_create p) = p := by
  have hflags : ∀ j, 12 ≤ j → (PTE_U ||| PTE_P ||| PTE_W).bit j = false := by
    intro j hj
    simp [bit_PTE_P, bit_PTE_W, bit_PTE_U]
    omega
  rw [pde_get_pt, pde_create, UInt32.or_assoc, UInt32.or_assoc, ← UInt32.or_assoc PTE_U,
    vtop_or_and_addr hp.1 hflags, ptov_vtop hp]

theorem pde_create_ne_zero (p : Nat) : pde_create p ≠ 0 := by
  intro h
  have := (eq_zero_iff_bit.mp h) 0 (by decide)
  simp [pde_create, bit_PTE_P] at this

/-! ### Reading a directory that stands for a map -/

section Reading

variable {m : WordMem} {pd : Nat} {a : Pagedir} {va : Nat}

/-- `lookup_page` where `vaddr` has a page table: its PTE, with nothing written. -/
theorem lookup_page_of_ne_zero (hz : m (pdeAddr pd va) ≠ 0) (create : Bool) (pt : Option Nat) :
    lookup_page m pd va create pt = (some (pteAddr m pd va), m) := by
  unfold lookup_page
  rw [if_neg hz]
  rfl

/-- `lookup_page` making a page table from the page `pt`. -/
theorem lookup_page_create (hz : m (pdeAddr pd va) = 0) (pt : Nat) :
    lookup_page m pd va true (some pt) =
      (some (pteAddr (Function.update (zeroPage m pt) (pdeAddr pd va) (pde_create pt)) pd va),
        Function.update (zeroPage m pt) (pdeAddr pd va) (pde_create pt)) := by
  unfold lookup_page
  rw [if_pos hz]
  rfl

/-- `lookup_page` finding no page table and making none. -/
theorem lookup_page_of_eq_zero (hz : m (pdeAddr pd va) = 0) {create : Bool} {pt : Option Nat}
    (hno : create = false ∨ pt = none) : lookup_page m pd va create pt = (none, m) := by
  unfold lookup_page
  rw [if_pos hz]
  rcases hno with rfl | rfl
  · rfl
  · cases create <;> rfl

theorem Abstracts.pde_eq_zero (h : Abstracts m pd a) (hva : va < PHYS_BASE) :
    m (pdeAddr pd va) = 0 ↔ ¬a.hasTable va := by
  simp only [Pagedir.hasTable, pdeAddr, ← h.tables _ (pd_no_lt hva), Classical.not_not]

/-- Without `create`, `lookup_page` finds `va`'s PTE exactly where the map has a page table,
and writes nothing. -/
theorem Abstracts.lookup_eq (h : Abstracts m pd a) (hva : va < PHYS_BASE) :
    lookup_page m pd va false none = (if a.hasTable va then some (pteAddr m pd va) else none, m) := by
  by_cases ht : a.hasTable va
  · rw [lookup_page_of_ne_zero (fun hz => (h.pde_eq_zero hva).mp hz ht), if_pos ht]
  · rw [lookup_page_of_eq_zero ((h.pde_eq_zero hva).mpr ht) (.inl rfl), if_neg ht]

theorem Abstracts.get_page_eq (h : Abstracts m pd a) (hva : va < PHYS_BASE) :
    pagedir_get_page m pd va = .ok (Pintos.pagedir_get_page a va) := by
  have huser : is_user_vaddr va = true := is_user_vaddr_iff.mpr hva
  unfold pagedir_get_page Pintos.pagedir_get_page
  rw [if_neg (by simp [huser]), h.lookup_eq hva]
  by_cases ht : a.hasTable va
  · have he := h.entry va hva ht
    have hp : ((m (pteAddr m pd va) &&& PTE_P) != 0) = (a.entry va).present := he.present
    simp only [if_pos ht]
    by_cases hpres : (a.entry va).present = true
    · rw [if_pos (hp.trans hpres), if_pos hpres, ← he.kpage hpres]
      rfl
    · rw [if_neg (by rw [hp]; exact hpres), if_neg hpres]
  · simp only [if_neg ht, Pagedir.entry_of_not_hasTable ht]
    rfl

/-- A flag test reads the abstract entry's bit; where there is no page table the abstract
entry is the zero entry, whose bits are clear. -/
theorem Abstracts.is_flag_eq (h : Abstracts m pd a) (hva : va < PHYS_BASE) {flag : UInt32}
    {field : Pte → Bool} (hfield : ∀ w, ((w &&& flag) != 0) = field (wordPte w))
    (hab : ∀ {w e}, PteAbstracts w e → field (wordPte w) = field e)
    (hzero : field Pte.zero = false) :
    pagedir_is_flag flag m pd va = field (a.entry va) := by
  unfold pagedir_is_flag
  rw [h.lookup_eq hva]
  by_cases ht : a.hasTable va
  · simp only [if_pos ht]
    rw [hfield, hab (h.entry va hva ht)]
  · simp only [if_neg ht, Pagedir.entry_of_not_hasTable ht, hzero]

theorem Abstracts.is_dirty_eq (h : Abstracts m pd a) (hva : va < PHYS_BASE) :
    pagedir_is_dirty m pd va = Pintos.pagedir_is_dirty a va :=
  h.is_flag_eq hva (fun _ => rfl) PteAbstracts.dirty rfl

theorem Abstracts.is_accessed_eq (h : Abstracts m pd a) (hva : va < PHYS_BASE) :
    pagedir_is_accessed m pd va = Pintos.pagedir_is_accessed a va :=
  h.is_flag_eq hva (fun _ => rfl) PteAbstracts.accessed rfl

/-- A present entry's PTE has the writable bit the map says, and the user bit. -/
theorem Abstracts.pte_bits (h : Abstracts m pd a) (hva : va < PHYS_BASE) (hp : (a.entry va).present = true) :
    ∃ pte, (lookup_page m pd va false none).1 = some pte ∧ (m pte).bit 1 = (a.entry va).writable ∧
      (m pte).bit 2 = true := by
  have ht := Pagedir.hasTable_of_present hp
  have he := h.entry va hva ht
  refine ⟨pteAddr m pd va, by rw [h.lookup_eq hva, if_pos ht], ?_, he.user hp⟩
  rw [← test_W]
  exact he.writable

end Reading

/-! ### Where the words lie -/

section Layout

variable {m : WordMem} {pd : Nat} {a : Pagedir} {va va' : Nat}

theorem PagesDisjoint.symm {p q : Nat} (h : PagesDisjoint p q) : PagesDisjoint q p := Or.symm h

theorem not_mem_of_pagesDisjoint {p q x : Nat} (h : PagesDisjoint p q) (hx : q ≤ x ∧ x < q + PGSIZE) :
    ¬(p ≤ x ∧ x < p + PGSIZE) := by
  unfold PagesDisjoint at h
  omega

theorem zeroPage_of_mem {m : WordMem} {p x : Nat} (h : p ≤ x ∧ x < p + PGSIZE) : zeroPage m p x = 0 :=
  if_pos h

theorem zeroPage_of_not_mem {m : WordMem} {p x : Nat} (h : ¬(p ≤ x ∧ x < p + PGSIZE)) :
    zeroPage m p x = m x :=
  if_neg h

theorem Abstracts.pde_ne_zero (h : Abstracts m pd a) (hva : va < PHYS_BASE) (ht : a.hasTable va) :
    m (pd + 4 * Pagedir.pd_no va) ≠ 0 :=
  (h.tables _ (pd_no_lt hva)).mpr ht

/-- A PTE lies in its page table's page. -/
theorem pteAddr_mem (m : WordMem) (pd va : Nat) :
    tableOf m pd (Pagedir.pd_no va) ≤ pteAddr m pd va ∧ pteAddr m pd va < tableOf m pd (Pagedir.pd_no va) + PGSIZE := by
  have := pt_no_lt va
  unfold pteAddr
  omega

theorem Abstracts.pteAddr_ne_pde (h : Abstracts m pd a) (hva : va < PHYS_BASE) (ht : a.hasTable va)
    {i : Nat} (hi : i < 1024) : pteAddr m pd va ≠ pd + 4 * i :=
  ne_of_pagesDisjoint (h.disjoint_pd _ (pd_no_lt hva) (h.pde_ne_zero hva ht)) (pteAddr_mem m pd va)
    (by simp only [PGSIZE_eq]; omega)

/-- The PTEs of two different user pages are different words. -/
theorem Abstracts.pteAddr_ne (h : Abstracts m pd a) (hva : va < PHYS_BASE) (hva' : va' < PHYS_BASE)
    (ht : a.hasTable va) (ht' : a.hasTable va') (hne : pg_round_down va' ≠ pg_round_down va) :
    pteAddr m pd va' ≠ pteAddr m pd va := by
  by_cases hpd : Pagedir.pd_no va' = Pagedir.pd_no va
  · -- one page table: the slots differ
    have hpt : pt_no va' ≠ pt_no va := fun hpt => hne (pg_round_down_eq_iff.mpr ⟨hpd, hpt⟩)
    unfold pteAddr
    rw [hpd]
    omega
  · -- two page tables, which are disjoint pages
    exact ne_of_pagesDisjoint (h.disjoint _ (pd_no_lt hva') _ (pd_no_lt hva) hpd
      (h.pde_ne_zero hva' ht') (h.pde_ne_zero hva ht)) (pteAddr_mem m pd va') (pteAddr_mem m pd va)

/-- `pteAddr` reads `va` only through its two slots. -/
theorem pteAddr_congr (m : WordMem) (pd : Nat) (hpg : pg_round_down va' = pg_round_down va) :
    pteAddr m pd va' = pteAddr m pd va := by
  obtain ⟨hpd, hpt⟩ := pg_round_down_eq_iff.mp hpg
  unfold pteAddr
  rw [hpd, hpt]

/-- Memories that agree on the directory's user PDEs find the same page tables. -/
theorem pteAddr_of_pde {m m' : WordMem} (hpde : ∀ i < 768, m' (pd + 4 * i) = m (pd + 4 * i))
    (hva : va < PHYS_BASE) : pteAddr m' pd va = pteAddr m pd va := by
  unfold pteAddr tableOf
  rw [hpde _ (pd_no_lt hva)]

end Layout

/-! ### Writing a directory that stands for a map -/

section Writing

variable {m : WordMem} {pd : Nat} {a : Pagedir} {va : Nat}

theorem pg_ofs_pg_round_down (va : Nat) : pg_ofs (pg_round_down va) = 0 := by
  simp [pg_ofs, pg_round_down]

/-- Writing one PTE word, as the flag updates and `pagedir_clear_page` do and `pagedir_set_page`
does last, changes the map at that page alone. The word is in a page table, so no PDE moves. -/
theorem Abstracts.store (h : Abstracts m pd a) (hva : va < PHYS_BASE) (ht : a.hasTable va)
    {w : UInt32} {e : Pte} (hw : PteAbstracts w e) :
    Abstracts (Function.update m (pteAddr m pd va) w) pd (a.write va e ht) := by
  have hpde : ∀ i < 768, Function.update m (pteAddr m pd va) w (pd + 4 * i) = m (pd + 4 * i) :=
    fun i hi => Function.update_of_ne (h.pteAddr_ne_pde hva ht (by omega)).symm _ _
  have htab : ∀ i < 768, tableOf (Function.update m (pteAddr m pd va) w) pd i = tableOf m pd i :=
    fun i hi => by unfold tableOf; rw [hpde i hi]
  refine
    { pd_page := h.pd_page
      pde := fun i hi => by rw [hpde i hi]; exact h.pde i hi
      tables := fun i hi => by rw [hpde i hi]; exact h.tables i hi
      tables_user := h.tables_user
      tables_nodup := h.tables_nodup
      disjoint_pd := fun i hi hz => by
        rw [hpde i hi] at hz
        rw [htab i hi]
        exact h.disjoint_pd i hi hz
      disjoint := fun i hi j hj hij hzi hzj => by
        rw [hpde i hi] at hzi
        rw [hpde j hj] at hzj
        rw [htab i hi, htab j hj]
        exact h.disjoint i hi j hj hij hzi hzj
      entry := fun va' hva' ht' => ?_
      keys := ?_
      keys_nodup := Pagedir.nodup_keys_write h.keys_nodup }
  · rw [pteAddr_of_pde hpde hva', Pagedir.entry_write]
    by_cases hpg : pg_round_down va' = pg_round_down va
    · rw [if_pos hpg, pteAddr_congr m pd hpg, Function.update_self]
      exact hw
    · rw [if_neg hpg, Function.update_of_ne (h.pteAddr_ne hva hva' ht ht' hpg)]
      exact h.entry va' hva' ht'
  · intro e' he'
    rcases List.mem_cons.mp he' with rfl | he'
    · exact ⟨lt_of_le_of_lt (pg_round_down_le va) hva, pg_ofs_pg_round_down va⟩
    · exact h.keys e' (List.mem_filter.mp he').1

/-- A fresh page, zeroed and entered as `va`'s page table: the map gains the table and no entry.
Only the PDE of `va` changes among the directory's words. -/
theorem pde_addTable {p : Nat} (hp : Fresh m pd p) {i : Nat}
    (hi : i < 1024) :
    Function.update (zeroPage m p) (pdeAddr pd va) (pde_create p) (pd + 4 * i) =
      if i = Pagedir.pd_no va then pde_create p else m (pd + 4 * i) := by
  by_cases hiv : i = Pagedir.pd_no va
  · subst hiv
    rw [if_pos rfl]
    exact Function.update_self _ _ _
  · rw [if_neg hiv, Function.update_of_ne (by unfold pdeAddr; omega),
      zeroPage_of_not_mem (not_mem_of_pagesDisjoint hp.2.1 (by simp only [PGSIZE_eq]; omega))]

theorem Abstracts.addTable (h : Abstracts m pd a) (hva : va < PHYS_BASE) (hno : ¬a.hasTable va)
    {p : Nat} (hp : Fresh m pd p) :
    Abstracts (Function.update (zeroPage m p) (pdeAddr pd va) (pde_create p)) pd (a.addTable va) := by
  have hk := pd_no_lt hva
  have hpde : ∀ i < 768, Function.update (zeroPage m p) (pdeAddr pd va) (pde_create p) (pd + 4 * i) =
      if i = Pagedir.pd_no va then pde_create p else m (pd + 4 * i) :=
    fun i hi => pde_addTable hp (by omega)
  have htab : ∀ i < 768, tableOf (Function.update (zeroPage m p) (pdeAddr pd va) (pde_create p)) pd i =
      if i = Pagedir.pd_no va then p else tableOf m pd i := fun i hi => by
    unfold tableOf
    rw [hpde i hi]
    split_ifs
    · exact pde_get_pt_create hp.1
    · rfl
  refine
    { pd_page := h.pd_page
      pde := fun i hi => ?_
      tables := fun i hi => ?_
      tables_user := ?_
      tables_nodup := List.nodup_cons.mpr ⟨hno, h.tables_nodup⟩
      disjoint_pd := fun i hi hz => ?_
      disjoint := fun i hi j hj hij hzi hzj => ?_
      entry := fun va' hva' ht' => ?_
      keys := h.keys
      keys_nodup := h.keys_nodup }
  · rw [hpde i hi]
    split_ifs
    · exact .inr ⟨p, hp.1, rfl⟩
    · exact h.pde i hi
  · rw [hpde i hi]
    show _ ↔ i ∈ Pagedir.pd_no va :: a.tables
    by_cases hiv : i = Pagedir.pd_no va
    · simp [hiv, pde_create_ne_zero]
    · simp only [List.mem_cons, hiv, false_or]
      exact h.tables i hi
  · intro i hi
    rcases List.mem_cons.mp hi with rfl | hi
    · exact hk
    · exact h.tables_user i hi
  · rw [hpde i hi] at hz
    rw [htab i hi]
    split_ifs at hz ⊢
    · exact hp.2.1
    · exact h.disjoint_pd i hi hz
  · rw [hpde i hi] at hzi
    rw [hpde j hj] at hzj
    rw [htab i hi, htab j hj]
    split_ifs at hzi hzj ⊢ with hiv hjv hjv
    · exact absurd (hiv.trans hjv.symm) hij
    · exact hp.2.2 j hj hzj
    · exact (hp.2.2 i hi hzi).symm
    · exact h.disjoint i hi j hj hij hzi hzj
  · -- `va'` is in the new table, whose page is zero, or in an old one, which the new page misses
    rw [Pagedir.entry_addTable]
    by_cases hsame : Pagedir.pd_no va' = Pagedir.pd_no va
    · have hno' : ¬a.hasTable va' := by
        unfold Pagedir.hasTable
        rw [hsame]
        exact hno
      have haddr : pteAddr (Function.update (zeroPage m p) (pdeAddr pd va) (pde_create p)) pd va' =
          p + 4 * pt_no va' := by
        unfold pteAddr
        rw [htab _ (pd_no_lt hva'), if_pos hsame]
      have hin : p ≤ p + 4 * pt_no va' ∧ p + 4 * pt_no va' < p + PGSIZE := by
        have := pt_no_lt va'
        omega
      have hne : p + 4 * pt_no va' ≠ pdeAddr pd va :=
        ne_of_pagesDisjoint hp.2.1 hin (by unfold pdeAddr; simp only [PGSIZE_eq]; omega)
      rw [haddr, Pagedir.entry_of_not_hasTable hno', Function.update_of_ne hne, zeroPage_of_mem hin]
      exact PteAbstracts.zero
    · have ht : a.hasTable va' := (List.mem_cons.mp ht').resolve_left hsame
      have haddr : pteAddr (Function.update (zeroPage m p) (pdeAddr pd va) (pde_create p)) pd va' =
          pteAddr m pd va' := by
        unfold pteAddr
        rw [htab _ (pd_no_lt hva'), if_neg hsame]
      have hne : pteAddr m pd va' ≠ pdeAddr pd va := h.pteAddr_ne_pde hva' ht (by omega)
      have hout := not_mem_of_pagesDisjoint (hp.2.2 _ (pd_no_lt hva') (h.pde_ne_zero hva' ht))
        (pteAddr_mem m pd va')
      rw [haddr, Function.update_of_ne hne, zeroPage_of_not_mem hout]
      exact h.entry va' hva' ht

/-- `m'` keeps the directory's kernel half, the PDEs from `pd_no (PHYS_BASE)` on, as in `m`. -/
def SameKernelHalf (pd : Nat) (m m' : WordMem) : Prop :=
  ∀ i, 768 ≤ i → i < 1024 → m' (pd + 4 * i) = m (pd + 4 * i)

theorem SameKernelHalf.refl (pd : Nat) (m : WordMem) : SameKernelHalf pd m m := fun _ _ _ => rfl

theorem SameKernelHalf.trans {m₁ m₂ m₃ : WordMem} (h₁ : SameKernelHalf pd m₁ m₂)
    (h₂ : SameKernelHalf pd m₂ m₃) : SameKernelHalf pd m₁ m₃ :=
  fun i hi hi' => (h₂ i hi hi').trans (h₁ i hi hi')

theorem Abstracts.store_kernel (h : Abstracts m pd a) (hva : va < PHYS_BASE) (ht : a.hasTable va)
    (w : UInt32) : SameKernelHalf pd m (Function.update m (pteAddr m pd va) w) :=
  fun _ _ hi => Function.update_of_ne (h.pteAddr_ne_pde hva ht hi).symm _ _

theorem addTable_kernel (hva : va < PHYS_BASE) {p : Nat} (hp : Fresh m pd p) :
    SameKernelHalf pd m (Function.update (zeroPage m p) (pdeAddr pd va) (pde_create p)) := by
  intro i hi hi'
  have hk := pd_no_lt hva
  rw [pde_addTable hp hi', if_neg (by omega)]

/-! ### The functions of `pagedir.c` on a directory that stands for a map -/

theorem Abstracts.set_dirty (h : Abstracts m pd a) (hva : va < PHYS_BASE) (dirty : Bool) :
    Abstracts (pagedir_set_dirty m pd va dirty) pd (Pintos.pagedir_set_dirty a va dirty) ∧
      SameKernelHalf pd m (pagedir_set_dirty m pd va dirty) := by
  unfold pagedir_set_dirty pagedir_set_flag Pintos.pagedir_set_dirty
  rw [h.lookup_eq hva]
  by_cases ht : a.hasTable va
  · simp only [if_pos ht, dif_pos ht]
    exact ⟨h.store hva ht ((h.entry va hva ht).set_dirty dirty), h.store_kernel hva ht _⟩
  · simp only [if_neg ht, dif_neg ht]
    exact ⟨h, .refl pd m⟩

theorem Abstracts.set_accessed (h : Abstracts m pd a) (hva : va < PHYS_BASE) (accessed : Bool) :
    Abstracts (pagedir_set_accessed m pd va accessed) pd (Pintos.pagedir_set_accessed a va accessed) ∧
      SameKernelHalf pd m (pagedir_set_accessed m pd va accessed) := by
  unfold pagedir_set_accessed pagedir_set_flag Pintos.pagedir_set_accessed
  rw [h.lookup_eq hva]
  by_cases ht : a.hasTable va
  · simp only [if_pos ht, dif_pos ht]
    exact ⟨h.store hva ht ((h.entry va hva ht).set_accessed accessed), h.store_kernel hva ht _⟩
  · simp only [if_neg ht, dif_neg ht]
    exact ⟨h, .refl pd m⟩

theorem Abstracts.clear_page (h : Abstracts m pd a) (hva : va < PHYS_BASE) (hofs : pg_ofs va = 0) :
    ∃ m', pagedir_clear_page m pd va = .ok m' ∧ Abstracts m' pd (Pintos.pagedir_clear_page a va) ∧
      SameKernelHalf pd m m' := by
  unfold pagedir_clear_page Pintos.pagedir_clear_page
  rw [if_neg (by simp [hofs, is_user_vaddr_iff.mpr hva]), h.lookup_eq hva]
  by_cases ht : a.hasTable va
  · have he := h.entry va hva ht
    have hp : ((m (pteAddr m pd va) &&& PTE_P) != 0) = (a.entry va).present := he.present
    simp only [if_pos ht]
    by_cases hpres : (a.entry va).present = true
    · rw [if_pos (hp.trans hpres), dif_pos ⟨ht, hpres⟩]
      exact ⟨_, rfl, h.store hva ht he.clear_present, h.store_kernel hva ht _⟩
    · rw [if_neg (by rw [hp]; exact hpres), dif_neg (fun hc => hpres hc.2)]
      exact ⟨m, rfl, h, .refl pd m⟩
  · simp only [if_neg ht, dif_neg (fun hc : a.hasTable va ∧ _ => ht hc.1)]
    exact ⟨m, rfl, h, .refl pd m⟩

/-- `pagedir_set_page` of an unmapped user page to a kernel page of RAM, in a directory other
than `init_page_dir`, when the page-table allocation, if it succeeds, returns a fresh page: it
passes its `ASSERT`s, and installs the entry exactly when the abstract one does. -/
theorem Abstracts.set_page (h : Abstracts m pd a) {init_page_dir init_ram_pages upage kpage : Nat}
    (writable : Bool) {pt : Option Nat} (hva : upage < PHYS_BASE) (hofs : pg_ofs upage = 0)
    (hk : KernelPage kpage) (hram : (vtop kpage).toNat / PGSIZE < init_ram_pages)
    (hinit : pd ≠ init_page_dir) (hnp : (a.entry upage).present = false)
    (hpt : ∀ p, pt = some p → Fresh m pd p) :
    ∃ b m' a', pagedir_set_page m init_page_dir init_ram_pages pd upage kpage writable pt = .ok (b, m') ∧
      Pintos.pagedir_set_page a upage kpage writable pt.isSome = some (b, a') ∧
      Abstracts m' pd a' ∧ SameKernelHalf pd m m' := by
  have hw := PteAbstracts.create_user hk writable
  unfold pagedir_set_page Pintos.pagedir_set_page
  rw [if_neg (by simp [hofs, hk.1, is_user_vaddr_iff.mpr hva, hk.2.1, hinit]; omega)]
  by_cases ht : a.hasTable upage
  · -- the page table is there: one PTE is written
    rw [lookup_page_of_ne_zero (fun hz => (h.pde_eq_zero hva).mp hz ht), dif_pos ht, if_neg (by simp [hnp])]
    dsimp only
    rw [if_pos ((h.entry upage hva ht).and_P_eq_zero hnp)]
    exact ⟨_, _, _, rfl, rfl, h.store hva ht hw, h.store_kernel hva ht _⟩
  · rw [dif_neg ht]
    cases pt with
    | none =>
      rw [lookup_page_of_eq_zero ((h.pde_eq_zero hva).mpr ht) (.inr rfl)]
      exact ⟨_, _, _, rfl, rfl, h, .refl pd m⟩
    | some p =>
      have hp := hpt p rfl
      have h₁ := h.addTable hva ht hp
      have hz : (a.addTable upage).entry upage = Pte.zero := by
        rw [Pagedir.entry_addTable, Pagedir.entry_of_not_hasTable ht]
      have he₁ := h₁.entry upage hva (Pagedir.hasTable_addTable a upage)
      rw [hz] at he₁
      rw [lookup_page_create ((h.pde_eq_zero hva).mpr ht)]
      dsimp only
      rw [if_pos (he₁.and_P_eq_zero rfl)]
      exact ⟨_, _, _, rfl, rfl, h₁.store hva (Pagedir.hasTable_addTable a upage) hw,
        (addTable_kernel hva hp).trans (h₁.store_kernel hva (Pagedir.hasTable_addTable a upage) _)⟩

end Writing

/-! ### `pagedir_destroy` -/

section Destroy

variable {m : WordMem} {pd : Nat} {a : Pagedir}

/-- The user pages whose PTEs are in the page table of PDE slot `i`, in slot order. -/
def slotPages (i : Nat) : List Nat := (List.range 1024).map fun j => (i * 1024 + j) * PGSIZE

/-- The frame of `va`'s page if its entry is present. -/
def presentFrame (a : Pagedir) (va : Nat) : Option Nat :=
  if (a.entry va).present then some (a.entry va).kpage else none

theorem slot_page {i j : Nat} (hi : i < 768) (hj : j < 1024) :
    (i * 1024 + j) * PGSIZE < PHYS_BASE ∧ Pagedir.pd_no ((i * 1024 + j) * PGSIZE) = i ∧
      pt_no ((i * 1024 + j) * PGSIZE) = j := by
  simp only [Pagedir.pd_no, pt_no, PGSIZE_eq, PHYS_BASE_eq]
  omega

theorem Abstracts.pde_present (h : Abstracts m pd a) {i : Nat} (hi : i < 768) :
    ((m (pd + 4 * i) &&& PTE_P) != 0) = decide (i ∈ a.tables) := by
  rcases h.pde i hi with hz | ⟨pt, -, hpt⟩
  · have hno : i ∉ a.tables := fun hin => (h.tables i hi).mpr hin hz
    simp [hz, hno]
  · have hin : i ∈ a.tables := (h.tables i hi).mp (hpt ▸ pde_create_ne_zero pt)
    simp [hpt, hin, pde_create, bit_PTE_P]

/-- A page table's present frames are the present frames of its slot's pages. -/
theorem Abstracts.tableFrames_eq (h : Abstracts m pd a) {i : Nat} (hi : i ∈ a.tables) :
    tableFrames m (tableOf m pd i) = (slotPages i).filterMap (presentFrame a) := by
  have hi' := h.tables_user i hi
  unfold tableFrames slotPages
  rw [List.filterMap_map]
  refine List.filterMap_congr fun j hj => ?_
  obtain ⟨hva, hpd, hpt⟩ := slot_page hi' (List.mem_range.mp hj)
  have ht : a.hasTable ((i * 1024 + j) * PGSIZE) := by
    unfold Pagedir.hasTable
    rw [hpd]
    exact hi
  have he := h.entry _ hva ht
  have haddr : pteAddr m pd ((i * 1024 + j) * PGSIZE) = tableOf m pd i + 4 * j := by
    unfold pteAddr
    rw [hpd, hpt]
  rw [haddr] at he
  have hp : ((m (tableOf m pd i + 4 * j) &&& PTE_P) != 0) = _ := he.present
  simp only [Function.comp, presentFrame, hp]
  split_ifs with hpres
  · rw [← he.kpage hpres]
    rfl
  · rfl

/-- The frames of the present entries, table by table. -/
theorem Abstracts.presentPages_perm (h : Abstracts m pd a) :
    a.presentPages.Perm (a.tables.flatMap fun i => (slotPages i).filterMap (presentFrame a)) := by
  have hslot : ∀ i ∈ a.tables, ∀ j < 1024, ∀ i' ∈ a.tables, ∀ j' < 1024,
      (i * 1024 + j) * PGSIZE = (i' * 1024 + j') * PGSIZE → i = i' ∧ j = j' := by
    intro i _ j hj i' _ j' hj' heq
    simp only [PGSIZE_eq] at heq
    omega
  have hnodup : (a.tables.flatMap slotPages).Nodup := by
    refine List.nodup_flatMap.mpr ⟨fun i hi => ?_, h.tables_nodup.imp_of_mem fun {i i'} hi hi' hne => ?_⟩
    · refine List.Nodup.map_on (fun j hj j' hj' heq => ?_) List.nodup_range
      exact (hslot i hi j (List.mem_range.mp hj) i hi j' (List.mem_range.mp hj') heq).2
    · simp only [Function.onFun, slotPages]
      intro x hx hx'
      obtain ⟨j, hj, rfl⟩ := List.mem_map.mp hx
      obtain ⟨j', hj', heq⟩ := List.mem_map.mp hx'
      exact hne (hslot i' hi' j' (List.mem_range.mp hj') i hi j (List.mem_range.mp hj) heq).1.symm
  have hkeys : ∀ e ∈ a.ptes, e.1 ∈ a.tables.flatMap slotPages := by
    intro e he
    obtain ⟨hlt, hofs⟩ := h.keys e he
    refine List.mem_flatMap.mpr ⟨Pagedir.pd_no e.1, a.wf e he, List.mem_map.mpr ⟨pt_no e.1, ?_, ?_⟩⟩
    · exact List.mem_range.mpr (by simp only [pt_no]; omega)
    · simp only [Pagedir.pd_no, pt_no, pg_ofs, PGSIZE_eq, PHYS_BASE_eq] at hlt hofs ⊢
      omega
  have hal : ∀ k ∈ a.tables.flatMap slotPages, pg_round_down k = k := by
    intro k hk
    obtain ⟨i, -, hk⟩ := List.mem_flatMap.mp hk
    obtain ⟨j, -, rfl⟩ := List.mem_map.mp hk
    simp only [pg_round_down, PGSIZE_eq]
    omega
  have hperm := Pagedir.presentPages_perm h.keys_nodup hnodup hkeys hal
  rwa [List.filterMap_flatMap] at hperm

theorem flatMap_ite_eq {α β : Type} (l : List α) (p : α → Prop) [DecidablePred p] (f : α → List β) :
    (l.flatMap fun x => if p x then f x else []) = (l.filter fun x => decide (p x)).flatMap f := by
  induction l with
  | nil => rfl
  | cons x l ih => by_cases hx : p x <;> simp [hx, ih]

/-- Walking the slots `0 .. n - 1` and keeping those of the duplicate-free list `T` gives `T`'s
members in another order. -/
theorem flatMap_range_ite_perm {β : Type} {T : List Nat} {n : Nat} (hT : T.Nodup) (hlt : ∀ i ∈ T, i < n)
    (f : Nat → List β) : ((List.range n).flatMap fun i => if i ∈ T then f i else []).Perm (T.flatMap f) := by
  rw [flatMap_ite_eq]
  apply List.Perm.flatMap_right
  apply (List.perm_ext_iff_of_nodup (List.nodup_range.filter _) hT).mpr
  intro i
  simp only [List.mem_filter, List.mem_range, decide_eq_true_eq]
  exact ⟨fun hi => hi.2, fun hi => ⟨hlt i hi, hi⟩⟩

/-- `pagedir_destroy` frees, in some order, the frames of the present entries, the page tables
and the directory itself. -/
theorem Abstracts.destroy (h : Abstracts m pd a) {init_page_dir : Nat} (hinit : pd ≠ init_page_dir) :
    ∃ frees, pagedir_destroy m init_page_dir pd = .ok frees ∧
      frees.Perm (a.presentPages ++ a.tables.map (tableOf m pd) ++ [pd]) := by
  have hpd0 : pd ≠ 0 := by
    have := h.pd_page.2.1
    simp only [PHYS_BASE_eq] at this
    omega
  unfold pagedir_destroy
  rw [if_neg hpd0, if_neg hinit]
  refine ⟨_, rfl, List.Perm.append_right _ ?_⟩
  have hslots : ((List.range (Pagedir.pd_no PHYS_BASE)).flatMap fun i =>
      if (m (pd + 4 * i) &&& PTE_P) != 0 then
        tableFrames m (pde_get_pt (m (pd + 4 * i))) ++ [pde_get_pt (m (pd + 4 * i))]
      else []) =
      (List.range 768).flatMap fun i => (if i ∈ a.tables then tableFrames m (tableOf m pd i) else []) ++
        (if i ∈ a.tables then [tableOf m pd i] else []) := by
    refine List.flatMap_congr fun i hi => ?_
    rw [h.pde_present (List.mem_range.mp hi)]
    by_cases hin : i ∈ a.tables <;> simp [hin, tableOf]
  have hframes : ((List.range 768).flatMap fun i => if i ∈ a.tables then tableFrames m (tableOf m pd i) else []).Perm
      a.presentPages := by
    refine (flatMap_range_ite_perm h.tables_nodup h.tables_user _).trans ?_
    rw [List.flatMap_congr fun i hi => h.tableFrames_eq hi]
    exact h.presentPages_perm.symm
  have htables : ((List.range 768).flatMap fun i => if i ∈ a.tables then [tableOf m pd i] else []).Perm
      (a.tables.map (tableOf m pd)) := by
    rw [List.map_eq_flatMap]
    exact flatMap_range_ite_perm h.tables_nodup h.tables_user _
  rw [hslots]
  exact (List.flatMap_append_perm _ _ _).symm.trans (hframes.append htables)

/-- Every user page, slot by slot. -/
def userPages : List Nat := (List.range 768).flatMap slotPages

theorem slot_frames_of_not_mem {i : Nat} (hi : i < 768)
    (hno : i ∉ a.tables) : (slotPages i).filterMap (presentFrame a) = [] := by
  rw [List.filterMap_eq_nil_iff]
  intro va hva
  obtain ⟨j, hj, rfl⟩ := List.mem_map.mp hva
  obtain ⟨-, hpd, -⟩ := slot_page hi (List.mem_range.mp hj)
  have ht : ¬a.hasTable ((i * 1024 + j) * PGSIZE) := by
    unfold Pagedir.hasTable
    rw [hpd]
    exact hno
  simp [presentFrame, Pagedir.entry_of_not_hasTable ht, Pte.zero]

/-- The frames of the present entries, read off all user pages. -/
theorem Abstracts.presentPages_user_perm (h : Abstracts m pd a) :
    a.presentPages.Perm (userPages.filterMap (presentFrame a)) := by
  unfold userPages
  rw [List.filterMap_flatMap]
  have hite : ((List.range 768).flatMap fun i => (slotPages i).filterMap (presentFrame a)) =
      (List.range 768).flatMap fun i => if i ∈ a.tables then (slotPages i).filterMap (presentFrame a) else [] :=
    List.flatMap_congr fun i hi => by
      split_ifs with hin
      · rfl
      · exact slot_frames_of_not_mem (List.mem_range.mp hi) hin
  rw [hite]
  exact h.presentPages_perm.trans (flatMap_range_ite_perm h.tables_nodup h.tables_user _).symm

/-- The map's page-table slots are the directory's nonzero user PDEs. -/
theorem Abstracts.tables_perm (h : Abstracts m pd a) :
    ((List.range 768).filter fun i => m (pd + 4 * i) != 0).Perm a.tables := by
  refine (List.perm_ext_iff_of_nodup (List.nodup_range.filter _) h.tables_nodup).mpr fun i => ?_
  simp only [List.mem_filter, List.mem_range, bne_iff_ne, ne_eq]
  constructor
  · rintro ⟨hi, hz⟩
    exact (h.tables i hi).mp hz
  · intro hi
    exact ⟨h.tables_user i hi, (h.tables i (h.tables_user i hi)).mpr hi⟩

end Destroy

/-! ### `pagedir_create` -/

theorem pagedir_create_copy (m₀ : WordMem) (init_page_dir pd : Nat) {i : Nat} (hi : i < 1024) :
    (pagedir_create m₀ init_page_dir (some pd)).2 (pd + 4 * i) = m₀ (init_page_dir + 4 * i) := by
  unfold pagedir_create
  dsimp only
  rw [if_pos (by simp only [PGSIZE_eq]; omega), Nat.add_sub_cancel_left]

/-- A copy of an `init_page_dir` that maps no user page stands for the empty map. -/
theorem pagedir_create_abstracts {m₀ : WordMem} {init_page_dir pd : Nat} (hpd : KernelPage pd)
    (huser : ∀ i < 768, m₀ (init_page_dir + 4 * i) = 0) :
    Abstracts (pagedir_create m₀ init_page_dir (some pd)).2 pd Pagedir.empty := by
  have hz : ∀ i < 768, (pagedir_create m₀ init_page_dir (some pd)).2 (pd + 4 * i) = 0 := fun i hi => by
    rw [pagedir_create_copy m₀ init_page_dir pd (by omega), huser i hi]
  exact {
    pd_page := hpd
    pde := fun i hi => .inl (hz i hi)
    tables := fun i hi => by simp [hz i hi, Pagedir.empty]
    tables_user := fun _ hi => by simp [Pagedir.empty] at hi
    tables_nodup := List.nodup_nil
    disjoint_pd := fun i hi hne => absurd (hz i hi) hne
    disjoint := fun i hi _ _ _ hne _ => absurd (hz i hi) hne
    entry := fun _ _ ht => by simp [Pagedir.hasTable, Pagedir.empty] at ht
    keys := fun _ he => by simp [Pagedir.empty] at he
    keys_nodup := List.nodup_nil }

theorem pagedir_clear_page_ofs {m m' : WordMem} {pd upage : Nat}
    (h : pagedir_clear_page m pd upage = .ok m') : pg_ofs upage = 0 := by
  unfold pagedir_clear_page at h
  by_contra hne
  rw [if_pos (.inl hne)] at h
  cases h

end PageTable

end Pintos
