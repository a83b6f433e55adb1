import Mathlib.Tactic.Ring

/-!
# Virtual addresses (`threads/vaddr.h`)

Addresses are natural numbers below `2 ^ 32`. A user virtual address lies below `PHYS_BASE`;
kernel virtual memory starts there and maps physical memory one to one. `ptr_add` and
`ptr_sub` are the 32-bit pointer arithmetic of the C code (`buffer + size - 1`, `esp - 32`),
which wraps modulo `2 ^ 32`.
-/

namespace Pintos

/-- Number of offset bits in a virtual address. -/
def PGBITS : Nat := 12

/-- Bytes in a page (`1 << PGBITS`). -/
def PGSIZE : Nat := 2 ^ PGBITS

/-- `LOADER_PHYS_BASE`: the first kernel virtual address. -/
def PHYS_BASE : Nat := 0xc0000000

/-- The size of the 32-bit address space: `uintptr_t` arithmetic is modulo this. -/
def WORD_MOD : Nat := 2 ^ 32

theorem PGSIZE_eq : PGSIZE = 4096 := rfl

theorem PHYS_BASE_eq : PHYS_BASE = 3221225472 := rfl

theorem WORD_MOD_eq : WORD_MOD = 4294967296 := rfl

/-- Offset within a page (`va & PGMASK`). -/
def pg_ofs (va : Nat) : Nat := va % PGSIZE

/-- Virtual page number (`va >> PGBITS`). -/
def pg_no (va : Nat) : Nat := va / PGSIZE

/-- Round down to the nearest page boundary (`va & ~PGMASK`). -/
def pg_round_down (va : Nat) : Nat := va / PGSIZE * PGSIZE

/-- `is_user_vaddr`: `va < PHYS_BASE`. -/
def is_user_vaddr (va : Nat) : Bool := decide (va < PHYS_BASE)

/-- `p + n` on 32-bit pointers. -/
def ptr_add (p n : Nat) : Nat := (p + n) % WORD_MOD

/-- `p - n` on 32-bit pointers. -/
def ptr_sub (p n : Nat) : Nat := (p + WORD_MOD - n % WORD_MOD) % WORD_MOD

theorem pg_round_down_le (va : Nat) : pg_round_down va ≤ va := Nat.div_mul_le_self va PGSIZE

theorem lt_pg_round_down_add (va : Nat) : va < pg_round_down va + PGSIZE := by
  unfold pg_round_down
  have := Nat.lt_div_mul_add (a := va) (b := PGSIZE) (by decide)
  omega

theorem pg_round_down_add_ofs (va : Nat) : pg_round_down va + pg_ofs va = va := by
  unfold pg_round_down pg_ofs
  exact Nat.div_add_mod' va PGSIZE

theorem pg_round_down_idem (va : Nat) : pg_round_down (pg_round_down va) = pg_round_down va := by
  unfold pg_round_down
  rw [Nat.mul_div_cancel _ (by decide)]

theorem pg_round_down_of_le_of_lt {base va : Nat} (hb : pg_round_down base = base)
    (h₁ : base ≤ va) (h₂ : va < base + PGSIZE) : pg_round_down va = base := by
  unfold pg_round_down at *
  have hlo : base / PGSIZE * PGSIZE ≤ va := by omega
  have hhi : va < (base / PGSIZE + 1) * PGSIZE := by rw [Nat.add_mul]; omega
  rw [Nat.div_eq_of_lt_le hlo hhi, hb]

theorem is_user_vaddr_iff {va : Nat} : is_user_vaddr va = true ↔ va < PHYS_BASE := by
  simp [is_user_vaddr]

theorem ptr_add_lt (p n : Nat) : ptr_add p n < WORD_MOD := Nat.mod_lt _ (by decide)

theorem ptr_add_of_lt {p n : Nat} (h : p + n < WORD_MOD) : ptr_add p n = p + n :=
  Nat.mod_eq_of_lt h

/-- Below `PHYS_BASE` a pointer sum does not wrap. -/
theorem ptr_add_of_lt_phys {p n : Nat} (h : p + n < PHYS_BASE) : ptr_add p n = p + n :=
  ptr_add_of_lt (by unfold PHYS_BASE at h; unfold WORD_MOD; omega)

theorem ptr_sub_of_le {p n : Nat} (hp : p < WORD_MOD) (h : n ≤ p) : ptr_sub p n = p - n := by
  unfold ptr_sub
  have hn : n % WORD_MOD = n := Nat.mod_eq_of_lt (by omega)
  rw [hn, show p + WORD_MOD - n = (p - n) + WORD_MOD by omega, Nat.add_mod_right,
    Nat.mod_eq_of_lt (by omega)]

end Pintos
