import Pintos.Lib.BitField

/-!
# What an x86 processor reads from its descriptor tables

The processor's side of the tables a protected-mode kernel builds. A segment descriptor
([IA32-v3a] 3.4.5), an interrupt or trap gate ([IA32-v3a] 5.11) and the operand of `lgdt` and
`lidt` ([IA32-v3a] 2.4) are words whose fields sit at fixed bit positions; `encode` lays fields
out as the manual does and `decode` reads them back, and the two are inverse
(`SegDesc.decode_encode`, `GateDesc.decode_encode`, `TableReg.decode_encode`). The fields carry
their widths in their types, so a descriptor with a field out of range cannot be built.

`deliver` is what the processor does when an interrupt arrives through the interrupt descriptor
table ([IA32-v2a] "INT n/INTO/INT3", protected mode, through an interrupt or trap gate): the
table limit, the gate's type and, for a software interrupt, its privilege level, the present
bit, then the code segment the gate names in the global descriptor table, which sets the new
privilege level; an interrupt gate clears the interrupt flag and a trap gate keeps it.
`deliver_gate` says what it returns for a gate and a code segment of the kind a kernel installs.
-/

namespace X86

open BitField

/-! ## Segment descriptors -/

/-- The fields of a segment descriptor. -/
structure SegDesc where
  base : Fin (2 ^ 32)
  limit : Fin (2 ^ 20)
  type : Fin 16
  /-- descriptor type: clear for a system segment, set for code or data -/
  s : Bool
  dpl : Fin 4
  /-- present -/
  p : Bool
  avl : Bool
  /-- 64-bit code segment -/
  l : Bool
  /-- default operation size: set for a 32-bit segment -/
  db : Bool
  /-- granularity: set when the limit counts 4 kB pages -/
  g : Bool
  deriving DecidableEq, Repr

/-- The descriptor word: limit 15:0 and base 15:0 in the low doubleword; base 23:16, the type and
flag bits, limit 19:16 and base 31:24 in the high one. -/
def SegDesc.encode (d : SegDesc) : ℕ :=
  (d.limit.val % 2 ^ 16 + d.base.val % 2 ^ 16 * 2 ^ 16) +
    (d.base.val / 2 ^ 16 % 2 ^ 8 + d.type.val * 2 ^ 8 + d.s.toNat * 2 ^ 12 + d.dpl.val * 2 ^ 13 +
      d.p.toNat * 2 ^ 15 + d.limit.val / 2 ^ 16 % 2 ^ 4 * 2 ^ 16 + d.avl.toNat * 2 ^ 20 +
      d.l.toNat * 2 ^ 21 + d.db.toNat * 2 ^ 22 + d.g.toNat * 2 ^ 23 +
      d.base.val / 2 ^ 24 % 2 ^ 8 * 2 ^ 24) * 2 ^ 32

theorem three_fields_lt (x y z : ℕ) :
    field x 16 16 + field y 32 8 * 2 ^ 16 + field z 56 8 * 2 ^ 24 < 2 ^ 32 := by
  have := field_lt x 16 16
  have := field_lt y 32 8
  have := field_lt z 56 8
  omega

theorem two_fields_lt (x lo hi w : ℕ) : field x lo 16 + field x hi w * 2 ^ 16 < 2 ^ (16 + w) := by
  have h₁ := field_lt x lo 16
  have h₂ : (field x hi w + 1) * 2 ^ 16 ≤ 2 ^ w * 2 ^ 16 :=
    Nat.mul_le_mul_right _ (field_lt x hi w)
  rw [Nat.add_mul, Nat.one_mul] at h₂
  rw [Nat.pow_add, Nat.mul_comm (2 ^ 16)]
  omega

/-- The fields the processor reads from a descriptor word. -/
def SegDesc.decode (d : ℕ) : SegDesc where
  base := ⟨field d 16 16 + field d 32 8 * 2 ^ 16 + field d 56 8 * 2 ^ 24, three_fields_lt d d d⟩
  limit := ⟨field d 0 16 + field d 48 4 * 2 ^ 16, two_fields_lt d 0 48 4⟩
  type := ⟨field d 40 4, field_lt d 40 4⟩
  s := d.testBit 44
  dpl := ⟨field d 45 2, field_lt d 45 2⟩
  p := d.testBit 47
  avl := d.testBit 52
  l := d.testBit 53
  db := d.testBit 54
  g := d.testBit 55

/-- The last offset inside the segment: the limit counts bytes, or 4 kB pages when `g` is set. -/
def SegDesc.lastOffset (d : SegDesc) : ℕ :=
  if d.g then d.limit.val * 2 ^ 12 + (2 ^ 12 - 1) else d.limit.val

/-- A flag read back from its bit. -/
theorem decide_toNat_eq_one (b : Bool) : decide (b.toNat = 1) = b := by
  cases b <;> rfl

theorem SegDesc.decode_encode (d : SegDesc) : SegDesc.decode d.encode = d := by
  obtain ⟨⟨base, hb⟩, ⟨limit, hl⟩, ⟨type, ht⟩, s, ⟨dpl, hd⟩, p, avl, l, db, g⟩ := d
  have hs := Bool.toNat_lt s
  have hp := Bool.toNat_lt p
  have ha := Bool.toNat_lt avl
  have hL := Bool.toNat_lt l
  have hdb := Bool.toNat_lt db
  have hg := Bool.toNat_lt g
  simp only [SegDesc.decode, SegDesc.encode, testBit_eq_field, SegDesc.mk.injEq, Fin.mk.injEq]
  simp (disch := omega) only [field_add_mul_of_ge, field_add_mul_of_le, field_of_lt, Nat.reduceSub,
    decide_toNat_eq_one, and_true]
  omega

theorem SegDesc.encode_lt (d : SegDesc) : d.encode < 2 ^ 64 := by
  have := d.base.isLt
  have := d.limit.isLt
  have := d.type.isLt
  have := d.dpl.isLt
  have := Bool.toNat_lt d.s
  have := Bool.toNat_lt d.p
  have := Bool.toNat_lt d.avl
  have := Bool.toNat_lt d.l
  have := Bool.toNat_lt d.db
  have := Bool.toNat_lt d.g
  unfold SegDesc.encode
  omega

/-! ## Gates -/

/-- The fields of an interrupt, trap or task gate. -/
structure GateDesc where
  offset : Fin (2 ^ 32)
  selector : Fin (2 ^ 16)
  type : Fin 16
  s : Bool
  dpl : Fin 4
  p : Bool
  deriving DecidableEq, Repr

/-- The gate word: offset 15:0 and the selector in the low doubleword; the type, flag bits and
offset 31:16 in the high one, whose bits 7:0 are zero. -/
def GateDesc.encode (d : GateDesc) : ℕ :=
  (d.offset.val % 2 ^ 16 + d.selector.val * 2 ^ 16) +
    (0 + d.type.val * 2 ^ 8 + d.s.toNat * 2 ^ 12 + d.dpl.val * 2 ^ 13 + d.p.toNat * 2 ^ 15 +
      d.offset.val / 2 ^ 16 * 2 ^ 16) * 2 ^ 32

def GateDesc.decode (d : ℕ) : GateDesc where
  offset := ⟨field d 0 16 + field d 48 16 * 2 ^ 16, two_fields_lt d 0 48 16⟩
  selector := ⟨field d 16 16, field_lt d 16 16⟩
  type := ⟨field d 40 4, field_lt d 40 4⟩
  s := d.testBit 44
  dpl := ⟨field d 45 2, field_lt d 45 2⟩
  p := d.testBit 47

theorem GateDesc.decode_encode (d : GateDesc) : GateDesc.decode d.encode = d := by
  obtain ⟨⟨offset, ho⟩, ⟨selector, hsel⟩, ⟨type, ht⟩, s, ⟨dpl, hd⟩, p⟩ := d
  have hs := Bool.toNat_lt s
  have hp := Bool.toNat_lt p
  have hhi : offset / 2 ^ 16 < 2 ^ 16 := by omega
  simp only [GateDesc.decode, GateDesc.encode, testBit_eq_field, GateDesc.mk.injEq, Fin.mk.injEq]
  simp (disch := omega) only [field_add_mul_of_ge, field_add_mul_of_le, field_of_lt, Nat.reduceSub,
    decide_toNat_eq_one, and_true]
  omega

/-! ## The operand of `lgdt` and `lidt` -/

/-- A table register: the offset of the table's last byte and the table's linear address. -/
structure TableReg where
  limit : Fin (2 ^ 16)
  base : Fin (2 ^ 32)
  deriving DecidableEq, Repr

def TableReg.encode (r : TableReg) : ℕ := r.limit.val + r.base.val * 2 ^ 16

def TableReg.decode (d : ℕ) : TableReg where
  limit := ⟨field d 0 16, field_lt d 0 16⟩
  base := ⟨field d 16 32, field_lt d 16 32⟩

theorem TableReg.decode_encode (r : TableReg) : TableReg.decode r.encode = r := by
  obtain ⟨⟨limit, hl⟩, ⟨base, hb⟩⟩ := r
  simp (disch := omega) only [TableReg.decode, TableReg.encode, field_add_mul_of_ge,
    field_add_mul_of_le, field_of_lt, Nat.reduceSub]

/-! ## Entering an interrupt handler -/

/-- How an interrupt that the processor delivers enters its handler. -/
structure Entry where
  /-- the code segment selector, its requested privilege level set to the new one -/
  cs : ℕ
  eip : ℕ
  cpl : ℕ
  /-- the interrupt flag on entry -/
  intr_enabled : Bool
  /-- the processor switched to the stack the task-state segment gives for the new level -/
  stack_switch : Bool
  deriving DecidableEq, Repr

/-- Why an interrupt does not reach a handler. -/
inductive Refusal
  /-- a general-protection fault -/
  | GP
  /-- a segment-not-present fault -/
  | NP
  /-- a task gate or a 16-bit gate, which this model does not follow -/
  | otherGate
  deriving DecidableEq, Repr

/-- The interrupt `vec` arrives while the processor runs at privilege level `cpl` with interrupt
flag `intr_enabled`; `software` marks an `INT n` instruction, whose privilege is checked against
the gate. The tables are read through their registers' limits: `idt` and `gdt` give the entry at
each index. -/
def deliver (gdtLimit : ℕ) (gdt : ℕ → ℕ) (idtLimit : ℕ) (idt : ℕ → ℕ) (vec : ℕ) (software : Bool)
    (cpl : ℕ) (intr_enabled : Bool) : Except Refusal Entry := do
  if idtLimit < vec * 8 + 7 then throw .GP
  let gate := GateDesc.decode (idt vec)
  -- a system descriptor of gate type: task (5), 16-bit (6, 7) or 32-bit (14, 15) gate
  if gate.s ∨ gate.type.val ∉ [5, 6, 7, 14, 15] then throw .GP
  if software ∧ gate.dpl.val < cpl then throw .GP
  if !gate.p then throw .NP
  if gate.type.val ≠ 14 ∧ gate.type.val ≠ 15 then throw .otherGate
  -- the gate's code segment, in the global table: null, local-table and out-of-range selectors
  -- fault
  let sel := gate.selector.val
  if sel / 4 = 0 ∨ sel / 4 % 2 = 1 ∨ gdtLimit < sel / 8 * 8 + 7 then throw .GP
  let code := SegDesc.decode (gdt (sel / 8))
  if !code.s ∨ code.type.val / 8 = 0 ∨ cpl < code.dpl.val then throw .GP
  if !code.p then throw .NP
  -- a conforming segment runs at the caller's level, any other at its own
  let newCpl := if code.type.val / 4 % 2 = 1 then cpl else code.dpl.val
  pure { cs := sel / 4 * 4 + newCpl, eip := gate.offset.val, cpl := newCpl,
         intr_enabled := gate.type.val == 15 && intr_enabled, stack_switch := newCpl < cpl }

/-- Delivery through a present 32-bit interrupt or trap gate inside the table's limit, whose
selector (table indicator and requested privilege level zero) names a present, non-conforming
code segment of privilege level 0 inside the global table's limit: the handler runs at level 0
from the gate's offset, and only a software interrupt from a level above the gate's DPL
faults. -/
theorem deliver_gate {gdtLimit idtLimit vec cpl : ℕ} {gdt idt : ℕ → ℕ}
    {software intr_enabled : Bool} {gate : GateDesc} {code : SegDesc}
    (hvec : vec * 8 + 7 ≤ idtLimit) (hgate : GateDesc.decode (idt vec) = gate)
    (htype : gate.type.val = 14 ∨ gate.type.val = 15) (hs : gate.s = false) (hp : gate.p = true)
    (hsel : gate.selector.val % 8 = 0) (hnull : 8 ≤ gate.selector.val)
    (hlim : gate.selector.val + 7 ≤ gdtLimit)
    (hcode : SegDesc.decode (gdt (gate.selector.val / 8)) = code)
    (hexec : code.s = true ∧ code.type.val / 8 = 1 ∧ code.type.val / 4 % 2 = 0)
    (hcp : code.p = true) (hdpl : code.dpl.val = 0) :
    deliver gdtLimit gdt idtLimit idt vec software cpl intr_enabled =
      if software ∧ gate.dpl.val < cpl then .error .GP
      else .ok
        { cs := gate.selector.val, eip := gate.offset.val, cpl := 0,
          intr_enabled := gate.type.val == 15 && intr_enabled, stack_switch := decide (0 < cpl) } := by
  have hty : gate.type.val ∈ [5, 6, 7, 14, 15] := by rcases htype with h | h <;> simp [h]
  have hgt : ¬ (gate.type.val ≠ 14 ∧ gate.type.val ≠ 15) := by omega
  have hnull' : ¬ gate.selector.val < 4 := by omega
  have hti : ¬ gate.selector.val / 4 % 2 = 1 := by omega
  have hgl : ¬ gdtLimit < gate.selector.val / 8 * 8 + 7 := by omega
  have hcs : gate.selector.val / 4 * 4 = gate.selector.val := by omega
  by_cases hsw : software = true ∧ gate.dpl.val < cpl
  · rw [if_pos hsw]
    simp only [deliver, hgate, not_lt.mpr hvec, hs, hty, hsw]
    rfl
  · rw [if_neg hsw]
    simp [deliver, hgate, not_lt.mpr hvec, hs, hty, hsw, hp, hgt, hnull', hti, hgl, hcode, hexec,
      hcp, hdpl, hcs]
    rfl

end X86
