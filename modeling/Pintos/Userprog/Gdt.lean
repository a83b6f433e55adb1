import Pintos.Lib.Descriptor
import Pintos.Threads.Kernel
import Pintos.Lib.EState

/-!
# The global descriptor table (`userprog/gdt.c`)

`gdt_init` fills the six entries of `gdt` with a null descriptor, flat 4 GB code and data
segments for the kernel (DPL 0) and for user programs (DPL 3), and a descriptor for the
task-state segment, and builds the operand of `lgdt`. `make_seg_desc` packs a segment's fields
with `&`, `|` and shifts in two 32-bit halves; the `ASSERT`s on the limit, the type and the DPL
stop the kernel. The enumerations `seg_class` and `seg_granularity` only have the values the
other two `ASSERT`s allow.

`make_seg_desc_eq` says that the packing computes the layout of [IA32-v3a] 3.4.5
(`X86.SegDesc.encode`) of the descriptor the arguments describe, so the processor reads back
exactly those arguments (`make_seg_desc_round_trip`). `gdt_init_eq` says that `gdt_init` never
fails and what it writes at the index of each selector of `threads/loader.h` and
`userprog/gdt.h`, for every address of the table and of the task-state segment.
-/

set_option linter.style.nameCheck false

namespace Pintos

open X86 BitField

/-! ## Selectors -/

/-- Null selector. -/
def SEL_NULL : ℕ := 0x00
/-- Kernel code selector. -/
def SEL_KCSEG : ℕ := 0x08
/-- Kernel data selector. -/
def SEL_KDSEG : ℕ := 0x10
/-- User code selector. -/
def SEL_UCSEG : ℕ := 0x1B
/-- User data selector. -/
def SEL_UDSEG : ℕ := 0x23
/-- Task-state segment. -/
def SEL_TSS : ℕ := 0x28
/-- Number of segments. -/
def SEL_CNT : ℕ := 6

/-- The kernel code selector fits a gate's 16-bit selector field. -/
theorem SEL_KCSEG_lt : SEL_KCSEG < 2 ^ 16 := by decide

/-! ## Descriptors -/

/-- System segment or code/data segment? -/
inductive seg_class
  | CLS_SYSTEM
  | CLS_CODE_DATA
  deriving DecidableEq, Repr

/-- The enumeration's value. -/
def seg_class.toNat : seg_class → ℕ
  | .CLS_SYSTEM => 0
  | .CLS_CODE_DATA => 1

/-- Limit has byte or 4 kB page granularity? -/
inductive seg_granularity
  | GRAN_BYTE
  | GRAN_PAGE
  deriving DecidableEq, Repr

/-- The enumeration's value. -/
def seg_granularity.toNat : seg_granularity → ℕ
  | .GRAN_BYTE => 0
  | .GRAN_PAGE => 1

/-- `make_seg_desc (base, limit, class, type, dpl, granularity)`: `base` and `limit` are
`uint32_t`, so `base << 16` keeps 32 bits; `type` and `dpl` are `int`. -/
def make_seg_desc (base limit : ℕ) (cls : seg_class) (type dpl : ℤ)
    (granularity : seg_granularity) : Except Fault ℕ :=
  if limit ≤ 0xfffff ∧ (type ≥ 0 ∧ type ≤ 15) ∧ (dpl ≥ 0 ∧ dpl ≤ 3) then
    let e0 := limit &&& 0xffff ||| (base <<< 16) % 2 ^ 32
    let e1 := base >>> 16 &&& 0xff ||| type.toNat <<< 8 ||| cls.toNat <<< 12 |||
      dpl.toNat <<< 13 ||| 1 <<< 15 ||| limit &&& 0xf0000 ||| 1 <<< 22 |||
      granularity.toNat <<< 23 ||| base &&& 0xff000000
    .ok (e0 ||| e1 <<< 32)
  else .error .panic

/-- A readable code segment with base 0, a limit of 4 GB, and the given DPL. -/
def make_code_desc (dpl : ℤ) : Except Fault ℕ :=
  make_seg_desc 0 0xfffff .CLS_CODE_DATA 10 dpl .GRAN_PAGE

/-- A writable data segment with base 0, a limit of 4 GB, and the given DPL. -/
def make_data_desc (dpl : ℤ) : Except Fault ℕ :=
  make_seg_desc 0 0xfffff .CLS_CODE_DATA 2 dpl .GRAN_PAGE

/-- An available 32-bit task-state segment at `laddr`, with a limit of `0x67` bytes and DPL 0. -/
def make_tss_desc (laddr : ℕ) : Except Fault ℕ :=
  make_seg_desc (laddr % 2 ^ 32) 0x67 .CLS_SYSTEM 9 0 .GRAN_BYTE

/-- The operand of `lgdt` for a table of `limit + 1` bytes at `base`. -/
def make_gdtr_operand (limit base : ℕ) : ℕ :=
  limit ||| (base % 2 ^ 32) <<< 16

/-! ## The table -/

/-- The descriptor table and the registers `gdt_init` loads. -/
structure GdtState where
  /-- `gdt[i]` for each index `i` -/
  gdt : ℕ → ℕ
  /-- the operand of `lgdt` -/
  gdtr : ℕ
  /-- the selector `ltr` loads into the task register -/
  tr : ℕ

/-- `gdt_init ()`, with the table at `gdt_addr` and `tss_get ()` returning `tss`. Entries are
indexed by selector over `sizeof *gdt = 8`, and `sizeof gdt` is `SEL_CNT * 8`. -/
def gdt_init (gdt_addr tss : ℕ) : Except Fault GdtState := do
  let gdt : ℕ → ℕ := Function.update (fun _ => 0) (SEL_NULL / 8) 0
  let gdt := Function.update gdt (SEL_KCSEG / 8) (← make_code_desc 0)
  let gdt := Function.update gdt (SEL_KDSEG / 8) (← make_data_desc 0)
  let gdt := Function.update gdt (SEL_UCSEG / 8) (← make_code_desc 3)
  let gdt := Function.update gdt (SEL_UDSEG / 8) (← make_data_desc 3)
  let gdt := Function.update gdt (SEL_TSS / 8) (← make_tss_desc tss)
  pure { gdt, gdtr := make_gdtr_operand (SEL_CNT * 8 - 1) gdt_addr, tr := SEL_TSS }

/-! ## The packing computes the manual's layout -/

-- The bounds of the fields that `segOfArgs` and `gateOfArgs` truncate, over variables only, so
-- that both definitions name the same lemmas whichever modules are loaded with them.
theorem mod_two_pow_32_lt (x : ℕ) : x % 2 ^ 32 < 2 ^ 32 := Nat.mod_lt _ (Nat.two_pow_pos 32)

theorem mod_two_pow_20_lt (x : ℕ) : x % 2 ^ 20 < 2 ^ 20 := Nat.mod_lt _ (Nat.two_pow_pos 20)

theorem toNat_mod_16_lt (t : ℤ) : t.toNat % 16 < 16 := Nat.mod_lt _ (Nat.succ_pos 15)

theorem toNat_mod_4_lt (t : ℤ) : t.toNat % 4 < 4 := Nat.mod_lt _ (Nat.succ_pos 3)

/-- The descriptor the arguments of `make_seg_desc` describe: present, 32-bit, with `AVL` and
`L` clear. The fields are taken to their widths; under the `ASSERT`s only `base` changes. -/
def segOfArgs (base limit : ℕ) (cls : seg_class) (type dpl : ℤ)
    (granularity : seg_granularity) : SegDesc where
  base := ⟨base % 2 ^ 32, mod_two_pow_32_lt base⟩
  limit := ⟨limit % 2 ^ 20, mod_two_pow_20_lt limit⟩
  type := ⟨type.toNat % 16, toNat_mod_16_lt type⟩
  s := cls == .CLS_CODE_DATA
  dpl := ⟨dpl.toNat % 4, toNat_mod_4_lt dpl⟩
  p := true
  avl := false
  l := false
  db := true
  g := granularity == .GRAN_PAGE

theorem seg_class.toNat_lt (c : seg_class) : c.toNat < 2 := by
  cases c <;> decide

theorem seg_granularity.toNat_lt (g : seg_granularity) : g.toNat < 2 := by
  cases g <;> decide

theorem seg_class.toNat_eq (c : seg_class) : (c == .CLS_CODE_DATA).toNat = c.toNat := by
  cases c <;> rfl

theorem seg_granularity.toNat_eq (g : seg_granularity) : (g == .GRAN_PAGE).toNat = g.toNat := by
  cases g <;> rfl

/-- The low half: limit 15:0, then base 15:0 shifted out of a 32-bit word. -/
theorem seg_low_eq (base limit : ℕ) :
    (limit &&& 0xffff ||| (base <<< 16) % 2 ^ 32) = limit % 2 ^ 16 + base % 2 ^ 16 * 2 ^ 16 := by
  have hlimit : limit &&& 0xffff = limit % 2 ^ 16 := Nat.and_two_pow_sub_one_eq_mod limit 16
  rw [hlimit, shiftLeft_mod_two_pow base 16 16,
    or_shiftLeft_eq_add (Nat.mod_lt _ (Nat.two_pow_pos 16))]

/-- The high half: each field is or-ed in above the ones before it. -/
theorem seg_high_eq (base limit type cls dpl gran : ℕ) (ht : type < 16) (hc : cls < 2)
    (hd : dpl < 4) (hg : gran < 2) :
    (base >>> 16 &&& 0xff ||| type <<< 8 ||| cls <<< 12 ||| dpl <<< 13 ||| 1 <<< 15 |||
      limit &&& 0xf0000 ||| 1 <<< 22 ||| gran <<< 23 ||| base &&& 0xff000000) =
    base / 2 ^ 16 % 2 ^ 8 + type * 2 ^ 8 + cls * 2 ^ 12 + dpl * 2 ^ 13 + 1 * 2 ^ 15 +
      limit / 2 ^ 16 % 2 ^ 4 * 2 ^ 16 + 1 * 2 ^ 22 + gran * 2 ^ 23 +
      base / 2 ^ 24 % 2 ^ 8 * 2 ^ 24 := by
  have hbase₁ : base >>> 16 &&& 0xff = base / 2 ^ 16 % 2 ^ 8 := by
    rw [Nat.shiftRight_eq_div_pow, show (0xff : ℕ) = 2 ^ 8 - 1 from rfl,
      Nat.and_two_pow_sub_one_eq_mod]
  have hlimit : limit &&& 0xf0000 = (limit / 2 ^ 16 % 2 ^ 4) <<< 16 := by
    rw [show (0xf0000 : ℕ) = (2 ^ 4 - 1) <<< 16 from rfl, and_shifted_mask, Nat.shiftLeft_eq]
  have hbase₂ : base &&& 0xff000000 = (base / 2 ^ 24 % 2 ^ 8) <<< 24 := by
    rw [show (0xff000000 : ℕ) = (2 ^ 8 - 1) <<< 24 from rfl, and_shifted_mask, Nat.shiftLeft_eq]
  rw [hbase₁, hlimit, hbase₂]
  simp (disch := omega) only [or_shiftLeft_eq_add]

/-- Under its `ASSERT`s, `make_seg_desc` returns the manual's layout of `segOfArgs`. -/
theorem make_seg_desc_eq {base limit : ℕ} {cls : seg_class} {type dpl : ℤ}
    {granularity : seg_granularity} (hlimit : limit ≤ 0xfffff) (htype : 0 ≤ type ∧ type ≤ 15)
    (hdpl : 0 ≤ dpl ∧ dpl ≤ 3) :
    make_seg_desc base limit cls type dpl granularity =
      .ok (segOfArgs base limit cls type dpl granularity).encode := by
  have ht : type.toNat < 16 := by omega
  have hd : dpl.toNat < 4 := by omega
  have hlow : limit % 2 ^ 16 + base % 2 ^ 16 * 2 ^ 16 < 2 ^ 32 := by omega
  unfold make_seg_desc
  rw [if_pos ⟨hlimit, htype, hdpl⟩]
  dsimp only
  rw [seg_low_eq,
    seg_high_eq _ _ _ _ _ _ ht cls.toNat_lt hd granularity.toNat_lt, or_shiftLeft_eq_add hlow]
  simp only [segOfArgs, SegDesc.encode, seg_class.toNat_eq, seg_granularity.toNat_eq,
    Nat.mod_eq_of_lt ht, Nat.mod_eq_of_lt hd, Nat.mod_eq_of_lt (show limit < 2 ^ 20 by omega),
    Bool.toNat_true, Bool.toNat_false, Nat.zero_mul, Nat.add_zero]
  have hb₁ : base % 2 ^ 32 % 2 ^ 16 = base % 2 ^ 16 := by omega
  have hb₂ : base % 2 ^ 32 / 2 ^ 16 % 2 ^ 8 = base / 2 ^ 16 % 2 ^ 8 := by omega
  have hb₃ : base % 2 ^ 32 / 2 ^ 24 % 2 ^ 8 = base / 2 ^ 24 % 2 ^ 8 := by omega
  rw [hb₁, hb₂, hb₃]

theorem make_seg_desc_panic {base limit : ℕ} {cls : seg_class} {type dpl : ℤ}
    {granularity : seg_granularity}
    (h : ¬ (limit ≤ 0xfffff ∧ (0 ≤ type ∧ type ≤ 15) ∧ (0 ≤ dpl ∧ dpl ≤ 3))) :
    make_seg_desc base limit cls type dpl granularity = .error .panic := by
  unfold make_seg_desc
  rw [if_neg h]

/-- For every argument that passes the `ASSERT`s, the descriptor fits in 64 bits and the
processor reads back the base (as a 32-bit value), the limit, the class, the type, the DPL and
the granularity, with the segment present and 32-bit. -/
theorem make_seg_desc_round_trip (base limit : ℕ) (cls : seg_class) (type dpl : ℤ)
    (granularity : seg_granularity) (hlimit : limit ≤ 0xfffff) (htype : 0 ≤ type ∧ type ≤ 15)
    (hdpl : 0 ≤ dpl ∧ dpl ≤ 3) :
    ∃ d, make_seg_desc base limit cls type dpl granularity = .ok d ∧ d < 2 ^ 64 ∧
      SegDesc.decode d =
        { base := ⟨base % 2 ^ 32, Nat.mod_lt _ (Nat.two_pow_pos 32)⟩, limit := ⟨limit, by omega⟩,
          type := ⟨type.toNat, by omega⟩, s := cls == .CLS_CODE_DATA, dpl := ⟨dpl.toNat, by omega⟩,
          p := true, avl := false, l := false, db := true, g := granularity == .GRAN_PAGE } := by
  refine ⟨_, make_seg_desc_eq hlimit htype hdpl, SegDesc.encode_lt _, ?_⟩
  rw [SegDesc.decode_encode]
  simp only [segOfArgs, SegDesc.mk.injEq, Fin.mk.injEq, and_true, true_and]
  omega

theorem make_seg_desc_round_trip_tss :
    ∃ d, make_seg_desc 0xc0101000 0x67 .CLS_SYSTEM 9 0 .GRAN_BYTE = .ok d ∧ d < 2 ^ 64 ∧
      SegDesc.decode d =
        { base := ⟨0xc0101000, by decide⟩, limit := ⟨0x67, by decide⟩, type := ⟨9, by decide⟩,
          s := false, dpl := ⟨0, by decide⟩, p := true, avl := false, l := false, db := true,
          g := false } :=
  make_seg_desc_round_trip 0xc0101000 0x67 .CLS_SYSTEM 9 0 .GRAN_BYTE (by decide) (by decide)
    (by decide)

/-! ## The table `gdt_init` builds -/

theorem make_code_desc_eq {dpl : ℤ} (h : 0 ≤ dpl ∧ dpl ≤ 3) :
    make_code_desc dpl = .ok (segOfArgs 0 0xfffff .CLS_CODE_DATA 10 dpl .GRAN_PAGE).encode :=
  make_seg_desc_eq (by decide) (by decide) h

theorem make_data_desc_eq {dpl : ℤ} (h : 0 ≤ dpl ∧ dpl ≤ 3) :
    make_data_desc dpl = .ok (segOfArgs 0 0xfffff .CLS_CODE_DATA 2 dpl .GRAN_PAGE).encode :=
  make_seg_desc_eq (by decide) (by decide) h

theorem make_tss_desc_eq (laddr : ℕ) :
    make_tss_desc laddr =
      .ok (segOfArgs (laddr % 2 ^ 32) 0x67 .CLS_SYSTEM 9 0 .GRAN_BYTE).encode :=
  make_seg_desc_eq (by decide) (by decide) (by decide)

/-- A limit below `2 ^ 16` and the 32-bit base, in the manual's layout. -/
theorem make_gdtr_operand_eq {limit : ℕ} (base : ℕ) (h : limit < 2 ^ 16) :
    make_gdtr_operand limit base =
      TableReg.encode ⟨⟨limit, h⟩, ⟨base % 2 ^ 32, Nat.mod_lt _ (Nat.two_pow_pos 32)⟩⟩ :=
  or_shiftLeft_eq_add h _

/-- The processor reads back from the operand the limit it was built with. -/
theorem make_gdtr_operand_limit {limit : ℕ} (base : ℕ) (h : limit < 2 ^ 16) :
    (TableReg.decode (make_gdtr_operand limit base)).limit.val = limit := by
  rw [make_gdtr_operand_eq base h, TableReg.decode_encode]

/-- `gdt_init` never fails, and writes each selector's entry as the manual lays out its
descriptor. -/
theorem gdt_init_eq (gdt_addr tss : ℕ) :
    ∃ st, gdt_init gdt_addr tss = .ok st ∧ st.gdt (SEL_NULL / 8) = 0 ∧
      st.gdt (SEL_KCSEG / 8) = (segOfArgs 0 0xfffff .CLS_CODE_DATA 10 0 .GRAN_PAGE).encode ∧
      st.gdt (SEL_KDSEG / 8) = (segOfArgs 0 0xfffff .CLS_CODE_DATA 2 0 .GRAN_PAGE).encode ∧
      st.gdt (SEL_UCSEG / 8) = (segOfArgs 0 0xfffff .CLS_CODE_DATA 10 3 .GRAN_PAGE).encode ∧
      st.gdt (SEL_UDSEG / 8) = (segOfArgs 0 0xfffff .CLS_CODE_DATA 2 3 .GRAN_PAGE).encode ∧
      st.gdt (SEL_TSS / 8) = (segOfArgs (tss % 2 ^ 32) 0x67 .CLS_SYSTEM 9 0 .GRAN_BYTE).encode ∧
      st.gdtr = make_gdtr_operand (SEL_CNT * 8 - 1) gdt_addr ∧ st.tr = SEL_TSS := by
  simp only [gdt_init, make_code_desc_eq (show (0 : ℤ) ≤ 0 ∧ (0 : ℤ) ≤ 3 by decide),
    make_code_desc_eq (show (0 : ℤ) ≤ 3 ∧ (3 : ℤ) ≤ 3 by decide),
    make_data_desc_eq (show (0 : ℤ) ≤ 0 ∧ (0 : ℤ) ≤ 3 by decide),
    make_data_desc_eq (show (0 : ℤ) ≤ 3 ∧ (3 : ℤ) ≤ 3 by decide), make_tss_desc_eq,
    Except.ok_bind]
  refine ⟨_, rfl, ?_⟩
  simp [SEL_NULL, SEL_KCSEG, SEL_KDSEG, SEL_UCSEG, SEL_UDSEG, SEL_TSS]

end Pintos
