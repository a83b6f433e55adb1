import Pintos.Userprog.Gdt
import Pintos.Lib.Run
import Pintos.Lib.EState

/-!
# The interrupt descriptor table (`threads/interrupt.c`)

`intr_init` points all 256 gates of `idt` at their entry stubs (`intr_stubs`, in
`threads/intr-stubs.S`) as interrupt gates of DPL 0, and loads the table's address and limit
with `lidt`. `intr_register_ext` and `intr_register_int` then install a handler for a vector:
an external interrupt (`0x20` to `0x2f`, where `pic_init` sends the two PICs' lines) always
gets an interrupt gate of DPL 0; an internal one gets the DPL it asks for, and a trap gate when
its handler is to run with interrupts on. Installing a handler twice, or an external vector as
internal or the other way round, fails an `ASSERT`. `make_gate` packs a gate's fields as
`make_seg_desc` does, with the kernel code selector `SEL_KCSEG` as target segment.

A run of the interrupt system is `intr_init` followed by registrations (`IntrCall`, `step`).
`idt_matches_registered` is its refinement: after every run, each vector's gate is exactly the
word that the manual's layout gives for the vector's stub and its last registration
(`registered`), or for the gate `intr_init` installs when there is none.
`delivery_enters_kernel` puts this together with the table `gdt_init` builds and with what the
processor does (`X86.deliver`): from any privilege level, every interrupt, exception or trap
reaches its stub in ring 0 through the kernel code segment, with interrupts off unless its last
registration asked for them on, and an `INT n` instruction from a level above the gate's DPL
faults instead.
-/

set_option linter.style.nameCheck false

namespace Pintos

open X86 BitField

/-- Number of x86 interrupts. -/
def INTR_CNT : ℕ := 256

/-- Interrupts on or off? -/
inductive intr_level
  | INTR_OFF
  | INTR_ON
  deriving DecidableEq, Repr

/-! ## Gates -/

/-- `make_gate (function, dpl, type)`: a gate that invokes the code at address `function`
through the kernel code segment. -/
def make_gate (function : ℕ) (dpl type : ℤ) : Except Fault ℕ :=
  if function ≠ 0 ∧ (dpl ≥ 0 ∧ dpl ≤ 3) ∧ (type ≥ 0 ∧ type ≤ 15) then
    let e0 := function &&& 0xffff ||| SEL_KCSEG <<< 16
    let e1 := function &&& 0xffff0000 ||| 1 <<< 15 ||| dpl.toNat <<< 13 ||| 0 <<< 12 |||
      type.toNat <<< 8
    .ok (e0 ||| e1 <<< 32)
  else .error .panic

/-- An interrupt gate: entering it turns interrupts off. -/
def make_intr_gate (function : ℕ) (dpl : ℤ) : Except Fault ℕ :=
  make_gate function dpl 14

/-- A trap gate: entering it leaves the interrupt flag as it was. -/
def make_trap_gate (function : ℕ) (dpl : ℤ) : Except Fault ℕ :=
  make_gate function dpl 15

/-- The operand of `lidt`, packed as `make_gdtr_operand` packs the operand of `lgdt`. -/
def make_idtr_operand (limit base : ℕ) : ℕ :=
  make_gdtr_operand limit base

/-- The gate the arguments of `make_gate` describe: present, a system descriptor, with the
kernel code segment as target. The fields are taken to their widths; under the `ASSERT`s only
the offset changes. -/
def gateOfArgs (function : ℕ) (dpl type : ℤ) : GateDesc where
  offset := ⟨function % 2 ^ 32, mod_two_pow_32_lt function⟩
  selector := ⟨SEL_KCSEG, SEL_KCSEG_lt⟩
  type := ⟨type.toNat % 16, toNat_mod_16_lt type⟩
  s := false
  dpl := ⟨dpl.toNat % 4, toNat_mod_4_lt dpl⟩
  p := true

/-- Under its `ASSERT`s, `make_gate` returns the manual's layout of `gateOfArgs`. -/
theorem make_gate_eq {function : ℕ} {dpl type : ℤ} (hf : function ≠ 0)
    (hdpl : 0 ≤ dpl ∧ dpl ≤ 3) (htype : 0 ≤ type ∧ type ≤ 15) :
    make_gate function dpl type = .ok (gateOfArgs function dpl type).encode := by
  have hd : dpl.toNat < 4 := by omega
  have ht : type.toNat < 16 := by omega
  have hlow : (function &&& 0xffff ||| SEL_KCSEG <<< 16) =
      function % 2 ^ 16 + SEL_KCSEG * 2 ^ 16 := by
    rw [show (0xffff : ℕ) = 2 ^ 16 - 1 from rfl, Nat.and_two_pow_sub_one_eq_mod,
      or_shiftLeft_eq_add (Nat.mod_lt _ (Nat.two_pow_pos 16))]
  -- the high half starts from offset 31:16; each later field is or-ed in below the ones before
  have hoff : function &&& 0xffff0000 = function / 2 ^ 16 % 2 ^ 16 * 2 ^ 16 := by
    rw [show (0xffff0000 : ℕ) = (2 ^ 16 - 1) <<< 16 from rfl, and_shifted_mask]
  have hlow_lt : function % 2 ^ 16 + SEL_KCSEG * 2 ^ 16 < 2 ^ 32 := by
    simp only [SEL_KCSEG]
    omega
  unfold make_gate
  rw [if_pos ⟨hf, hdpl, htype⟩]
  dsimp only
  rw [hlow, hoff, or_shiftLeft_eq_add hlow_lt]
  simp only [Nat.shiftLeft_eq, Nat.zero_mul, Nat.or_zero]
  -- omega does not see through the selector's definition
  clear hlow hlow_lt
  obtain ⟨F, hF⟩ : ∃ F, function / 2 ^ 16 % 2 ^ 16 * 2 ^ 16 = F := ⟨_, rfl⟩
  rw [hF]
  have h15 : (F ||| 1 * 2 ^ 15) = F + 1 * 2 ^ 15 :=
    or_eq_add_of_dvd (n := 16) (by omega) (by omega)
  have h13 : (F + 1 * 2 ^ 15 ||| dpl.toNat * 2 ^ 13) = F + 1 * 2 ^ 15 + dpl.toNat * 2 ^ 13 :=
    or_eq_add_of_dvd (n := 15) (by omega) (by omega)
  have h8 : (F + 1 * 2 ^ 15 + dpl.toNat * 2 ^ 13 ||| type.toNat * 2 ^ 8) =
      F + 1 * 2 ^ 15 + dpl.toNat * 2 ^ 13 + type.toNat * 2 ^ 8 :=
    or_eq_add_of_dvd (n := 12) (by omega) (by omega)
  rw [h15, h13, h8]
  simp only [gateOfArgs, GateDesc.encode, SEL_KCSEG, Nat.mod_eq_of_lt hd, Nat.mod_eq_of_lt ht,
    Bool.toNat_true, Bool.toNat_false, Except.ok.injEq]
  omega

/-- `make_gate` returns only the layout of the gate its arguments describe, and only when they
pass its `ASSERT`s. -/
theorem make_gate_ok {function g : ℕ} {dpl type : ℤ} (h : make_gate function dpl type = .ok g) :
    function ≠ 0 ∧ (0 ≤ dpl ∧ dpl ≤ 3) ∧ (0 ≤ type ∧ type ≤ 15) ∧
      g = (gateOfArgs function dpl type).encode := by
  by_cases hc : function ≠ 0 ∧ (0 ≤ dpl ∧ dpl ≤ 3) ∧ (0 ≤ type ∧ type ≤ 15)
  · obtain ⟨hf, hd, ht⟩ := hc
    rw [make_gate_eq hf hd ht, Except.ok.injEq] at h
    exact ⟨hf, hd, ht, h.symm⟩
  · unfold make_gate at h
    rw [if_neg hc] at h
    cases h

/-! ## The interrupt system -/

/-- The state of `threads/interrupt.c`, over handler functions of type `H`. -/
structure IntrState (H : Type) where
  /-- `idt[vec]` -/
  idt : ℕ → ℕ
  /-- the operand `intr_init` loads with `lidt` -/
  idtr : ℕ
  /-- `intr_handlers[vec]`, `none` for a null pointer -/
  intr_handlers : ℕ → Option H
  /-- `unexpected_cnt[vec]` -/
  unexpected_cnt : ℕ → ℕ
  in_external_intr : Bool
  yield_on_return : Bool

/-- A call that installs a handler; the names, kept for debugging output, are left out. -/
inductive IntrCall (H : Type)
  /-- `intr_register_ext (vec_no, handler, name)` -/
  | register_ext (vec_no : Fin 256) (handler : Option H)
  /-- `intr_register_int (vec_no, dpl, level, handler, name)` -/
  | register_int (vec_no : Fin 256) (dpl : ℤ) (level : intr_level) (handler : Option H)

section

variable {H : Type} (intr_stubs : ℕ → ℕ)

/-- The loop of `intr_init` that installs an interrupt gate of DPL 0 for each vector, after
`n` rounds. -/
def initGates : ℕ → Except Fault (ℕ → ℕ)
  | 0 => .ok fun _ => 0
  | n + 1 => do
    let idt ← initGates n
    let gate ← make_intr_gate (intr_stubs n) 0
    pure (Function.update idt n gate)

/-- `intr_init ()` with the table at `idt_addr` and the entry stubs at `intr_stubs`;
`pic_init` and the names are left out. The other arrays and flags are static, so zero. -/
def intr_init (idt_addr : ℕ) : Except Fault (IntrState H) := do
  let idt ← initGates intr_stubs INTR_CNT
  pure { idt, idtr := make_idtr_operand (INTR_CNT * 8 - 1) idt_addr,
         intr_handlers := fun _ => none, unexpected_cnt := fun _ => 0,
         in_external_intr := false, yield_on_return := false }

/-- `register_handler (vec_no, dpl, level, handler, name)`. -/
def register_handler (s : IntrState H) (vec_no : Fin 256) (dpl : ℤ) (level : intr_level)
    (handler : Option H) : Except Fault (IntrState H) :=
  if (s.intr_handlers vec_no.val).isSome then .error .panic
  else do
    let gate ← (if level = .INTR_ON then make_trap_gate (intr_stubs vec_no.val) dpl
      else make_intr_gate (intr_stubs vec_no.val) dpl)
    pure { s with idt := Function.update s.idt vec_no.val gate,
                  intr_handlers := Function.update s.intr_handlers vec_no.val handler }

/-- `intr_register_ext (vec_no, handler, name)`. -/
def intr_register_ext (s : IntrState H) (vec_no : Fin 256) (handler : Option H) :
    Except Fault (IntrState H) :=
  if vec_no.val ≥ 0x20 ∧ vec_no.val ≤ 0x2f then
    register_handler intr_stubs s vec_no 0 .INTR_OFF handler
  else .error .panic

/-- `intr_register_int (vec_no, dpl, level, handler, name)`. -/
def intr_register_int (s : IntrState H) (vec_no : Fin 256) (dpl : ℤ) (level : intr_level)
    (handler : Option H) : Except Fault (IntrState H) :=
  if vec_no.val < 0x20 ∨ vec_no.val > 0x2f then
    register_handler intr_stubs s vec_no dpl level handler
  else .error .panic

/-- One call. -/
def IntrState.exec (s : IntrState H) : IntrCall H → Except Fault (IntrState H)
  | .register_ext vec_no handler => intr_register_ext intr_stubs s vec_no handler
  | .register_int vec_no dpl level handler => intr_register_int intr_stubs s vec_no dpl level handler

/-- A call that returns. -/
def IntrState.step (s : IntrState H) (c : IntrCall H) (s' : IntrState H) : Prop :=
  s.exec intr_stubs c = .ok s'

end

/-! ## What the registrations ask for -/

namespace IntrCall

variable {H : Type}

/-- The vector a call installs a handler for. -/
def vec : IntrCall H → ℕ
  | .register_ext vec_no _ => vec_no.val
  | .register_int vec_no _ _ _ => vec_no.val

/-- The DPL and the level a call asks for. -/
def gate : IntrCall H → ℤ × intr_level
  | .register_ext _ _ => (0, .INTR_OFF)
  | .register_int _ dpl level _ => (dpl, level)

/-- The handler a call installs. -/
def handler : IntrCall H → Option H
  | .register_ext _ handler => handler
  | .register_int _ _ _ handler => handler

theorem vec_lt (c : IntrCall H) : c.vec < INTR_CNT := by
  cases c <;> exact Fin.isLt _

end IntrCall

/-- The last registration of each vector in `calls`. -/
def registered {H : Type} (calls : List (IntrCall H)) : ℕ → Option (ℤ × intr_level) :=
  calls.foldl (fun t c => Function.update t c.vec (some c.gate)) fun _ => none

/-- The gate for a vector's stub and its last registration: an interrupt gate of DPL 0 when
there is none, as `intr_init` installs. -/
def gateFor (stub : ℕ) : Option (ℤ × intr_level) → GateDesc
  | none => gateOfArgs stub 0 14
  | some (dpl, level) => gateOfArgs stub dpl (if level = .INTR_ON then 15 else 14)

/-- The DPL a vector's last registration asks for. -/
def regDpl : Option (ℤ × intr_level) → ℤ
  | none => 0
  | some (dpl, _) => dpl

/-- The level a vector's last registration asks for. -/
def regLevel : Option (ℤ × intr_level) → intr_level
  | none => .INTR_OFF
  | some (_, level) => level

theorem gateFor_selector (stub : ℕ) (r : Option (ℤ × intr_level)) :
    (gateFor stub r).selector.val = SEL_KCSEG := by
  rcases r with _ | ⟨dpl, level⟩ <;> rfl

theorem gateFor_offset (stub : ℕ) (r : Option (ℤ × intr_level)) :
    (gateFor stub r).offset.val = stub % 2 ^ 32 := by
  rcases r with _ | ⟨dpl, level⟩ <;> rfl

theorem gateFor_s (stub : ℕ) (r : Option (ℤ × intr_level)) : (gateFor stub r).s = false := by
  rcases r with _ | ⟨dpl, level⟩ <;> rfl

theorem gateFor_p (stub : ℕ) (r : Option (ℤ × intr_level)) : (gateFor stub r).p = true := by
  rcases r with _ | ⟨dpl, level⟩ <;> rfl

/-- A trap gate exactly when the last registration asked for interrupts on. -/
theorem gateFor_type (stub : ℕ) (r : Option (ℤ × intr_level)) :
    (gateFor stub r).type.val = if regLevel r = .INTR_ON then 15 else 14 := by
  rcases r with _ | ⟨dpl, _ | _⟩ <;> rfl

theorem gateFor_dpl (stub : ℕ) {r : Option (ℤ × intr_level)} (h : 0 ≤ regDpl r ∧ regDpl r ≤ 3) :
    (gateFor stub r).dpl.val = (regDpl r).toNat := by
  rcases r with _ | ⟨dpl, level⟩
  · rfl
  · simp only [regDpl] at h
    show dpl.toNat % 4 = dpl.toNat
    omega

/-! ## Runs of registrations -/

section

variable {H : Type} {intr_stubs : ℕ → ℕ}

theorem initGates_ok {n : ℕ} {idt : ℕ → ℕ} (h : initGates intr_stubs n = .ok idt) :
    ∀ v < n, idt v = (gateFor (intr_stubs v) none).encode := by
  induction n generalizing idt with
  | zero => intro v hv; omega
  | succ n ih =>
    obtain ⟨idt₀, h₀, h⟩ := Except.bind_eq_ok.mp h
    obtain ⟨g, hg, h⟩ := Except.bind_eq_ok.mp h
    obtain ⟨-, -, -, rfl⟩ := make_gate_ok hg
    cases h
    intro v hv
    rcases Nat.lt_succ_iff_lt_or_eq.mp hv with hv | rfl
    · rw [Function.update_of_ne (by omega), ih h₀ v hv]
    · rw [Function.update_self]
      rfl

/-- The loop runs to the end when no stub is at address zero. -/
theorem initGates_exists {n : ℕ} (h : ∀ v < n, intr_stubs v ≠ 0) :
    ∃ idt, initGates intr_stubs n = .ok idt := by
  induction n with
  | zero => exact ⟨_, rfl⟩
  | succ n ih =>
    obtain ⟨idt, hidt⟩ := ih fun v hv => h v (by omega)
    refine ⟨Function.update idt n (gateOfArgs (intr_stubs n) 0 14).encode, ?_⟩
    rw [initGates, hidt, Except.ok_bind, make_intr_gate,
      make_gate_eq (h n (by omega)) (by decide) (by decide), Except.ok_bind]
    rfl

theorem intr_init_ok {idt_addr : ℕ} {s : IntrState H} (h : intr_init intr_stubs idt_addr = .ok s) :
    (∀ v < INTR_CNT, s.idt v = (gateFor (intr_stubs v) none).encode) ∧
      s.idtr = make_idtr_operand (INTR_CNT * 8 - 1) idt_addr ∧ s.intr_handlers = fun _ => none := by
  obtain ⟨idt, hidt, h⟩ := Except.bind_eq_ok.mp h
  cases h
  exact ⟨initGates_ok hidt, rfl, rfl⟩

theorem intr_init_exists (h : ∀ v < INTR_CNT, intr_stubs v ≠ 0) (idt_addr : ℕ) :
    ∃ s : IntrState H, intr_init intr_stubs idt_addr = .ok s := by
  obtain ⟨idt, hidt⟩ := initGates_exists h
  exact ⟨_, by rw [intr_init, hidt, Except.ok_bind]; rfl⟩

/-- `register_handler` returns only after installing the gate and the handler on a vector
that had none. -/
theorem register_handler_ok {s s' : IntrState H} {vec_no : Fin 256} {dpl : ℤ}
    {level : intr_level} {handler : Option H}
    (h : register_handler intr_stubs s vec_no dpl level handler = .ok s') :
    s.intr_handlers vec_no.val = none ∧ (0 ≤ dpl ∧ dpl ≤ 3) ∧
      s' = { s with
        idt := Function.update s.idt vec_no.val
          (gateFor (intr_stubs vec_no.val) (some (dpl, level))).encode,
        intr_handlers := Function.update s.intr_handlers vec_no.val handler } := by
  unfold register_handler at h
  split at h
  · cases h
  · rename_i hnone
    obtain ⟨gate, hgate, h⟩ := Except.bind_eq_ok.mp h
    have hg : make_gate (intr_stubs vec_no.val) dpl (if level = .INTR_ON then 15 else 14) =
        .ok gate := by
      cases level <;> simpa [make_trap_gate, make_intr_gate] using hgate
    obtain ⟨-, hd, -, rfl⟩ := make_gate_ok hg
    cases h
    exact ⟨Option.not_isSome_iff_eq_none.mp hnone, hd, rfl⟩

/-- `register_handler` returns when the vector has no handler yet, its stub is not at address
zero and the DPL is from 0 to 3. -/
theorem register_handler_exists {s : IntrState H} {vec_no : Fin 256} {dpl : ℤ}
    (level : intr_level) (handler : Option H) (hnone : s.intr_handlers vec_no.val = none)
    (hstub : intr_stubs vec_no.val ≠ 0) (hd : 0 ≤ dpl ∧ dpl ≤ 3) :
    ∃ s', register_handler intr_stubs s vec_no dpl level handler = .ok s' := by
  unfold register_handler
  rw [if_neg (by simp [hnone])]
  cases level
  · rw [if_neg (by decide), make_intr_gate, make_gate_eq hstub hd (by decide), Except.ok_bind]
    exact ⟨_, rfl⟩
  · rw [if_pos rfl, make_trap_gate, make_gate_eq hstub hd (by decide), Except.ok_bind]
    exact ⟨_, rfl⟩

/-- Right after `intr_init` no vector has a handler, so a first registration of any vector with
a stub returns. -/
theorem register_handler_exists_of_init {idt_addr : ℕ} {s₀ : IntrState H}
    (h₀ : intr_init intr_stubs idt_addr = .ok s₀) {vec_no : Fin 256} {dpl : ℤ}
    (level : intr_level) (handler : Option H) (hstub : intr_stubs vec_no.val ≠ 0)
    (hd : 0 ≤ dpl ∧ dpl ≤ 3) :
    ∃ s, register_handler intr_stubs s₀ vec_no dpl level handler = .ok s :=
  register_handler_exists level handler (by rw [(intr_init_ok h₀).2.2]) hstub hd

/-- What a call that returns did: installed the gate it asks for, whose DPL passed the
`ASSERT`; an external vector only through `intr_register_ext`. -/
theorem exec_ok {s s' : IntrState H} {c : IntrCall H} (h : s.exec intr_stubs c = .ok s') :
    (0 ≤ c.gate.1 ∧ c.gate.1 ≤ 3) ∧ (0x20 ≤ c.vec → c.vec ≤ 0x2f → c.gate = (0, .INTR_OFF)) ∧
      s' = { s with
        idt := Function.update s.idt c.vec (gateFor (intr_stubs c.vec) (some c.gate)).encode,
        intr_handlers := Function.update s.intr_handlers c.vec c.handler } := by
  cases c with
  | register_ext vec_no handler =>
    simp only [IntrState.exec, intr_register_ext] at h
    split at h
    · obtain ⟨-, hd, rfl⟩ := register_handler_ok h
      exact ⟨hd, fun _ _ => rfl, rfl⟩
    · cases h
  | register_int vec_no dpl level handler =>
    simp only [IntrState.exec, intr_register_int] at h
    split at h
    · rename_i hv
      obtain ⟨-, hd, rfl⟩ := register_handler_ok h
      refine ⟨hd, fun h₁ h₂ => ?_, rfl⟩
      simp only [IntrCall.vec] at h₁ h₂
      omega
    · cases h

variable (intr_stubs) in
/-- The table refines the registrations `reg`: each vector's gate is the one its last
registration asks for, with a DPL that passed the `ASSERT`, and external vectors only have
the gates `intr_register_ext` installs. -/
structure IdtRefines (idt_addr : ℕ) (s : IntrState H) (reg : ℕ → Option (ℤ × intr_level)) :
    Prop where
  gates : ∀ v < INTR_CNT, s.idt v = (gateFor (intr_stubs v) (reg v)).encode
  dpl : ∀ v r, reg v = some r → 0 ≤ r.1 ∧ r.1 ≤ 3
  external : ∀ v, 0x20 ≤ v → v ≤ 0x2f → reg v = none ∨ reg v = some (0, .INTR_OFF)
  idtr : s.idtr = make_idtr_operand (INTR_CNT * 8 - 1) idt_addr

theorem IdtRefines.init {idt_addr : ℕ} {s : IntrState H}
    (h : intr_init intr_stubs idt_addr = .ok s) : IdtRefines intr_stubs idt_addr s fun _ => none := by
  obtain ⟨hgates, hidtr, -⟩ := intr_init_ok h
  exact ⟨hgates, (fun _ _ h => by cases h), fun _ _ _ => .inl rfl, hidtr⟩

theorem IdtRefines.step {idt_addr : ℕ} {s s' : IntrState H} {c : IntrCall H}
    {reg : ℕ → Option (ℤ × intr_level)} (hst : s.step intr_stubs c s')
    (hR : IdtRefines intr_stubs idt_addr s reg) :
    IdtRefines intr_stubs idt_addr s' (Function.update reg c.vec (some c.gate)) := by
  obtain ⟨hd, hext, rfl⟩ := exec_ok hst
  refine ⟨fun v hv => ?_, fun v r hr => ?_, fun v h₁ h₂ => ?_, hR.idtr⟩
  · by_cases hvc : v = c.vec
    · subst hvc
      simp
    · simp [Function.update_of_ne hvc, hR.gates v hv]
  · by_cases hvc : v = c.vec
    · subst hvc
      simp only [Function.update_self, Option.some.injEq] at hr
      exact hr ▸ hd
    · rw [Function.update_of_ne hvc] at hr
      exact hR.dpl v r hr
  · by_cases hvc : v = c.vec
    · subst hvc
      simp [hext h₁ h₂]
    · rw [Function.update_of_ne hvc]
      exact hR.external v h₁ h₂

/-- Every run from `intr_init` refines its registrations. -/
theorem IdtRefines.of_run {idt_addr : ℕ} {s₀ s : IntrState H} {calls : List (IntrCall H)}
    (hinit : intr_init intr_stubs idt_addr = .ok s₀)
    (hrun : Lts.Run (IntrState.step intr_stubs) s₀ calls s) :
    IdtRefines intr_stubs idt_addr s (registered calls) :=
  hrun.foldl_simulate _ (fun hst hR => hR.step hst) (IdtRefines.init hinit)

/-- What the processor does with an interrupt, for a table that refines the registrations
`reg` and the global table `gdt_init` builds: it enters the vector's stub in ring 0 through
the kernel code segment, clearing the interrupt flag unless the vector's registration asked
for interrupts on, and refuses an `INT n` from a level above the registered DPL. -/
theorem IdtRefines.deliver (hstubs : ∀ v < INTR_CNT, intr_stubs v < 2 ^ 32)
    {gdt_addr tss idt_addr : ℕ} {g : GdtState} (hg : gdt_init gdt_addr tss = .ok g)
    {s : IntrState H} {reg : ℕ → Option (ℤ × intr_level)}
    (hR : IdtRefines intr_stubs idt_addr s reg) {vec : ℕ} (hvec : vec < INTR_CNT)
    (software : Bool) (cpl : ℕ) (intr_enabled : Bool) :
    deliver (TableReg.decode g.gdtr).limit.val g.gdt (TableReg.decode s.idtr).limit.val s.idt vec
        software cpl intr_enabled =
      if software ∧ (regDpl (reg vec)).toNat < cpl then .error .GP
      else .ok { cs := SEL_KCSEG, eip := intr_stubs vec, cpl := 0,
                 intr_enabled := regLevel (reg vec) == .INTR_ON && intr_enabled,
                 stack_switch := decide (0 < cpl) } := by
  have hdpl : 0 ≤ regDpl (reg vec) ∧ regDpl (reg vec) ≤ 3 := by
    rcases hr : reg vec with _ | r
    · decide
    · exact hR.dpl vec r hr
  have hidt : (TableReg.decode s.idtr).limit.val = INTR_CNT * 8 - 1 := by
    rw [hR.idtr, make_idtr_operand, make_gdtr_operand_limit _ (by decide)]
  obtain ⟨st, hst, -, hkc, -, -, -, -, hgdtr, -⟩ := gdt_init_eq gdt_addr tss
  obtain rfl : st = g := Except.ok.inj (hst.symm.trans hg)
  have hgdt : (TableReg.decode st.gdtr).limit.val = SEL_CNT * 8 - 1 := by
    rw [hgdtr, make_gdtr_operand_limit _ (by decide)]
  have htype := gateFor_type (intr_stubs vec) (reg vec)
  have hsel := gateFor_selector (intr_stubs vec) (reg vec)
  have hgate : GateDesc.decode (s.idt vec) = gateFor (intr_stubs vec) (reg vec) := by
    rw [hR.gates vec hvec, GateDesc.decode_encode]
  have hcode : SegDesc.decode (st.gdt ((gateFor (intr_stubs vec) (reg vec)).selector.val / 8)) =
      segOfArgs 0 0xfffff .CLS_CODE_DATA 10 0 .GRAN_PAGE := by
    rw [hsel, hkc, SegDesc.decode_encode]
  rw [hidt, hgdt, deliver_gate (by unfold INTR_CNT at hvec ⊢; omega) hgate
    (by rw [htype]; split <;> simp) (gateFor_s _ _) (gateFor_p _ _) (by rw [hsel]; decide)
    (by rw [hsel]; decide) (by rw [hsel]; decide) hcode ⟨rfl, rfl, rfl⟩ rfl rfl]
  rw [gateFor_dpl _ hdpl, hsel, gateFor_offset, Nat.mod_eq_of_lt (hstubs vec hvec), htype]
  cases regLevel (reg vec) <;> rfl

end

section

variable {H : Type} {intr_stubs : ℕ → ℕ}

/-- After every run of registrations from `intr_init`, the processor reads from each vector's
gate the vector's stub as entry point, the kernel code segment, the DPL of the vector's last
registration, and a trap gate exactly when that registration asked for interrupts on; a
vector never registered keeps the interrupt gate of DPL 0 that `intr_init` installed. -/
theorem idt_matches_registered {idt_addr : ℕ} {s₀ s : IntrState H} {calls : List (IntrCall H)}
    (hinit : intr_init intr_stubs idt_addr = .ok s₀)
    (hrun : Lts.Run (IntrState.step intr_stubs) s₀ calls s) {v : ℕ} (hv : v < INTR_CNT) :
    GateDesc.decode (s.idt v) = gateFor (intr_stubs v) (registered calls v) := by
  rw [(IdtRefines.of_run hinit hrun).gates v hv, GateDesc.decode_encode]

theorem idt_matches_registered_syscall :
    ∃ s₀ s : IntrState Unit, intr_init (fun v => 0x1000 + 16 * v) 0x2000 = .ok s₀ ∧
      Lts.Run (IntrState.step fun v => 0x1000 + 16 * v) s₀ [.register_int 0x30 3 .INTR_ON (some ())] s ∧
      GateDesc.decode (s.idt 0x30) = gateFor (0x1000 + 16 * 0x30) (some (3, .INTR_ON)) := by
  obtain ⟨s₀, h₀⟩ : ∃ s₀ : IntrState Unit, intr_init (fun v => 0x1000 + 16 * v) 0x2000 = .ok s₀ :=
    intr_init_exists (fun v _ => by omega) 0x2000
  obtain ⟨s, hs⟩ : ∃ s, register_handler (fun v => 0x1000 + 16 * v) s₀ 0x30 3 .INTR_ON (some ()) =
      .ok s :=
    register_handler_exists_of_init h₀ .INTR_ON (some ()) (by decide) (by decide)
  have hrun : Lts.Run (IntrState.step fun v => 0x1000 + 16 * v) s₀
      [.register_int 0x30 3 .INTR_ON (some ())] s := .single hs
  exact ⟨s₀, s, h₀, hrun, idt_matches_registered h₀ hrun (by decide)⟩

/-- Every interrupt enters the kernel at its stub: after every run of registrations from
`intr_init`, with the table `gdt_init` builds for any task-state segment, an interrupt on any
vector arriving at any privilege level enters the vector's stub in ring 0 through the kernel
code segment, switching stacks when it came from an outer ring, with the interrupt flag
cleared unless the vector's last registration asked for interrupts on; an `INT n`
instruction from a level above the DPL of the vector's last registration raises a general
protection fault instead. -/
theorem delivery_enters_kernel (hstubs : ∀ v < INTR_CNT, intr_stubs v < 2 ^ 32)
    {gdt_addr tss idt_addr : ℕ} {g : GdtState} (hg : gdt_init gdt_addr tss = .ok g)
    {s₀ s : IntrState H} {calls : List (IntrCall H)}
    (hinit : intr_init intr_stubs idt_addr = .ok s₀)
    (hrun : Lts.Run (IntrState.step intr_stubs) s₀ calls s) {vec : ℕ} (hvec : vec < INTR_CNT)
    (software : Bool) (cpl : ℕ) (intr_enabled : Bool) :
    deliver (TableReg.decode g.gdtr).limit.val g.gdt (TableReg.decode s.idtr).limit.val s.idt vec
        software cpl intr_enabled =
      if software ∧ (regDpl (registered calls vec)).toNat < cpl then .error .GP
      else .ok { cs := SEL_KCSEG, eip := intr_stubs vec, cpl := 0,
                 intr_enabled := regLevel (registered calls vec) == .INTR_ON && intr_enabled,
                 stack_switch := decide (0 < cpl) } :=
  (IdtRefines.of_run hinit hrun).deliver hstubs hg hvec software cpl intr_enabled

theorem syscall_enters_kernel_from_user_mode :
    ∃ (g : GdtState) (s₀ s : IntrState Unit), gdt_init 0x3000 0x4000 = .ok g ∧
      intr_init (fun v => 0x1000 + 16 * v) 0x2000 = .ok s₀ ∧
      Lts.Run (IntrState.step fun v => 0x1000 + 16 * v) s₀
        [.register_int 0x30 3 .INTR_ON (some ())] s ∧
      deliver (TableReg.decode g.gdtr).limit.val g.gdt (TableReg.decode s.idtr).limit.val s.idt 0x30
        true 3 true =
        .ok { cs := SEL_KCSEG, eip := 0x1000 + 16 * 0x30, cpl := 0, intr_enabled := true,
              stack_switch := true } := by
  obtain ⟨g, hg, -⟩ := gdt_init_eq 0x3000 0x4000
  obtain ⟨s₀, h₀⟩ : ∃ s₀ : IntrState Unit, intr_init (fun v => 0x1000 + 16 * v) 0x2000 = .ok s₀ :=
    intr_init_exists (fun v _ => by omega) 0x2000
  obtain ⟨s, hs⟩ : ∃ s, register_handler (fun v => 0x1000 + 16 * v) s₀ 0x30 3 .INTR_ON (some ()) =
      .ok s :=
    register_handler_exists_of_init h₀ .INTR_ON (some ()) (by decide) (by decide)
  have hrun : Lts.Run (IntrState.step fun v => 0x1000 + 16 * v) s₀
      [.register_int 0x30 3 .INTR_ON (some ())] s := .single hs
  exact ⟨g, s₀, s, hg, h₀, hrun, (delivery_enters_kernel (fun v hv => by unfold INTR_CNT at hv; omega)
    hg h₀ hrun (by decide) true 3 true).trans rfl⟩

/-- External interrupts run with interrupts off and cannot be raised by an outer ring: after
every run of registrations from `intr_init`, a device interrupt on a vector from `0x20` to
`0x2f` enters the vector's stub in ring 0 with the interrupt flag cleared, whatever the flag
and the privilege level it arrives at, and an `INT n` instruction for such a vector from a
ring other than 0 raises a general protection fault. -/
theorem external_interrupts_enter_with_interrupts_off
    (hstubs : ∀ v < INTR_CNT, intr_stubs v < 2 ^ 32) {gdt_addr tss idt_addr : ℕ} {g : GdtState}
    (hg : gdt_init gdt_addr tss = .ok g) {s₀ s : IntrState H} {calls : List (IntrCall H)}
    (hinit : intr_init intr_stubs idt_addr = .ok s₀)
    (hrun : Lts.Run (IntrState.step intr_stubs) s₀ calls s) {vec : ℕ} (h₁ : 0x20 ≤ vec)
    (h₂ : vec ≤ 0x2f) (cpl : ℕ) (intr_enabled : Bool) :
    deliver (TableReg.decode g.gdtr).limit.val g.gdt (TableReg.decode s.idtr).limit.val s.idt vec
        false cpl intr_enabled =
      .ok { cs := SEL_KCSEG, eip := intr_stubs vec, cpl := 0, intr_enabled := false,
            stack_switch := decide (0 < cpl) } ∧
    (0 < cpl → deliver (TableReg.decode g.gdtr).limit.val g.gdt (TableReg.decode s.idtr).limit.val
        s.idt vec true cpl intr_enabled = .error .GP) := by
  have hR := IdtRefines.of_run hinit hrun
  have hvec : vec < INTR_CNT := by unfold INTR_CNT; omega
  -- only `intr_register_ext` installs a gate on an external vector
  have hext : regDpl (registered calls vec) = 0 ∧ regLevel (registered calls vec) = .INTR_OFF := by
    rcases hR.external vec h₁ h₂ with h | h <;> rw [h] <;> exact ⟨rfl, rfl⟩
  refine ⟨?_, fun hcpl => ?_⟩
  · rw [hR.deliver hstubs hg hvec, hext.2]
    rfl
  · rw [hR.deliver hstubs hg hvec, hext.1, if_pos ⟨rfl, hcpl⟩]

theorem timer_interrupt_enters_with_interrupts_off :
    ∃ (g : GdtState) (s₀ s : IntrState Unit), gdt_init 0x3000 0x4000 = .ok g ∧
      intr_init (fun v => 0x1000 + 16 * v) 0x2000 = .ok s₀ ∧
      Lts.Run (IntrState.step fun v => 0x1000 + 16 * v) s₀ [.register_ext 0x20 (some ())] s ∧
      deliver (TableReg.decode g.gdtr).limit.val g.gdt (TableReg.decode s.idtr).limit.val s.idt 0x20
        false 3 true =
        .ok { cs := SEL_KCSEG, eip := 0x1000 + 16 * 0x20, cpl := 0, intr_enabled := false,
              stack_switch := true } ∧
      deliver (TableReg.decode g.gdtr).limit.val g.gdt (TableReg.decode s.idtr).limit.val s.idt 0x20
        true 3 true = .error .GP := by
  obtain ⟨g, hg, -⟩ := gdt_init_eq 0x3000 0x4000
  obtain ⟨s₀, h₀⟩ : ∃ s₀ : IntrState Unit, intr_init (fun v => 0x1000 + 16 * v) 0x2000 = .ok s₀ :=
    intr_init_exists (fun v _ => by omega) 0x2000
  obtain ⟨s, hs⟩ : ∃ s, register_handler (fun v => 0x1000 + 16 * v) s₀ 0x20 0 .INTR_OFF (some ()) =
      .ok s :=
    register_handler_exists_of_init h₀ .INTR_OFF (some ()) (by decide) (by decide)
  have hrun : Lts.Run (IntrState.step fun v => 0x1000 + 16 * v) s₀
      [.register_ext 0x20 (some ())] s := .single hs
  have h := external_interrupts_enter_with_interrupts_off (fun v hv => by unfold INTR_CNT at hv; omega)
    hg h₀ hrun (show 0x20 ≤ 0x20 by decide) (by decide) 3 true
  exact ⟨g, s₀, s, hg, h₀, hrun, h.1, h.2 (by decide)⟩

end

end Pintos
