import Pintos.Userprog.Pointers

/-!
# Offsets and sizes of the file calls

`sys_seek` and `sys_create` read an `unsigned` from the stack and hand it to the file layer,
which takes it as a signed `off_t`: `file_seek` asserts `new_pos >= 0`, and `inode_create`
asserts `length >= 0`. A value of `2^31` or more is negative there, and the assertion brings
down the kernel rather than the caller (`sys_seek_panics_of_large_position`,
`sys_create_panics_of_large_size`).
-/

namespace Pintos

open Vm

/-! ## Words and signed offsets -/

theorem word32_lt (b₀ b₁ b₂ b₃ : UInt8) : word32 b₀ b₁ b₂ b₃ < 2 ^ 32 := by
  have h₀ := b₀.toNat_lt
  have h₁ := b₁.toNat_lt
  have h₂ := b₂.toNat_lt
  have h₃ := b₃.toNat_lt
  unfold word32
  omega

theorem Kernel.kernelWord_lt {k : Kernel} {t va w : Nat} (h : k.kernelWord t va = some w) :
    w < 2 ^ 32 := by
  obtain ⟨b₀, b₁, b₂, b₃, -, -, -, -, rfl⟩ := Kernel.kernelWord_eq_some h
  exact word32_lt b₀ b₁ b₂ b₃

/-- A word with its top bit set is a negative `int`. -/
theorem toInt32_neg {w : Nat} (h : 2 ^ 31 ≤ w) (hw : w < 2 ^ 32) : toInt32 w < 0 := by
  unfold toInt32
  rw [if_neg (by omega)]
  omega

/-! ## The file layer's assertions -/

theorem fileAt_of_some {k : Kernel} {file : Nat} {f : File} (h : k.file_heap file = some f) :
    fileAt file k = .ok f k := by
  unfold fileAt
  rw [EStateM.bind_ok (EStateM.get_apply k)]
  simp [h]

theorem file_seek_panics {k : Kernel} {file : Nat} {new_pos : Int}
    (hopen : (k.file_heap file).isSome) (hneg : new_pos < 0) :
    file_seek file new_pos k = .error .panic k := by
  obtain ⟨f, hf⟩ := Option.isSome_iff_exists.mp hopen
  unfold file_seek
  rw [EStateM.bind_ok (fileAt_of_some hf)]
  simp [hneg]

theorem filesys_create_panics {k : Kernel} {initial_size : Int} {o : SysOracle}
    (hsector : o.fsSector = true) (hneg : initial_size < 0) :
    filesys_create initial_size o k = .error .panic k := by
  simp [filesys_create, hsector, hneg]

theorem dispatch_create (t esp : Nat) (o : SysOracle) :
    dispatch t esp SYS_CREATE o = sys_create t esp o := rfl

theorem dispatch_seek (t esp : Nat) (o : SysOracle) :
    dispatch t esp SYS_SEEK o = sys_seek t esp o := rfl

/-! ## The calls -/

/-- The prefix of `sys_seek` and `sys_create`: both argument slots pass `check_ptr`, and the
two words read as they stand on the stack, in a state that only touches `k`. -/
theorem two_args {k : Kernel} {t esp a₁ a₂ : Nat} (o : FaultAlloc) (hesp : 0 < esp)
    (htop : esp + 12 ≤ PHYS_BASE) (h₁ : k.kernelWord t (esp + 4) = some a₁)
    (h₂ : k.kernelWord t (esp + 8) = some a₂) :
    ∃ k₁ k₂, k.Touched k₂ ∧ check_ptr t (ptr_add esp 4) k = .ok () k ∧
      check_ptr t (ptr_add esp 8) k = .ok () k ∧ arg t o esp 1 k = .ok a₁ k₁ ∧
      arg t o esp 2 k₁ = .ok a₂ k₂ := by
  have hadd : ∀ i ≤ 8, ptr_add esp i = esp + i := fun i hi => ptr_add_of_lt_phys (by omega)
  obtain ⟨k₁, r₁, t₁, -⟩ := readWord_of_kernelWord o h₁
  have w₂ : k₁.kernelWord t (esp + 8) = some a₂ := (t₁.kernelWord t _).trans h₂
  obtain ⟨k₂, r₂, t₂, -⟩ := readWord_of_kernelWord o w₂
  refine ⟨k₁, k₂, t₁.trans t₂, ?_, ?_, ?_, ?_⟩
  · rw [hadd 4 (by omega)]
    exact check_ptr_of_kernelWord (by omega) (by omega) h₁
  · rw [hadd 8 (by omega)]
    exact check_ptr_of_kernelWord (by omega) (by omega) h₂
  · unfold arg
    rw [hadd 4 (by omega)]
    exact r₁
  · unfold arg
    rw [hadd 8 (by omega)]
    exact r₂

/-- `seek (fd, position)` of an open file with `position >= 2^31` fails `file_seek`'s
assertion, whatever the oracles: the kernel panics instead of killing the caller. -/
theorem sys_seek_panics_of_large_position {k : Kernel} {t esp n fd position : Nat}
    {of : OpenFile} (o : SysOracle) (hesp : 0 < esp) (htop : esp + 12 ≤ PHYS_BASE)
    (hnum : k.kernelWord t esp = some n) (hseek : toInt32 n = SYS_SEEK)
    (hfd : k.kernelWord t (esp + 4) = some fd) (hpos : k.kernelWord t (esp + 8) = some position)
    (hlarge : 2 ^ 31 ≤ position) (hfile : find_file k t (toInt32 fd) = some of)
    (hopen : (k.file_heap of.file).isSome) :
    ∃ k', syscall_handler t esp o k = .error .panic k' := by
  obtain ⟨k₁, t₁, hk₁⟩ := syscall_handler_of_number o hesp (by omega) hnum
    (by rw [hseek]; decide) (by rw [hseek]; decide) (by rw [hseek]; decide)
  obtain ⟨k₂, k₃, t₁₃, c₄, c₈, r₁, r₂⟩ := two_args o.fault hesp htop
    ((t₁.kernelWord t _).trans hfd) ((t₁.kernelWord t _).trans hpos)
  have t₃ := t₁.trans t₁₃
  have hfind : find_file k₃ t (toInt32 fd) = some of := by
    unfold find_file
    rw [t₃.procFiles]
    exact hfile
  have hpanic : file_seek of.file (toInt32 position) k₃ = .error .panic k₃ :=
    file_seek_panics (by rw [t₃.file_heap]; exact hopen) (toInt32_neg hlarge (Kernel.kernelWord_lt hpos))
  refine ⟨k₃, ?_⟩
  rw [hk₁, hseek, dispatch_seek]
  unfold sys_seek
  rw [EStateM.bind_ok c₄, EStateM.bind_ok c₈, EStateM.bind_ok r₁, EStateM.bind_ok r₂,
    EStateM.bind_ok (EStateM.get_apply k₃)]
  simp only [hfind]
  rw [EStateM.bind_error hpanic]

/-- `create (file, initial_size)` with a name the kernel can check and `initial_size >= 2^31`
fails `inode_create`'s assertion as soon as the free map has a sector for the inode. -/
theorem sys_create_panics_of_large_size {k : Kernel} {t esp n file size : Nat} (o : SysOracle)
    (hesp : 0 < esp) (htop : esp + 12 ≤ PHYS_BASE) (hnum : k.kernelWord t esp = some n)
    (hcreate : toInt32 n = SYS_CREATE) (hfile : k.kernelWord t (esp + 4) = some file)
    (hsize : k.kernelWord t (esp + 8) = some size) (hlarge : 2 ^ 31 ≤ size) (hf0 : file ≠ 0)
    (hfuser : file < PHYS_BASE) (hname : (k.kernelByte t file).isSome) (hsector : o.fsSector = true) :
    ∃ k', syscall_handler t esp o k = .error .panic k' := by
  obtain ⟨k₁, t₁, hk₁⟩ := syscall_handler_of_number o hesp (by omega) hnum
    (by rw [hcreate]; decide) (by rw [hcreate]; decide) (by rw [hcreate]; decide)
  obtain ⟨k₂, k₃, t₁₃, c₄, c₈, r₁, r₂⟩ := two_args o.fault hesp htop
    ((t₁.kernelWord t _).trans hfile) ((t₁.kernelWord t _).trans hsize)
  have cf := check_ptr_ok hf0 hfuser (by rw [(t₁.trans t₁₃).kernelByte]; exact hname)
  have hpanic : filesys_create (toInt32 size) o k₃ = .error .panic k₃ :=
    filesys_create_panics hsector (toInt32_neg hlarge (Kernel.kernelWord_lt hsize))
  refine ⟨k₃, ?_⟩
  rw [hk₁, hcreate, dispatch_create]
  unfold sys_create
  rw [EStateM.bind_ok c₄, EStateM.bind_ok c₈, EStateM.bind_ok r₁, EStateM.bind_ok r₂,
    EStateM.bind_ok cf, EStateM.bind_error hpanic]

/-! ## A seek past `2^31` -/

/-- The arguments of `open` and `seek` sit below those of the other calls. -/
def openEsp : Nat := PHYS_BASE - 16

def seekEsp : Nat := PHYS_BASE - 48

/-- `filesys_open` opens the inode at sector 7 in a fresh block, and `malloc` succeeds. -/
def openOracle : SysOracle := { nullOracle with fsOpen := some (0xc0300000, 7), mallocOk := true }

/-- After `stackRun`, thread 1 calls `open` with a name on its stack, which returns the
descriptor 2, and pushes the arguments of `seek (2, 0x80000000)`. -/
def seekOps : List KernelOp :=
  stackRun.map .vm ++
    [.vm (.access 1 openEsp (some 6)), .vm (.access 1 (openEsp + 4) (some 0xe0)),
     .vm (.access 1 (openEsp + 5) (some 0xff)), .vm (.access 1 (openEsp + 6) (some 0xff)),
     .vm (.access 1 (openEsp + 7) (some 0xbf)), .syscall 1 openEsp openOracle,
     .vm (.access 1 seekEsp (some 10)), .vm (.access 1 (seekEsp + 4) (some 2)),
     .vm (.access 1 (seekEsp + 11) (some 0x80))]

def seekKernel : Kernel := (kernelRun (kernelBoot swapBoot) seekOps).getD (kernelBoot swapBoot)

theorem seekKernel_reachable : KernelReachable seekKernel := by
  have hrun : kernelRun (kernelBoot swapBoot) seekOps = some seekKernel := by rfl
  exact KernelReachable.of_kernelRun (vmInit_bootVm _ _ _ _ _ _ _ _) hrun

theorem sys_seek_panics_at_open_file :
    (0 < seekEsp ∧ seekEsp + 12 ≤ PHYS_BASE ∧ seekKernel.kernelWord 1 seekEsp = some 10 ∧
      toInt32 10 = SYS_SEEK ∧ seekKernel.kernelWord 1 (seekEsp + 4) = some 2 ∧
      seekKernel.kernelWord 1 (seekEsp + 8) = some 0x80000000 ∧ 2 ^ 31 ≤ 0x80000000 ∧
      find_file seekKernel 1 (toInt32 2) = some ⟨2, 0xc0300000⟩ ∧
      (seekKernel.file_heap 0xc0300000).isSome) ∧
    ∃ k', syscall_handler 1 seekEsp nullOracle seekKernel = .error .panic k' :=
  ⟨⟨by decide, by decide, rfl, by decide, rfl, rfl, by decide, rfl, rfl⟩,
    sys_seek_panics_of_large_position nullOracle (by decide) (by decide) rfl (by decide) rfl rfl
      (by decide) rfl rfl⟩

/-- In a reachable state, `seek (2, 0x80000000)` on the file that `open` returned stops the
kernel: no step of the system follows the call. -/
theorem seek_of_large_position_stops_kernel : KernelReachable seekKernel ∧
    (∃ k', syscall_handler 1 seekEsp nullOracle seekKernel = .error .panic k') ∧
    kernelStep seekKernel (.syscall 1 seekEsp nullOracle) = none :=
  ⟨seekKernel_reachable, ⟨_, rfl⟩, rfl⟩

end Pintos
