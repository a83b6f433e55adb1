import Pintos.Userprog.Syscall
import Pintos.Vm.SwapSlots

/-!
# What the pointer checks of a system call let through

`Kernel.kernelByte` is what a kernel-mode read of an address gets without faulting: kernel
memory above `PHYS_BASE`, the byte of a present page below it. The reads of the handler only
set accessed bits and log (`Kernel.Touched`), so each argument word reads as it stood on the
stack (`readWord_of_kernelBytes`), and `check_ptr` decides on one byte by residency alone
(`check_ptr_ok`, `check_ptr_of_kernelByte_none`).

`check_ptr` checks the first byte of what it is given and `syscall_handler` then reads four:
a word that starts in the last three bytes below `PHYS_BASE` is read partly from kernel memory
(`syscall_handler_reads_kernel_memory`).
-/

namespace Pintos

open Vm

/-! ## What the kernel reads -/

namespace Kernel

/-- The byte a kernel-mode read of `va` for thread `t` gets without faulting. -/
def kernelByte (k : Kernel) (t : Tid) (va : Nat) : Option UInt8 :=
  if PHYS_BASE ≤ va then some (k.vm.mem va)
  else
    match (k.vm.thread t).bind (·.pagedir) with
    | some pd =>
      if (pd.entry va).present then some (k.vm.mem ((pd.entry va).kpage + pg_ofs va)) else none
    | none => none

/-- The word at `va` that four such reads get. -/
def kernelWord (k : Kernel) (t : Tid) (va : Nat) : Option Nat :=
  match k.kernelByte t va, k.kernelByte t (ptr_add va 1), k.kernelByte t (ptr_add va 2),
    k.kernelByte t (ptr_add va 3) with
  | some b₀, some b₁, some b₂, some b₃ => some (word32 b₀ b₁ b₂ b₃)
  | _, _, _, _ => none

/-- `k'` differs from `k` at most in accessed and dirty bits, `current_esp` and the log. -/
structure Touched (k k' : Kernel) : Prop where
  kernelByte : ∀ t va, k'.kernelByte t va = k.kernelByte t va
  hasPagedir : ∀ t, ((k'.vm.thread t).bind (·.pagedir)).isSome =
    ((k.vm.thread t).bind (·.pagedir)).isSome
  procFiles : k'.procFiles = k.procFiles
  file_heap : k'.file_heap = k.file_heap

theorem Touched.trans {k₁ k₂ k₃ : Kernel} (h₁ : k₁.Touched k₂) (h₂ : k₂.Touched k₃) :
    k₁.Touched k₃ :=
  ⟨fun t va => (h₂.kernelByte t va).trans (h₁.kernelByte t va),
    fun t => (h₂.hasPagedir t).trans (h₁.hasPagedir t), h₂.procFiles.trans h₁.procFiles,
    h₂.file_heap.trans h₁.file_heap⟩

theorem kernelWord_eq_some {k : Kernel} {t va w : Nat} (h : k.kernelWord t va = some w) :
    ∃ b₀ b₁ b₂ b₃, k.kernelByte t va = some b₀ ∧ k.kernelByte t (ptr_add va 1) = some b₁ ∧
      k.kernelByte t (ptr_add va 2) = some b₂ ∧ k.kernelByte t (ptr_add va 3) = some b₃ ∧
      w = word32 b₀ b₁ b₂ b₃ := by
  unfold kernelWord at h
  split at h
  · cases h
    exact ⟨_, _, _, _, by assumption, by assumption, by assumption, by assumption, rfl⟩
  · cases h

theorem Touched.kernelWord {k k' : Kernel} (h : k.Touched k') (t va : Nat) :
    k'.kernelWord t va = k.kernelWord t va := by
  unfold Kernel.kernelWord
  rw [h.kernelByte, h.kernelByte, h.kernelByte, h.kernelByte]

end Kernel

/-! ## Directories with the same mappings -/

/-- Two directories map the same pages to the same frames. -/
def SameMappings (pd pd' : Pagedir) : Prop :=
  ∀ va, (pd'.entry va).present = (pd.entry va).present ∧ (pd'.entry va).kpage = (pd.entry va).kpage

theorem sameMappings_touch (pd : Pagedir) (va : Nat) (accessed dirty : Bool)
    (h : pd.hasTable va) : SameMappings pd (pd.write va { pd.entry va with accessed, dirty } h) := by
  intro va'
  rw [Pagedir.entry_write]
  split
  · rename_i hsame
    have he : pd.entry va' = pd.entry va := by unfold Pagedir.entry; rw [hsame]
    rw [he]
    exact ⟨rfl, rfl⟩
  · exact ⟨rfl, rfl⟩

/-- Setting a directory with the same mappings changes no byte a kernel read gets. -/
theorem kernelByte_setPagedir {k : Kernel} {t : Tid} {pd pd' : Pagedir}
    (hpd : (k.vm.thread t).bind (·.pagedir) = some pd) (hsame : SameMappings pd pd') (t' va : Nat) :
    ({ k with vm := k.vm.setPagedir t pd' } : Kernel).kernelByte t' va = k.kernelByte t' va := by
  unfold Kernel.kernelByte
  dsimp only
  split
  · rfl
  · by_cases ht : t' = t
    · subst ht
      obtain ⟨th, hth, -⟩ := Option.bind_eq_some_iff.mp hpd
      have hnew : ((k.vm.setPagedir t' pd').thread t').bind (·.pagedir) = some pd' := by
        rw [thread_setPagedir, if_pos rfl, hth]
        rfl
      rw [hnew, hpd]
      dsimp only
      rw [(hsame va).1, (hsame va).2]
      rfl
    · rw [thread_setPagedir, if_neg ht]
      rfl

theorem hasPagedir_setPagedir {k : Kernel} {t : Tid} {pd pd' : Pagedir}
    (hpd : (k.vm.thread t).bind (·.pagedir) = some pd) (t' : Tid) :
    (((k.vm.setPagedir t pd').thread t').bind (·.pagedir)).isSome =
      ((k.vm.thread t').bind (·.pagedir)).isSome := by
  rw [thread_setPagedir]
  split
  · rename_i ht
    subst ht
    obtain ⟨th, hth, hthpd⟩ := Option.bind_eq_some_iff.mp hpd
    rw [hth]
    show (some pd').isSome = th.pagedir.isSome
    rw [hthpd]
    rfl
  · rfl

theorem touched_setPagedir {k : Kernel} {t : Tid} {pd pd' : Pagedir}
    (hpd : (k.vm.thread t).bind (·.pagedir) = some pd) (hsame : SameMappings pd pd') :
    k.Touched { k with vm := k.vm.setPagedir t pd' } :=
  ⟨kernelByte_setPagedir hpd hsame, hasPagedir_setPagedir hpd, rfl, rfl⟩

/-- Recording `current_esp` changes no mapping. -/
theorem touched_current_esp (k : Kernel) (t esp : Nat) :
    k.Touched { k with vm := k.vm.setThread t fun th => { th with current_esp := esp } } := by
  have hthread : ∀ t', ((k.vm.setThread t fun th => { th with current_esp := esp }).thread t').bind
      (·.pagedir) = (k.vm.thread t').bind (·.pagedir) := by
    intro t'
    rw [thread_setThread t t' _ (by intro; rfl)]
    split
    · rename_i ht
      subst ht
      cases k.vm.thread t' <;> rfl
    · rfl
  refine ⟨fun t' va => ?_, fun t' => by rw [hthread], rfl, rfl⟩
  unfold Kernel.kernelByte
  dsimp only
  rw [hthread]
  rfl

/-! ## Reads -/

/-- A read that does not fault gets `kernelByte`, and only touches the state and logs. -/
theorem readByte_of_kernelByte {k : Kernel} {t va : Nat} {b : UInt8} (o : FaultAlloc)
    (h : k.kernelByte t va = some b) :
    ∃ k', readByte t o va k = .ok b k' ∧ k.Touched k' ∧ k'.reads = k.reads ++ [va] := by
  unfold Kernel.kernelByte at h
  by_cases hk : PHYS_BASE ≤ va
  · -- kernel memory: mapped in every directory
    rw [if_pos hk] at h
    obtain rfl := Option.some.inj h
    have hacc : access t o va false k = .ok va { k with vm := k.vm } := by
      simp only [access, kernelAccess, if_pos hk]
    refine ⟨{ k with reads := k.reads ++ [va] }, ?_, ⟨fun _ _ => rfl, fun _ => rfl, rfl, rfl⟩, rfl⟩
    unfold readByte
    rw [EStateM.bind_ok hacc]
    rfl
  · rw [if_neg hk] at h
    split at h
    · rename_i pd hpd
      split at h
      · rename_i hpres
        obtain rfl := Option.some.inj h
        have htab := Pagedir.hasTable_of_present hpres
        set pd' := pd.write va
          { pd.entry va with accessed := true, dirty := (pd.entry va).dirty || false } htab
        have hacc : access t o va false k =
            .ok ((pd.entry va).kpage + pg_ofs va) { k with vm := k.vm.setPagedir t pd' } := by
          simp only [access, kernelAccess, if_neg hk, hpd]
          rw [dif_pos ⟨htab, hpres, rfl⟩]
        have htouch := touched_setPagedir hpd
          (sameMappings_touch pd va true ((pd.entry va).dirty || false) htab)
        refine ⟨{ k with vm := k.vm.setPagedir t pd', reads := k.reads ++ [va] }, ?_,
          ⟨htouch.kernelByte, htouch.hasPagedir, rfl, rfl⟩, rfl⟩
        unfold readByte
        rw [EStateM.bind_ok hacc]
        rfl
      · cases h
    · cases h

theorem readWord_of_kernelWord {k : Kernel} {t va w : Nat} (o : FaultAlloc)
    (h : k.kernelWord t va = some w) :
    ∃ k', readWord t o va k = .ok w k' ∧ k.Touched k' ∧
      k'.reads = k.reads ++ [va, ptr_add va 1, ptr_add va 2, ptr_add va 3] := by
  obtain ⟨b₀, b₁, b₂, b₃, h₀, h₁, h₂, h₃, rfl⟩ := Kernel.kernelWord_eq_some h
  obtain ⟨k₁, e₁, t₁, r₁⟩ := readByte_of_kernelByte o h₀
  obtain ⟨k₂, e₂, t₂, r₂⟩ := readByte_of_kernelByte o ((t₁.kernelByte t _).trans h₁)
  have t₁₂ := t₁.trans t₂
  obtain ⟨k₃, e₃, t₃, r₃⟩ := readByte_of_kernelByte o ((t₁₂.kernelByte t _).trans h₂)
  have t₁₃ := t₁₂.trans t₃
  obtain ⟨k₄, e₄, t₄, r₄⟩ := readByte_of_kernelByte o ((t₁₃.kernelByte t _).trans h₃)
  refine ⟨k₄, ?_, t₁₃.trans t₄, by simp [r₄, r₃, r₂, r₁]⟩
  unfold readWord
  rw [EStateM.bind_ok e₁, EStateM.bind_ok e₂, EStateM.bind_ok e₃, EStateM.bind_ok e₄]
  rfl

/-! ## `check_ptr` -/

theorem kernelByte_isSome_iff {k : Kernel} {t va : Nat} (hva : va < PHYS_BASE) :
    (k.kernelByte t va).isSome ↔
      ∃ pd, (k.vm.thread t).bind (·.pagedir) = some pd ∧ (pd.entry va).present = true := by
  unfold Kernel.kernelByte
  rw [if_neg (by omega)]
  cases (k.vm.thread t).bind (·.pagedir) with
  | none => simp
  | some pd => cases (pd.entry va).present <;> simp

/-- `check_ptr` lets a user address through when its page is present. -/
theorem check_ptr_ok {k : Kernel} {t va : Nat} (h0 : va ≠ 0) (hva : va < PHYS_BASE)
    (h : (k.kernelByte t va).isSome) : check_ptr t va k = .ok () k := by
  obtain ⟨pd, hpd, hpres⟩ := (kernelByte_isSome_iff hva).mp h
  have huser : is_user_vaddr va = true := is_user_vaddr_iff.mpr hva
  have hget : pagedir_get_page pd va ≠ none :=
    Option.isSome_iff_ne_none.mp (pagedir_get_page_isSome.mpr hpres)
  unfold check_ptr
  rw [EStateM.bind_ok (EStateM.get_apply k)]
  simp [h0, huser, hpd, hget]

/-- `check_ptr` kills for a user address whose page is not present, whatever the
supplemental page table says of it. -/
theorem check_ptr_of_kernelByte_none {k : Kernel} {t va : Nat} (h0 : va ≠ 0)
    (hva : va < PHYS_BASE) (hpd : ((k.vm.thread t).bind (·.pagedir)).isSome)
    (h : k.kernelByte t va = none) : check_ptr t va k = .error .killed k := by
  obtain ⟨pd, hpd⟩ := Option.isSome_iff_exists.mp hpd
  have hnp : (pd.entry va).present = false := by
    by_contra hpres
    have := (kernelByte_isSome_iff hva).mpr ⟨pd, hpd, by simpa using hpres⟩
    rw [h] at this
    cases this
  have huser : is_user_vaddr va = true := is_user_vaddr_iff.mpr hva
  have hget : pagedir_get_page pd va = none := by simp [pagedir_get_page, hnp]
  unfold check_ptr
  rw [EStateM.bind_ok (EStateM.get_apply k)]
  simp [h0, huser, hpd, hget]

/-! ## The word of the syscall number -/

/-- From a mapped address of the top user page on, every address reads without a fault: the
rest of the page is present, and the kernel is mapped above it. -/
theorem kernelByte_isSome_of_top {k : Kernel} {t esp va : Nat} (hesp : PHYS_BASE - PGSIZE ≤ esp)
    (hmapped : (k.kernelByte t esp).isSome) (hle : esp ≤ va) : (k.kernelByte t va).isSome := by
  by_cases hk : PHYS_BASE ≤ va
  · simp [Kernel.kernelByte, hk]
  · have hesp' : esp < PHYS_BASE := by omega
    obtain ⟨pd, hpd, hpres⟩ := (kernelByte_isSome_iff hesp').mp hmapped
    have htop : ∀ {x}, PHYS_BASE - PGSIZE ≤ x → x < PHYS_BASE →
        pg_round_down x = PHYS_BASE - PGSIZE := fun h₁ h₂ =>
      pg_round_down_of_le_of_lt rfl h₁ (by unfold PHYS_BASE PGSIZE PGBITS at *; omega)
    have hsame : pd.entry va = pd.entry esp := by
      unfold Pagedir.entry
      rw [htop (by omega) (by omega), htop hesp hesp']
    exact (kernelByte_isSome_iff (by omega)).mpr ⟨pd, hpd, by rw [hsame]; exact hpres⟩

/-- `check_ptr (f->esp)` checks one byte, and `*(int *) f->esp` reads four: from the last three
bytes below `PHYS_BASE` the handler reads kernel memory at `PHYS_BASE` and goes on with the
number it has read. -/
theorem syscall_handler_reads_kernel_memory {k : Kernel} {t esp : Nat} (o : SysOracle)
    (hlo : PHYS_BASE - 4 < esp) (hhi : esp < PHYS_BASE) (hmapped : (k.kernelByte t esp).isSome) :
    ∃ k' n, PHYS_BASE ∈ k'.reads ∧ syscall_handler t esp o k = handleNumber t esp n o k' := by
  have hcheck := check_ptr_ok (by unfold PHYS_BASE at hlo; omega) hhi hmapped
  have hnowrap : ∀ i < 4, ptr_add esp i = esp + i := fun i hi =>
    ptr_add_of_lt (by unfold PHYS_BASE at hhi; unfold WORD_MOD; omega)
  have hbyte : ∀ i < 4, (k.kernelByte t (ptr_add esp i)).isSome := fun i hi =>
    kernelByte_isSome_of_top (by unfold PHYS_BASE PGSIZE PGBITS at *; omega) hmapped
      (by rw [hnowrap i hi]; omega)
  obtain ⟨w, hw⟩ : ∃ w, k.kernelWord t esp = some w := by
    obtain ⟨b₀, h₀⟩ := Option.isSome_iff_exists.mp hmapped
    obtain ⟨b₁, h₁⟩ := Option.isSome_iff_exists.mp (hbyte 1 (by decide))
    obtain ⟨b₂, h₂⟩ := Option.isSome_iff_exists.mp (hbyte 2 (by decide))
    obtain ⟨b₃, h₃⟩ := Option.isSome_iff_exists.mp (hbyte 3 (by decide))
    exact ⟨word32 b₀ b₁ b₂ b₃, by simp [Kernel.kernelWord, h₀, h₁, h₂, h₃]⟩
  obtain ⟨k', hrd, -, hreads⟩ := readWord_of_kernelWord o.fault hw
  refine ⟨k', toInt32 w, ?_, ?_⟩
  · rw [hreads, hnowrap 1 (by decide), hnowrap 2 (by decide), hnowrap 3 (by decide)]
    simp only [List.mem_append, List.mem_cons, List.not_mem_nil, or_false]
    right
    unfold PHYS_BASE at *
    omega
  · unfold syscall_handler
    rw [EStateM.bind_ok hcheck, EStateM.bind_ok hrd]

/-! ## Buffers that are not resident -/

/-- `check_ptr` passes on the first byte of a word the kernel reads without faulting. -/
theorem check_ptr_of_kernelWord {k : Kernel} {t va w : Nat} (h0 : va ≠ 0) (hva : va < PHYS_BASE)
    (h : k.kernelWord t va = some w) : check_ptr t va k = .ok () k := by
  obtain ⟨b₀, -, -, -, h₀, -⟩ := Kernel.kernelWord_eq_some h
  exact check_ptr_ok h0 hva (by rw [h₀]; rfl)

/-- A number in `[0, MAX_SYSCALL)` other than `SYS_EXIT` records `current_esp` and goes to the
table. -/
theorem handleNumber_of_ne_exit {k : Kernel} {t esp : Nat} {n : Int} (o : SysOracle)
    (h0 : 0 ≤ n) (hmax : n < MAX_SYSCALL) (hexit : n ≠ SYS_EXIT) :
    handleNumber t esp n o k =
      dispatch t esp n o { k with vm := k.vm.setThread t fun th => { th with current_esp := esp } } := by
  have hk : ¬ (n < 0 ∨ n ≥ MAX_SYSCALL) := by omega
  unfold handleNumber
  simp only [hk, if_false, hexit]
  rfl

theorem dispatch_read (t esp : Nat) (o : SysOracle) :
    dispatch t esp SYS_READ o = sys_read t esp o := rfl

theorem dispatch_write (t esp : Nat) (o : SysOracle) :
    dispatch t esp SYS_WRITE o = sys_write t esp o := rfl

/-- The argument words of `read` and `write` are read as they stand on the stack, and the
buffer is then checked with `check_ptr`: a buffer whose first page is not present kills the
caller before `preload_and_pin_pages` could load it. -/
theorem bufferArgs_kills_nonresident {k : Kernel} {t esp fd buffer size : Nat} (o : SysOracle)
    (hesp : 0 < esp) (htop : esp + 16 ≤ PHYS_BASE)
    (hfd : k.kernelWord t (esp + 4) = some fd) (hbuf : k.kernelWord t (esp + 8) = some buffer)
    (hsize : k.kernelWord t (esp + 12) = some size) (hb0 : buffer ≠ 0) (hbuser : buffer < PHYS_BASE)
    (hpd : ((k.vm.thread t).bind (·.pagedir)).isSome) (hres : k.kernelByte t buffer = none) :
    ∃ k', bufferArgs t esp o k = .error .killed k' := by
  have hadd : ∀ i ≤ 12, ptr_add esp i = esp + i := fun i hi => ptr_add_of_lt_phys (by omega)
  have c₄ := check_ptr_of_kernelWord (by omega) (by omega) hfd
  have c₈ := check_ptr_of_kernelWord (by omega) (by omega) hbuf
  have c₁₂ := check_ptr_of_kernelWord (by omega) (by omega) hsize
  obtain ⟨k₁, r₁, t₁, -⟩ := readWord_of_kernelWord o.fault hfd
  have w₂ : k₁.kernelWord t (esp + 8) = some buffer := (t₁.kernelWord t _).trans hbuf
  obtain ⟨k₂, r₂, t₂, -⟩ := readWord_of_kernelWord o.fault w₂
  have t₁₂ := t₁.trans t₂
  have w₃ : k₂.kernelWord t (esp + 12) = some size := (t₁₂.kernelWord t _).trans hsize
  obtain ⟨k₃, r₃, t₃, -⟩ := readWord_of_kernelWord o.fault w₃
  have t₁₃ := t₁₂.trans t₃
  have cb := check_ptr_of_kernelByte_none hb0 hbuser ((t₁₃.hasPagedir t).trans hpd)
    ((t₁₃.kernelByte t _).trans hres)
  refine ⟨k₃, ?_⟩
  unfold bufferArgs arg
  rw [hadd 4 (by omega), hadd 8 (by omega), hadd 12 (by omega)]
  rw [EStateM.bind_ok c₄, EStateM.bind_ok c₈, EStateM.bind_ok c₁₂, EStateM.bind_ok r₁,
    EStateM.bind_ok r₂, EStateM.bind_ok r₃, EStateM.bind_error cb]

/-- A number word the kernel reads without faulting, in `[0, MAX_SYSCALL)` and other than
`SYS_EXIT`, takes the handler to its table entry in a state that only touches `k`. -/
theorem syscall_handler_of_number {k : Kernel} {t esp n : Nat} (o : SysOracle) (hesp : 0 < esp)
    (htop : esp < PHYS_BASE) (hnum : k.kernelWord t esp = some n) (h0 : 0 ≤ toInt32 n)
    (hmax : toInt32 n < MAX_SYSCALL) (hexit : toInt32 n ≠ SYS_EXIT) :
    ∃ k', k.Touched k' ∧ syscall_handler t esp o k = dispatch t esp (toInt32 n) o k' := by
  have c := check_ptr_of_kernelWord (by omega) htop hnum
  obtain ⟨k₁, r, t₁, -⟩ := readWord_of_kernelWord o.fault hnum
  refine ⟨_, t₁.trans (touched_current_esp k₁ t esp), ?_⟩
  unfold syscall_handler
  rw [EStateM.bind_ok c, EStateM.bind_ok r, handleNumber_of_ne_exit o h0 hmax hexit]

/-- Validity is decided by residency: a `read` or `write` whose buffer starts in a page that is
not present in the caller's directory kills the caller, whatever its supplemental page table
holds for that page and whatever the oracles would allocate. -/
theorem syscall_kills_nonresident_buffer {k : Kernel} {t esp n fd buffer size : Nat}
    (o : SysOracle) (hesp : 0 < esp) (htop : esp + 16 ≤ PHYS_BASE)
    (hnum : k.kernelWord t esp = some n) (hcall : toInt32 n = SYS_READ ∨ toInt32 n = SYS_WRITE)
    (hfd : k.kernelWord t (esp + 4) = some fd) (hbuf : k.kernelWord t (esp + 8) = some buffer)
    (hsize : k.kernelWord t (esp + 12) = some size) (hb0 : buffer ≠ 0) (hbuser : buffer < PHYS_BASE)
    (hpd : ((k.vm.thread t).bind (·.pagedir)).isSome) (hres : k.kernelByte t buffer = none) :
    ∃ k', syscall_handler t esp o k = .error .killed k' := by
  have hrange : 0 ≤ toInt32 n ∧ toInt32 n < MAX_SYSCALL ∧ toInt32 n ≠ SYS_EXIT := by
    rcases hcall with h | h <;> rw [h] <;> decide
  obtain ⟨k₂, t₂, hk₂⟩ := syscall_handler_of_number o hesp (by omega) hnum hrange.1 hrange.2.1
    hrange.2.2
  obtain ⟨k₃, hb⟩ := bufferArgs_kills_nonresident o hesp htop
    ((t₂.kernelWord t _).trans hfd) ((t₂.kernelWord t _).trans hbuf)
    ((t₂.kernelWord t _).trans hsize) hb0 hbuser ((t₂.hasPagedir t).trans hpd)
    ((t₂.kernelByte t _).trans hres)
  refine ⟨k₃, ?_⟩
  rw [hk₂]
  -- `read` and `write` share `bufferArgs`, which kills before either body starts
  rcases hcall with h | h
  · rw [h, dispatch_read]
    unfold sys_read
    rw [EStateM.bind_error hb]
  · rw [h, dispatch_write]
    unfold sys_write
    rw [EStateM.bind_error hb]

/-! ## A stack pointer three bytes below `PHYS_BASE` -/

/-- A boot state of the system over the VM boot state `vm`: no file is open. -/
def kernelBoot (vm : Vm) : Kernel :=
  { vm, procFiles := fun _ => ProcFiles.init, file_heap := fun _ => none,
    inode_length := fun _ => 0, console := [], reads := [] }

theorem KernelReachable.of_kernelRun {vm : Vm} {k : Kernel} {ops : List KernelOp}
    (hinit : VmInit vm) (h : kernelRun (kernelBoot vm) ops = some k) : KernelReachable k :=
  Lts.Reachable.of_run ⟨hinit, rfl, rfl, rfl, rfl⟩ (run_of_kernelRun h)

/-- Thread 1 with its stack page resident. -/
def stackKernel : Kernel :=
  (kernelRun (kernelBoot swapBoot) (stackRun.map .vm)).getD (kernelBoot swapBoot)

theorem stackKernel_reachable : KernelReachable stackKernel := by
  have hrun : kernelRun (kernelBoot swapBoot) (stackRun.map .vm) = some stackKernel := by rfl
  exact KernelReachable.of_kernelRun (vmInit_bootVm _ _ _ _ _ _ _ _) hrun

/-- Oracles that allocate nothing and read no input. -/
def nullOracle : SysOracle :=
  ⟨⟨0, fun _ => none, fun _ => ⟨⟨none, false⟩, false⟩⟩, fun _ => ⟨⟨none, false⟩, false⟩,
    fun _ => 0, none, false, false, false, false⟩

theorem syscall_handler_reads_kernel_memory_below_top :
    (PHYS_BASE - 4 < PHYS_BASE - 1 ∧ PHYS_BASE - 1 < PHYS_BASE ∧
      (stackKernel.kernelByte 1 (PHYS_BASE - 1)).isSome) ∧
    ∃ k' n, PHYS_BASE ∈ k'.reads ∧
      syscall_handler 1 (PHYS_BASE - 1) nullOracle stackKernel = handleNumber 1 (PHYS_BASE - 1) n nullOracle k' :=
  ⟨⟨by decide, by decide, rfl⟩,
    syscall_handler_reads_kernel_memory nullOracle (by decide) (by decide) rfl⟩

/-- In a reachable state, `f->esp = PHYS_BASE - 1` passes `check_ptr`, and the handler reads
the three bytes of kernel memory from `PHYS_BASE` on as the rest of the number: the process is
not killed, and the zero it reads is `SYS_HALT`. -/
theorem syscall_handler_halts_on_kernel_bytes : KernelReachable stackKernel ∧
    ∃ k', syscall_handler 1 (PHYS_BASE - 1) nullOracle stackKernel = .ok .halt k' ∧
      PHYS_BASE ∈ k'.reads ∧ PHYS_BASE + 2 ∈ k'.reads :=
  ⟨stackKernel_reachable, _, rfl, by decide, by decide⟩

/-! ## A `write` from a page that is registered but not loaded -/

/-- The user stack pointer of the call below. -/
def writeEsp : Nat := PHYS_BASE - 16

/-- After `stackRun`, thread 1 registers an anonymous page at `0x08050000` and, without
touching it, pushes the arguments of `write (1, 0x08050000, 1)` and the number `SYS_WRITE`
(the other bytes of the zeroed stack page are already right). -/
def writeOps : List KernelOp :=
  stackRun.map .vm ++
    [.vm (.allocPage 1 .VM_ANON 0x08050000 true (some SuppPage.zero)),
     .vm (.access 1 writeEsp (some 9)), .vm (.access 1 (writeEsp + 4) (some 1)),
     .vm (.access 1 (writeEsp + 10) (some 5)), .vm (.access 1 (writeEsp + 11) (some 8)),
     .vm (.access 1 (writeEsp + 12) (some 1))]

def writeKernel : Kernel := (kernelRun (kernelBoot swapBoot) writeOps).getD (kernelBoot swapBoot)

theorem writeKernel_reachable : KernelReachable writeKernel := by
  have hrun : kernelRun (kernelBoot swapBoot) writeOps = some writeKernel := by rfl
  exact KernelReachable.of_kernelRun (vmInit_bootVm _ _ _ _ _ _ _ _) hrun

theorem syscall_kills_nonresident_buffer_at_write :
    (0 < writeEsp ∧ writeEsp + 16 ≤ PHYS_BASE ∧ writeKernel.kernelWord 1 writeEsp = some 9 ∧
      (toInt32 9 = SYS_READ ∨ toInt32 9 = SYS_WRITE) ∧
      writeKernel.kernelWord 1 (writeEsp + 4) = some 1 ∧
      writeKernel.kernelWord 1 (writeEsp + 8) = some 0x08050000 ∧
      writeKernel.kernelWord 1 (writeEsp + 12) = some 1 ∧ 0x08050000 ≠ 0 ∧
      0x08050000 < PHYS_BASE ∧ ((writeKernel.vm.thread 1).bind (·.pagedir)).isSome ∧
      writeKernel.kernelByte 1 0x08050000 = none) ∧
    ∃ k', syscall_handler 1 writeEsp nullOracle writeKernel = .error .killed k' :=
  ⟨⟨by decide, by decide, rfl, Or.inr (by decide), rfl, rfl, rfl, by decide, by decide, rfl, rfl⟩,
    syscall_kills_nonresident_buffer nullOracle (by decide) (by decide) rfl (Or.inr (by decide))
      rfl rfl rfl (by decide) (by decide) rfl rfl⟩

/-- `write (1, buffer, 1)` with `buffer` in a registered anonymous page that was never
touched: a page fault would load it, and `preload_and_pin_pages` would too, but `check_ptr`
kills the process first. -/
theorem write_of_registered_page_killed : KernelReachable writeKernel ∧
    (writeKernel.vm.page ⟨1, 0x08050000⟩).isSome ∧
    ∃ k', syscall_handler 1 writeEsp nullOracle writeKernel = .error .killed k' :=
  ⟨writeKernel_reachable, rfl, _, rfl⟩

end Pintos
