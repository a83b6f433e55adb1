import Pintos.Userprog.FileCalls

/-!
# The descriptor counter (`userprog/syscall.c`, `threads/thread.c`)

`sys_open` gives the new `open_file` record `t->file_fd++`, an `int` that `init_thread` sets to
`2` and that nothing else changes; `sys_close` drops the record `find_file` returns. The
counter is never reused, so the descriptors stay fresh only as long as it does not wrap: on the
i386 the `int` goes from `INT_MAX` to `INT_MIN`, and `2 ^ 32` opens bring it back to `2`.

A user loop that opens a file and closes the descriptor it got keeps memory bounded and moves
the counter on by one each round (`fdRounds_run`). After `m` rounds the next `open` returns
`int32 (2 + m)`: `-1` (the value of a failed `open`), `0` and `1` (the console) and then every
descriptor again.
-/

namespace Pintos

open Vm

/-! ## `int` arithmetic -/

/-- `int32` keeps the residue modulo `2 ^ 32`. -/
theorem int32_emod (i : Int) : int32 i % 2 ^ 32 = i % 2 ^ 32 := by
  have h₀ : 0 ≤ i % 2 ^ 32 := Int.emod_nonneg _ (by decide)
  have h₁ : i % 2 ^ 32 < 2 ^ 32 := Int.emod_lt_of_pos _ (by decide)
  unfold int32 toInt32
  rw [Int.toNat_of_nonneg h₀]
  split <;> omega

theorem int32_congr {a b : Int} (h : a % 2 ^ 32 = b % 2 ^ 32) : int32 a = int32 b := by
  unfold int32
  rw [h]

theorem int32_int32_add (a b : Int) : int32 (int32 a + b) = int32 (a + b) :=
  int32_congr (by rw [Int.add_emod, int32_emod, ← Int.add_emod])

theorem int32_range (i : Int) : -2 ^ 31 ≤ int32 i ∧ int32 i < 2 ^ 31 := by
  have h₀ : 0 ≤ i % 2 ^ 32 := Int.emod_nonneg _ (by decide)
  have h₁ : i % 2 ^ 32 < 2 ^ 32 := Int.emod_lt_of_pos _ (by decide)
  unfold int32 toInt32
  rw [Int.toNat_of_nonneg h₀]
  split <;> omega

/-- An `int` holds every value of its range as it is. -/
theorem int32_of_range {i : Int} (h₀ : -2 ^ 31 ≤ i) (h₁ : i < 2 ^ 31) : int32 i = i := by
  unfold int32 toInt32
  rcases Int.lt_or_le i 0 with hi | hi
  · have he : i % 2 ^ 32 = i + 2 ^ 32 := by omega
    rw [he, Int.toNat_of_nonneg (by omega)]
    split <;> omega
  · have he : i % 2 ^ 32 = i := Int.emod_eq_of_lt hi (by omega)
    rw [he, Int.toNat_of_nonneg hi]
    split <;> omega

theorem int32_int32 (i : Int) : int32 (int32 i) = int32 i :=
  int32_of_range (int32_range i).1 (int32_range i).2

/-! ## An `int` in memory -/

/-- The four bytes of the `int` `v`, least significant first. -/
def intBytes (v : Int) : List UInt8 :=
  let w := (v % 2 ^ 32).toNat
  [w.toUInt8, (w / 2 ^ 8).toUInt8, (w / 2 ^ 16).toUInt8, (w / 2 ^ 24).toUInt8]

theorem length_intBytes (v : Int) : (intBytes v).length = 4 := rfl

/-- The word of the four bytes, read back as an `int`, is `v` as an `int` holds it. -/
theorem toInt32_word32_intBytes (v : Int) :
    toInt32 (word32 ((intBytes v).getD 0 0) ((intBytes v).getD 1 0) ((intBytes v).getD 2 0)
      ((intBytes v).getD 3 0)) = int32 v := by
  have h₀ : 0 ≤ v % 2 ^ 32 := Int.emod_nonneg _ (by decide)
  have h₁ : v % 2 ^ 32 < 2 ^ 32 := Int.emod_lt_of_pos _ (by decide)
  have hw : (v % 2 ^ 32).toNat < 2 ^ 32 := by omega
  have hword : ∀ w : Nat, w < 2 ^ 32 →
      word32 w.toUInt8 (w / 2 ^ 8).toUInt8 (w / 2 ^ 16).toUInt8 (w / 2 ^ 24).toUInt8 = w := by
    intro w hw
    simp only [word32, Nat.toUInt8, UInt8.toNat_ofNat']
    omega
  simp only [intBytes, List.getD_cons_zero, List.getD_cons_succ]
  rw [hword _ hw]
  rfl

/-! ## Writable entries -/

namespace Vm

/-- `t`'s entry for `va` is present and writable, in a page table that exists: a user write
of `va` goes through. -/
def Writable (s : Vm) (t : Tid) (va : Nat) : Prop :=
  ∃ pd, (s.thread t).bind (·.pagedir) = some pd ∧ pd.hasTable va ∧ (pd.entry va).present = true ∧
    (pd.entry va).writable = true

theorem Writable.live {s : Vm} {t : Tid} {va : Nat} (h : s.Writable t va) : (s.thread t).isSome := by
  obtain ⟨pd, hpd, -⟩ := h
  cases ht : s.thread t with
  | none => rw [ht] at hpd; cases hpd
  | some _ => rfl

/-- Setting the accessed and dirty bits of one entry keeps every entry writable. -/
theorem Writable.setPagedir_touch {s : Vm} {t t' : Tid} {va va' : Nat} {pd : Pagedir}
    (hpd : (s.thread t).bind (·.pagedir) = some pd) (h : pd.hasTable va) (accessed dirty : Bool)
    (hw : s.Writable t' va') :
    (s.setPagedir t (pd.write va { pd.entry va with accessed, dirty } h)).Writable t' va' := by
  obtain ⟨pd', hpd', ht', hp', hw'⟩ := hw
  by_cases htt : t' = t
  · subst htt
    rw [hpd] at hpd'
    cases hpd'
    obtain ⟨th, hth, -⟩ := Option.bind_eq_some_iff.mp hpd
    refine ⟨pd.write va { pd.entry va with accessed, dirty } h,
      by rw [thread_setPagedir, if_pos rfl, hth]; rfl, ht', ?_⟩
    rw [Pagedir.entry_write]
    split
    · rename_i hsame
      have he : pd.entry va' = pd.entry va := by unfold Pagedir.entry; rw [hsame]
      rw [← he]
      exact ⟨hp', hw'⟩
    · exact ⟨hp', hw'⟩
  · exact ⟨pd', by rw [thread_setPagedir, if_neg htt]; exact hpd', ht', hp', hw'⟩

/-- The entries of one page are one entry. -/
theorem Writable.of_page {s : Vm} {t : Tid} {va va' : Nat} (h : s.Writable t va)
    (hpage : pg_round_down va' = pg_round_down va) : s.Writable t va' := by
  obtain ⟨pd, hpd, ht, hp, hw⟩ := h
  have he : pd.entry va' = pd.entry va := by unfold Pagedir.entry; rw [hpage]
  have ht' : pd.hasTable va' := by
    unfold Pagedir.hasTable at ht ⊢
    rw [← Pagedir.pd_no_pg_round_down va', hpage, Pagedir.pd_no_pg_round_down va]
    exact ht
  exact ⟨pd, hpd, ht', by rw [he]; exact hp, by rw [he]; exact hw⟩

theorem Writable.setThread {s : Vm} {t t' : Tid} {va : Nat} {f : VmThread → VmThread}
    (htid : ∀ th, (f th).tid = th.tid) (hpd : ∀ th, (f th).pagedir = th.pagedir)
    (hw : s.Writable t' va) : (s.setThread t f).Writable t' va := by
  obtain ⟨pd, h, rest⟩ := hw
  refine ⟨pd, ?_, rest⟩
  rw [thread_setThread t t' f htid]
  split
  · rename_i htt
    subst htt
    cases hth : s.thread t' with
    | none => rw [hth] at h; cases h
    | some th => rw [hth] at h; simpa [hpd] using h
  · exact h

end Vm

/-- An access that does not fault keeps every entry writable. -/
theorem kernelAccess_writable {s s' : Vm} {t t' : Tid} {va va' ka : Nat} {write : Bool}
    (h : kernelAccess s t va write = some (s', ka)) (hw : s.Writable t' va') : s'.Writable t' va' := by
  unfold kernelAccess at h
  split at h
  · cases h
    exact hw
  · split at h
    · cases h
    · rename_i pd hpd
      dsimp only at h
      split at h
      · cases h
        exact hw.setPagedir_touch hpd _ _ _
      · cases h

/-- A byte the kernel reads without faulting is reached without the fault handler. -/
theorem kernelAccess_of_kernelByte {k : Kernel} {t va : Nat} (h : (k.kernelByte t va).isSome) :
    ∃ vm ka, kernelAccess k.vm t va false = some (vm, ka) := by
  unfold Kernel.kernelByte at h
  unfold kernelAccess
  split
  · exact ⟨_, _, rfl⟩
  · rename_i hk
    rw [if_neg hk] at h
    split
    · rename_i hnone
      rw [hnone] at h
      cases h
    · rename_i pd hpd
      rw [hpd] at h
      dsimp only at h
      split at h
      · rename_i hpres
        rw [dif_pos ⟨Pagedir.hasTable_of_present hpres, hpres, rfl⟩]
        exact ⟨_, _, rfl⟩
      · cases h

theorem readByte_writable {k k' : Kernel} {t t' : Tid} {va va' : Nat} {o : FaultAlloc} {b : UInt8}
    (hb : (k.kernelByte t va).isSome) (h : readByte t o va k = .ok b k')
    (hw : k.vm.Writable t' va') : k'.vm.Writable t' va' := by
  obtain ⟨vm, ka, hka⟩ := kernelAccess_of_kernelByte hb
  have hacc : access t o va false k = .ok ka { k with vm } := by
    simp only [access, hka]
  unfold readByte at h
  rw [EStateM.bind_ok hacc] at h
  cases h
  exact kernelAccess_writable hka hw

theorem readWord_writable {k k' : Kernel} {t t' : Tid} {va va' w w' : Nat} {o : FaultAlloc}
    (hword : k.kernelWord t va = some w) (h : readWord t o va k = .ok w' k')
    (hw : k.vm.Writable t' va') : k'.vm.Writable t' va' := by
  obtain ⟨b₀, b₁, b₂, b₃, h₀, h₁, h₂, h₃, -⟩ := Kernel.kernelWord_eq_some hword
  obtain ⟨k₁, e₁, t₁, -⟩ := readByte_of_kernelByte o h₀
  obtain ⟨k₂, e₂, t₂, -⟩ := readByte_of_kernelByte o ((t₁.kernelByte t _).trans h₁)
  have t₁₂ := t₁.trans t₂
  obtain ⟨k₃, e₃, t₃, -⟩ := readByte_of_kernelByte o ((t₁₂.kernelByte t _).trans h₂)
  have t₁₃ := t₁₂.trans t₃
  obtain ⟨k₄, e₄, -, -⟩ := readByte_of_kernelByte o ((t₁₃.kernelByte t _).trans h₃)
  unfold readWord at h
  rw [EStateM.bind_ok e₁, EStateM.bind_ok e₂, EStateM.bind_ok e₃, EStateM.bind_ok e₄] at h
  cases h
  have w₁ := readByte_writable (by rw [h₀]; rfl) e₁ hw
  have w₂ := readByte_writable (by rw [t₁.kernelByte, h₁]; rfl) e₂ w₁
  have w₃ := readByte_writable (by rw [t₁₂.kernelByte, h₂]; rfl) e₃ w₂
  exact readByte_writable (by rw [t₁₃.kernelByte, h₃]; rfl) e₄ w₃

/-! ## User writes -/

/-- Two addresses of one page are the same byte exactly when their offsets are. -/
theorem eq_of_pg_ofs_eq {x va : Nat} (hpage : pg_round_down x = pg_round_down va)
    (hofs : pg_ofs x = pg_ofs va) : x = va := by
  rw [← pg_round_down_add_ofs x, ← pg_round_down_add_ofs va, hpage, hofs]

/-- A user write of `va` through a writable entry: the byte lands in `va`'s frame, and the other
bytes of `va`'s page, every writable entry, the open files and the blocks stay as they were. -/
theorem kernelStep_write {k : Kernel} {t : Tid} {va : Nat} (b : UInt8) (hva : va < PHYS_BASE)
    (hw : k.vm.Writable t va) :
    ∃ k', kernelStep k (.vm (.access t va (some b))) = some k' ∧ k'.procFiles = k.procFiles ∧
      k'.file_heap = k.file_heap ∧ (∀ t' va', k.vm.Writable t' va' → k'.vm.Writable t' va') ∧
      ∀ x < PHYS_BASE, pg_round_down x = pg_round_down va →
        k'.kernelByte t x = if x = va then some b else k.kernelByte t x := by
  have hnone : (k.vm.thread t).isNone = false := by
    have := hw.live
    cases h : k.vm.thread t <;> simp_all
  obtain ⟨pd, hpd, ht, hp, hwr⟩ := hw
  let pd' := pd.write va { pd.entry va with accessed := true, dirty := (pd.entry va).dirty || true } ht
  let vm' : Vm := { k.vm.setPagedir t pd' with
    mem := Function.update k.vm.mem ((pd.entry va).kpage + pg_ofs va) b }
  have hua : userAccess k.vm t va (some b) = some vm' := by
    unfold userAccess
    rw [hpd]
    dsimp only
    rw [dif_pos ⟨ht, hp⟩, if_neg (by simp [hwr])]
    rfl
  refine ⟨{ k with vm := vm' }, ?_, rfl, rfl, fun t' va' h => Vm.Writable.setPagedir_touch hpd ht _ _ h,
    fun x hx hpage => ?_⟩
  · have hvm : vmStep k.vm (.access t va (some b)) = some vm' := by
      simp only [vmStep, hnone, Bool.false_eq_true, if_false, hua]
    simp only [kernelStep, hvm, Option.map_some]
  · -- `x` is on `va`'s page, so both directories map it to `va`'s frame
    obtain ⟨th, hth, -⟩ := Option.bind_eq_some_iff.mp hpd
    have hpd₁ : (vm'.thread t).bind (·.pagedir) = some pd' := by
      show ((k.vm.setPagedir t pd').thread t).bind (·.pagedir) = some pd'
      rw [thread_setPagedir, if_pos rfl, hth]
      rfl
    have hex : pd.entry x = pd.entry va := by unfold Pagedir.entry; rw [hpage]
    have hex' : pd'.entry x = { pd.entry va with accessed := true, dirty := (pd.entry va).dirty || true } := by
      show (pd.write _ _ _).entry x = _
      rw [Pagedir.entry_write, if_pos hpage]
    unfold Kernel.kernelByte
    rw [if_neg (show ¬PHYS_BASE ≤ x by omega), hpd₁, hpd]
    dsimp only
    rw [hex', hex]
    simp only [hp, if_true]
    show some (Function.update k.vm.mem _ b _) = _
    by_cases hxv : x = va
    · subst hxv
      simp
    · have hofs : pg_ofs x ≠ pg_ofs va := fun h => hxv (eq_of_pg_ofs_eq hpage h)
      rw [if_neg hxv, Function.update_of_ne (by omega), if_neg (show ¬PHYS_BASE ≤ x by omega)]

/-- User writes of the bytes `bs` from `va` on. -/
def storeBytes (t : Tid) : Nat → List UInt8 → List KernelOp
  | _, [] => []
  | va, b :: bs => .vm (.access t va (some b)) :: storeBytes t (va + 1) bs

/-- Writes into one page `P` through writable entries: the page then holds `bs` from `va` on and
its other bytes as before. -/
theorem kernelRun_storeBytes {P : Nat} {t : Tid} :
    ∀ (bs : List UInt8) {k : Kernel} {va : Nat}, va + bs.length ≤ PHYS_BASE →
      (∀ i < bs.length, k.vm.Writable t (va + i)) → (∀ i < bs.length, pg_round_down (va + i) = P) →
      ∃ k', kernelRun k (storeBytes t va bs) = some k' ∧ k'.procFiles = k.procFiles ∧
        k'.file_heap = k.file_heap ∧ (∀ t' va', k.vm.Writable t' va' → k'.vm.Writable t' va') ∧
        ∀ x < PHYS_BASE, pg_round_down x = P →
          k'.kernelByte t x = if va ≤ x ∧ x < va + bs.length then some (bs.getD (x - va) 0)
            else k.kernelByte t x
  | [], k, va, _, _, _ => ⟨k, rfl, rfl, rfl, fun _ _ h => h, fun x _ _ => by simp⟩
  | b :: bs, k, va, hlen, hw, hpage => by
    simp only [List.length_cons] at hlen hw hpage
    have hva : pg_round_down va = P := by simpa using hpage 0 (by omega)
    obtain ⟨k₁, e₁, hf₁, hh₁, hw₁, hb₁⟩ := kernelStep_write b (show va < PHYS_BASE by omega)
      (show k.vm.Writable t va by simpa using hw 0 (by omega))
    obtain ⟨k', e', hf', hh', hw', hb'⟩ := kernelRun_storeBytes bs (k := k₁)
      (show va + 1 + bs.length ≤ PHYS_BASE by omega)
      (fun i hi => hw₁ _ _ (by rw [Nat.add_right_comm]; exact hw (i + 1) (by omega)))
      (fun i hi => by rw [Nat.add_right_comm]; exact hpage (i + 1) (by omega))
    refine ⟨k', ?_, hf'.trans hf₁, hh'.trans hh₁, fun t' va' h => hw' _ _ (hw₁ _ _ h),
      fun x hx hxP => ?_⟩
    · simp only [storeBytes, kernelRun, e₁, Option.bind_some, e']
    · rw [hb' x hx hxP, hb₁ x hx (hxP.trans hva.symm)]
      by_cases h₁ : x = va
      · subst h₁
        simp
      · by_cases h₂ : va + 1 ≤ x ∧ x < va + 1 + bs.length
        · have hx' : x - va = x - (va + 1) + 1 := by omega
          rw [if_pos h₂, if_pos (by simp; omega), hx', List.getD_cons_succ]
        · rw [if_neg h₂, if_neg h₁, if_neg (by simp; omega)]

/-- The word at `va` is the four bytes there. -/
theorem kernelWord_of_bytes {k : Kernel} {t va : Nat} {b₀ b₁ b₂ b₃ : UInt8} (hva : va + 4 ≤ PHYS_BASE)
    (h₀ : k.kernelByte t va = some b₀) (h₁ : k.kernelByte t (va + 1) = some b₁)
    (h₂ : k.kernelByte t (va + 2) = some b₂) (h₃ : k.kernelByte t (va + 3) = some b₃) :
    k.kernelWord t va = some (word32 b₀ b₁ b₂ b₃) := by
  unfold Kernel.kernelWord
  rw [ptr_add_of_lt_phys (by omega), ptr_add_of_lt_phys (by omega), ptr_add_of_lt_phys (by omega),
    h₀, h₁, h₂, h₃]

theorem kernelWord_congr {k k' : Kernel} {t va : Nat} (hva : va + 4 ≤ PHYS_BASE)
    (h : ∀ i < 4, k'.kernelByte t (va + i) = k.kernelByte t (va + i)) :
    k'.kernelWord t va = k.kernelWord t va := by
  unfold Kernel.kernelWord
  rw [ptr_add_of_lt_phys (by omega), ptr_add_of_lt_phys (by omega), ptr_add_of_lt_phys (by omega),
    h 1 (by omega), h 2 (by omega), h 3 (by omega)]
  have h₀ := h 0 (by omega)
  rw [Nat.add_zero] at h₀
  rw [h₀]

/-! ## `open` and `close` -/

namespace Kernel

/-- `k'` is `k` after reads: `Touched`, and every writable entry is still writable. -/
structure Kept (k k' : Kernel) : Prop where
  touched : k.Touched k'
  writable : ∀ t va, k.vm.Writable t va → k'.vm.Writable t va

theorem Kept.trans {k₁ k₂ k₃ : Kernel} (h₁ : k₁.Kept k₂) (h₂ : k₂.Kept k₃) : k₁.Kept k₃ :=
  ⟨h₁.touched.trans h₂.touched, fun t va h => h₂.writable t va (h₁.writable t va h)⟩

end Kernel

theorem readWord_kept {k : Kernel} {t va w : Nat} (o : FaultAlloc) (h : k.kernelWord t va = some w) :
    ∃ k', readWord t o va k = .ok w k' ∧ k.Kept k' := by
  obtain ⟨k', hr, ht, -⟩ := readWord_of_kernelWord o h
  exact ⟨k', hr, ht, fun _ _ hw => readWord_writable h hr hw⟩

/-- `syscall_handler_of_number`, with the entries kept writable. -/
theorem syscall_handler_kept {k : Kernel} {t esp n : Nat} (o : SysOracle) (hesp : 0 < esp)
    (htop : esp < PHYS_BASE) (hnum : k.kernelWord t esp = some n) (h0 : 0 ≤ toInt32 n)
    (hmax : toInt32 n < MAX_SYSCALL) (hexit : toInt32 n ≠ SYS_EXIT) :
    ∃ k', k.Kept k' ∧ syscall_handler t esp o k = dispatch t esp (toInt32 n) o k' := by
  have c := check_ptr_of_kernelWord (by omega) htop hnum
  obtain ⟨k₁, r, kept⟩ := readWord_kept o.fault hnum
  have hesp' : k₁.Kept { k₁ with vm := k₁.vm.setThread t fun th => { th with current_esp := esp } } :=
    ⟨touched_current_esp k₁ t esp, fun _ _ hw => hw.setThread (fun _ => rfl) (fun _ => rfl)⟩
  refine ⟨_, kept.trans hesp', ?_⟩
  unfold syscall_handler
  rw [EStateM.bind_ok c, EStateM.bind_ok r, handleNumber_of_ne_exit o h0 hmax hexit]

theorem dispatch_open (t esp : Nat) (o : SysOracle) :
    dispatch t esp SYS_OPEN o = sys_open t esp o := rfl

theorem dispatch_close (t esp : Nat) (o : SysOracle) :
    dispatch t esp SYS_CLOSE o = sys_close t esp o := rfl

/-- `open (name)` that `filesys_open` and `malloc` let through: the block is taken, the record
goes to the back of the list with the counter, and the counter moves on. -/
theorem sys_open_ok {k : Kernel} {t esp name opened inode : Nat} {o : SysOracle} (hesp : 0 < esp)
    (htop : esp + 8 ≤ PHYS_BASE) (hname : k.kernelWord t (esp + 4) = some name) (h0 : name ≠ 0)
    (hnuser : name < PHYS_BASE) (hnb : (k.kernelByte t name).isSome)
    (hopen : o.fsOpen = some (opened, inode)) (hfree : k.file_heap opened = none)
    (hmalloc : o.mallocOk = true) :
    ∃ k₁, k.Kept k₁ ∧ sys_open t esp o k = .ok (.ret (some (k.procFiles t).file_fd))
      { k₁ with file_heap := Function.update k.file_heap opened (some ⟨inode, 0, false⟩),
                procFiles := Function.update k.procFiles t ((k.procFiles t).push opened) } := by
  have hadd : ptr_add esp 4 = esp + 4 := ptr_add_of_lt_phys (by omega)
  have c₄ := check_ptr_of_kernelWord (by omega) (by omega) hname
  obtain ⟨k₁, r₁, kept⟩ := readWord_kept o.fault hname
  have cf := check_ptr_ok h0 hnuser (by rw [kept.touched.kernelByte]; exact hnb)
  refine ⟨k₁, kept, ?_⟩
  unfold sys_open arg
  rw [hadd, EStateM.bind_ok c₄, EStateM.bind_ok r₁, EStateM.bind_ok cf]
  simp [hopen, kept.touched.file_heap, kept.touched.procFiles, hfree, hmalloc]
  rfl

/-- `close (fd)` of an open descriptor: the block is freed and the record dropped. -/
theorem sys_close_ok {k : Kernel} {t esp fd : Nat} {of : OpenFile} (o : SysOracle) (hesp : 0 < esp)
    (htop : esp + 8 ≤ PHYS_BASE) (hfd : k.kernelWord t (esp + 4) = some fd)
    (hfind : find_file k t (toInt32 fd) = some of) (hlive : (k.file_heap of.file).isSome) :
    ∃ k₁, k.Kept k₁ ∧ sys_close t esp o k = .ok (.ret none)
      { k₁ with file_heap := Function.update k.file_heap of.file none,
                procFiles := Function.update k.procFiles t
                  { k.procFiles t with files := (k.procFiles t).files.erase of } } := by
  have hadd : ptr_add esp 4 = esp + 4 := ptr_add_of_lt_phys (by omega)
  have c₄ := check_ptr_of_kernelWord (by omega) (by omega) hfd
  obtain ⟨k₁, r₁, kept⟩ := readWord_kept o.fault hfd
  obtain ⟨f, hf⟩ := Option.isSome_iff_exists.mp hlive
  have hfind₁ : find_file k₁ t (toInt32 fd) = some of := by
    unfold find_file
    rw [kept.touched.procFiles]
    exact hfind
  have hclose : file_close of.file k₁ =
      .ok () { k₁ with file_heap := Function.update k₁.file_heap of.file none } := by
    unfold file_close
    rw [EStateM.bind_ok (fileAt_of_some (by rw [kept.touched.file_heap]; exact hf))]
    rfl
  refine ⟨k₁, kept, ?_⟩
  unfold sys_close arg
  rw [hadd, EStateM.bind_ok c₄, EStateM.bind_ok r₁, EStateM.bind_ok (EStateM.get_apply k₁)]
  simp only [hfind₁]
  rw [EStateM.bind_ok hclose]
  simp [kept.touched.file_heap, kept.touched.procFiles]

/-- A call that returns to the caller is a step of the system. -/
theorem kernelStep_of_ret {k k' : Kernel} {t esp : Nat} {o : SysOracle} {eax : Option Int}
    (hlive : (k.vm.thread t).isSome) (h : syscall_handler t esp o k = .ok (.ret eax) k') :
    kernelStep k (.syscall t esp o) = some k' := by
  have hnone : (k.vm.thread t).isNone = false := by
    cases ht : k.vm.thread t <;> simp_all
  simp [kernelStep, hnone, h]

/-! ## The loop -/

/-- Where the loop's `close` has its number and argument, below `open`'s (`openEsp`), and the
name `open`'s argument points to, all on the stack page. -/
def closeEsp : Nat := PHYS_BASE - 48

def fdName : Nat := PHYS_BASE - 32

/-- The block `filesys_open` returns to the loop's `open` (`openOracle`). -/
def fdBlock : Nat := 0xc0300000

theorem closeEsp_eq : closeEsp = 3221225424 := rfl

theorem openEsp_eq : openEsp = 3221225456 := rfl

theorem fdName_eq : fdName = 3221225440 := rfl

/-- Every address of the top 4 kB below `PHYS_BASE` is on the stack page. -/
theorem pg_round_down_stack {x : Nat} (h₁ : PHYS_BASE - PGSIZE ≤ x) (h₂ : x < PHYS_BASE) :
    pg_round_down x = PHYS_BASE - PGSIZE :=
  pg_round_down_of_le_of_lt (by decide) h₁ (by rw [PGSIZE_eq, PHYS_BASE_eq] at *; omega)

/-- One round of the loop: `fd = open (name)`, store `fd` as `close`'s argument, `close (fd)`. -/
def fdRound (t : Tid) (fd : Int) : List KernelOp :=
  .syscall t openEsp openOracle :: storeBytes t (closeEsp + 4) (intBytes fd) ++
    [.syscall t closeEsp nullOracle]

/-- `m` rounds, the first with the counter at `v`. -/
def fdRounds (t : Tid) : Int → Nat → List KernelOp
  | _, 0 => []
  | v, m + 1 => fdRound t v ++ fdRounds t (int32 (v + 1)) m

/-- The loop's state before a round: `open`'s number and argument and `close`'s number are on
`t`'s stack page, the slot of `close`'s argument is writable, the block `filesys_open` returns
is free, and `t` has no open file and the counter `v`. -/
structure FdReady (t : Tid) (v : Int) (k : Kernel) : Prop where
  open_number : k.kernelWord t openEsp = some 6
  open_name : k.kernelWord t (openEsp + 4) = some fdName
  name_byte : (k.kernelByte t fdName).isSome
  close_number : k.kernelWord t closeEsp = some 12
  slot : ∀ i < 4, k.vm.Writable t (closeEsp + 4 + i)
  free : k.file_heap fdBlock = none
  files : k.procFiles t = ⟨[], v⟩
  counter : int32 v = v

/-- The loop's `open` returns the counter and records it with the block, as a step of the
system that changes no byte `t` reads and no writable entry. -/
theorem FdReady.open_step {t : Tid} {v : Int} {k : Kernel} (hk : FdReady t v k) :
    ∃ k', syscall_handler t openEsp openOracle k = .ok (.ret (some v)) k' ∧
      kernelStep k (.syscall t openEsp openOracle) = some k' ∧
      (∀ x, k'.kernelByte t x = k.kernelByte t x) ∧
      (∀ t' va, k.vm.Writable t' va → k'.vm.Writable t' va) ∧
      k'.procFiles t = ⟨[⟨v, fdBlock⟩], int32 (v + 1)⟩ ∧ (k'.file_heap fdBlock).isSome := by
  obtain ⟨k₁, kept₁, hk₁⟩ := syscall_handler_kept openOracle (by decide) (by decide)
    hk.open_number (by decide) (by decide) (by decide)
  obtain ⟨k₂, kept₂, hk₂⟩ := sys_open_ok (o := openOracle) (by decide) (by decide)
    ((kept₁.touched.kernelWord t _).trans hk.open_name) (by decide) (by decide)
    (by rw [kept₁.touched.kernelByte]; exact hk.name_byte)
    (show openOracle.fsOpen = some (fdBlock, 7) from rfl) (by rw [kept₁.touched.file_heap]; exact hk.free) rfl
  have kept := kept₁.trans kept₂
  have hopen : syscall_handler t openEsp openOracle k = .ok (.ret (some v))
      { k₂ with file_heap := Function.update k.file_heap fdBlock (some ⟨7, 0, false⟩),
                procFiles := Function.update k.procFiles t ⟨[⟨v, fdBlock⟩], int32 (v + 1)⟩ } := by
    rw [hk₁, show toInt32 6 = SYS_OPEN from rfl, dispatch_open, hk₂, kept₁.touched.file_heap,
      kept₁.touched.procFiles, hk.files]
    rfl
  exact ⟨_, hopen, kernelStep_of_ret (hk.slot 0 (by decide)).live hopen, kept.touched.kernelByte t,
    kept.writable, by simp, by simp⟩

/-- The loop's `close` of the one open record, whose descriptor is the argument. -/
theorem close_step {k : Kernel} {t : Tid} {w : Nat} {of : OpenFile} {c : Int}
    (hlive : (k.vm.thread t).isSome) (hnum : k.kernelWord t closeEsp = some 12)
    (hfd : k.kernelWord t (closeEsp + 4) = some w) (hfiles : k.procFiles t = ⟨[of], c⟩)
    (hof : of.fd = toInt32 w) (hblock : (k.file_heap of.file).isSome) :
    ∃ k', kernelStep k (.syscall t closeEsp nullOracle) = some k' ∧
      (∀ x, k'.kernelByte t x = k.kernelByte t x) ∧
      (∀ t' va, k.vm.Writable t' va → k'.vm.Writable t' va) ∧
      k'.procFiles t = ⟨[], c⟩ ∧ k'.file_heap of.file = none := by
  obtain ⟨k₁, kept₁, hk₁⟩ := syscall_handler_kept nullOracle (by decide) (by decide) hnum
    (by decide) (by decide) (by decide)
  have hfind : find_file k₁ t (toInt32 w) = some of := by
    unfold find_file
    rw [kept₁.touched.procFiles, hfiles]
    simp [hof]
  obtain ⟨k₂, kept₂, hk₂⟩ := sys_close_ok nullOracle (by decide) (by decide)
    ((kept₁.touched.kernelWord t _).trans hfd) hfind (by rw [kept₁.touched.file_heap]; exact hblock)
  have kept := kept₁.trans kept₂
  have hclose : syscall_handler t closeEsp nullOracle k = .ok (.ret none)
      { k₂ with file_heap := Function.update k.file_heap of.file none,
                procFiles := Function.update k.procFiles t ⟨[], c⟩ } := by
    rw [hk₁, show toInt32 12 = SYS_CLOSE from rfl, dispatch_close, hk₂, kept₁.touched.file_heap,
      kept₁.touched.procFiles, hfiles]
    simp
  exact ⟨_, kernelStep_of_ret hlive hclose, kept.touched.kernelByte t, kept.writable, by simp, by simp⟩

/-- Storing `fd` in the slot of `close`'s argument: the slot's word reads back as `fd`, and the
other bytes of the stack page stay. -/
theorem store_fd {k : Kernel} {t : Tid} (fd : Int) (hw : ∀ i < 4, k.vm.Writable t (closeEsp + 4 + i)) :
    ∃ k', kernelRun k (storeBytes t (closeEsp + 4) (intBytes fd)) = some k' ∧
      k'.procFiles = k.procFiles ∧ k'.file_heap = k.file_heap ∧
      (∀ t' va, k.vm.Writable t' va → k'.vm.Writable t' va) ∧
      (∃ w, k'.kernelWord t (closeEsp + 4) = some w ∧ toInt32 w = int32 fd) ∧
      ∀ x, PHYS_BASE - PGSIZE ≤ x → x < PHYS_BASE → (x < closeEsp + 4 ∨ closeEsp + 8 ≤ x) →
        k'.kernelByte t x = k.kernelByte t x := by
  have hP : ∀ x, PHYS_BASE - PGSIZE ≤ x → x < PHYS_BASE → pg_round_down x = PHYS_BASE - PGSIZE :=
    fun x h₁ h₂ => pg_round_down_stack h₁ h₂
  obtain ⟨k', e, hf, hh, hkw, hb⟩ := kernelRun_storeBytes (P := PHYS_BASE - PGSIZE) (t := t)
    (intBytes fd) (k := k) (show closeEsp + 4 + (intBytes fd).length ≤ PHYS_BASE by
      rw [length_intBytes]; decide)
    (fun i hi => hw i (by rwa [length_intBytes] at hi))
    (fun i hi => hP _ (by rw [closeEsp_eq, PGSIZE_eq, PHYS_BASE_eq]; omega)
      (by rw [length_intBytes] at hi; rw [closeEsp_eq, PHYS_BASE_eq]; omega))
  rw [length_intBytes] at hb
  have hslot : ∀ i < 4, k'.kernelByte t (closeEsp + 4 + i) = some ((intBytes fd).getD i 0) := by
    intro i hi
    rw [hb _ (by rw [closeEsp_eq, PHYS_BASE_eq]; omega)
      (hP _ (by rw [closeEsp_eq, PGSIZE_eq, PHYS_BASE_eq]; omega) (by rw [closeEsp_eq, PHYS_BASE_eq]; omega)),
      if_pos (by omega), Nat.add_sub_cancel_left]
  refine ⟨k', e, hf, hh, hkw, ⟨_, kernelWord_of_bytes (by rw [closeEsp_eq, PHYS_BASE_eq]; omega)
    (hslot 0 (by omega)) (hslot 1 (by omega)) (hslot 2 (by omega)) (hslot 3 (by omega)),
    toInt32_word32_intBytes fd⟩, fun x h₁ h₂ h₃ => ?_⟩
  rw [hb x h₂ (hP x h₁ h₂), if_neg (by omega)]

theorem kernelRun_append (k : Kernel) (ops ops' : List KernelOp) :
    kernelRun k (ops ++ ops') = (kernelRun k ops).bind fun k' => kernelRun k' ops' := by
  induction ops generalizing k with
  | nil => rfl
  | cons op ops ih =>
    simp only [List.cons_append, kernelRun]
    cases kernelStep k op with
    | none => rfl
    | some k₁ => exact ih k₁

/-- One round moves the counter on by one and leaves the loop ready again. -/
theorem FdReady.round {t : Tid} {v : Int} {k : Kernel} (hk : FdReady t v k) :
    ∃ k', kernelRun k (fdRound t v) = some k' ∧ FdReady t (int32 (v + 1)) k' := by
  obtain ⟨k₁, -, hs₁, hb₁, hw₁, hf₁, hh₁⟩ := hk.open_step
  obtain ⟨k₂, hs₂, hf₂, hh₂, hw₂, ⟨w, hword, hw32⟩, hb₂⟩ :=
    store_fd (k := k₁) v fun i hi => hw₁ _ _ (hk.slot i hi)
  have hsame : ∀ va, PHYS_BASE - PGSIZE ≤ va → va + 4 ≤ PHYS_BASE →
      (va + 4 ≤ closeEsp + 4 ∨ closeEsp + 8 ≤ va) → k₂.kernelWord t va = k.kernelWord t va :=
    fun va h₁ h₂ h₃ => kernelWord_congr h₂ fun i hi =>
      (hb₂ _ (by omega) (by omega) (by omega)).trans (hb₁ _)
  have hslot₂ := fun i hi => hw₂ _ _ (hw₁ _ _ (hk.slot i hi))
  obtain ⟨k₃, hs₃, hb₃, hw₃, hf₃, hh₃⟩ := close_step (hslot₂ 0 (by decide)).live
    ((hsame closeEsp (by decide) (by decide) (by omega)).trans hk.close_number) hword
    (by rw [hf₂, hf₁]) (by rw [hw32, hk.counter]) (by rw [hh₂]; exact hh₁)
  have hword₃ : ∀ va, k₃.kernelWord t va = k₂.kernelWord t va := fun va => by
    unfold Kernel.kernelWord
    rw [hb₃, hb₃, hb₃, hb₃]
  refine ⟨k₃, ?_, ⟨?_, ?_, ?_, ?_, fun i hi => hw₃ _ _ (hslot₂ i hi), hh₃, hf₃, int32_int32 _⟩⟩
  · simp only [fdRound, kernelRun, hs₁, Option.bind_some, kernelRun_append, hs₂, hs₃]
  · rw [hword₃, hsame openEsp (by decide) (by decide) (by decide)]
    exact hk.open_number
  · rw [hword₃, hsame (openEsp + 4) (by decide) (by decide) (by decide)]
    exact hk.open_name
  · rw [hb₃, hb₂ _ (by decide) (by decide) (by decide), hb₁]
    exact hk.name_byte
  · rw [hword₃, hsame closeEsp (by decide) (by decide) (by omega)]
    exact hk.close_number

/-- The run lemma: `m` rounds from counter `v` leave the loop ready with counter
`int32 (v + m)`. -/
theorem fdRounds_run {t : Tid} : ∀ (m : Nat) {v : Int} {k : Kernel}, FdReady t v k →
    ∃ k', kernelRun k (fdRounds t v m) = some k' ∧ FdReady t (int32 (v + m)) k'
  | 0, v, k, hk => ⟨k, rfl, by simpa [hk.counter] using hk⟩
  | m + 1, v, k, hk => by
    obtain ⟨k₁, e₁, hk₁⟩ := hk.round
    obtain ⟨k', e', hk'⟩ := fdRounds_run m hk₁
    refine ⟨k', by rw [fdRounds, kernelRun_append, e₁, Option.bind_some, e'], ?_⟩
    rwa [int32_int32_add, add_assoc, add_comm (1 : Int), ← Nat.cast_succ] at hk'

/-- After `m` rounds of `open` and `close` from counter `v`, the next `open` returns
`int32 (v + m)` and records it: the descriptor counter wraps like the `int` it is. -/
theorem open_returns_wrapped_counter {t : Tid} {v : Int} {k : Kernel} (hk : FdReady t v k) (m : Nat) :
    ∃ k', kernelRun k (fdRounds t v m) = some k' ∧ ∃ k'',
      syscall_handler t openEsp openOracle k' = .ok (.ret (some (int32 (v + m)))) k'' ∧
      kernelStep k' (.syscall t openEsp openOracle) = some k'' ∧
      (k''.procFiles t).files = [⟨int32 (v + m), fdBlock⟩] := by
  obtain ⟨k', e', hk'⟩ := fdRounds_run m hk
  obtain ⟨k'', hopen, hstep, -, -, hfiles, -⟩ := hk'.open_step
  exact ⟨k', e', k'', hopen, hstep, by rw [hfiles]⟩

/-! ## A loop that wraps the counter -/

/-- After `stackRun`, thread 1 pushes the number and argument of `open (name)` and the number of
`close`: the first state of the loop. -/
def fdOps : List KernelOp :=
  stackRun.map .vm ++
    [.vm (.access 1 openEsp (some 6)), .vm (.access 1 (openEsp + 4) (some 0xe0)),
     .vm (.access 1 (openEsp + 5) (some 0xff)), .vm (.access 1 (openEsp + 6) (some 0xff)),
     .vm (.access 1 (openEsp + 7) (some 0xbf)), .vm (.access 1 closeEsp (some 12))]

def fdKernel : Kernel := (kernelRun (kernelBoot swapBoot) fdOps).getD (kernelBoot swapBoot)

theorem fdKernel_reachable : KernelReachable fdKernel := by
  have hrun : kernelRun (kernelBoot swapBoot) fdOps = some fdKernel := by rfl
  exact KernelReachable.of_kernelRun (vmInit_bootVm _ _ _ _ _ _ _ _) hrun

theorem fdKernel_ready : FdReady 1 2 fdKernel := by
  have hstack : fdKernel.vm.Writable 1 (PHYS_BASE - PGSIZE) := ⟨_, rfl, by decide, rfl, rfl⟩
  refine ⟨rfl, rfl, rfl, rfl, fun i hi => hstack.of_page ?_, rfl, rfl, by decide⟩
  rw [pg_round_down_stack (by rw [closeEsp_eq, PGSIZE_eq, PHYS_BASE_eq]; omega)
      (by rw [closeEsp_eq, PHYS_BASE_eq]; omega),
    pg_round_down_stack le_rfl (by rw [PGSIZE_eq, PHYS_BASE_eq]; omega)]

/-- After `2 ^ 32 - 3` rounds from the first state, `open` of a file that exists returns `-1`,
the value of a failed `open`, and the file stays open under it. -/
theorem open_returns_minus_one :
    FdReady 1 2 fdKernel ∧ ∃ k', kernelRun fdKernel (fdRounds 1 2 (2 ^ 32 - 3)) = some k' ∧
      KernelReachable k' ∧ ∃ k'', syscall_handler 1 openEsp openOracle k' = .ok (.ret (some (-1))) k'' ∧
        kernelStep k' (.syscall 1 openEsp openOracle) = some k'' ∧
        (k''.procFiles 1).files = [⟨-1, fdBlock⟩] := by
  have hk := fdKernel_ready
  obtain ⟨k', e', k'', hopen, hstep, hfiles⟩ := open_returns_wrapped_counter hk (2 ^ 32 - 3)
  have hwrap : int32 (2 + ((2 ^ 32 - 3 : Nat) : Int)) = -1 := by decide
  rw [hwrap] at hopen hfiles
  exact ⟨hk, k', e', fdKernel_reachable.append_run (run_of_kernelRun e'), k'', hopen, hstep, hfiles⟩

/-- The descriptor of the first `open` comes back: after `2 ^ 32` rounds `open` returns `2`
again. -/
theorem open_reissues_first_descriptor :
    (∃ k₁, syscall_handler 1 openEsp openOracle fdKernel = .ok (.ret (some 2)) k₁) ∧
      ∃ k', kernelRun fdKernel (fdRounds 1 2 (2 ^ 32)) = some k' ∧ KernelReachable k' ∧
        ∃ k'', syscall_handler 1 openEsp openOracle k' = .ok (.ret (some 2)) k'' := by
  obtain ⟨k₁, hfirst, -⟩ := fdKernel_ready.open_step
  obtain ⟨k', e', hk'⟩ := fdRounds_run (2 ^ 32) fdKernel_ready
  have hwrap : int32 (2 + ((2 ^ 32 : Nat) : Int)) = 2 := by decide
  rw [hwrap] at hk'
  obtain ⟨k'', hagain, -⟩ := hk'.open_step
  exact ⟨⟨k₁, hfirst⟩, k', e', fdKernel_reachable.append_run (run_of_kernelRun e'), k'', hagain⟩

end Pintos
