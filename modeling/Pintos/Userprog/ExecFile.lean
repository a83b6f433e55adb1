import Pintos.Filesys.OpenCounts
import Pintos.Filesys.CreateLeak
import Pintos.Filesys.InodeData
import Pintos.Lib.Run

/-!
# Running executables are write-protected (`userprog/process.c`, `threads/thread.c`)

`load` opens the executable with `filesys_open`, calls `file_deny_write` on it and keeps it in
`exec_file`, whether or not the rest of the load succeeds; `thread_exit` calls
`file_allow_write` and `file_close` on it, then closes the process's open files. The system
here is the file system with the live user processes, whose calls run one at a time as
`filesys_lock` orders them, from a freshly booted file system.

`SysInv` is the invariant of every reachable state: the blocks a process holds are live and
its own, executables deny writes and open files do not, and every block that denies writes is
a live process's executable. With `Counted []` it gives `deny_write_cnt_eq_running`: the
`deny_write_cnt` of an open inode is the number of live processes running it.
-/

namespace Pintos

open EStateM Filesys

/-- A user thread as the file system sees it: its `exec_file` and its open files. -/
structure Proc where
  tid : Tid
  exec_file : Option Nat
  files : ProcFiles

/-- The file system with the live user processes. -/
structure Sys where
  fs : Fs
  procs : List Proc
  next_tid : Tid

/-! ## The calls -/

/-- The part of `load (file_name)` that opens the executable: `filesys_open`, and
`file_deny_write` on what it returns; the result goes to `exec_file`. The rest of `load` reads
the file through the same block, which moves its position only. -/
def load_exec (name : List UInt8) : FsM (Option Nat) := do
  let file ← Filesys.filesys_open name
  match file with
  | none => return none
  | some f =>
    Filesys.file_deny_write f
    return some f

/-- The loop of `thread_exit` that pops the open files and closes them. -/
def closeFiles : List OpenFile → FsM Unit
  | [] => pure ()
  | of :: l => do
    Filesys.file_close (some of.file)
    closeFiles l

/-- What `thread_exit` does to the file system for the process `p`. -/
def exitFiles (p : Proc) : FsM Unit := do
  if let some e := p.exec_file then
    Filesys.file_allow_write e
    Filesys.file_close (some e)
  closeFiles p.files.files

/-- The calls of the processes. -/
inductive SysOp
  /-- `process_execute (name)`: a new thread runs `load` -/
  | exec (name : List UInt8)
  /-- `thread_exit` of `t`, however it came to exit -/
  | exit (t : Tid)
  /-- `sys_open (name)` of `t`, with whether `malloc` gives the `open_file` record -/
  | «open» (t : Tid) (name : List UInt8) (mallocOk : Bool)
  /-- `sys_close (fd)` of `t` -/
  | close (t : Tid) (fd : Int)
  /-- `sys_write (fd, buffer, size)` of `t` -/
  | write (t : Tid) (fd : Int) (buffer : List UInt8) (size : Int)
  /-- `sys_create (name, initial_size)` -/
  | create (name : List UInt8) (initial_size : Int)
  /-- `sys_remove (name)` -/
  | remove (name : List UInt8)

/-- The live process `t`. -/
def Sys.proc (sys : Sys) (t : Tid) : Option Proc := sys.procs.find? (·.tid = t)

/-- Change the open files of `t`. -/
def Sys.setFiles (sys : Sys) (t : Tid) (pf : ProcFiles) : List Proc :=
  sys.procs.map fun q => if q.tid = t then { q with files := pf } else q

/-- One call; a call that panics or reads freed memory has no step. A process that `sys_open`
cannot give an `open_file` record writes through the null pointer and is killed, with the
file it opened still open. -/
def sysStep (sys : Sys) : SysOp → Option Sys
  | .exec name =>
    match load_exec name sys.fs with
    | .ok file fs =>
      some ⟨fs, sys.procs ++ [⟨sys.next_tid, file, ProcFiles.init⟩], sys.next_tid + 1⟩
    | .error _ _ => none
  | .exit t =>
    (sys.proc t).bind fun p =>
      match exitFiles p sys.fs with
      | .ok () fs => some { sys with fs, procs := sys.procs.filter (·.tid ≠ t) }
      | .error _ _ => none
  | .open t name mallocOk =>
    (sys.proc t).bind fun p =>
      match Filesys.filesys_open name sys.fs with
      | .ok none fs => some { sys with fs }
      | .ok (some file) fs =>
        if mallocOk then some { sys with fs, procs := sys.setFiles t (p.files.push file) }
        else
          match exitFiles p fs with
          | .ok () fs => some { sys with fs, procs := sys.procs.filter (·.tid ≠ t) }
          | .error _ _ => none
      | .error _ _ => none
  | .close t fd =>
    (sys.proc t).bind fun p =>
      match p.files.files.find? (·.fd = fd) with
      | none => some sys
      | some of =>
        match Filesys.file_close (some of.file) sys.fs with
        | .ok () fs =>
          some { sys with fs, procs := sys.setFiles t { p.files with files := p.files.files.erase of } }
        | .error _ _ => none
  | .write t fd buffer size =>
    (sys.proc t).bind fun p =>
      if fd = 1 then some sys
      else
        match p.files.files.find? (·.fd = fd) with
        | none => some sys
        | some of =>
          match Filesys.file_write of.file buffer size sys.fs with
          | .ok _ fs => some { sys with fs }
          | .error _ _ => none
  | .create name initial_size =>
    match Filesys.filesys_create name initial_size sys.fs with
    | .ok _ fs => some { sys with fs }
    | .error _ _ => none
  | .remove name =>
    match Filesys.filesys_remove name sys.fs with
    | .ok _ fs => some { sys with fs }
    | .error _ _ => none

/-- The step relation. -/
def SysStep (sys : Sys) (op : SysOp) (sys' : Sys) : Prop := sysStep sys op = some sys'

/-- Boot: `filesys_init` on a device with nothing open, and no user process yet. -/
def SysInit (sys : Sys) : Prop :=
  sys.procs = [] ∧ ∃ disk size mallocs format,
    filesys_init format (fsBoot disk size mallocs) = .ok () sys.fs

/-- The states some run reaches. -/
def SysReachable : Sys → Prop := Lts.Reachable SysInit SysStep

/-- Run the calls in order. -/
def sysRun (sys : Sys) : List SysOp → Option Sys
  | [] => some sys
  | op :: ops => (sysStep sys op).bind fun sys' => sysRun sys' ops

theorem run_of_sysRun : ∀ {sys sys' : Sys} {ops : List SysOp}, sysRun sys ops = some sys' →
    Lts.Run SysStep sys ops sys'
  | sys, sys', [], h => by
    cases h
    exact .nil sys
  | sys, sys', op :: ops, h => by
    unfold sysRun at h
    cases hs : sysStep sys op with
    | none => simp [hs] at h
    | some sys₁ =>
      rw [hs, Option.bind_some] at h
      exact .cons hs (run_of_sysRun h)

/-! ## The invariant -/

/-- The blocks a process holds: its executable's and its open files'. -/
def Proc.blocks (p : Proc) : List Nat := p.exec_file.toList ++ p.files.files.map (·.file)

/-- The live processes whose executable is a block on the inode of `sector`. -/
def Sys.running (sys : Sys) (sector : Nat) : Nat :=
  sys.procs.countP fun p => p.exec_file.any fun a => (sys.fs.file_heap a).any (·.inode = sector)

/-- What holds in every reachable state: the counts of `Counted []`; distinct threads; the
blocks a process holds are its own; its executable denies writes and its open files do not;
and every block that denies writes is a live process's executable. -/
structure SysInv (sys : Sys) : Prop where
  counted : Counted [] sys.fs
  tids : (sys.procs.map (·.tid)).Nodup
  tid_lt : ∀ p ∈ sys.procs, p.tid < sys.next_tid
  own : ∀ p ∈ sys.procs, p.blocks.Nodup
  apart : ∀ p ∈ sys.procs, ∀ q ∈ sys.procs, ∀ a ∈ p.blocks, a ∈ q.blocks → p = q
  exec_denies : ∀ p ∈ sys.procs, ∀ a ∈ p.exec_file,
    ∃ f, sys.fs.file_heap a = some f ∧ f.deny_write = true
  files_allow : ∀ p ∈ sys.procs, ∀ of ∈ p.files.files,
    ∃ f, sys.fs.file_heap of.file = some f ∧ f.deny_write = false
  denied_exec : ∀ a f, sys.fs.file_heap a = some f → f.deny_write = true →
    ∃ p ∈ sys.procs, p.exec_file = some a

namespace SysInv

variable {sys : Sys}

theorem mem_blocks {p : Proc} {a : Nat} : a ∈ p.blocks ↔ p.exec_file = some a ∨ ∃ of ∈ p.files.files, of.file = a := by
  simp [Proc.blocks, eq_comm]

/-- Every block a process holds is in use. -/
theorem live (hi : SysInv sys) {p : Proc} (hp : p ∈ sys.procs) {a : Nat} (ha : a ∈ p.blocks) :
    ∃ f, sys.fs.file_heap a = some f := by
  rcases mem_blocks.mp ha with he | ⟨of, hof, rfl⟩
  · obtain ⟨f, hf, -⟩ := hi.exec_denies p hp a he
    exact ⟨f, hf⟩
  · obtain ⟨f, hf, -⟩ := hi.files_allow p hp of hof
    exact ⟨f, hf⟩

theorem lt_file_next (hi : SysInv sys) {p : Proc} (hp : p ∈ sys.procs) {a : Nat} (ha : a ∈ p.blocks) :
    a < sys.fs.file_next := by
  obtain ⟨f, hf⟩ := hi.live hp ha
  exact hi.counted.lt_of_heap hf

/-- The blocks that deny writes are the executables of the live processes, one each. -/
theorem deniedOn_eq (hi : SysInv sys) (x : Nat) : deniedOn sys.fs x = sys.running x := by
  have hnodup : (sys.procs.filterMap (·.exec_file)).Nodup :=
    List.nodup_filterMap_of_inj_on (List.Nodup.of_map _ hi.tids) fun p hp q hq a ha hb =>
      hi.apart p hp q hq a (by simp [Proc.blocks, Option.mem_def.mp ha])
        (by simp [Proc.blocks, Option.mem_def.mp hb])
  have hexec : ∀ a, a ∈ sys.procs.filterMap (·.exec_file) ↔ ∃ p ∈ sys.procs, p.exec_file = some a := by
    simp
  -- a block denies writes exactly when it is a live process's executable
  have hdenies : ∀ a, (sys.fs.file_heap a).any (fun f => decide (f.inode = x ∧ f.deny_write = true)) =
      (decide (a ∈ sys.procs.filterMap (·.exec_file)) && (sys.fs.file_heap a).any (·.inode = x)) := by
    intro a
    cases hf : sys.fs.file_heap a with
    | none => simp
    | some f =>
      by_cases hd : f.deny_write = true
      · obtain ⟨p, hp, he⟩ := hi.denied_exec a f hf hd
        have : a ∈ sys.procs.filterMap (·.exec_file) := (hexec a).mpr ⟨p, hp, he⟩
        simp [hd, this]
      · have : a ∉ sys.procs.filterMap (·.exec_file) := fun ha => by
          obtain ⟨p, hp, he⟩ := (hexec a).mp ha
          obtain ⟨f', hf', hd'⟩ := hi.exec_denies p hp a he
          rw [hf] at hf'
          cases hf'
          exact hd hd'
        simp [hd, this]
  calc deniedOn sys.fs x
      = (List.range sys.fs.file_next).countP fun a =>
          decide (a ∈ sys.procs.filterMap (·.exec_file)) && (sys.fs.file_heap a).any (·.inode = x) :=
        List.countP_congr fun a _ => by rw [hdenies a]
    _ = (sys.procs.filterMap (·.exec_file)).countP fun a => (sys.fs.file_heap a).any (·.inode = x) :=
        countP_range_mem hnodup (fun a ha => by
          obtain ⟨p, hp, he⟩ := (hexec a).mp ha
          exact hi.lt_file_next hp (by simp [Proc.blocks, he])) _
    _ = sys.running x := by
        rw [List.countP_filterMap, Sys.running]
        exact List.countP_congr fun p _ => by cases p.exec_file <;> simp

end SysInv

/-! ## Each call keeps the invariant -/

theorem Sys.proc_spec {sys : Sys} {t : Tid} {p : Proc} (h : sys.proc t = some p) :
    p ∈ sys.procs ∧ p.tid = t :=
  ⟨List.mem_of_find?_eq_some h, by simpa using List.find?_some h⟩

namespace SysInv

variable {sys : Sys} {fs : Fs}

/-- Boot: only the free map's file is open, and nothing denies writes. -/
theorem init (h : SysInit sys) : SysInv sys := by
  obtain ⟨hp, disk, size, mallocs, format, hfs⟩ := h
  obtain ⟨hc, hz⟩ := filesys_init_undenied format (s := fsBoot disk size mallocs) (fun _ => rfl) hfs
  refine ⟨hc, by simp [hp], by simp [hp], by simp [hp], by simp [hp], by simp [hp], by simp [hp], ?_⟩
  intro a f hf hd
  have hpos : 0 < deniedOn sys.fs f.inode :=
    heapCount_pos (hc.lt_of_heap hf) hf (by simp [hd])
  exact absurd (hz f.inode) (Nat.pos_iff_ne_zero.mp hpos)

/-- A call that leaves the blocks alone. -/
theorem of_heapView (hi : SysInv sys) (hc : Counted [] fs) (hv : heapView fs = heapView sys.fs) :
    SysInv { sys with fs } := by
  have hh : fs.file_heap = sys.fs.file_heap := (heapView_eq_iff.mp hv).1
  exact ⟨hc, hi.tids, hi.tid_lt, hi.own, hi.apart, by simpa [hh] using hi.exec_denies,
    by simpa [hh] using hi.files_allow, by simpa [hh] using hi.denied_exec⟩

/-- A call that changes a block but not its `deny_write`. -/
theorem setFile (hi : SysInv sys) (hc : Counted [] fs) {a : Nat} {f f' : File}
    (hf : sys.fs.file_heap a = some f) (hd : f'.deny_write = f.deny_write)
    (hv : heapView fs = heapView (sys.fs.setFile a (some f'))) : SysInv { sys with fs } := by
  have hh : ∀ b, fs.file_heap b = if b = a then some f' else sys.fs.file_heap b := fun b => by
    rw [(heapView_eq_iff.mp hv).1]
    by_cases hb : b = a
    · subst hb
      simp [Fs.setFile]
    · simp [Fs.setFile, hb]
  refine ⟨hc, hi.tids, hi.tid_lt, hi.own, hi.apart, ?_, ?_, ?_⟩
  · intro p hp b hb
    obtain ⟨g, hg, hgd⟩ := hi.exec_denies p hp b hb
    by_cases hba : b = a
    · subst hba
      rw [hf] at hg
      cases hg
      exact ⟨f', by simp [hh], hd.trans hgd⟩
    · exact ⟨g, by simp [hh, hba, hg], hgd⟩
  · intro p hp of hof
    obtain ⟨g, hg, hgd⟩ := hi.files_allow p hp of hof
    by_cases hba : of.file = a
    · rw [hba, hf] at hg
      cases hg
      exact ⟨f', by simp [hh, hba], hd.trans hgd⟩
    · exact ⟨g, by simp [hh, hba, hg], hgd⟩
  · intro b g hg hgd
    by_cases hba : b = a
    · subst hba
      simp only [hh, if_true, Option.some.injEq] at hg
      subst hg
      exact hi.denied_exec b f hf (hd ▸ hgd)
    · simp only [hh, hba, if_false] at hg
      exact hi.denied_exec b g hg hgd

/-- A new block that no process holds and that does not deny writes. -/
theorem push_unheld (hi : SysInv sys) (hc : Counted [] fs) {f : File} (hd : f.deny_write = false)
    (hv : heapView fs = heapView (sys.fs.pushFile f)) : SysInv { sys with fs } := by
  have hh : ∀ b, fs.file_heap b = if b = sys.fs.file_next then some f else sys.fs.file_heap b :=
    fun b => by
      rw [(heapView_eq_iff.mp hv).1]
      by_cases hb : b = sys.fs.file_next
      · subst hb
        simp [Fs.pushFile]
      · simp [Fs.pushFile, hb]
  have hheld : ∀ p ∈ sys.procs, ∀ b ∈ p.blocks, fs.file_heap b = sys.fs.file_heap b := fun p hp b hb => by
    rw [hh, if_neg (Nat.ne_of_lt (hi.lt_file_next hp hb))]
  refine ⟨hc, hi.tids, hi.tid_lt, hi.own, hi.apart, fun p hp b hb => ?_, fun p hp of hof => ?_, ?_⟩
  · rw [hheld p hp b (by simp [Proc.blocks, Option.mem_def.mp hb])]
    exact hi.exec_denies p hp b hb
  · rw [hheld p hp of.file (by simp [Proc.blocks]; exact Or.inr ⟨of, hof, rfl⟩)]
    exact hi.files_allow p hp of hof
  · intro b g hg hgd
    by_cases hb : b = sys.fs.file_next
    · simp only [hh, hb, if_true, Option.some.injEq] at hg
      subst hg
      simp [hd] at hgd
    · simp only [hh, hb, if_false] at hg
      exact hi.denied_exec b g hg hgd


/-- The process `t` is the only one with its thread id. -/
theorem eq_of_tid (hi : SysInv sys) {t : Tid} {p q : Proc} (hp : sys.proc t = some p)
    (hq : q ∈ sys.procs) (ht : q.tid = t) : q = p := by
  obtain ⟨hp, hpt⟩ := Sys.proc_spec hp
  exact List.inj_on_of_nodup_map hi.tids hq hp (ht.trans hpt.symm)

theorem setFiles_eq (hi : SysInv sys) {t : Tid} {p : Proc} (hp : sys.proc t = some p)
    (pf : ProcFiles) :
    sys.setFiles t pf = sys.procs.map fun q => if q.tid = t then { p with files := pf } else q :=
  List.map_congr_left fun q hq => by
    by_cases ht : q.tid = t
    · rw [if_pos ht, if_pos ht, hi.eq_of_tid hp hq ht]
    · rw [if_neg ht, if_neg ht]

/-- The process `t` replaced by `p'`, which runs the same executable and holds blocks of `t`'s
or blocks no process holds. -/
theorem replace (hi : SysInv sys) {t : Tid} {p : Proc} (hp : sys.proc t = some p) (p' : Proc)
    (htid : p'.tid = p.tid) (hexec : p'.exec_file = p.exec_file) (hown : p'.blocks.Nodup)
    (hblocks : ∀ a ∈ p'.blocks, a ∈ p.blocks ∨ ∀ q ∈ sys.procs, a ∉ q.blocks)
    (hfiles : ∀ of ∈ p'.files.files, ∃ f, sys.fs.file_heap of.file = some f ∧ f.deny_write = false) :
    SysInv { sys with procs := sys.procs.map fun q => if q.tid = t then p' else q } := by
  obtain ⟨hpm, hpt⟩ := Sys.proc_spec hp
  have hmem : ∀ q' ∈ sys.procs.map (fun q => if q.tid = t then p' else q),
      q' = p' ∨ (q' ∈ sys.procs ∧ q'.tid ≠ t) := fun q' hq' => by
    obtain ⟨q, hq, rfl⟩ := List.mem_map.mp hq'
    by_cases ht : q.tid = t
    · exact .inl (if_pos ht)
    · exact .inr (by rw [if_neg ht]; exact ⟨hq, ht⟩)
  have hp' : p' ∈ sys.procs.map (fun q => if q.tid = t then p' else q) :=
    List.mem_map.mpr ⟨p, hpm, if_pos hpt⟩
  have hne : ∀ q ∈ sys.procs, q.tid ≠ t → q ≠ p := fun q _ hqt hqp => hqt (hqp ▸ hpt)
  refine ⟨hi.counted, ?_, ?_, ?_, ?_, ?_, ?_, ?_⟩
  · rw [List.map_map]
    convert hi.tids using 1
    exact List.map_congr_left fun q _ => by
      by_cases ht : q.tid = t
      · simp [ht, htid, hpt]
      · simp [ht]
  · intro q' hq'
    rcases hmem q' hq' with rfl | ⟨hq, -⟩
    · exact htid ▸ hi.tid_lt p hpm
    · exact hi.tid_lt q' hq
  · intro q' hq'
    rcases hmem q' hq' with rfl | ⟨hq, -⟩
    · exact hown
    · exact hi.own q' hq
  · intro q₁ h₁ q₂ h₂ a ha₁ ha₂
    rcases hmem q₁ h₁ with rfl | ⟨hq₁, ht₁⟩ <;> rcases hmem q₂ h₂ with rfl | ⟨hq₂, ht₂⟩
    · rfl
    · rcases hblocks a ha₁ with ha | ha
      · exact absurd (hi.apart p hpm q₂ hq₂ a ha ha₂).symm (hne q₂ hq₂ ht₂)
      · exact absurd ha₂ (ha q₂ hq₂)
    · rcases hblocks a ha₂ with ha | ha
      · exact absurd (hi.apart q₁ hq₁ p hpm a ha₁ ha) (hne q₁ hq₁ ht₁)
      · exact absurd ha₁ (ha q₁ hq₁)
    · exact hi.apart q₁ hq₁ q₂ hq₂ a ha₁ ha₂
  · intro q' hq' a ha
    rcases hmem q' hq' with rfl | ⟨hq, -⟩
    · exact hi.exec_denies p hpm a (hexec ▸ ha)
    · exact hi.exec_denies q' hq a ha
  · intro q' hq' of hof
    rcases hmem q' hq' with rfl | ⟨hq, -⟩
    · exact hfiles of hof
    · exact hi.files_allow q' hq of hof
  · intro a f hf hd
    obtain ⟨q, hq, he⟩ := hi.denied_exec a f hf hd
    by_cases ht : q.tid = t
    · exact ⟨p', hp', by rw [hexec, ← hi.eq_of_tid hp hq ht, he]⟩
    · exact ⟨q, List.mem_map.mpr ⟨q, hq, if_neg ht⟩, he⟩

/-- A block that no process holds becomes one of `t`'s open files. -/
theorem adopt (hi : SysInv sys) {t : Tid} {p : Proc} (hp : sys.proc t = some p) {n : Nat} {g : File}
    (hg : sys.fs.file_heap n = some g) (hgd : g.deny_write = false)
    (hfree : ∀ q ∈ sys.procs, n ∉ q.blocks) :
    SysInv { sys with procs := sys.setFiles t (p.files.push n) } := by
  have hblocks : ({ p with files := p.files.push n } : Proc).blocks = p.blocks ++ [n] := by
    simp [Proc.blocks, ProcFiles.push]
  rw [hi.setFiles_eq hp]
  obtain ⟨hpm, -⟩ := Sys.proc_spec hp
  refine hi.replace hp _ rfl rfl ?_ ?_ ?_
  · rw [hblocks]
    exact List.nodup_append.mpr ⟨hi.own p hpm, List.nodup_singleton n,
      fun a ha b hb hab => by
        rw [List.mem_singleton] at hb
        exact hfree p hpm (hb ▸ hab ▸ ha)⟩
  · intro a ha
    rw [hblocks, List.mem_append, List.mem_singleton] at ha
    rcases ha with ha | rfl
    · exact .inl ha
    · exact .inr hfree
  · intro of hof
    simp only [ProcFiles.push, List.mem_append, List.mem_singleton] at hof
    rcases hof with hof | rfl
    · exact hi.files_allow p hpm of hof
    · exact ⟨g, hg, hgd⟩

/-- `t` drops one of its open files. -/
theorem drop (hi : SysInv sys) {t : Tid} {p : Proc} (hp : sys.proc t = some p) (of : OpenFile) :
    SysInv { sys with procs := sys.setFiles t { p.files with files := p.files.files.erase of } } := by
  obtain ⟨hpm, -⟩ := Sys.proc_spec hp
  have hsub : ({ p with files := { p.files with files := p.files.files.erase of } } : Proc).blocks.Sublist
      p.blocks := by
    simp only [Proc.blocks]
    exact (List.Sublist.refl _).append ((List.erase_sublist).map _)
  rw [hi.setFiles_eq hp]
  refine hi.replace hp _ rfl rfl (hsub.nodup (hi.own p hpm)) (fun a ha => .inl (hsub.subset ha)) ?_
  intro of' hof'
  exact hi.files_allow p hpm of' (List.mem_of_mem_erase hof')

/-- A block that no process holds and that does not deny writes is freed. -/
theorem free_unheld (hi : SysInv sys) (hc : Counted [] fs) {a : Nat}
    (hfree : ∀ q ∈ sys.procs, a ∉ q.blocks) (hd : ∀ f, sys.fs.file_heap a = some f → f.deny_write = false)
    (hv : heapView fs = heapView (sys.fs.setFile a none)) : SysInv { sys with fs } := by
  have hh : ∀ b, fs.file_heap b = if b = a then none else sys.fs.file_heap b := fun b => by
    rw [(heapView_eq_iff.mp hv).1]
    by_cases hb : b = a
    · subst hb
      simp [Fs.setFile]
    · simp [Fs.setFile, hb]
  have hheld : ∀ q ∈ sys.procs, ∀ b ∈ q.blocks, fs.file_heap b = sys.fs.file_heap b :=
    fun q hq b hb => by
      have hba : b ≠ a := fun hba => hfree q hq (hba ▸ hb)
      rw [hh, if_neg hba]
  refine ⟨hc, hi.tids, hi.tid_lt, hi.own, hi.apart, fun q hq b hb => ?_, fun q hq of hof => ?_, ?_⟩
  · rw [hheld q hq b (by simp [Proc.blocks, Option.mem_def.mp hb])]
    exact hi.exec_denies q hq b hb
  · rw [hheld q hq of.file (by simp [Proc.blocks]; exact Or.inr ⟨of, hof, rfl⟩)]
    exact hi.files_allow q hq of hof
  · intro b g hg hgd
    by_cases hba : b = a
    · simp [hh, hba] at hg
    · simp only [hh, hba, if_false] at hg
      exact hi.denied_exec b g hg hgd


/-- A new process that runs nothing. -/
theorem spawn_none (hi : SysInv sys) :
    SysInv ⟨sys.fs, sys.procs ++ [⟨sys.next_tid, none, ProcFiles.init⟩], sys.next_tid + 1⟩ := by
  have hnew : ∀ q ∈ sys.procs ++ [⟨sys.next_tid, none, ProcFiles.init⟩],
      q ∈ sys.procs ∨ q = ⟨sys.next_tid, none, ProcFiles.init⟩ := fun q hq => by simpa using hq
  have hblocks : (⟨sys.next_tid, none, ProcFiles.init⟩ : Proc).blocks = [] := rfl
  refine ⟨hi.counted, ?_, fun q hq => ?_, fun q hq => ?_, fun q₁ h₁ q₂ h₂ a ha₁ ha₂ => ?_,
    fun q hq a ha => ?_, fun q hq of hof => ?_, fun a f hf hd => ?_⟩
  · rw [List.map_append, List.nodup_append]
    exact ⟨hi.tids, List.nodup_singleton _, fun a ha b hb hab => by
      obtain ⟨q, hq, rfl⟩ := List.mem_map.mp ha
      simp only [List.map_cons, List.map_nil, List.mem_singleton] at hb
      exact absurd (hab ▸ hb ▸ hi.tid_lt q hq) (Nat.lt_irrefl _)⟩
  · rcases hnew q hq with hq | rfl
    · exact Nat.lt_succ_of_lt (hi.tid_lt q hq)
    · exact Nat.lt_succ_self _
  · rcases hnew q hq with hq | rfl
    · exact hi.own q hq
    · exact List.nodup_nil
  · rcases hnew q₁ h₁ with h₁ | rfl
    · rcases hnew q₂ h₂ with h₂ | rfl
      · exact hi.apart q₁ h₁ q₂ h₂ a ha₁ ha₂
      · simp [hblocks] at ha₂
    · simp [hblocks] at ha₁
  · rcases hnew q hq with hq | rfl
    · exact hi.exec_denies q hq a ha
    · cases ha
  · rcases hnew q hq with hq | rfl
    · exact hi.files_allow q hq of hof
    · cases hof
  · obtain ⟨q, hq, he⟩ := hi.denied_exec a f hf hd
    exact ⟨q, List.mem_append_left _ hq, he⟩

/-- A new process whose executable is a block no process held, which now denies writes. -/
theorem spawn_exec (hi : SysInv sys) (hc : Counted [] fs) {n : Nat} {g : File}
    (hg : sys.fs.file_heap n = some g) (hfree : ∀ q ∈ sys.procs, n ∉ q.blocks)
    (hv : heapView fs = heapView (sys.fs.setFile n (some { g with deny_write := true }))) :
    SysInv ⟨fs, sys.procs ++ [⟨sys.next_tid, some n, ProcFiles.init⟩], sys.next_tid + 1⟩ := by
  have h₀ := hi.spawn_none
  have hh : ∀ b, fs.file_heap b = if b = n then some { g with deny_write := true } else sys.fs.file_heap b :=
    fun b => by
      rw [(heapView_eq_iff.mp hv).1]
      by_cases hb : b = n
      · subst hb
        simp [Fs.setFile]
      · simp [Fs.setFile, hb]
  have hnew : ∀ q ∈ sys.procs ++ [⟨sys.next_tid, some n, ProcFiles.init⟩],
      q ∈ sys.procs ∨ q = ⟨sys.next_tid, some n, ProcFiles.init⟩ := fun q hq => by simpa using hq
  have hblocks : (⟨sys.next_tid, some n, ProcFiles.init⟩ : Proc).blocks = [n] := rfl
  have hheld : ∀ q ∈ sys.procs, ∀ b ∈ q.blocks, fs.file_heap b = sys.fs.file_heap b :=
    fun q hq b hb => by
      have hbn : b ≠ n := fun hbn => hfree q hq (hbn ▸ hb)
      rw [hh, if_neg hbn]
  refine ⟨hc, by simpa using h₀.tids, fun q hq => ?_, fun q hq => ?_,
    fun q₁ h₁ q₂ h₂ a ha₁ ha₂ => ?_, fun q hq a ha => ?_, fun q hq of hof => ?_, fun a f hf hd => ?_⟩
  · rcases hnew q hq with hq | rfl
    · exact Nat.lt_succ_of_lt (hi.tid_lt q hq)
    · exact Nat.lt_succ_self _
  · rcases hnew q hq with hq | rfl
    · exact hi.own q hq
    · exact List.nodup_singleton n
  · rcases hnew q₁ h₁ with h₁ | rfl <;> rcases hnew q₂ h₂ with h₂ | rfl
    · exact hi.apart q₁ h₁ q₂ h₂ a ha₁ ha₂
    · rw [hblocks, List.mem_singleton] at ha₂
      exact absurd (ha₂ ▸ ha₁) (hfree q₁ h₁)
    · rw [hblocks, List.mem_singleton] at ha₁
      exact absurd (ha₁ ▸ ha₂) (hfree q₂ h₂)
    · rfl
  · rcases hnew q hq with hq | rfl
    · rw [hheld q hq a (by simp [Proc.blocks, Option.mem_def.mp ha])]
      exact hi.exec_denies q hq a ha
    · cases ha
      exact ⟨{ g with deny_write := true }, by simp [hh], rfl⟩
  · rcases hnew q hq with hq | rfl
    · rw [hheld q hq of.file (by simp [Proc.blocks]; exact Or.inr ⟨of, hof, rfl⟩)]
      exact hi.files_allow q hq of hof
    · cases hof
  · by_cases han : a = n
    · exact ⟨_, List.mem_append_right _ List.mem_cons_self, han ▸ rfl⟩
    · rw [hh, if_neg han] at hf
      obtain ⟨q, hq, he⟩ := hi.denied_exec a f hf hd
      exact ⟨q, List.mem_append_left _ hq, he⟩

end SysInv

/-! ## What `thread_exit` frees -/

theorem closeFiles_counted (held : List Nat) :
    ∀ l, Triple (Counted held) (closeFiles l) fun _ => Counted held
  | [] => Triple.pure fun _ hc => hc
  | _ :: l => Triple.bind (file_close_counted held _) fun _ => closeFiles_counted held l

/-- The loop frees the blocks of the open files and no other. -/
theorem closeFiles_heap {held : List Nat} :
    ∀ (l : List OpenFile) {s s' : Fs}, Counted held s → (∀ of ∈ l, ∃ f, s.file_heap of.file = some f) →
      (l.map (·.file)).Nodup → closeFiles l s = .ok () s' →
      s'.file_next = s.file_next ∧ ∀ b, s'.file_heap b = if b ∈ l.map (·.file) then none else s.file_heap b
  | [], s, s', _, _, _, h => by
    cases h
    simp
  | of :: l, s, s', hc, hlive, hnd, h => by
    rw [List.map_cons, List.nodup_cons] at hnd
    obtain ⟨_, s₁, h₁, h⟩ := bind_eq_ok.mp h
    obtain ⟨f, hf⟩ := hlive of List.mem_cons_self
    have hv := heapView_eq_iff.mp (file_close_heap hf h₁)
    have hh₁ : ∀ b, s₁.file_heap b = if b = of.file then none else s.file_heap b := fun b => by
      rw [hv.1]
      by_cases hb : b = of.file
      · subst hb
        simp [Fs.setFile]
      · simp [Fs.setFile, hb]
    have hlive₁ : ∀ of' ∈ l, ∃ f, s₁.file_heap of'.file = some f := fun of' hof' => by
      have hne : of'.file ≠ of.file := fun he => hnd.1 (he ▸ List.mem_map_of_mem hof')
      rw [hh₁, if_neg hne]
      exact hlive of' (List.mem_cons_of_mem _ hof')
    obtain ⟨hnext, hheap⟩ := closeFiles_heap l (file_close_counted held _ hc h₁) hlive₁ hnd.2 h
    refine ⟨hnext.trans hv.2, fun b => ?_⟩
    rw [hheap, hh₁]
    by_cases hb : b = of.file
    · simp [hb]
    · by_cases hbl : b ∈ l.map (·.file) <;> simp [hb, hbl]

/-- `thread_exit` frees exactly the blocks the process holds. -/
theorem exitFiles_spec {p : Proc} {s s' : Fs} (hc : Counted [] s)
    (hlive : ∀ a ∈ p.blocks, ∃ f, s.file_heap a = some f) (hnd : p.blocks.Nodup)
    (h : exitFiles p s = .ok () s') :
    Counted [] s' ∧ s'.file_next = s.file_next ∧
      ∀ b, s'.file_heap b = if b ∈ p.blocks then none else s.file_heap b := by
  unfold exitFiles at h
  dsimp only at h
  cases he : p.exec_file with
  | none =>
    rw [he] at h
    simp only [Proc.blocks, he, Option.toList_none, List.nil_append] at hlive hnd ⊢
    obtain ⟨hnext, hheap⟩ := closeFiles_heap _ hc (fun of hof => hlive _ (List.mem_map_of_mem hof)) hnd h
    exact ⟨closeFiles_counted [] _ hc h, hnext, hheap⟩
  | some e =>
    rw [he] at h
    simp only [Proc.blocks, he, Option.toList_some, List.singleton_append, List.nodup_cons,
      List.mem_cons] at hlive hnd ⊢
    obtain ⟨_, s₁, h₁, h⟩ := bind_eq_ok.mp h
    obtain ⟨_, s₂, h₂, h⟩ := bind_eq_ok.mp h
    obtain ⟨f, hf⟩ := hlive e (.inl rfl)
    have hv₁ := file_allow_write_heap hf h₁
    have hf₁ : s₁.file_heap e = some { f with deny_write := false } := by
      rw [(heapView_eq_iff.mp hv₁).1]
      simp [Fs.setFile]
    have hv₂ := heapView_eq_iff.mp ((file_close_heap hf₁ h₂).trans (heapView_setFile_congr hv₁ e none))
    have hh₂ : ∀ b, s₂.file_heap b = if b = e then none else s.file_heap b := fun b => by
      rw [hv₂.1]
      by_cases hb : b = e
      · subst hb
        simp [Fs.setFile]
      · simp [Fs.setFile, hb]
    have hc₂ := file_close_counted [] _ (file_allow_write_counted [] e hc h₁).1 h₂
    have hlive₂ : ∀ of ∈ p.files.files, ∃ f, s₂.file_heap of.file = some f := fun of hof => by
      have hne : of.file ≠ e := fun h' => hnd.1 (h' ▸ List.mem_map_of_mem hof)
      rw [hh₂, if_neg hne]
      exact hlive _ (.inr (List.mem_map_of_mem hof))
    obtain ⟨hnext, hheap⟩ := closeFiles_heap _ hc₂ hlive₂ hnd.2 h
    refine ⟨closeFiles_counted [] _ hc₂ h, hnext.trans (hv₂.2.trans ?_), fun b => ?_⟩
    · simp [Fs.setFile]
    · rw [hheap, hh₂]
      by_cases hb : b = e
      · simp [hb]
      · by_cases hbl : b ∈ p.files.files.map (·.file) <;> simp [hb, hbl]

namespace SysInv

variable {sys : Sys} {fs : Fs}

/-- `thread_exit` of `t`: its blocks are freed and it leaves the list. -/
theorem exit (hi : SysInv sys) {t : Tid} {p : Proc} (hp : sys.proc t = some p)
    (h : exitFiles p sys.fs = .ok () fs) :
    SysInv { sys with fs, procs := sys.procs.filter (·.tid ≠ t) } := by
  obtain ⟨hpm, hpt⟩ := Sys.proc_spec hp
  obtain ⟨hc, -, hheap⟩ := exitFiles_spec hi.counted (fun a ha => hi.live hpm ha) (hi.own p hpm) h
  have hmem : ∀ q ∈ sys.procs.filter (·.tid ≠ t), q ∈ sys.procs ∧ q ≠ p := fun q hq => by
    rw [List.mem_filter] at hq
    exact ⟨hq.1, fun hqp => by simp [hqp, hpt] at hq⟩
  have hheld : ∀ q ∈ sys.procs, q ≠ p → ∀ b ∈ q.blocks, fs.file_heap b = sys.fs.file_heap b :=
    fun q hq hqp b hb => by
      rw [hheap, if_neg fun hbp => hqp (hi.apart q hq p hpm b hb hbp)]
  refine ⟨hc, ((List.filter_sublist).map _).nodup hi.tids, fun q hq => hi.tid_lt q (hmem q hq).1,
    fun q hq => hi.own q (hmem q hq).1,
    fun q₁ h₁ q₂ h₂ => hi.apart q₁ (hmem q₁ h₁).1 q₂ (hmem q₂ h₂).1, fun q hq a ha => ?_,
    fun q hq of hof => ?_, fun a f hf hd => ?_⟩
  · obtain ⟨hq, hqp⟩ := hmem q hq
    rw [hheld q hq hqp a (by simp [Proc.blocks, Option.mem_def.mp ha])]
    exact hi.exec_denies q hq a ha
  · obtain ⟨hq, hqp⟩ := hmem q hq
    rw [hheld q hq hqp of.file (by simp [Proc.blocks]; exact Or.inr ⟨of, hof, rfl⟩)]
    exact hi.files_allow q hq of hof
  · rw [hheap] at hf
    split at hf
    · cases hf
    · next hap =>
      obtain ⟨q, hq, he⟩ := hi.denied_exec a f hf hd
      have hqp : q ≠ p := fun hqp => hap (hqp ▸ by simp [Proc.blocks, he])
      have hqt : q.tid ≠ t := fun hqt => hqp (hi.eq_of_tid hp hq hqt)
      exact ⟨q, List.mem_filter.mpr ⟨hq, by simpa using hqt⟩, he⟩


/-- `load` of a new process. -/
theorem exec_step (hi : SysInv sys) {name : List UInt8} {file : Option Nat}
    (h : load_exec name sys.fs = .ok file fs) :
    SysInv ⟨fs, sys.procs ++ [⟨sys.next_tid, file, ProcFiles.init⟩], sys.next_tid + 1⟩ := by
  unfold load_exec at h
  obtain ⟨r, fs₁, h₁, hk⟩ := bind_eq_ok.mp h
  have hc₁ := filesys_open_counted name hi.counted h₁
  rcases filesys_open_heap sys.fs name rfl h₁ with ⟨rfl, hv⟩ | ⟨x, rfl, hv⟩
  · simp only [pure_apply, Result.ok.injEq] at hk
    obtain ⟨rfl, rfl⟩ := hk
    exact (hi.of_heapView hc₁ hv).spawn_none
  · -- the executable is the block `filesys_open` took, which no process held
    obtain ⟨_, fs₂, h₂, hk⟩ := bind_eq_ok.mp hk
    simp only [pure_apply, Result.ok.injEq] at hk
    obtain ⟨rfl, rfl⟩ := hk
    have hg : fs₁.file_heap sys.fs.file_next = some ⟨x, 0, false⟩ := by
      rw [(heapView_eq_iff.mp hv).1]
      simp [Fs.pushFile]
    have hfree : ∀ q ∈ sys.procs, sys.fs.file_next ∉ q.blocks := fun q hq hb =>
      Nat.lt_irrefl _ (hi.lt_file_next hq hb)
    exact (hi.push_unheld hc₁ rfl hv).spawn_exec (file_deny_write_counted [] _ hc₁ h₂).1 hg hfree
      (file_deny_write_heap hg h₂)

/-- `sys_close`: the record goes, then its block, which nothing else holds. -/
theorem close_step (hi : SysInv sys) {t : Tid} {p : Proc} (hp : sys.proc t = some p)
    {of : OpenFile} (hof : of ∈ p.files.files) (h : Filesys.file_close (some of.file) sys.fs = .ok () fs) :
    SysInv { sys with fs, procs := sys.setFiles t { p.files with files := p.files.files.erase of } } := by
  obtain ⟨hpm, -⟩ := Sys.proc_spec hp
  obtain ⟨f, hf, hfd⟩ := hi.files_allow p hpm of hof
  have hd := hi.drop hp of
  rw [hi.setFiles_eq hp] at hd ⊢
  refine hd.free_unheld (file_close_counted [] _ hi.counted h) (fun q' hq' hb => ?_)
    (fun f' hf' => by rw [hf] at hf'; cases hf'; exact hfd) (file_close_heap hf h)
  obtain ⟨q, hq, rfl⟩ := List.mem_map.mp hq'
  by_cases ht : q.tid = t
  · -- `p` keeps its executable, which is another block, and its other records
    rw [if_pos ht] at hb
    have hnd := hi.own p hpm
    have hperm : (p.files.files.map (·.file)).Perm (of.file :: (p.files.files.erase of).map (·.file)) :=
      (List.perm_cons_erase hof).map _
    simp only [Proc.blocks] at hnd hb
    rcases List.mem_append.mp hb with hb | hb
    · have := List.nodup_append.mp hnd
      exact this.2.2 _ hb _ (List.mem_map_of_mem hof) rfl
    · exact (List.nodup_cons.mp (hperm.nodup_iff.mp (List.nodup_append.mp hnd).2.1)).1 hb
  · rw [if_neg ht] at hb
    have hqp := hi.apart q hq p hpm of.file hb (by simp [Proc.blocks]; exact Or.inr ⟨of, hof, rfl⟩)
    exact ht (hqp ▸ (Sys.proc_spec hp).2)

/-- Every call keeps the invariant. -/
theorem step {sys' : Sys} {op : SysOp} (hi : SysInv sys) (h : SysStep sys op sys') : SysInv sys' := by
  unfold SysStep at h
  cases op with
  | exec name =>
    simp only [sysStep] at h
    split at h
    · next file fs hl =>
      cases h
      exact hi.exec_step hl
    · cases h
  | exit t =>
    obtain ⟨p, hp, h⟩ := Option.bind_eq_some_iff.mp h
    split at h
    · next fs hx =>
      cases h
      exact hi.exit hp hx
    · cases h
  | «open» t name mallocOk =>
    obtain ⟨p, hp, h⟩ := Option.bind_eq_some_iff.mp h
    split at h
    · next fs ho =>
      cases h
      rcases filesys_open_heap sys.fs name rfl ho with ⟨-, hv⟩ | ⟨x, hx, -⟩
      · exact hi.of_heapView (filesys_open_counted name hi.counted ho) hv
      · cases hx
    · next file fs ho =>
      have hc := filesys_open_counted name hi.counted ho
      rcases filesys_open_heap sys.fs name rfl ho with ⟨hx, -⟩ | ⟨x, hx, hv⟩
      · cases hx
      cases hx
      have hi₁ := hi.push_unheld hc rfl hv
      have hg : fs.file_heap sys.fs.file_next = some ⟨x, 0, false⟩ := by
        rw [(heapView_eq_iff.mp hv).1]
        simp [Fs.pushFile]
      split at h
      · cases h
        exact hi₁.adopt hp hg rfl fun q hq hb => Nat.lt_irrefl _ (hi.lt_file_next hq hb)
      · -- the null `open_file` record kills the process
        split at h
        · next fs' hx =>
          cases h
          exact hi₁.exit hp hx
        · cases h
    · cases h
  | close t fd =>
    obtain ⟨p, hp, h⟩ := Option.bind_eq_some_iff.mp h
    split at h
    · cases h
      exact hi
    · next of hfind =>
      split at h
      · next fs hcl =>
        cases h
        exact hi.close_step hp (List.mem_of_find?_eq_some hfind) hcl
      · cases h
  | write t fd buffer size =>
    obtain ⟨p, hp, h⟩ := Option.bind_eq_some_iff.mp h
    split at h
    · cases h
      exact hi
    · split at h
      · cases h
        exact hi
      · next of hfind =>
        split at h
        · next n fs hw =>
          cases h
          obtain ⟨f, hf, -⟩ := hi.files_allow p (Sys.proc_spec hp).1 of (List.mem_of_find?_eq_some hfind)
          exact hi.setFile (file_write_counted [] _ _ _ hi.counted hw) hf
            (show ({ f with pos := f.pos + n } : File).deny_write = f.deny_write from rfl)
            (file_write_heap hf hw)
        · cases h
  | create name initial_size =>
    simp only [sysStep] at h
    split at h
    · next fs hcr =>
      cases h
      exact hi.of_heapView (filesys_create_counted _ _ hi.counted hcr)
        ((filesys_create_keeps (v := heapView) (fun _ _ => rfl) (fun _ _ => rfl) (fun _ _ => rfl)
          (fun _ _ => rfl) _ _).ok hcr)
    · cases h
  | remove name =>
    simp only [sysStep] at h
    split at h
    · next fs hrm =>
      cases h
      exact hi.of_heapView (filesys_remove_counted _ hi.counted hrm)
        ((filesys_remove_keeps (v := heapView) (fun _ _ => rfl) (fun _ _ => rfl) (fun _ _ => rfl)
          (fun _ _ => rfl) _).ok hrm)
    · cases h

theorem of_reachable (h : SysReachable sys) : SysInv sys :=
  Lts.Reachable.invariant (fun h => init h) (fun h hi => hi.step h) h

end SysInv

/-! ## Executables deny writes -/

/-- In every reachable state the `deny_write_cnt` of an open inode is the number of live
processes running it, and at most its `open_cnt`. While one runs, `inode_write_at` on it writes
nothing through any file; once none does, a write with `malloc` willing and the file on the
device writes every byte that falls inside the file. -/
theorem deny_write_cnt_eq_running (hr : SysReachable sys) {i : Inode} (hi : i ∈ sys.fs.open_inodes) :
    i.deny_write_cnt = sys.running i.sector ∧ i.deny_write_cnt ≤ i.open_cnt ∧
    (0 < sys.running i.sector → ∀ buffer size offset,
      Filesys.inode_write_at i.sector buffer size offset sys.fs = .ok 0 sys.fs) ∧
    (sys.running i.sector = 0 → sys.fs.mallocs = [] → i.data.OnDevice sys.fs.disk_size →
      ∀ buffer size offset, size.toNat ≤ buffer.length →
      ∃ D, Filesys.inode_write_at i.sector buffer size offset sys.fs =
          .ok (min size.toNat (i.data.length.toNat - offset)) { sys.fs with disk := D } ∧
        (∀ sector, ¬i.data.Owns sector → D sector = sys.fs.disk sector) ∧
        fileBytes { sys.fs with disk := D } i.data =
          overwrite (fileBytes sys.fs i.data) offset
            (buffer.take (min size.toNat (i.data.length.toNat - offset)))) := by
  have hinv := SysInv.of_reachable hr
  have ht := hinv.counted.tallied
  have hfind : sys.fs.open_inodes.find? (·.sector = i.sector) = some i :=
    List.find?_key_of_mem ht.nodup hi
  -- with no transient opener, the counts are those of the `struct file` blocks
  have hdeny : i.deny_write_cnt = sys.running i.sector := by
    rw [ht.deny_write_cnt i hi, hinv.deniedOn_eq]
  have hopen : i.open_cnt = filesOn sys.fs i.sector := by
    simpa using ht.open_cnt i hi
  refine ⟨hdeny, ?_, fun hpos buffer size offset => ?_, fun hzero hm hdev buffer size offset hb => ?_⟩
  · rw [ht.deny_write_cnt i hi, hopen]
    exact deniedOn_le_filesOn _ _
  · exact inode_write_at_of_denied hfind (by omega) buffer size offset
  · exact inode_write_at_eq hfind hm hdev (by omega) hb offset

/-- The booted system of `fsFormatted`, with no process yet. -/
def sysBoot : Sys := ⟨fsFormatted, [], 0⟩

theorem sysBoot_init : SysInit sysBoot := by
  refine ⟨rfl, fun _ _ => 0, 32, [], true, ?_⟩
  have h : filesys_init true (fsBoot (fun _ _ => 0) 32 []) =
      .ok () (filesys_init true (fsBoot (fun _ _ => 0) 32 [])).state :=
    Result.eq_ok_of_value? (by decide +kernel)
  unfold sysBoot fsFormatted formatted
  rw [h]
  simp only [Option.getD_some]

/-- `create ("a", 512)`, then `exec ("a")`: process 0 runs `"a"`, whose inode is sector 4. -/
def sysRox : Sys := (sysRun sysBoot [.create fileA 512, .exec fileA]).getD sysBoot

/-- In `sysRox` the inode of the running `"a"` denies writes once, and a write to it writes
nothing. -/
theorem rox_write_denied :
    SysReachable sysRox ∧ ∃ i ∈ sysRox.fs.open_inodes, i.sector = 4 ∧ i.deny_write_cnt = 1 ∧
      sysRox.running i.sector = 1 ∧
      Filesys.inode_write_at i.sector [1] 1 0 sysRox.fs = .ok 0 sysRox.fs := by
  have hrun : (sysRun sysBoot [.create fileA 512, .exec fileA]).isSome = true := by decide +kernel
  obtain ⟨sys', hsys'⟩ := Option.isSome_iff_exists.mp hrun
  have hr : SysReachable sysRox := by
    have hrox : sysRox = sys' := by simp [sysRox, hsys']
    rw [hrox]
    exact Lts.Reachable.of_run sysBoot_init (run_of_sysRun hsys')
  have hmem : ∃ i ∈ sysRox.fs.open_inodes, i.sector = 4 ∧ i.deny_write_cnt = 1 := by decide +kernel
  have hrunning : sysRox.running 4 = 1 := by decide +kernel
  obtain ⟨i, hi, hs, hd⟩ := hmem
  have hw := deny_write_cnt_eq_running hr hi
  refine ⟨hr, i, hi, hs, hd, hs ▸ hrunning, ?_⟩
  exact hw.2.2.1 (by rw [hs, hrunning]; decide) [1] 1 0

/-- `inode_write_at` also returns 0 on an inode that no process runs: the free map's inode of
the booted system, written one byte at its end, which base Pintos does not grow. -/
theorem write_at_end_of_undenied :
    SysReachable sysBoot ∧ ∃ i ∈ sysBoot.fs.open_inodes, i.deny_write_cnt = 0 ∧
      ∃ s', Filesys.inode_write_at i.sector [1] 1 i.data.length.toNat sysBoot.fs = .ok 0 s' := by
  have hi : ∃ i ∈ sysBoot.fs.open_inodes, i.deny_write_cnt = 0 ∧
      (Filesys.inode_write_at i.sector [1] 1 i.data.length.toNat sysBoot.fs).value? = some 0 := by
    decide +kernel
  obtain ⟨i, hi, hd, hv⟩ := hi
  exact ⟨Lts.Reachable.of_init sysBoot_init, i, hi, hd, _, Result.eq_ok_of_value? hv⟩

end Pintos
