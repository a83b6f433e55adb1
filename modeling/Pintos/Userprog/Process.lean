import Pintos.Threads.Kernel
import Pintos.Lib.Run

/-!
# Processes: `exec`, `wait` and `exit` (`userprog/process.c`, `threads/thread.c`)

The fields of `struct thread` and `struct child` that `process_execute`, `start_process`,
`process_wait` and `thread_exit` use, and those four paths as steps of their threads. The
scheduler may switch threads between any two steps, so a run of `procStep` is an interleaving
of the threads' paths; `Pc` is where a thread is in its path.

A thread's `sema_wait` and `child_loaded` are its own: a child signals its parent through
`parent->sema_wait`, but writes its own `child_loaded`. A `struct child` is a heap block
(`records`, by address) that the parent links into its `children` list in `thread_create`; the
child writes its exit status into it and ups its semaphore in `thread_exit`, and the parent
reads and frees it in `process_wait`. The console keeps the `"%s: exit(%d)"` lines that
`thread_exit` prints, as the thread and the status.

A step's label carries what the calls it makes return: `malloc`, `palloc_get_page` or `load`
succeeding (`o`), and the address `malloc` gives a new `struct child` (`a`), which must be a
fresh block. Every `int` that holds `UINT32_MAX` holds `-1`.
-/

namespace Pintos

/-- `TID_ERROR`. -/
def TID_ERROR : Int := -1

/-- `struct child`. -/
structure ChildRec where
  tid : Tid
  st_exit : Int
  succ : Bool
  sema_wait : Nat
  deriving DecidableEq, Repr

/-- The points of the kernel paths a thread can stop at. -/
inductive Pc
  /-- running its program, or the kernel's main thread outside these paths -/
  | user
  | execCopy (cmd : List Char)
  | execCreate
  | execWait (tid : Tid)
  | execCheck (tid : Tid)
  | startSpt
  | startPagedir
  | startLoad
  /-- `child_loaded` written; `sema_up (&parent->sema_wait)` next -/
  | startSignal (ok : Bool)
  | waitFind (tid : Tid)
  /-- `sema_down (&c->sema_wait)` in `process_wait (tid)`, with `c` at this address -/
  | waitDown (tid : Tid) (c : Nat)
  | waitRead (tid : Tid) (c : Nat)
  | exitWrite
  | exitSignal
  /-- stopped by a fault: the thread reached memory it does not own, and nothing after is
  modelled -/
  | faulted (f : Fault)
  deriving DecidableEq, Repr

/-- `struct thread`, with the return value of its last system call (`eax`). -/
structure KThread where
  tid : Tid
  parent : Option Tid
  children : List Nat
  child_info : Option Nat
  st_exit : Int
  child_loaded : Bool
  sema_wait : Nat
  pc : Pc
  eax : Int
  deriving DecidableEq, Repr

/-- The live threads, the `struct child` blocks, `next_tid` of `allocate_tid`, and the lines
printed by `thread_exit`. -/
structure Procs where
  threads : List KThread
  records : Nat → Option ChildRec
  next_tid : Tid
  console : List (Tid × Int)

namespace Procs

variable (s : Procs)

/-- The live thread `t`. -/
def thread (t : Tid) : Option KThread := s.threads.find? (·.tid = t)

/-- Update the live thread `t`. -/
def setThread (t : Tid) (f : KThread → KThread) : Procs :=
  { s with threads := s.threads.map fun th => if th.tid = t then f th else th }

/-- Write or free the `struct child` at `a`. -/
def setRecord (a : Nat) (c : Option ChildRec) : Procs :=
  { s with records := Function.update s.records a c }

end Procs

/-- The loop of `find_child`: the first record of the list with this `tid`, read through the
heap. -/
def findChild (records : Nat → Option ChildRec) (child_tid : Tid) :
    List Nat → Except Fault (Option Nat)
  | [] => .ok none
  | a :: rest =>
    match records a with
    | none => .error .undefined
    | some c => if c.tid = child_tid then .ok (some a) else findChild records child_tid rest

/-- `find_child (parent, child_tid)`. -/
def find_child (s : Procs) (parent : KThread) (child_tid : Tid) : Except Fault (Option Nat) :=
  findChild s.records child_tid parent.children

/-- `strlcpy (program_name, file_name, 16)` and `strtok_r (program_name, " ", ...)`: a token
exists when the first fifteen characters are not all spaces. -/
def hasToken (cmd : List Char) : Bool := (cmd.take 15).any (· ≠ ' ')

/-- `init_thread` for a thread that `parent` creates, with the `child_info` that
`thread_create` gives it: it will run `start_process`. -/
def init_thread (tid parent child_info : Nat) : KThread :=
  ⟨tid, some parent, [], some child_info, -1, true, 0, .startSpt, 0⟩

/-- `thread_create` by `cur` once `palloc_get_page` has succeeded, with the `struct child`
at `a`: the new thread and its tid. -/
def thread_create (s : Procs) (cur : Tid) (a : Nat) : Procs × Tid :=
  let tid := s.next_tid
  let s := (({ s with next_tid := tid + 1 } : Procs).setRecord a (some ⟨tid, -1, false, 0⟩)).setThread
    cur fun th => { th with children := th.children ++ [a] }
  ({ s with threads := s.threads ++ [init_thread tid cur a] }, tid)

/-- Thread `t` moves to `pc` with `eax` unchanged. -/
def Procs.goto (s : Procs) (t : Tid) (pc : Pc) : Procs := s.setThread t fun th => { th with pc }

/-- A system call of thread `t` returns `r` to its program. -/
def Procs.ret (s : Procs) (t : Tid) (r : Int) : Procs :=
  s.setThread t fun th => { th with eax := r, pc := .user }

/-- The next step of the live thread `th`. `none` when it is blocked, running user code or
stopped by a fault, when the label's `malloc` address is a live block, and when it reads memory
it does not own. A `NULL` from `malloc` in `thread_create` is a write through a null pointer,
after which the thread stops at `.faulted`. -/
def runThread (s : Procs) (th : KThread) (o : Bool) (a : Nat) : Option Procs :=
  let t := th.tid
  match th.pc with
  | .user | .faulted _ => none
  -- `process_execute`: the copy of the command line, and its first token
  | .execCopy cmd => if !o || !hasToken cmd then some (s.ret t TID_ERROR) else some (s.goto t .execCreate)
  | .execCreate =>
    if !o then some (s.ret t TID_ERROR)
    -- `malloc` returned `NULL`: `t->child_info->tid = tid` writes through a null pointer
    else if a = 0 then some (s.goto t (.faulted .undefined))
    else if (s.records a).isSome then none
    else
      let (s, tid) := thread_create s t a
      some (s.goto t (.execWait tid))
  | .execWait tid =>
    if th.sema_wait = 0 then none
    else some (s.setThread t fun th => { th with sema_wait := th.sema_wait - 1, pc := .execCheck tid })
  -- `if (!thread_current ()->child_loaded) return TID_ERROR;`
  | .execCheck tid => some (s.ret t (if th.child_loaded then tid else TID_ERROR))
  -- `start_process`: each failure writes `child_loaded = false`, signals and exits
  | .startSpt =>
    if o then some (s.goto t .startPagedir)
    else some (s.setThread t fun th => { th with child_loaded := false, pc := .startSignal false })
  | .startPagedir =>
    if o then some (s.goto t .startLoad)
    else some (s.setThread t fun th => { th with child_loaded := false, pc := .startSignal false })
  | .startLoad => some (s.setThread t fun th => { th with child_loaded := o, pc := .startSignal o })
  | .startSignal ok =>
    match th.parent with
    | none => none
    | some p =>
      if (s.thread p).isNone then none
      else
        let s := s.setThread p fun pt => { pt with sema_wait := pt.sema_wait + 1 }
        some (s.goto t (if ok then .user else .exitWrite))
  -- `process_wait`
  | .waitFind tid =>
    match find_child s th tid with
    | .error _ => none
    | .ok none => some (s.ret t (-1))
    | .ok (some a) =>
      match s.records a with
      | none => none
      | some c =>
        if c.succ then some (s.ret t (-1))
        else some ((s.setRecord a (some { c with succ := true })).goto t (.waitDown tid a))
  | .waitDown tid a =>
    match s.records a with
    | none => none
    | some c =>
      if c.sema_wait = 0 then none
      else
        some ((s.setRecord a (some { c with sema_wait := c.sema_wait - 1 })).goto t (.waitRead tid a))
  -- `int status = c->st_exit; list_remove (&c->elem); free (c); return status;`
  | .waitRead _ a =>
    match s.records a with
    | none => none
    | some c =>
      some ((s.setRecord a none).setThread t fun th =>
        { th with children := th.children.erase a, eax := c.st_exit, pc := .user })
  -- `thread_exit`: print, `child_info->st_exit = st_exit`, `sema_up (&child_info->sema_wait)`
  | .exitWrite =>
    match th.child_info.bind s.records with
    | none => none
    | some c =>
      let s := s.setRecord (th.child_info.getD 0) (some { c with st_exit := th.st_exit })
      some ({ s with console := s.console ++ [(t, th.st_exit)] }.goto t .exitSignal)
  | .exitSignal =>
    match th.child_info.bind s.records with
    | none => none
    | some c =>
      let s := s.setRecord (th.child_info.getD 0) (some { c with sema_wait := c.sema_wait + 1 })
      some { s with threads := s.threads.filter (·.tid ≠ t) }

/-- The labels of the system. -/
inductive ProcOp
  /-- `exec (cmd)` by the program of `t` -/
  | exec (t : Tid) (cmd : List Char)
  /-- `wait (child)` by the program of `t` -/
  | wait (t : Tid) (child : Tid)
  /-- `exit (status)` by the program of `t`, or its kill with `-1` -/
  | exit (t : Tid) (status : Int)
  /-- the next kernel step of `t` -/
  | run (t : Tid) (o : Bool) (a : Nat)
  deriving DecidableEq, Repr

/-- A system call from user mode enters its path at `pc`. -/
def userCall (s : Procs) (t : Tid) (pc : Pc) : Option Procs :=
  match s.thread t with
  | some th => if th.pc = .user then some (s.goto t pc) else none
  | none => none

/-- One step of the system. -/
def procStep (s : Procs) : ProcOp → Option Procs
  | .exec t cmd => userCall s t (.execCopy cmd)
  | .wait t child => userCall s t (.waitFind child)
  -- `sys_exit`: `st_exit = status; thread_exit ();`
  | .exit t status =>
    match s.thread t with
    | some th =>
      if th.pc = .user then some (s.setThread t fun th => { th with st_exit := status, pc := .exitWrite })
      else none
    | none => none
  | .run t o a => (s.thread t).bind fun th => runThread s th o a

/-- The step relation of the system. -/
def ProcStep (s : Procs) (op : ProcOp) (s' : Procs) : Prop := procStep s op = some s'

/-- Run the labels in order. -/
def procRun (s : Procs) : List ProcOp → Option Procs
  | [] => some s
  | op :: ops => (procStep s op).bind fun s' => procRun s' ops

theorem run_of_procRun : ∀ {s t : Procs} {ops : List ProcOp}, procRun s ops = some t →
    Lts.Run ProcStep s ops t
  | s, t, [], h => by
    cases h
    exact .nil s
  | s, t, op :: ops, h => by
    unfold procRun at h
    cases hs : procStep s op with
    | none => simp [hs] at h
    | some s' =>
      rw [hs, Option.bind_some] at h
      exact .cons hs (run_of_procRun h)

/-- The kernel's main thread `t₀`, which runs the first program's `process_execute` and
`process_wait`; `init_thread` gives it no `child_info`. -/
def mainThread (t₀ : Tid) : KThread := ⟨t₀, none, [], none, -1, true, 0, .user, 0⟩

/-- The boot states: only the main thread, no `struct child`, and tids above the main
thread's still free. -/
def ProcInit (s : Procs) : Prop :=
  ∃ t₀, t₀ < s.next_tid ∧ s.threads = [mainThread t₀] ∧ s.records = (fun _ => none) ∧ s.console = []

/-- The states some run of the system reaches. -/
def ProcReachable : Procs → Prop := Lts.Reachable ProcInit ProcStep

/-! ## What a step does

`ThreadStep s th s'` lists the steps of `runThread`, one constructor per branch with its guard,
and `Step` adds the system calls from user mode. `runThread_threadStep` and `procStep_step`
say that the executable step only takes these, so an invariant is proved once per
constructor and never by unfolding `runThread`.
-/

/-- The kernel steps of the live thread `th`. -/
inductive ThreadStep (s : Procs) (th : KThread) : Procs → Prop
  | execFail {cmd} : th.pc = .execCopy cmd → ThreadStep s th (s.ret th.tid TID_ERROR)
  | execCopy {cmd} : th.pc = .execCopy cmd → ThreadStep s th (s.goto th.tid .execCreate)
  | createFail : th.pc = .execCreate → ThreadStep s th (s.ret th.tid TID_ERROR)
  | createNull : th.pc = .execCreate → ThreadStep s th (s.goto th.tid (.faulted .undefined))
  | create {a} : th.pc = .execCreate → a ≠ 0 → s.records a = none →
      ThreadStep s th ((thread_create s th.tid a).1.goto th.tid (.execWait s.next_tid))
  | execDown {tid} : th.pc = .execWait tid → 0 < th.sema_wait →
      ThreadStep s th (s.setThread th.tid fun th =>
        { th with sema_wait := th.sema_wait - 1, pc := .execCheck tid })
  | execCheck {tid} : th.pc = .execCheck tid →
      ThreadStep s th (s.ret th.tid (if th.child_loaded then tid else TID_ERROR))
  | startFail : th.pc = .startSpt ∨ th.pc = .startPagedir →
      ThreadStep s th (s.setThread th.tid fun th =>
        { th with child_loaded := false, pc := .startSignal false })
  | startSpt : th.pc = .startSpt → ThreadStep s th (s.goto th.tid .startPagedir)
  | startPagedir : th.pc = .startPagedir → ThreadStep s th (s.goto th.tid .startLoad)
  | startLoad (ok : Bool) : th.pc = .startLoad →
      ThreadStep s th (s.setThread th.tid fun th => { th with child_loaded := ok, pc := .startSignal ok })
  | startSignal {ok p pt} : th.pc = .startSignal ok → th.parent = some p → s.thread p = some pt →
      ThreadStep s th ((s.setThread p fun pt => { pt with sema_wait := pt.sema_wait + 1 }).goto
        th.tid (if ok then .user else .exitWrite))
  | waitNone {tid} : th.pc = .waitFind tid → find_child s th tid = .ok none →
      ThreadStep s th (s.ret th.tid (-1))
  | waitAgain {tid a c} : th.pc = .waitFind tid → find_child s th tid = .ok (some a) →
      s.records a = some c → c.succ = true → ThreadStep s th (s.ret th.tid (-1))
  | waitBegin {tid a c} : th.pc = .waitFind tid → find_child s th tid = .ok (some a) →
      s.records a = some c → c.succ = false →
      ThreadStep s th ((s.setRecord a (some { c with succ := true })).goto th.tid (.waitDown tid a))
  | waitDown {tid a c} : th.pc = .waitDown tid a → s.records a = some c → 0 < c.sema_wait →
      ThreadStep s th ((s.setRecord a (some { c with sema_wait := c.sema_wait - 1 })).goto th.tid
        (.waitRead tid a))
  | waitRead {tid a c} : th.pc = .waitRead tid a → s.records a = some c →
      ThreadStep s th ((s.setRecord a none).setThread th.tid fun th =>
        { th with children := th.children.erase a, eax := c.st_exit, pc := .user })
  | exitWrite {a c} : th.pc = .exitWrite → th.child_info = some a → s.records a = some c →
      ThreadStep s th ({ s.setRecord a (some { c with st_exit := th.st_exit }) with
        console := s.console ++ [(th.tid, th.st_exit)] }.goto th.tid .exitSignal)
  | exitSignal {a c} : th.pc = .exitSignal → th.child_info = some a → s.records a = some c →
      ThreadStep s th { s.setRecord a (some { c with sema_wait := c.sema_wait + 1 }) with
        threads := s.threads.filter (·.tid ≠ th.tid) }

/-- The steps of the system. -/
inductive Step (s : Procs) : Procs → Prop
  | exec {t th cmd} : s.thread t = some th → th.pc = .user → Step s (s.goto t (.execCopy cmd))
  | wait {t th child} : s.thread t = some th → th.pc = .user → Step s (s.goto t (.waitFind child))
  | exit {t th status} : s.thread t = some th → th.pc = .user →
      Step s (s.setThread t fun th => { th with st_exit := status, pc := .exitWrite })
  | run {t th s'} : s.thread t = some th → ThreadStep s th s' → Step s s'

theorem runThread_threadStep {s s' : Procs} {th : KThread} {o : Bool} {a : Nat}
    (h : runThread s th o a = some s') : ThreadStep s th s' := by
  unfold runThread at h
  split at h
  · cases h
  · cases h
  · rename_i cmd hpc
    split at h
    · cases h
      exact .execFail hpc
    · cases h
      exact .execCopy hpc
  · rename_i hpc
    split at h
    · cases h
      exact .createFail hpc
    split at h
    · cases h
      exact .createNull hpc
    split at h
    · cases h
    · rename_i hnull hfresh
      cases h
      exact .create hpc hnull (by simpa using hfresh)
  · rename_i tid hpc
    split at h
    · cases h
    · cases h
      exact .execDown hpc (by omega)
  · rename_i tid hpc
    cases h
    exact .execCheck hpc
  · rename_i hpc
    split at h
    · cases h
      exact .startSpt hpc
    · cases h
      exact .startFail (.inl hpc)
  · rename_i hpc
    split at h
    · cases h
      exact .startPagedir hpc
    · cases h
      exact .startFail (.inr hpc)
  · rename_i hpc
    cases h
    exact .startLoad o hpc
  · rename_i ok hpc
    split at h
    · cases h
    · rename_i p hp
      split at h
      · cases h
      · rename_i hpt
        obtain ⟨pt, hpt⟩ := Option.ne_none_iff_exists'.mp (by simpa using hpt)
        cases h
        exact .startSignal hpc hp hpt
  · rename_i tid hpc
    split at h
    · cases h
    · cases h
      exact .waitNone hpc (by assumption)
    · rename_i a hfind
      split at h
      · cases h
      · rename_i c hc
        split at h
        · cases h
          exact .waitAgain hpc hfind hc (by assumption)
        · cases h
          exact .waitBegin hpc hfind hc (by simpa using (by assumption : ¬c.succ = true))
  · rename_i tid a hpc
    split at h
    · cases h
    · rename_i c hc
      split at h
      · cases h
      · cases h
        exact .waitDown hpc hc (by omega)
  · rename_i tid a hpc
    split at h
    · cases h
    · rename_i c hc
      cases h
      exact .waitRead hpc hc
  · rename_i hpc
    split at h
    · cases h
    · rename_i c hc
      obtain ⟨a, ha, hc⟩ := Option.bind_eq_some_iff.mp hc
      cases h
      simp only [ha, Option.getD_some]
      exact .exitWrite hpc ha hc
  · rename_i hpc
    split at h
    · cases h
    · rename_i c hc
      obtain ⟨a, ha, hc⟩ := Option.bind_eq_some_iff.mp hc
      cases h
      simp only [ha, Option.getD_some]
      exact .exitSignal hpc ha hc

theorem procStep_step {s s' : Procs} {op : ProcOp} (h : ProcStep s op s') : Step s s' := by
  unfold ProcStep at h
  cases op with
  | exec t cmd | wait t child =>
    rw [procStep, userCall] at h
    split at h
    · rename_i th hth
      split at h
      · cases h
        first | exact .exec hth (by assumption) | exact .wait hth (by assumption)
      · cases h
    · cases h
  | exit t status =>
    rw [procStep] at h
    split at h
    · rename_i th hth
      split at h
      · cases h
        exact .exit hth (by assumption)
      · cases h
    · cases h
  | run t o a =>
    rw [procStep] at h
    obtain ⟨th, hth, h⟩ := Option.bind_eq_some_iff.mp h
    exact .run hth (runThread_threadStep h)

end Pintos
