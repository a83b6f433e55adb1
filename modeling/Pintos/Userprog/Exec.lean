import Pintos.Userprog.ProcInv

/-!
# The load handshake of `exec`

`start_process` reports its load by writing `child_loaded` and upping its parent's `sema_wait`;
`process_execute` downs its own `sema_wait` and then reads `child_loaded`. The child writes its
own flag and the parent reads its own. `init_thread` sets the flag, and only the failure path
of a thread's own `start_process` clears it, after which that thread only signals and exits
(`LoadFlagOk`, in every reachable state by `loadFlagOk_reachable`). So once `thread_create` has
succeeded, `process_execute` returns the child's tid whatever `load` did
(`process_execute_returns_tid`).
-/

namespace Pintos

/-- A cleared `child_loaded` belongs to a thread that has failed its own load and is on its way
out. -/
def LoadFlagOk (th : KThread) : Prop :=
  th.child_loaded = false → th.pc = .startSignal false ∨ th.pc = .exitWrite ∨ th.pc = .exitSignal

theorem loadFlagOk_of_loaded {th : KThread} (h : th.child_loaded = true) : LoadFlagOk th :=
  fun h' => by
    rw [h] at h'
    cases h'

/-- Outside the failure path the flag is set. -/
theorem loaded_of_loadFlagOk {th : KThread} (h : LoadFlagOk th)
    (hpc : th.pc ≠ .startSignal false ∧ th.pc ≠ .exitWrite ∧ th.pc ≠ .exitSignal) :
    th.child_loaded = true := by
  cases hl : th.child_loaded with
  | true => rfl
  | false =>
    rcases h hl with h₁ | h₁ | h₁
    · exact absurd h₁ hpc.1
    · exact absurd h₁ hpc.2.1
    · exact absurd h₁ hpc.2.2

theorem loadFlagOk_of_exit {th : KThread} (h : th.pc = .exitWrite ∨ th.pc = .exitSignal) :
    LoadFlagOk th :=
  fun _ => .inr h

variable {s : Procs}

/-- The thread that takes a step keeps a set flag, or moves to `pc` with a flag that `LoadFlagOk`
allows there. -/
theorem loadFlagOk_setThread (h : s.AllThreads LoadFlagOk) (htids : TidsOk s) {t : Tid}
    {th : KThread} (hth : s.thread t = some th) {f : KThread → KThread}
    (hf : th.child_loaded = true → (f th).child_loaded = true)
    (hpc : th.pc ≠ .startSignal false ∧ th.pc ≠ .exitWrite ∧ th.pc ≠ .exitSignal) :
    (s.setThread t f).AllThreads LoadFlagOk :=
  h.setThread htids hth (loadFlagOk_of_loaded (hf (loaded_of_loadFlagOk (h.thread hth) hpc)))

theorem loadFlagOk_goto (h : s.AllThreads LoadFlagOk) (htids : TidsOk s) {t : Tid}
    {th : KThread} (hth : s.thread t = some th)
    (hpc : th.pc ≠ .startSignal false ∧ th.pc ≠ .exitWrite ∧ th.pc ≠ .exitSignal) (pc : Pc) :
    (s.goto t pc).AllThreads LoadFlagOk := by
  unfold Procs.goto
  exact loadFlagOk_setThread h htids hth (by intro h; exact h) hpc

theorem loadFlagOk_ret (h : s.AllThreads LoadFlagOk) (htids : TidsOk s) {t : Tid}
    {th : KThread} (hth : s.thread t = some th)
    (hpc : th.pc ≠ .startSignal false ∧ th.pc ≠ .exitWrite ∧ th.pc ≠ .exitSignal) (r : Int) :
    (s.ret t r).AllThreads LoadFlagOk := by
  unfold Procs.ret
  exact loadFlagOk_setThread h htids hth (by intro h; exact h) hpc

theorem loadFlagOk_thread_create (h : s.AllThreads LoadFlagOk) (cur a : Nat) :
    (thread_create s cur a).1.AllThreads LoadFlagOk := by
  intro th hth
  rw [thread_create_threads] at hth
  have hcur : (s.setThread cur fun th => { th with children := th.children ++ [a] }).AllThreads
      LoadFlagOk := h.setThread_of_forall cur fun _ h => h
  rcases List.mem_append.mp hth with hth | hth
  · exact hcur th hth
  · simp only [List.mem_singleton] at hth
    subst hth
    exact loadFlagOk_of_loaded rfl

/-- Every step keeps `LoadFlagOk` for every thread. -/
theorem loadFlagOk_step {s' : Procs} (h : s.AllThreads LoadFlagOk) (htids : TidsOk s)
    (hstep : Step s s') : s'.AllThreads LoadFlagOk := by
  cases hstep with
  | exec hth hpc | wait hth hpc => exact loadFlagOk_goto h htids hth (by simp [hpc]) _
  | exit hth hpc => exact h.setThread htids hth (loadFlagOk_of_exit (.inl rfl))
  | @run t th _ hth hrun =>
    obtain ⟨-, rfl⟩ := Procs.mem_of_thread hth
    cases hrun with
    | execFail hpc | createFail hpc | execCheck hpc | waitNone hpc _ | waitAgain hpc _ _ _ =>
      exact loadFlagOk_ret h htids hth (by simp [hpc]) _
    | execCopy hpc | createNull hpc | startSpt hpc | startPagedir hpc =>
      exact loadFlagOk_goto h htids hth (by simp [hpc]) _
    | execDown hpc _ =>
      exact loadFlagOk_setThread h htids hth (by intro h; exact h) (by simp [hpc])
    | @create a hpc _ _ =>
      exact loadFlagOk_goto (loadFlagOk_thread_create h _ _) (htids.thread_create _ _)
        (thread_create_thread hth) (by simp [hpc]) _
    | startFail hpc => exact h.setThread htids hth fun _ => .inl rfl
    | startLoad ok hpc =>
      cases ok with
      | false => exact h.setThread htids hth fun _ => .inl rfl
      | true => exact h.setThread htids hth (loadFlagOk_of_loaded rfl)
    | @startSignal ok p pt hpc hp hpt =>
      let g : KThread → KThread := fun pt => { pt with sema_wait := pt.sema_wait + 1 }
      have h₁ : (s.setThread p g).AllThreads LoadFlagOk := h.setThread_of_forall p fun _ h => h
      have htids₁ : TidsOk (s.setThread p g) := htids.setThread p (by intro; rfl)
      obtain ⟨th₁, hth₁, hpc₁⟩ : ∃ th₁, (s.setThread p g).thread th.tid = some th₁ ∧
          th₁.pc = th.pc := by
        rw [Procs.thread_setThread p th.tid g (by intro; rfl)]
        split
        · rename_i htp
          rw [← htp, hth]
          exact ⟨_, rfl, rfl⟩
        · exact ⟨th, hth, rfl⟩
      cases ok with
      | false =>
        unfold Procs.goto
        exact h₁.setThread htids₁ hth₁ (loadFlagOk_of_exit (.inl rfl))
      | true => exact loadFlagOk_goto h₁ htids₁ hth₁ (by simp [hpc₁, hpc]) _
    | waitBegin hpc _ _ _ | waitDown hpc _ _ =>
      exact loadFlagOk_goto (h.setRecord _ _) (htids.setRecord _ _) hth (by simp [hpc]) _
    | waitRead hpc _ =>
      exact loadFlagOk_setThread (h.setRecord _ _) (htids.setRecord _ _) hth
        (by intro h; exact h) (by simp [hpc])
    | exitWrite hpc _ _ =>
      unfold Procs.goto
      refine Procs.AllThreads.setThread ?_ ?_ hth (loadFlagOk_of_exit (.inr rfl))
      · exact h.of_threads rfl
      · exact ⟨htids.nodup, htids.lt⟩
    | exitSignal _ _ _ => exact (h.of_threads rfl).filter _

theorem loadFlagOk_reachable {s : Procs} (hs : ProcReachable s) : s.AllThreads LoadFlagOk :=
  Lts.Reachable.invariant_of tidsOk_reachable
    (fun ⟨_, _, hthreads, _, _⟩ th hth => by
      rw [hthreads, List.mem_singleton] at hth
      subst hth
      exact loadFlagOk_of_loaded rfl)
    (fun htids hst h => loadFlagOk_step h htids (procStep_step hst)) hs

/-- In every reachable state, the last step of `process_execute` returns the child's tid: the
flag it reads is its own, which only its own failed load could have cleared. -/
theorem process_execute_returns_tid {s s' : Procs} {t c : Tid} {th : KThread} {o : Bool}
    {a : Nat} (hs : ProcReachable s) (hth : s.thread t = some th) (hpc : th.pc = .execCheck c)
    (hstep : ProcStep s (.run t o a) s') :
    s'.thread t = some { th with eax := c, pc := .user } := by
  have hloaded : th.child_loaded = true :=
    loaded_of_loadFlagOk ((loadFlagOk_reachable hs).thread hth) (by simp [hpc])
  obtain ⟨-, rfl⟩ := Procs.mem_of_thread hth
  have hrun : runThread s th o a = some s' := by
    rw [ProcStep, procStep, hth] at hstep
    exact hstep
  rw [runThread, hpc] at hrun
  cases hrun
  rw [Procs.thread_ret hth, hloaded]
  rfl

/-! ## An `exec` whose load fails -/

/-- The main thread `1`, before the first program. -/
def execBoot : Procs := ⟨[mainThread 1], fun _ => none, 2, []⟩

/-- `exec ("echo")` by thread `1` up to its check: the copy of the command line, `thread_create`
with the `struct child` at `0xc0103000`, the child's table and directory, its failing `load`
and its signal, and the parent's `sema_down`. -/
def failedLoadRun : List ProcOp :=
  [.exec 1 ['e', 'c', 'h', 'o'], .run 1 true 0, .run 1 true 0xc0103000,
   .run 2 true 0, .run 2 true 0, .run 2 false 0, .run 2 true 0, .run 1 true 0]

/-- The state with the parent at its check. -/
def failedLoadCheck : Procs := (procRun execBoot failedLoadRun).getD execBoot

/-- The parent there. -/
def parentAtCheck : KThread := (failedLoadCheck.thread 1).getD (mainThread 1)

theorem failedLoadCheck_reachable : ProcReachable failedLoadCheck := by
  have hrun : procRun execBoot failedLoadRun = some failedLoadCheck := by rfl
  exact Lts.Reachable.of_run ⟨1, by decide, rfl, rfl, rfl⟩ (run_of_procRun hrun)

theorem process_execute_returns_tid_of_failed_load :
    ProcReachable failedLoadCheck ∧ failedLoadCheck.thread 1 = some parentAtCheck ∧
      parentAtCheck.pc = .execCheck 2 ∧
      ProcStep failedLoadCheck (.run 1 true 0) (failedLoadCheck.ret 1 2) ∧
      (failedLoadCheck.ret 1 2).thread 1 = some { parentAtCheck with eax := 2, pc := .user } := by
  have hth : failedLoadCheck.thread 1 = some parentAtCheck := by rfl
  have hpc : parentAtCheck.pc = .execCheck 2 := by rfl
  have hstep : ProcStep failedLoadCheck (.run 1 true 0) (failedLoadCheck.ret 1 2) := by rfl
  exact ⟨failedLoadCheck_reachable, hth, hpc, hstep,
    process_execute_returns_tid failedLoadCheck_reachable hth hpc hstep⟩

/-- The child fails `load` and exits with `-1`, and `exec` returns its tid `2`. -/
theorem exec_succeeds_after_failed_load : ∃ s, ProcReachable s ∧
    procRun execBoot (failedLoadRun ++ [.run 1 true 0, .run 2 true 0, .run 2 true 0]) = some s ∧
    (s.thread 1).map (·.eax) = some 2 ∧ s.console = [(2, -1)] ∧ s.thread 2 = none := by
  have hrun : procRun execBoot (failedLoadRun ++ [.run 1 true 0, .run 2 true 0, .run 2 true 0]) =
      some ((procRun execBoot (failedLoadRun ++ [.run 1 true 0, .run 2 true 0, .run 2 true 0])).getD
        execBoot) := by rfl
  exact ⟨_, Lts.Reachable.of_run ⟨1, by decide, rfl, rfl, rfl⟩ (run_of_procRun hrun), hrun,
    by decide, by decide, by decide⟩

end Pintos
