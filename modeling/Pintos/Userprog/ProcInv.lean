import Pintos.Userprog.Process
import Pintos.Lib.ListCursor

/-!
# Threads of the process model: access lemmas and distinct tids

`allocate_tid` hands out increasing tids, so the live threads have distinct tids, all below
`next_tid` (`TidsOk`, in every reachable state by `tidsOk_reachable`). With distinct tids an
update of thread `t` touches exactly the thread that `Procs.thread t` finds, which is what
`AllThreads.setThread` needs to carry a property of every thread through a step.
-/

namespace Pintos

namespace Procs

variable {s : Procs}

theorem thread_setThread (t t' : Tid) (f : KThread → KThread) (hf : ∀ th, (f th).tid = th.tid) :
    (s.setThread t f).thread t' = if t' = t then (s.thread t).map f else s.thread t' := by
  unfold thread setThread
  exact List.find?_map_update f hf t t' s.threads

theorem mem_of_thread {t : Tid} {th : KThread} (h : s.thread t = some th) :
    th ∈ s.threads ∧ th.tid = t :=
  ⟨List.mem_of_find?_eq_some h, by simpa using List.find?_some h⟩

@[simp] theorem setThread_records (t : Tid) (f : KThread → KThread) :
    (s.setThread t f).records = s.records := rfl

@[simp] theorem setThread_next_tid (t : Tid) (f : KThread → KThread) :
    (s.setThread t f).next_tid = s.next_tid := rfl

@[simp] theorem setThread_console (t : Tid) (f : KThread → KThread) :
    (s.setThread t f).console = s.console := rfl

@[simp] theorem setRecord_threads (a : Nat) (c : Option ChildRec) :
    (s.setRecord a c).threads = s.threads := rfl

@[simp] theorem setRecord_next_tid (a : Nat) (c : Option ChildRec) :
    (s.setRecord a c).next_tid = s.next_tid := rfl

@[simp] theorem setRecord_console (a : Nat) (c : Option ChildRec) :
    (s.setRecord a c).console = s.console := rfl

@[simp] theorem setRecord_records (a : Nat) (c : Option ChildRec) :
    (s.setRecord a c).records = Function.update s.records a c := rfl

theorem map_tid_setThread (t : Tid) {f : KThread → KThread} (hf : ∀ th, (f th).tid = th.tid) :
    (s.setThread t f).threads.map (·.tid) = s.threads.map (·.tid) := by
  simp only [setThread, List.map_map]
  apply List.map_congr_left
  intro th _
  by_cases h : th.tid = t <;> simp [h, hf]

end Procs

theorem Procs.mem_setThread_of_ne {s : Procs} {t : Tid} {th : KThread} (hmem : th ∈ s.threads)
    (hne : th.tid ≠ t) (f : KThread → KThread) : th ∈ (s.setThread t f).threads :=
  List.mem_map.mpr ⟨th, hmem, if_neg hne⟩

theorem Procs.mem_setThread_self {s : Procs} {t : Tid} {th : KThread} (hth : s.thread t = some th)
    (f : KThread → KThread) : f th ∈ (s.setThread t f).threads := by
  obtain ⟨hmem, htid⟩ := Procs.mem_of_thread hth
  exact List.mem_map.mpr ⟨th, hmem, if_pos htid⟩

theorem thread_create_threads (s : Procs) (cur : Tid) (a : Nat) :
    (thread_create s cur a).1.threads =
      (s.setThread cur fun th => { th with children := th.children ++ [a] }).threads ++
        [init_thread s.next_tid cur a] := rfl

@[simp] theorem thread_create_next_tid (s : Procs) (cur : Tid) (a : Nat) :
    (thread_create s cur a).1.next_tid = s.next_tid + 1 := rfl

@[simp] theorem thread_create_records (s : Procs) (cur : Tid) (a : Nat) :
    (thread_create s cur a).1.records =
      Function.update s.records a (some ⟨s.next_tid, -1, false, 0⟩) := rfl

@[simp] theorem thread_create_console (s : Procs) (cur : Tid) (a : Nat) :
    (thread_create s cur a).1.console = s.console := rfl

theorem thread_create_thread {s : Procs} {cur a : Nat} {th : KThread}
    (hth : s.thread cur = some th) :
    (thread_create s cur a).1.thread cur = some { th with children := th.children ++ [a] } := by
  unfold Procs.thread
  rw [thread_create_threads, List.find?_append]
  have h₁ := @Procs.thread_setThread s cur cur
    (fun th => { th with children := th.children ++ [a] }) (fun _ => rfl)
  unfold Procs.thread at h₁ hth
  rw [h₁, if_pos rfl, hth]
  rfl

theorem Procs.records_setRecord_self (s : Procs) (a : Nat) (c : Option ChildRec) :
    (s.setRecord a c).records a = c := by
  simp

theorem Procs.records_setRecord_of_ne (s : Procs) {a b : Nat} (c : Option ChildRec) (h : b ≠ a) :
    (s.setRecord a c).records b = s.records b := by
  simp [h]

/-- A record of the updated heap is the written one or an old one at another address. -/
theorem Procs.eq_some_of_setRecord {s : Procs} {a b : Nat} {c : Option ChildRec} {r : ChildRec}
    (h : (s.setRecord a c).records b = some r) :
    (b = a ∧ c = some r) ∨ (b ≠ a ∧ s.records b = some r) := by
  by_cases hb : b = a
  · subst hb
    rw [Procs.records_setRecord_self] at h
    exact .inl ⟨rfl, h⟩
  · rw [Procs.records_setRecord_of_ne s c hb] at h
    exact .inr ⟨hb, h⟩

theorem Procs.goto_setRecord (s : Procs) (a : Nat) (c : Option ChildRec) (t : Tid) (pc : Pc) :
    (s.setRecord a c).goto t pc = (s.goto t pc).setRecord a c := rfl

/-! ## Distinct tids -/

/-- The live threads have distinct tids, all below `next_tid`. -/
structure TidsOk (s : Procs) : Prop where
  nodup : (s.threads.map (·.tid)).Nodup
  lt : ∀ th ∈ s.threads, th.tid < s.next_tid

namespace TidsOk

variable {s : Procs}

/-- The only live thread with tid `t` is the one `Procs.thread t` finds. -/
theorem eq_of_mem (h : TidsOk s) {t : Tid} {th th' : KThread} (hth : s.thread t = some th)
    (hmem : th' ∈ s.threads) (htid : th'.tid = t) : th' = th := by
  obtain ⟨hmem₀, htid₀⟩ := Procs.mem_of_thread hth
  exact List.inj_on_of_nodup_map h.nodup hmem hmem₀ (htid.trans htid₀.symm)

/-- A thread at another place than thread `t` is not `t`. -/
theorem tid_ne_of_pc (h : TidsOk s) {t : Tid} {th p : KThread} (hth : s.thread t = some th)
    (hp : p ∈ s.threads) (hpc : p.pc ≠ th.pc) : p.tid ≠ t := fun hpt =>
  hpc (by rw [h.eq_of_mem hth hp hpt])

theorem setThread (h : TidsOk s) (t : Tid) {f : KThread → KThread}
    (hf : ∀ th, (f th).tid = th.tid) : TidsOk (s.setThread t f) := by
  refine ⟨by rw [Procs.map_tid_setThread t hf]; exact h.nodup, ?_⟩
  intro th' hth'
  obtain ⟨th, hth, rfl⟩ := List.mem_map.mp hth'
  split
  · rw [hf]
    exact h.lt th hth
  · exact h.lt th hth

theorem setRecord (h : TidsOk s) (a : Nat) (c : Option ChildRec) : TidsOk (s.setRecord a c) :=
  ⟨h.nodup, h.lt⟩

theorem thread_create (h : TidsOk s) (cur a : Nat) : TidsOk (thread_create s cur a).1 := by
  have hcur : TidsOk (s.setThread cur fun th => { th with children := th.children ++ [a] }) :=
    h.setThread cur (by intro; rfl)
  refine ⟨?_, ?_⟩
  · -- the new tid is `next_tid`, above every live one
    rw [thread_create_threads, List.map_append, List.nodup_append]
    refine ⟨hcur.nodup, List.nodup_singleton _, ?_⟩
    intro x hx y hy
    obtain ⟨th, hth, rfl⟩ := List.mem_map.mp hx
    simp only [List.map_cons, List.map_nil, List.mem_singleton] at hy
    subst hy
    exact (hcur.lt th hth).ne
  · intro th hth
    rw [thread_create_threads] at hth
    rw [thread_create_next_tid]
    rcases List.mem_append.mp hth with hth | hth
    · exact Nat.lt_succ_of_lt (hcur.lt th hth)
    · simp only [List.mem_singleton] at hth
      subst hth
      exact Nat.lt_succ_self _

theorem eq_of_tid (h : TidsOk s) {th th' : KThread} (hmem : th ∈ s.threads)
    (hmem' : th' ∈ s.threads) (htid : th.tid = th'.tid) : th = th' :=
  List.inj_on_of_nodup_map h.nodup hmem hmem' htid

/-- A thread of the updated list is the updated `th` or another thread, unchanged. -/
theorem mem_setThread (h : TidsOk s) {t : Tid} {th th' : KThread} (hth : s.thread t = some th)
    {f : KThread → KThread} (hmem : th' ∈ (s.setThread t f).threads) :
    th' = f th ∨ (th' ∈ s.threads ∧ th'.tid ≠ t) := by
  obtain ⟨th'', hmem'', rfl⟩ := List.mem_map.mp hmem
  split
  · rename_i htid
    rw [h.eq_of_mem hth hmem'' htid]
    exact .inl rfl
  · rename_i htid
    exact .inr ⟨hmem'', htid⟩

theorem filter (h : TidsOk s) (p : KThread → Bool) :
    TidsOk { s with threads := s.threads.filter p } :=
  ⟨(List.filter_sublist.map _).nodup h.nodup, fun th hth => h.lt th (List.mem_filter.mp hth).1⟩

/-- A thread after `thread_create` is the new one, the creator with its new record listed, or
another thread, unchanged. -/
theorem mem_thread_create (h : TidsOk s) {cur a : Nat} {th th' : KThread}
    (hth : s.thread cur = some th) (hmem : th' ∈ (Pintos.thread_create s cur a).1.threads) :
    th' = init_thread s.next_tid cur a ∨ th' = { th with children := th.children ++ [a] } ∨
      (th' ∈ s.threads ∧ th'.tid ≠ cur) := by
  rw [thread_create_threads] at hmem
  rcases List.mem_append.mp hmem with hmem | hmem
  · exact .inr (h.mem_setThread hth hmem)
  · exact .inl (List.mem_singleton.mp hmem)

end TidsOk

theorem Procs.thread_setThread_self {s : Procs} {t : Tid} {th : KThread}
    (hth : s.thread t = some th) (f : KThread → KThread) (hf : ∀ th, (f th).tid = th.tid) :
    (s.setThread t f).thread t = some (f th) := by
  rw [Procs.thread_setThread t t f hf, if_pos rfl, hth]
  rfl

theorem Procs.thread_goto {s : Procs} {t : Tid} {th : KThread} (hth : s.thread t = some th)
    (pc : Pc) : (s.goto t pc).thread t = some { th with pc } :=
  Procs.thread_setThread_self hth _ fun _ => rfl

theorem Procs.thread_ret {s : Procs} {t : Tid} {th : KThread} (hth : s.thread t = some th)
    (r : Int) : (s.ret t r).thread t = some { th with eax := r, pc := .user } :=
  Procs.thread_setThread_self hth _ fun _ => rfl

/-- After an update of thread `p`, the thread `t` is the old one or, when `t = p`, the updated
one. -/
theorem Procs.exists_thread_setThread {s : Procs} {t p : Tid} {th : KThread}
    {f : KThread → KThread} (hf : ∀ th, (f th).tid = th.tid) (hth : s.thread t = some th) :
    ∃ th', (s.setThread p f).thread t = some th' ∧ (th' = th ∨ th' = f th) := by
  rw [Procs.thread_setThread p t f hf, hth]
  split
  · rename_i htp
    subst htp
    exact ⟨f th, by rw [hth]; rfl, .inr rfl⟩
  · exact ⟨th, rfl, .inl rfl⟩

/-- A kernel step of a live thread is the step `runThread` takes. -/
theorem procStep_run {s s' : Procs} {t : Tid} {th : KThread} (hth : s.thread t = some th)
    (o : Bool) (a : Nat) : ProcStep s (.run t o a) s' ↔ runThread s th o a = some s' := by
  rw [ProcStep, procStep, hth]
  rfl

theorem tidsOk_goto {s : Procs} (h : TidsOk s) (t : Tid) (pc : Pc) : TidsOk (s.goto t pc) :=
  h.setThread t (by intro; rfl)

theorem tidsOk_ret {s : Procs} (h : TidsOk s) (t : Tid) (r : Int) : TidsOk (s.ret t r) :=
  h.setThread t (by intro; rfl)

theorem tidsOk_threadStep {s s' : Procs} {th : KThread} (h : TidsOk s)
    (hstep : ThreadStep s th s') : TidsOk s' := by
  cases hstep with
  | execFail | createFail | execCheck | waitNone | waitAgain => exact tidsOk_ret h _ _
  | execCopy | createNull | startSpt | startPagedir => exact tidsOk_goto h _ _
  | create => exact tidsOk_goto (h.thread_create _ _) _ _
  | execDown | startFail | startLoad => exact h.setThread _ (by intro; rfl)
  | startSignal => exact tidsOk_goto (h.setThread _ (by intro; rfl)) _ _
  | waitBegin | waitDown => exact tidsOk_goto (h.setRecord _ _) _ _
  | waitRead => exact (h.setRecord _ _).setThread _ (by intro; rfl)
  | exitWrite =>
    apply tidsOk_goto
    exact ⟨h.nodup, h.lt⟩
  | exitSignal => exact (h.setRecord _ _).filter _

theorem tidsOk_step {s s' : Procs} (h : TidsOk s) (hstep : Step s s') : TidsOk s' := by
  cases hstep with
  | exec | wait => exact tidsOk_goto h _ _
  | exit => exact h.setThread _ (by intro; rfl)
  | run _ hrun => exact tidsOk_threadStep h hrun

theorem tidsOk_reachable {s : Procs} (hs : ProcReachable s) : TidsOk s :=
  Lts.Reachable.invariant
    (fun ⟨t₀, hlt, hthreads, _, _⟩ => ⟨by simp [hthreads], by simp [hthreads, mainThread, hlt]⟩)
    (fun hst h => tidsOk_step h (procStep_step hst)) hs

/-! ## A property of every thread -/

/-- Every live thread satisfies `P`. -/
def Procs.AllThreads (P : KThread → Prop) (s : Procs) : Prop := ∀ th ∈ s.threads, P th

namespace Procs.AllThreads

variable {P : KThread → Prop} {s : Procs}

/-- An update of the thread `th` that `Procs.thread t` finds keeps `P` if it keeps it for `th`. -/
theorem setThread (h : s.AllThreads P) (htids : TidsOk s) {t : Tid} {th : KThread}
    (hth : s.thread t = some th) {f : KThread → KThread} (hf : P (f th)) :
    (s.setThread t f).AllThreads P := by
  intro th' hth'
  obtain ⟨th'', hmem, rfl⟩ := List.mem_map.mp hth'
  split
  · rename_i htid
    rw [htids.eq_of_mem hth hmem htid]
    exact hf
  · exact h th'' hmem

/-- An update that keeps `P` for every thread keeps it. -/
theorem setThread_of_forall (h : s.AllThreads P) (t : Tid) {f : KThread → KThread}
    (hf : ∀ th, P th → P (f th)) : (s.setThread t f).AllThreads P := by
  intro th' hth'
  obtain ⟨th'', hmem, rfl⟩ := List.mem_map.mp hth'
  split
  · exact hf th'' (h th'' hmem)
  · exact h th'' hmem

theorem of_threads {s' : Procs} (h : s.AllThreads P) (ht : s'.threads = s.threads) :
    s'.AllThreads P := by
  unfold Procs.AllThreads
  rw [ht]
  exact h

theorem setRecord (h : s.AllThreads P) (a : Nat) (c : Option ChildRec) :
    (s.setRecord a c).AllThreads P :=
  h

theorem filter (h : s.AllThreads P) (p : KThread → Bool) :
    ({ s with threads := s.threads.filter p } : Procs).AllThreads P :=
  fun th hth => h th (List.mem_filter.mp hth).1

theorem thread (h : s.AllThreads P) {t : Tid} {th : KThread} (hth : s.thread t = some th) : P th :=
  h th (Procs.mem_of_thread hth).1

end Procs.AllThreads

end Pintos
