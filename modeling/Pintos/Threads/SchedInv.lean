import Mathlib.Data.List.Nodup
import Pintos.Lib.EState
import Pintos.Threads.Sched

/-!
# The scheduler's invariant

A thread's `elem` is on `ready_list` or on the waiters of one semaphore, and a blocked thread can
also be kept in an `intq` waiter slot or in the `t` of a `thread_create` that has not yet
unblocked it. `Sched.queue` views these places as one family of queues, and `QueueOk` says what
holds of them: no thread twice, no thread in two, only blocked threads, never the idle thread.

`ThreadsInv` is what holds both between calls and inside `schedule` (the ready list, the idle
thread, the queues, `all_list` and the freed pages). Between calls `SchedInv` adds that the
running thread is the one thread `THREAD_RUNNING` and that the freed pages are exactly those of
the dying threads other than `initial_thread`. Inside `schedule` (`Switching`), after the running
thread has left `THREAD_RUNNING`, no thread is running and the running thread's page is not yet
freed. Each call that schedules goes from `SchedInv` to `Switching` (`SchedInv.block`,
`SchedInv.yield`, `SchedInv.exit` and the queued forms of `block`) and `schedule` back
(`Switching.schedule`); the calls that wake a thread go through `SchedInv.unblock`.
-/

set_option linter.style.nameCheck false

namespace Pintos

open thread_status

/-- A place where a blocked thread waits: the waiters of a semaphore, an `intq` waiter slot, or the
new thread that a thread in `thread_create` holds. -/
inductive Queue
  | sema (a : ℕ)
  | waiter (w : ℕ)
  | creating (c : ℕ)
  deriving DecidableEq

/-- The queues hold each thread once, in one queue, only blocked threads, and not the idle
thread. -/
structure QueueOk (Q : Queue → List ℕ) (status : ℕ → Option thread_status)
    (idle : Option ℕ) : Prop where
  nodup : ∀ q, (Q q).Nodup
  blocked : ∀ q, ∀ t ∈ Q q, status t = some THREAD_BLOCKED
  apart : ∀ q r, ∀ t ∈ Q q, t ∈ Q r → q = r
  not_idle : ∀ q i, idle = some i → i ∉ Q q

namespace QueueOk

variable {Q : Queue → List ℕ} {status : ℕ → Option thread_status} {idle : Option ℕ}
  {q₀ : Queue} {l : List ℕ} {t : ℕ}

theorem empty (hQ : ∀ q, Q q = []) : QueueOk Q status idle where
  nodup q := by simp [hQ]
  blocked q := by simp [hQ]
  apart q := by simp [hQ]
  not_idle q := by simp [hQ]

theorem mem_update_of_subset {x : ℕ} {q : Queue} (hl : ∀ y ∈ l, y ∈ Q q₀)
    (hx : x ∈ Function.update Q q₀ l q) : x ∈ Q q := by
  by_cases hq : q = q₀
  · subst hq
    rw [Function.update_self] at hx
    exact hl x hx
  · rwa [Function.update_of_ne hq] at hx

theorem mem_update {x : ℕ} {q : Queue} (hl : ∀ y ∈ l, y ∈ Q q₀ ∨ y = t)
    (hx : x ∈ Function.update Q q₀ l q) : x ∈ Q q ∨ x = t ∧ q = q₀ := by
  by_cases hq : q = q₀
  · subst hq
    rw [Function.update_self] at hx
    exact (hl x hx).imp_right fun h => ⟨h, rfl⟩
  · rw [Function.update_of_ne hq] at hx
    exact .inl hx

/-- A queue may lose threads. -/
theorem remove (h : QueueOk Q status idle) (hl : l.Sublist (Q q₀)) :
    QueueOk (Function.update Q q₀ l) status idle := by
  have hsub : ∀ {x q}, x ∈ Function.update Q q₀ l q → x ∈ Q q :=
    mem_update_of_subset fun _ hy => hl.subset hy
  refine ⟨fun q => ?_, fun q x hx => h.blocked q x (hsub hx),
    fun q r x hx hx' => h.apart q r x (hsub hx) (hsub hx'),
    fun q i hi hx => h.not_idle q i hi (hsub hx)⟩
  by_cases hq : q = q₀
  · subst hq
    rw [Function.update_self]
    exact hl.nodup (h.nodup q)
  · rw [Function.update_of_ne hq]
    exact h.nodup q

/-- A queue may take in a thread that is in no queue and is not the idle thread, which then
blocks. -/
theorem add (h : QueueOk Q status idle) (ht : ∀ q, t ∉ Q q) (hidle : idle ≠ some t)
    (hl : l.Sublist (Q q₀ ++ [t])) :
    QueueOk (Function.update Q q₀ l) (Function.update status t (some THREAD_BLOCKED)) idle := by
  have hmem : ∀ {x q}, x ∈ Function.update Q q₀ l q → x ∈ Q q ∨ x = t ∧ q = q₀ :=
    fun hx => mem_update (fun y hy => by simpa using hl.subset hy) hx
  constructor
  · intro q
    by_cases hq : q = q₀
    · subst hq
      rw [Function.update_self]
      refine hl.nodup (List.nodup_append.mpr ⟨h.nodup q, List.nodup_singleton t, ?_⟩)
      intro x hx y hy hxy
      rw [List.mem_singleton] at hy
      exact ht q (hy ▸ hxy ▸ hx)
    · rw [Function.update_of_ne hq]
      exact h.nodup q
  · intro q x hx
    rcases hmem hx with hx | ⟨hxt, -⟩
    · have hxt : x ≠ t := fun hxt => ht q (hxt ▸ hx)
      rw [Function.update_of_ne hxt]
      exact h.blocked q x hx
    · rw [hxt, Function.update_self]
  · intro q r x hx hx'
    rcases hmem hx with hx | ⟨hxt, hq⟩ <;> rcases hmem hx' with hx' | ⟨hxt', hr⟩
    · exact h.apart q r x hx hx'
    · exact absurd (hxt' ▸ hx) (ht q)
    · exact absurd (hxt ▸ hx') (ht r)
    · rw [hq, hr]
  · intro q i hi hx
    rcases hmem hx with hx | ⟨hit, -⟩
    · exact h.not_idle q i hi hx
    · exact hidle (hit ▸ hi)

/-- A thread in no queue may change its status. -/
theorem setStatus (h : QueueOk Q status idle) (ht : ∀ q, t ∉ Q q) (st : Option thread_status) :
    QueueOk Q (Function.update status t st) idle where
  nodup := h.nodup
  blocked q x hx := by
    have hxt : x ≠ t := fun hxt => ht q (hxt ▸ hx)
    rw [Function.update_of_ne hxt]
    exact h.blocked q x hx
  apart := h.apart
  not_idle := h.not_idle

theorem not_mem_update (h : QueueOk Q status idle) (ht : t ∈ Q q₀) (hl : t ∉ l) (q : Queue) :
    t ∉ Function.update Q q₀ l q := by
  by_cases hq : q = q₀
  · subst hq
    simpa using hl
  · rw [Function.update_of_ne hq]
    exact fun ht' => hq (h.apart q q₀ t ht' ht)

end QueueOk

namespace Sched

variable {s s' : Sched} {t : ℕ} {st : thread_status}

/-- The threads waiting in a queue. -/
def queue (s : Sched) : Queue → List ℕ
  | .sema a => (s.semas a).waiters
  | .waiter w => (s.waiter w).toList
  | .creating c => (s.creating c).toList

@[simp] theorem setStatus_status :
    (s.setStatus t st).status = Function.update s.status t (some st) := rfl

@[simp] theorem setStatus_running : (s.setStatus t st).running = s.running := rfl

@[simp] theorem setStatus_ready_list : (s.setStatus t st).ready_list = s.ready_list := rfl

@[simp] theorem setStatus_all_list : (s.setStatus t st).all_list = s.all_list := rfl

@[simp] theorem setStatus_idle_thread : (s.setStatus t st).idle_thread = s.idle_thread := rfl

@[simp] theorem setStatus_freed : (s.setStatus t st).freed = s.freed := rfl

@[simp] theorem setStatus_queue : (s.setStatus t st).queue = s.queue := rfl

theorem queue_update_semas (a : ℕ) (sm : semaphore) :
    { s with semas := Function.update s.semas a sm }.queue =
      Function.update s.queue (.sema a) sm.waiters := by
  funext q
  cases q with
  | sema b =>
    by_cases hb : b = a
    · subst hb
      simp [queue]
    · simp [queue, hb]
  | waiter w => simp [queue]
  | creating c => simp [queue]

theorem queue_update_waiter (w : ℕ) (o : Option ℕ) :
    { s with waiter := Function.update s.waiter w o }.queue =
      Function.update s.queue (.waiter w) o.toList := by
  funext q
  cases q with
  | sema b => simp [queue]
  | waiter v =>
    by_cases hv : v = w
    · subst hv
      simp [queue]
    · simp [queue, hv]
  | creating c => simp [queue]

theorem queue_update_creating (c : ℕ) (o : Option ℕ) :
    { s with creating := Function.update s.creating c o }.queue =
      Function.update s.queue (.creating c) o.toList := by
  funext q
  cases q with
  | sema b => simp [queue]
  | waiter w => simp [queue]
  | creating d =>
    by_cases hd : d = c
    · subst hd
      simp [queue]
    · simp [queue, hd]

end Sched

/-- What holds both between calls and inside `schedule`: the ready list holds each ready thread
but the idle thread once, the queues are as `QueueOk` says, `all_list` holds each thread that is
made and not dying once, the freed pages are freed once, and no thread is numbered from
`created` on. -/
structure ThreadsInv (s : Sched) : Prop where
  ready_nodup : s.ready_list.Nodup
  ready_ready : ∀ t ∈ s.ready_list, s.status t = some THREAD_READY
  ready_complete : ∀ t, s.status t = some THREAD_READY → s.idle_thread ≠ some t →
    t ∈ s.ready_list
  idle_not_ready : ∀ i, s.idle_thread = some i → i ∉ s.ready_list
  idle_live : ∀ i, s.idle_thread = some i → i ∈ s.all_list
  queues : QueueOk s.queue s.status s.idle_thread
  all_nodup : s.all_list.Nodup
  all_live : ∀ t, t ∈ s.all_list ↔ s.status t ≠ none ∧ s.status t ≠ some THREAD_DYING
  freed_nodup : s.freed.Nodup
  fresh : ∀ t, s.created ≤ t → s.status t = none

/-- The invariant between calls: the running thread is the one running thread, and the freed
pages are those of the dying threads but `initial_thread`. -/
structure SchedInv (s : Sched) : Prop extends ThreadsInv s where
  running : s.status s.running = some THREAD_RUNNING
  running_unique : ∀ t, s.status t = some THREAD_RUNNING → t = s.running
  freed_dying : ∀ t, t ∈ s.freed ↔ s.status t = some THREAD_DYING ∧ t ≠ s.initial_thread

/-- The invariant when `schedule` is called: the running thread has given up `THREAD_RUNNING`,
and its page is not freed even if it is dying. -/
structure Switching (s : Sched) : Prop extends ThreadsInv s where
  no_running : ∀ t, s.status t ≠ some THREAD_RUNNING
  freed_dying : ∀ t, t ∈ s.freed ↔
    s.status t = some THREAD_DYING ∧ t ≠ s.initial_thread ∧ t ≠ s.running

namespace ThreadsInv

variable {s : Sched} {t t₀ : ℕ} {x : thread_status}

theorem lt_created (h : ThreadsInv s) (ht : s.status t ≠ none) : t < s.created :=
  Nat.lt_of_not_le fun hle => ht (h.fresh t hle)

theorem not_queued_of_ne_blocked (h : ThreadsInv s) (ht : s.status t ≠ some THREAD_BLOCKED)
    (q : Queue) : t ∉ s.queue q :=
  fun hq => ht (h.queues.blocked q t hq)

theorem not_ready_of_ne_ready (h : ThreadsInv s) (ht : s.status t ≠ some THREAD_READY) :
    t ∉ s.ready_list :=
  fun hr => ht (h.ready_ready t hr)

/-- A thread that is not on the ready list may change its status: those on it keep theirs. -/
theorem ready_ready_update (h : ThreadsInv s) (ht : t₀ ∉ s.ready_list)
    (st : Option thread_status) :
    ∀ t ∈ s.ready_list, Function.update s.status t₀ st t = some THREAD_READY := by
  intro t hr
  have htt : t ≠ t₀ := fun e => ht (e ▸ hr)
  rw [Function.update_of_ne htt]
  exact h.ready_ready t hr

/-- A thread that is made other than ready leaves no ready thread off the ready list. -/
theorem ready_complete_update (h : ThreadsInv s) (hx : x ≠ THREAD_READY) :
    ∀ t, Function.update s.status t₀ (some x) t = some THREAD_READY →
      s.idle_thread ≠ some t → t ∈ s.ready_list := by
  intro t hst hi
  by_cases htt : t = t₀
  · subst htt
    rw [Function.update_self] at hst
    exact absurd (Option.some_injective _ hst) hx
  · rw [Function.update_of_ne htt] at hst
    exact h.ready_complete t hst hi

/-- A thread on `all_list` may take any status but `THREAD_DYING`. -/
theorem all_live_update (h : ThreadsInv s) (ht : t₀ ∈ s.all_list) (hx : x ≠ THREAD_DYING) :
    ∀ t, t ∈ s.all_list ↔ Function.update s.status t₀ (some x) t ≠ none ∧
      Function.update s.status t₀ (some x) t ≠ some THREAD_DYING := by
  intro t
  by_cases htt : t = t₀
  · subst htt
    simpa [ht] using hx
  · rw [Function.update_of_ne htt]
    exact h.all_live t

/-- A thread that is made keeps the threads from `created` on unmade. -/
theorem fresh_update (h : ThreadsInv s) (ht : s.status t₀ ≠ none) (st : Option thread_status) :
    ∀ t, s.created ≤ t → Function.update s.status t₀ st t = none := by
  intro t hle
  have htt : t ≠ t₀ := fun e => absurd (h.lt_created ht) (by omega)
  rw [Function.update_of_ne htt]
  exact h.fresh t hle

end ThreadsInv

namespace SchedInv

variable {s : Sched} {t : ℕ} {st : thread_status}

theorem running_live (h : SchedInv s) : s.running ∈ s.all_list :=
  (h.all_live _).mpr (by simp [h.running])

theorem running_not_ready (h : SchedInv s) : s.running ∉ s.ready_list :=
  h.not_ready_of_ne_ready (by simp [h.running])

theorem running_not_queued (h : SchedInv s) (q : Queue) : s.running ∉ s.queue q :=
  h.not_queued_of_ne_blocked (by simp [h.running]) q

theorem running_not_freed (h : SchedInv s) : s.running ∉ s.freed := by
  simp [h.freed_dying, h.running]

/-- The running thread that gives up `THREAD_RUNNING` leaves no running thread. -/
theorem no_running_update (h : SchedInv s) (hst : st ≠ THREAD_RUNNING) :
    ∀ t, Function.update s.status s.running (some st) t ≠ some THREAD_RUNNING := by
  intro t
  by_cases ht : t = s.running
  · subst ht
    simpa using hst
  · rw [Function.update_of_ne ht]
    exact fun hr => ht (h.running_unique t hr)

/-- Whatever the running thread's new status, its page is not among the freed ones. -/
theorem freed_update (h : SchedInv s) (st : Option thread_status) :
    ∀ t, t ∈ s.freed ↔ Function.update s.status s.running st t = some THREAD_DYING ∧
      t ≠ s.initial_thread ∧ t ≠ s.running := by
  intro t
  by_cases ht : t = s.running
  · subst ht
    simp [h.running_not_freed]
  · rw [Function.update_of_ne ht, h.freed_dying]
    simp [ht]

theorem running_unique_update (h : SchedInv s) {t₀ : ℕ} (hst : st ≠ THREAD_RUNNING) :
    ∀ t, Function.update s.status t₀ (some st) t = some THREAD_RUNNING → t = s.running := by
  intro t hr
  by_cases ht : t = t₀
  · subst ht
    rw [Function.update_self] at hr
    exact absurd (Option.some_injective _ hr) hst
  · rw [Function.update_of_ne ht] at hr
    exact h.running_unique t hr

/-- A thread that is not dying and is not made dying leaves the freed pages as they are. -/
theorem freed_dying_update (h : SchedInv s) {t₀ : ℕ}
    (ht₀ : s.status t₀ ≠ some THREAD_DYING) (hst : st ≠ THREAD_DYING) :
    ∀ t, t ∈ s.freed ↔ Function.update s.status t₀ (some st) t = some THREAD_DYING ∧
      t ≠ s.initial_thread := by
  intro t
  by_cases ht : t = t₀
  · subst ht
    simp [h.freed_dying, ht₀, hst]
  · rw [Function.update_of_ne ht]
    exact h.freed_dying t

end SchedInv

/-! ## The calls up to `schedule` -/

namespace SchedInv

open Sched

variable {s : Sched} {t : ℕ}

theorem nodup_append_singleton {l : List ℕ} (hl : l.Nodup) (ht : t ∉ l) : (l ++ [t]).Nodup := by
  simpa using hl.concat ht

/-- `thread_block`: the running thread blocks, in no queue. -/
theorem block (h : SchedInv s) : Switching (s.setStatus s.running THREAD_BLOCKED) where
  ready_nodup := h.ready_nodup
  ready_ready := h.ready_ready_update h.running_not_ready _
  ready_complete := h.ready_complete_update (by decide)
  idle_not_ready := h.idle_not_ready
  idle_live := h.idle_live
  queues := h.queues.setStatus h.running_not_queued _
  all_nodup := h.all_nodup
  all_live := h.all_live_update h.running_live (by decide)
  freed_nodup := h.freed_nodup
  fresh := h.fresh_update (by simp [h.running]) _
  no_running := h.no_running_update (by decide)
  freed_dying := h.freed_update _

/-- The round of `sema_down` that finds the value zero: the running thread goes to the end of the
waiters and blocks. -/
theorem block_sema (h : SchedInv s) (hidle : s.idle_thread ≠ some s.running) (a : ℕ) :
    Switching ({ s with
      semas := Function.update s.semas a
        { (s.semas a) with waiters := (s.semas a).waiters ++ [s.running] } }.setStatus
          s.running THREAD_BLOCKED) :=
  { h.block with
    queues := by
      rw [setStatus_queue, queue_update_semas]
      exact h.queues.add h.running_not_queued hidle (List.Sublist.refl _) }

/-- `wait` of `intq.c`: the running thread takes the waiter slot and blocks. -/
theorem block_waiter (h : SchedInv s) (hidle : s.idle_thread ≠ some s.running) (w : ℕ) :
    Switching ({ s with waiter := Function.update s.waiter w (some s.running) }.setStatus
      s.running THREAD_BLOCKED) :=
  { h.block with
    queues := by
      rw [setStatus_queue, queue_update_waiter]
      exact h.queues.add h.running_not_queued hidle (List.sublist_append_right _ _) }

/-- `thread_yield` of a thread other than the idle thread: it goes to the end of the ready list. -/
theorem yield_push (h : SchedInv s) (hidle : s.idle_thread ≠ some s.running) :
    Switching ({ s with ready_list := s.ready_list ++ [s.running] }.setStatus
      s.running THREAD_READY) where
  ready_nodup := nodup_append_singleton h.ready_nodup h.running_not_ready
  ready_ready t ht := by
    rcases List.mem_append.mp ht with ht | ht
    · exact h.ready_ready_update h.running_not_ready _ t ht
    · rw [List.mem_singleton.mp ht]
      exact Function.update_self ..
  ready_complete t hst hi := by
    by_cases ht : t = s.running
    · exact List.mem_append_right _ (List.mem_singleton.mpr ht)
    · rw [setStatus_status, Function.update_of_ne ht] at hst
      exact List.mem_append_left _ (h.ready_complete t hst hi)
  idle_not_ready i hi hr := by
    rcases List.mem_append.mp hr with hr | hr
    · exact h.idle_not_ready i hi hr
    · exact hidle (List.mem_singleton.mp hr ▸ hi)
  idle_live := h.idle_live
  queues := h.queues.setStatus h.running_not_queued _
  all_nodup := h.all_nodup
  all_live := h.all_live_update h.running_live (by decide)
  freed_nodup := h.freed_nodup
  fresh := h.fresh_update (by simp [h.running]) _
  no_running := h.no_running_update (by decide)
  freed_dying := h.freed_update _

/-- `thread_yield` of the idle thread: it is ready but stays off the ready list. -/
theorem yield_idle (h : SchedInv s) (hidle : s.idle_thread = some s.running) :
    Switching (s.setStatus s.running THREAD_READY) where
  ready_nodup := h.ready_nodup
  ready_ready := h.ready_ready_update h.running_not_ready _
  ready_complete t hst hi := by
    by_cases ht : t = s.running
    · exact absurd (ht ▸ hidle) hi
    · rw [setStatus_status, Function.update_of_ne ht] at hst
      exact h.ready_complete t hst hi
  idle_not_ready := h.idle_not_ready
  idle_live := h.idle_live
  queues := h.queues.setStatus h.running_not_queued _
  all_nodup := h.all_nodup
  all_live := h.all_live_update h.running_live (by decide)
  freed_nodup := h.freed_nodup
  fresh := h.fresh_update (by simp [h.running]) _
  no_running := h.no_running_update (by decide)
  freed_dying := h.freed_update _

/-- The end of `thread_exit`: the running thread leaves `all_list` and dies; its page is freed
only once `schedule` has left it. -/
theorem exit (h : SchedInv s) (hidle : s.idle_thread ≠ some s.running) :
    Switching ({ s with all_list := s.all_list.erase s.running }.setStatus
      s.running THREAD_DYING) where
  ready_nodup := h.ready_nodup
  ready_ready := h.ready_ready_update h.running_not_ready _
  ready_complete := h.ready_complete_update (by decide)
  idle_not_ready := h.idle_not_ready
  idle_live i hi :=
    (h.all_nodup.mem_erase_iff).mpr ⟨fun e => hidle (e ▸ hi), h.idle_live i hi⟩
  queues := h.queues.setStatus h.running_not_queued _
  all_nodup := h.all_nodup.erase _
  all_live t := by
    rw [setStatus_all_list, h.all_nodup.mem_erase_iff]
    by_cases ht : t = s.running
    · subst ht
      simp
    · rw [setStatus_status, Function.update_of_ne ht, h.all_live t]
      simp [ht]
  freed_nodup := h.freed_nodup
  fresh := h.fresh_update (by simp [h.running]) _
  no_running := h.no_running_update (by decide)
  freed_dying := h.freed_update _

/-! ## The calls that do not schedule -/

/-- `thread_unblock`, of a blocked thread that is in no queue and is not the idle thread: it goes
to the end of the ready list. -/
theorem unblock (h : SchedInv s) (hb : s.status t = some THREAD_BLOCKED)
    (hq : ∀ q, t ∉ s.queue q) (hidle : s.idle_thread ≠ some t) :
    SchedInv { s.setStatus t THREAD_READY with ready_list := s.ready_list ++ [t] } where
  ready_nodup := nodup_append_singleton h.ready_nodup (h.not_ready_of_ne_ready (by simp [hb]))
  ready_ready t' ht := by
    rcases List.mem_append.mp ht with ht | ht
    · exact h.ready_ready_update (h.not_ready_of_ne_ready (by simp [hb])) _ t' ht
    · rw [List.mem_singleton.mp ht]
      exact Function.update_self ..
  ready_complete t' hst hi := by
    by_cases ht : t' = t
    · exact List.mem_append_right _ (List.mem_singleton.mpr ht)
    · rw [setStatus_status, Function.update_of_ne ht] at hst
      exact List.mem_append_left _ (h.ready_complete t' hst hi)
  idle_not_ready i hi hr := by
    rcases List.mem_append.mp hr with hr | hr
    · exact h.idle_not_ready i hi hr
    · exact hidle (List.mem_singleton.mp hr ▸ hi)
  idle_live := h.idle_live
  queues := h.queues.setStatus hq _
  all_nodup := h.all_nodup
  all_live := h.all_live_update ((h.all_live t).mpr (by simp [hb])) (by decide)
  freed_nodup := h.freed_nodup
  fresh := h.fresh_update (by simp [hb]) _
  running := by
    have ht : s.running ≠ t := fun e => by simp [← e, h.running] at hb
    show Function.update s.status t _ s.running = _
    rw [Function.update_of_ne ht]
    exact h.running
  running_unique := h.running_unique_update (by decide)
  freed_dying := h.freed_dying_update (by simp [hb]) (by decide)

/-- `thread_create` up to `allocate_tid`: the new thread is blocked, on `all_list`, and held by
the running thread; a thread it held before is dropped. -/
theorem create (h : SchedInv s) :
    SchedInv { s.init_thread s.created with
      created := s.created + 1, creating := Function.update s.creating s.running (some s.created) }
      where
  ready_nodup := h.ready_nodup
  ready_ready := h.ready_ready_update (h.not_ready_of_ne_ready (by simp [h.fresh])) _
  ready_complete := h.ready_complete_update (by decide)
  idle_not_ready := h.idle_not_ready
  idle_live i hi := List.mem_append_left _ (h.idle_live i hi)
  queues := by
    have hq : Sched.queue { s.init_thread s.created with
        created := s.created + 1,
        creating := Function.update s.creating s.running (some s.created) } =
        Function.update s.queue (.creating s.running) [s.created] :=
      queue_update_creating (s := s.init_thread s.created) s.running (some s.created)
    rw [hq]
    refine h.queues.add (h.not_queued_of_ne_blocked (by simp [h.fresh])) (fun hi => ?_)
      (List.sublist_append_right _ _)
    exact absurd (h.fresh _ le_rfl) ((h.all_live _).mp (h.idle_live _ hi)).1
  all_nodup := nodup_append_singleton h.all_nodup fun hc =>
    ((h.all_live _).mp hc).1 (h.fresh _ le_rfl)
  all_live t := by
    show t ∈ s.all_list ++ [s.created] ↔
      Function.update s.status s.created (some THREAD_BLOCKED) t ≠ none ∧
        Function.update s.status s.created (some THREAD_BLOCKED) t ≠ some THREAD_DYING
    rw [List.mem_append, List.mem_singleton]
    by_cases ht : t = s.created
    · subst ht
      simp
    · simp only [Function.update_of_ne ht, h.all_live t, ht, or_false]
  freed_nodup := h.freed_nodup
  fresh t hle := by
    show Function.update s.status s.created (some THREAD_BLOCKED) t = none
    have hle : s.created + 1 ≤ t := hle
    have ht : t ≠ s.created := by omega
    rw [Function.update_of_ne ht]
    exact h.fresh t (by omega)
  running := by
    show Function.update s.status s.created (some THREAD_BLOCKED) s.running = _
    have ht : s.running ≠ s.created := fun e => absurd h.running (by simp [e, h.fresh])
    rw [Function.update_of_ne ht]
    exact h.running
  running_unique := h.running_unique_update (by decide)
  freed_dying := h.freed_dying_update (by simp [h.fresh]) (by decide)

/-- A semaphore may be set, its waiters losing threads. -/
theorem update_semas (h : SchedInv s) {a : ℕ} {sm : semaphore}
    (hl : sm.waiters.Sublist (s.semas a).waiters) :
    SchedInv { s with semas := Function.update s.semas a sm } :=
  { h with
    queues := by
      rw [queue_update_semas]
      exact h.queues.remove hl }

/-- An `intq` waiter slot may be set to a thread it held or to none. -/
theorem update_waiter (h : SchedInv s) {w : ℕ} {o : Option ℕ}
    (hl : o.toList.Sublist (s.waiter w).toList) :
    SchedInv { s with waiter := Function.update s.waiter w o } :=
  { h with
    queues := by
      rw [queue_update_waiter]
      exact h.queues.remove hl }

/-- A creating thread's new thread may be set to the one it held or to none. -/
theorem update_creating (h : SchedInv s) {c : ℕ} {o : Option ℕ}
    (hl : o.toList.Sublist (s.creating c).toList) :
    SchedInv { s with creating := Function.update s.creating c o } :=
  { h with
    queues := by
      rw [queue_update_creating]
      exact h.queues.remove hl }

theorem update_holder (h : SchedInv s) (holder : ℕ → Option ℕ) :
    SchedInv { s with holder := holder } := { h with }

theorem update_ticks (h : SchedInv s) (n : ℕ) : SchedInv { s with thread_ticks := n } :=
  { h with }

/-- The start of `idle ()`: the running thread becomes the idle thread. -/
theorem idle_start (h : SchedInv s) (hnone : s.idle_thread = none) : SchedInv s.idle_start where
  __ := h
  ready_complete t hst _ := h.ready_complete t hst (by simp [hnone])
  idle_not_ready i hi := Option.some_injective _ hi ▸ h.running_not_ready
  idle_live i hi := Option.some_injective _ hi ▸ h.running_live
  queues :=
    { h.queues with
      not_idle := fun q i hi => Option.some_injective _ hi ▸ h.running_not_queued q }

end SchedInv

/-! ## `schedule` -/

namespace Sched

variable {s s' : Sched} {t next : ℕ} {rest : List ℕ}

/-- The thread `next_thread_to_run` takes, and the ready list it leaves: the head of the list, or
the idle thread when the list is empty. -/
def Picked (s : Sched) (next : ℕ) (rest : List ℕ) : Prop :=
  s.ready_list = next :: rest ∨ s.ready_list = [] ∧ s.idle_thread = some next ∧ rest = []

theorem thread_schedule_tail_eq (prev : Option ℕ) :
    s.thread_schedule_tail prev = { s with
      status := Function.update s.status s.running (some THREAD_RUNNING), thread_ticks := 0,
      freed := match prev with
        | some prev =>
          if Function.update s.status s.running (some THREAD_RUNNING) prev = some THREAD_DYING ∧
            prev ≠ s.initial_thread then s.freed ++ [prev] else s.freed
        | none => s.freed } := by
  cases prev with
  | none => rfl
  | some prev =>
    by_cases hc : Function.update s.status s.running (some THREAD_RUNNING) prev =
        some THREAD_DYING ∧ prev ≠ s.initial_thread
    · simp [thread_schedule_tail, setStatus, hc]
    · simp [thread_schedule_tail, setStatus, hc]

/-- What `schedule` does when it returns: the running thread had left `THREAD_RUNNING`, the
thread picked runs with a new time slice, and the page of the thread left is freed if that
thread is dying, is not `initial_thread`, and was switched away from. -/
theorem schedule_ok (h : s.schedule = .ok s') :
    s.status s.running ≠ some THREAD_RUNNING ∧ ∃ next rest, s.Picked next rest ∧
      s' = { s with
        status := Function.update s.status next (some THREAD_RUNNING), running := next,
        ready_list := rest, thread_ticks := 0,
        freed := if s.status s.running = some THREAD_DYING ∧ s.running ≠ s.initial_thread ∧
          s.running ≠ next then s.freed ++ [s.running] else s.freed } := by
  obtain ⟨next, rest, hnext, hs⟩ : ∃ next rest, s.Picked next rest ∧
      s.next_thread_to_run = (some next, { s with ready_list := rest }) := by
    cases hr : s.ready_list with
    | nil =>
      have hs : s.next_thread_to_run = (s.idle_thread, { s with ready_list := [] }) := by
        have heta : { s with ready_list := [] } = s := by rw [← hr]
        simp only [next_thread_to_run, hr, heta]
      cases hi : s.idle_thread with
      | none => simp [schedule, hs, hi] at h
      | some i => exact ⟨i, [], .inr ⟨hr, hi, rfl⟩, by rw [hs, hi]⟩
    | cons t rest => exact ⟨t, rest, .inl hr, by simp [next_thread_to_run, hr]⟩
  simp only [schedule, hs] at h
  split_ifs at h with hrun hne <;> cases h <;> refine ⟨hrun, next, rest, hnext, ?_⟩
  · -- a switch: the thread left keeps its status, and its page is freed if it is dying
    rw [thread_schedule_tail_eq]
    simp [hne]
  · -- the running thread runs on, and nothing is freed
    rw [not_not] at hne
    rw [thread_schedule_tail_eq, ← hne]
    simp

theorem Picked.mem_rest (hp : s.Picked next rest) : ∀ t ∈ rest, t ∈ s.ready_list := by
  rcases hp with hr | ⟨-, -, rfl⟩
  · exact fun t ht => hr ▸ List.mem_cons_of_mem _ ht
  · simp

theorem Picked.mem_ready (hp : s.Picked next rest) :
    ∀ t ∈ s.ready_list, t ∈ next :: rest := by
  rcases hp with hr | ⟨hr, -, -⟩
  · exact fun t ht => hr ▸ ht
  · simp [hr]

end Sched

namespace ThreadsInv

open Sched

variable {s : Sched} {next : ℕ} {rest : List ℕ}

theorem picked_nodup (h : ThreadsInv s) (hp : s.Picked next rest) : (next :: rest).Nodup := by
  rcases hp with hr | ⟨-, -, rfl⟩
  · exact hr ▸ h.ready_nodup
  · exact List.nodup_singleton next

/-- The thread picked is ready or is the idle thread, so it is on `all_list`. -/
theorem picked_live (h : ThreadsInv s) (hp : s.Picked next rest) : next ∈ s.all_list := by
  rcases hp with hr | ⟨-, hi, -⟩
  · exact (h.all_live next).mpr (by simp [h.ready_ready next (by simp [hr])])
  · exact h.idle_live next hi

theorem picked_not_queued (h : ThreadsInv s) (hp : s.Picked next rest) (q : Queue) :
    next ∉ s.queue q := by
  rcases hp with hr | ⟨-, hi, -⟩
  · exact h.not_queued_of_ne_blocked (by simp [h.ready_ready next (by simp [hr])]) q
  · exact h.queues.not_idle q next hi

end ThreadsInv

namespace Switching

open Sched

variable {s s' : Sched} {next : ℕ} {rest : List ℕ}

/-- The switch to the thread picked restores the invariant. -/
theorem switch (h : Switching s) (hp : s.Picked next rest) :
    SchedInv { s with
      status := Function.update s.status next (some THREAD_RUNNING), running := next,
      ready_list := rest, thread_ticks := 0,
      freed := if s.status s.running = some THREAD_DYING ∧ s.running ≠ s.initial_thread ∧
        s.running ≠ next then s.freed ++ [s.running] else s.freed } where
  ready_nodup := (List.nodup_cons.mp (h.picked_nodup hp)).2
  ready_ready t ht := by
    have htn : t ≠ next := fun e => (List.nodup_cons.mp (h.picked_nodup hp)).1 (e ▸ ht)
    dsimp only
    rw [Function.update_of_ne htn]
    exact h.ready_ready t (hp.mem_rest t ht)
  ready_complete t hst hi := by
    dsimp only at hst hi ⊢
    have htn : t ≠ next := fun e => by simp [e] at hst
    rw [Function.update_of_ne htn] at hst
    exact (List.mem_cons.mp (hp.mem_ready t (h.ready_complete t hst hi))).resolve_left htn
  idle_not_ready i hi hr := h.idle_not_ready i hi (hp.mem_rest i hr)
  idle_live := h.idle_live
  queues := h.queues.setStatus (h.picked_not_queued hp) _
  all_nodup := h.all_nodup
  all_live := h.all_live_update (h.picked_live hp) (by decide)
  freed_nodup := by
    dsimp only
    split_ifs
    · exact SchedInv.nodup_append_singleton h.freed_nodup
        fun hc => ((h.freed_dying _).mp hc).2.2 rfl
    · exact h.freed_nodup
  fresh := h.fresh_update ((h.all_live next).mp (h.picked_live hp)).1 _
  running := Function.update_self ..
  running_unique t hr := by
    by_contra htn
    dsimp only at hr
    rw [Function.update_of_ne htn] at hr
    exact h.no_running t hr
  freed_dying t := by
    dsimp only
    by_cases htn : t = next
    · -- the thread picked was not dying, so its page is not freed, and it is not the one left
      subst htn
      have hnf : t ∉ s.freed := fun hf =>
        ((h.all_live t).mp (h.picked_live hp)).2 ((h.freed_dying t).mp hf).1
      split_ifs with hc
      · simp [hnf, hc.2.2.symm]
      · simp [hnf]
    · rw [Function.update_of_ne htn]
      split_ifs with hc
      · -- the thread left is dying: its page joins the freed ones
        rw [List.mem_append, List.mem_singleton, h.freed_dying t]
        by_cases htr : t = s.running
        · simp [htr, hc.1, hc.2.1]
        · simp [htr]
      · rw [h.freed_dying t]
        by_cases htr : t = s.running
        · -- the thread left is not freed, so it is not a dying thread but `initial_thread`
          subst htr
          simp only [ne_eq, not_true_eq_false, and_false, false_iff]
          exact fun ⟨hd, hi⟩ => hc ⟨hd, hi, htn⟩
        · simp [htr]

/-- `schedule` from a switching state ends in a state of the invariant. -/
theorem schedule (h : Switching s) (hs : s.schedule = .ok s') : SchedInv s' := by
  obtain ⟨-, next, rest, hp, rfl⟩ := schedule_ok hs
  exact h.switch hp

end Switching

/-! ## Every call -/

namespace Sched

variable {s s' : Sched} {t : ℕ}

theorem thread_unblock_ok : s.thread_unblock t = .ok s' ↔ s.status t = some THREAD_BLOCKED ∧
    s' = { s.setStatus t THREAD_READY with ready_list := s.ready_list ++ [t] } := by
  unfold thread_unblock
  split_ifs with hb
  · simp [hb, eq_comm]
  · simp [hb]

/-- The timer interrupt counts the tick, and yields once the time slice is used up. -/
theorem thread_tick_ok (hs : s.thread_tick = .ok s') :
    (TIME_SLICE ≤ s.thread_ticks + 1 ∧
      { s with thread_ticks := s.thread_ticks + 1 }.thread_yield = .ok s') ∨
    (s.thread_ticks + 1 < TIME_SLICE ∧ s' = { s with thread_ticks := s.thread_ticks + 1 }) := by
  dsimp only [thread_tick] at hs
  split_ifs at hs with hslice
  · exact .inl ⟨hslice, hs⟩
  · cases hs
    exact .inr ⟨Nat.not_le.mp hslice, rfl⟩

/-- A round of `sema_down`: the running thread waits on a semaphore at zero, else takes one. -/
theorem sema_down_ok {sema : ℕ} (hs : s.sema_down sema = .ok s') :
    ((s.semas sema).value = 0 ∧
      { s with
        semas := Function.update s.semas sema
          { s.semas sema with waiters := (s.semas sema).waiters ++ [s.running] } }.thread_block =
        .ok s') ∨
    ((s.semas sema).value ≠ 0 ∧
      s' = { s with
        semas := Function.update s.semas sema
          { s.semas sema with value := (s.semas sema).value - 1 } }) := by
  dsimp only [sema_down] at hs
  split_ifs at hs with hzero
  · exact .inl ⟨hzero, hs⟩
  · cases hs
    exact .inr ⟨hzero, rfl⟩

/-- `sema_up`: with no waiter the value goes up; else the first waiter is taken off the
semaphore and unblocked. -/
theorem sema_up_ok {sema : ℕ} (hs : s.sema_up sema = .ok s') :
    ((s.semas sema).waiters = [] ∧
      s' = { s with
        semas := Function.update s.semas sema
          { s.semas sema with value := (s.semas sema).value + 1 } }) ∨
    ∃ t rest s₂, (s.semas sema).waiters = t :: rest ∧
      Sched.thread_unblock
        { s with semas := Function.update s.semas sema { s.semas sema with waiters := rest } } t =
        .ok s₂ ∧
      s' = { s₂ with semas := Function.update s₂.semas sema ⟨(s.semas sema).value + 1, rest⟩ } := by
  dsimp only [sema_up] at hs
  -- the goal names the waiters too, so they are split by hand and not by `split`
  cases hw : (s.semas sema).waiters with
  | nil =>
    simp only [hw] at hs
    cases hs
    exact .inl ⟨rfl, by simp only [hw]⟩
  | cons t rest =>
    simp only [hw] at hs
    obtain ⟨s₂, hs₂, hs'⟩ := Except.bind_eq_ok.mp hs
    cases hs'
    exact .inr ⟨t, rest, s₂, rfl, hs₂, rfl⟩

/-- A round of `lock_acquire` by a thread that does not hold the lock: a round of `sema_down`,
and the lock taken when the round found it free. -/
theorem lock_acquire_ok {lock : ℕ} (hs : s.lock_acquire lock = .ok s') :
    s.lock_held_by_current_thread lock = false ∧
    (((s.semas lock).value = 0 ∧ s.sema_down lock = .ok s') ∨
      ((s.semas lock).value ≠ 0 ∧ ∃ s₁, s.sema_down lock = .ok s₁ ∧
        s' = { s₁ with holder := Function.update s₁.holder lock (some s₁.running) })) := by
  dsimp only [lock_acquire] at hs
  split_ifs at hs with hheld hzero
  · exact ⟨by simpa using hheld, .inl ⟨hzero, hs⟩⟩
  · obtain ⟨s₁, hs₁, hs'⟩ := Except.bind_eq_ok.mp hs
    cases hs'
    exact ⟨by simpa using hheld, .inr ⟨hzero, s₁, hs₁, rfl⟩⟩

/-- `lock_try_acquire` by a thread that does not hold the lock: `sema_try_down`, and the lock
taken when it succeeds. -/
theorem lock_try_acquire_ok {lock : ℕ} (hs : s.lock_try_acquire lock = .ok s') :
    s.lock_held_by_current_thread lock = false ∧
    (((s.sema_try_down lock).2 = true ∧
      s' = { (s.sema_try_down lock).1 with
        holder := Function.update (s.sema_try_down lock).1.holder lock
          (some (s.sema_try_down lock).1.running) }) ∨
    ((s.sema_try_down lock).2 = false ∧ s' = (s.sema_try_down lock).1)) := by
  dsimp only [lock_try_acquire] at hs
  split_ifs at hs with hheld hsucc <;> cases hs
  · exact ⟨by simpa using hheld, .inl ⟨hsucc, rfl⟩⟩
  · exact ⟨by simpa using hheld, .inr ⟨by simpa using hsucc, rfl⟩⟩

/-- `lock_release` by the holder: the holder cleared, then `sema_up`. -/
theorem lock_release_ok {lock : ℕ} (hs : s.lock_release lock = .ok s') :
    s.lock_held_by_current_thread lock = true ∧
      { s with holder := Function.update s.holder lock none }.sema_up lock = .ok s' := by
  dsimp only [lock_release] at hs
  split_ifs at hs with hheld
  exact ⟨hheld, hs⟩

/-- The end of `thread_create`: the thread held, if any, is taken out and unblocked. -/
theorem thread_create_unblock_ok (hs : s.thread_create_unblock = .ok s') :
    (∃ t, s.creating s.running = some t ∧
      { s with creating := Function.update s.creating s.running none }.thread_unblock t =
        .ok s') ∨
    (s.creating s.running = none ∧ s' = s) := by
  dsimp only [thread_create_unblock] at hs
  split at hs
  next t ht => exact .inl ⟨t, ht, hs⟩
  next ht =>
    cases hs
    exact .inr ⟨ht, rfl⟩

/-- `signal` of `intq.c`: the thread in the slot, if any, is unblocked and the slot cleared. -/
theorem intq_signal_ok {w : ℕ} (hs : s.intq_signal w = .ok s') :
    (∃ t s₁, s.waiter w = some t ∧ s.thread_unblock t = .ok s₁ ∧
      s' = { s₁ with waiter := Function.update s₁.waiter w none }) ∨
    (s.waiter w = none ∧ s' = s) := by
  dsimp only [intq_signal] at hs
  split at hs
  next t ht =>
    obtain ⟨s₁, hs₁, hs'⟩ := Except.bind_eq_ok.mp hs
    cases hs'
    exact .inl ⟨t, s₁, ht, hs₁, rfl⟩
  next ht =>
    cases hs
    exact .inr ⟨ht, rfl⟩

/-- A call other than `idle_start` that the idle thread does not make is made by another. -/
theorem Allowed.not_idle {op : SchedOp} (h : s.Allowed op) (hop : op.byIdle = false)
    (hstart : op ≠ .idle_start) : s.idle_thread ≠ some s.running := by
  cases op <;> simp_all [Allowed, SchedOp.byIdle]

/-- Until `idle ()` starts, every call may be made. -/
theorem allowed_of_idle_none (h : s.idle_thread = none) (op : SchedOp) : s.Allowed op := by
  cases op <;> simp [Allowed, h]

end Sched

namespace SchedInv

open Sched

variable {s s' : Sched} {t : ℕ}

/-- `thread_unblock` of a thread that is in no queue and is not the idle thread. -/
theorem thread_unblock (h : SchedInv s) (hq : ∀ q, t ∉ s.queue q)
    (hidle : s.idle_thread ≠ some t) (hs : s.thread_unblock t = .ok s') : SchedInv s' := by
  obtain ⟨hb, rfl⟩ := thread_unblock_ok.mp hs
  exact h.unblock hb hq hidle

theorem thread_block (h : SchedInv s) (hs : s.thread_block = .ok s') : SchedInv s' :=
  h.block.schedule hs

theorem thread_yield (h : SchedInv s) (hs : s.thread_yield = .ok s') : SchedInv s' := by
  unfold Sched.thread_yield at hs
  split_ifs at hs with hidle
  · exact (h.yield_push hidle).schedule hs
  · exact (h.yield_idle (not_not.mp hidle)).schedule hs

theorem thread_tick (h : SchedInv s) (hs : s.thread_tick = .ok s') : SchedInv s' := by
  rcases thread_tick_ok hs with ⟨-, hy⟩ | ⟨-, rfl⟩
  · exact (h.update_ticks _).thread_yield hy
  · exact h.update_ticks _

theorem thread_exit (h : SchedInv s) (hidle : s.idle_thread ≠ some s.running)
    (hs : s.thread_exit = .ok s') : SchedInv s' :=
  (h.exit hidle).schedule hs

theorem thread_create_init (h : SchedInv s) (palloc : Bool) :
    SchedInv (s.thread_create_init palloc) := by
  cases palloc with
  | false => exact h
  | true => exact h.create

/-- The end of `thread_create`: the thread held is taken out and unblocked. -/
theorem thread_create_unblock (h : SchedInv s) (hs : s.thread_create_unblock = .ok s') :
    SchedInv s' := by
  rcases thread_create_unblock_ok hs with ⟨t, ht, hu⟩ | ⟨-, rfl⟩
  · have hq : t ∈ s.queue (.creating s.running) := by simp [queue, ht]
    refine (h.update_creating (by simp)).thread_unblock (fun q => ?_)
      (fun hi => h.queues.not_idle _ t hi hq) hu
    rw [queue_update_creating]
    exact h.queues.not_mem_update hq (by simp) q
  · exact h

theorem sema_init (h : SchedInv s) (sema value : ℕ) : SchedInv (s.sema_init sema value) :=
  h.update_semas (List.nil_sublist _)

theorem sema_down (h : SchedInv s) (hidle : s.idle_thread ≠ some s.running) {sema : ℕ}
    (hs : s.sema_down sema = .ok s') : SchedInv s' := by
  rcases sema_down_ok hs with ⟨-, hb⟩ | ⟨-, rfl⟩
  · exact (h.block_sema hidle sema).schedule hb
  · exact h.update_semas (List.Sublist.refl _)

theorem sema_try_down (h : SchedInv s) (sema : ℕ) : SchedInv (s.sema_try_down sema).1 := by
  dsimp only [Sched.sema_try_down]
  split_ifs
  · exact h.update_semas (List.Sublist.refl _)
  · exact h

/-- `sema_up`: the first waiter, if any, is taken out and unblocked. -/
theorem sema_up (h : SchedInv s) {sema : ℕ} (hs : s.sema_up sema = .ok s') : SchedInv s' := by
  rcases sema_up_ok hs with ⟨-, rfl⟩ | ⟨t, rest, s₂, hw, hs₂, rfl⟩
  · exact h.update_semas (List.Sublist.refl _)
  · obtain ⟨hb, rfl⟩ := thread_unblock_ok.mp hs₂
    have hq : t ∈ s.queue (.sema sema) := by simp [queue, hw]
    have hnd : (t :: rest).Nodup :=
      hw ▸ (h.queues.nodup (.sema sema) : (s.semas sema).waiters.Nodup)
    have h₁ : SchedInv { s with
        semas := Function.update s.semas sema { (s.semas sema) with waiters := rest } } :=
      h.update_semas (by simp [hw])
    have h₂ := h₁.unblock hb (fun q => by
        rw [queue_update_semas]
        exact h.queues.not_mem_update hq (List.nodup_cons.mp hnd).1 q)
      (fun hi => h.queues.not_idle _ t hi hq)
    exact h₂.update_semas (by simp [Sched.setStatus])

theorem lock_init (h : SchedInv s) (lock : ℕ) : SchedInv (s.lock_init lock) :=
  (h.sema_init lock 1).update_holder _

theorem lock_acquire (h : SchedInv s) (hidle : s.idle_thread ≠ some s.running) {lock : ℕ}
    (hs : s.lock_acquire lock = .ok s') : SchedInv s' := by
  obtain ⟨-, ⟨-, hs'⟩ | ⟨-, s₁, hs₁, rfl⟩⟩ := lock_acquire_ok hs
  · exact h.sema_down hidle hs'
  · exact (h.sema_down hidle hs₁).update_holder _

theorem lock_try_acquire (h : SchedInv s) {lock : ℕ} (hs : s.lock_try_acquire lock = .ok s') :
    SchedInv s' := by
  obtain ⟨-, ⟨-, rfl⟩ | ⟨-, rfl⟩⟩ := lock_try_acquire_ok hs
  · exact (h.sema_try_down lock).update_holder _
  · exact h.sema_try_down lock

theorem lock_release (h : SchedInv s) {lock : ℕ} (hs : s.lock_release lock = .ok s') :
    SchedInv s' :=
  (h.update_holder _).sema_up (lock_release_ok hs).2

theorem intq_wait (h : SchedInv s) (hidle : s.idle_thread ≠ some s.running) {w : ℕ}
    (hs : s.intq_wait w = .ok s') : SchedInv s' :=
  (h.block_waiter hidle w).schedule hs

/-- `signal` of `intq.c`: the thread in the slot is unblocked and the slot cleared. -/
theorem intq_signal (h : SchedInv s) {w : ℕ} (hs : s.intq_signal w = .ok s') : SchedInv s' := by
  rcases intq_signal_ok hs with ⟨t, s₁, ht, hs₁, rfl⟩ | ⟨-, rfl⟩
  · obtain ⟨hb, rfl⟩ := thread_unblock_ok.mp hs₁
    have hq : t ∈ s.queue (.waiter w) := by simp [queue, ht]
    -- clearing the slot first and unblocking then gives the same state
    refine (h.update_waiter (o := none) (by simp)).unblock hb (fun q => ?_)
      (fun hi => h.queues.not_idle _ t hi hq)
    rw [queue_update_waiter]
    exact h.queues.not_mem_update hq (by simp) q
  · exact h

/-- Every call that may be made keeps the invariant. -/
theorem step {op : SchedOp} (h : SchedInv s) (hs : schedStep s op s') : SchedInv s' := by
  obtain ⟨hallowed, hexec⟩ := hs
  cases op with
  | thread_create_init palloc =>
    cases hexec
    exact h.thread_create_init palloc
  | thread_create_unblock => exact h.thread_create_unblock hexec
  | thread_block => exact h.thread_block hexec
  | thread_yield => exact h.thread_yield hexec
  | thread_tick => exact h.thread_tick hexec
  | thread_exit => exact h.thread_exit (hallowed.not_idle rfl (by simp)) hexec
  | idle_start =>
    cases hexec
    exact h.idle_start hallowed
  | sema_init sema value =>
    cases hexec
    exact h.sema_init sema value
  | sema_down sema => exact h.sema_down (hallowed.not_idle rfl (by simp)) hexec
  | sema_try_down sema =>
    cases hexec
    exact h.sema_try_down sema
  | sema_up sema => exact h.sema_up hexec
  | lock_init lock =>
    cases hexec
    exact h.lock_init lock
  | lock_acquire lock => exact h.lock_acquire (hallowed.not_idle rfl (by simp)) hexec
  | lock_try_acquire lock => exact h.lock_try_acquire hexec
  | lock_release lock => exact h.lock_release hexec
  | intq_wait w => exact h.intq_wait (hallowed.not_idle rfl (by simp)) hexec
  | intq_signal w => exact h.intq_signal hexec

end SchedInv

/-! ## The pages freed

A call frees at most one page, that of the thread it is called by, in the `thread_schedule_tail`
after the switch away from it, and the freed pages are never taken back. -/

namespace Sched

variable {s s' : Sched} {t : ℕ}

/-- `s'` frees the pages `s` frees, and at most the page of the thread running in `s`. -/
def FreedBy (s s' : Sched) : Prop := ∃ l, s'.freed = s.freed ++ l ∧ ∀ t ∈ l, t = s.running

theorem FreedBy.of_eq (h : s'.freed = s.freed) : FreedBy s s' := ⟨[], by simp [h], by simp⟩

theorem schedule_freedBy (hs : s.schedule = .ok s') : FreedBy s s' := by
  obtain ⟨-, next, rest, -, rfl⟩ := schedule_ok hs
  refine ⟨if s.status s.running = some THREAD_DYING ∧ s.running ≠ s.initial_thread ∧
    s.running ≠ next then [s.running] else [], ?_, ?_⟩
  · split_ifs <;> simp
  · split_ifs <;> simp

theorem thread_unblock_freed (hs : s.thread_unblock t = .ok s') : s'.freed = s.freed := by
  obtain ⟨-, rfl⟩ := thread_unblock_ok.mp hs
  rfl

theorem thread_yield_freedBy (hs : s.thread_yield = .ok s') : FreedBy s s' := by
  unfold thread_yield at hs
  split_ifs at hs
  · exact (schedule_freedBy hs :)
  · exact (schedule_freedBy hs :)

theorem sema_down_freedBy {sema : ℕ} (hs : s.sema_down sema = .ok s') : FreedBy s s' := by
  rcases sema_down_ok hs with ⟨-, hb⟩ | ⟨-, rfl⟩
  · exact (schedule_freedBy hb :)
  · exact .of_eq rfl

theorem sema_try_down_freed {sema : ℕ} : (s.sema_try_down sema).1.freed = s.freed := by
  dsimp only [sema_try_down]
  split_ifs <;> rfl

theorem sema_up_freed {sema : ℕ} (hs : s.sema_up sema = .ok s') : s'.freed = s.freed := by
  rcases sema_up_ok hs with ⟨-, rfl⟩ | ⟨t, rest, s₂, -, hs₂, rfl⟩
  · rfl
  · exact (thread_unblock_freed hs₂ :)

/-- Every call frees at most the page of the thread it is called by. -/
theorem exec_freedBy {op : SchedOp} (hs : s.exec op = .ok s') : FreedBy s s' := by
  cases op with
  | thread_create_init palloc =>
    cases hs
    cases palloc <;> exact .of_eq rfl
  | thread_create_unblock =>
    rcases thread_create_unblock_ok hs with ⟨t, -, hu⟩ | ⟨-, rfl⟩
    · exact .of_eq (thread_unblock_freed hu :)
    · exact .of_eq rfl
  | thread_block => exact (schedule_freedBy hs :)
  | thread_yield => exact (thread_yield_freedBy hs :)
  | thread_tick =>
    rcases thread_tick_ok hs with ⟨-, hy⟩ | ⟨-, rfl⟩
    · exact (thread_yield_freedBy hy :)
    · exact .of_eq rfl
  | thread_exit => exact (schedule_freedBy hs :)
  | sema_down sema => exact (sema_down_freedBy hs :)
  | sema_up sema => exact .of_eq (sema_up_freed hs :)
  | lock_acquire lock =>
    obtain ⟨-, ⟨-, hs'⟩ | ⟨-, s₁, hs₁, rfl⟩⟩ := lock_acquire_ok hs
    · exact (sema_down_freedBy hs' :)
    · exact (sema_down_freedBy hs₁ :)
  | lock_try_acquire lock =>
    obtain ⟨-, ⟨-, rfl⟩ | ⟨-, rfl⟩⟩ := lock_try_acquire_ok hs
    · exact .of_eq (sema_try_down_freed :)
    · exact .of_eq sema_try_down_freed
  | lock_release lock => exact .of_eq (sema_up_freed (lock_release_ok hs).2 :)
  | intq_wait w => exact (schedule_freedBy hs :)
  | intq_signal w =>
    rcases intq_signal_ok hs with ⟨t, s₁, -, hs₁, rfl⟩ | ⟨-, rfl⟩
    · exact .of_eq (thread_unblock_freed hs₁ :)
    · exact .of_eq rfl
  | sema_try_down sema =>
    cases hs
    exact .of_eq sema_try_down_freed
  | idle_start | sema_init | lock_init =>
    cases hs
    exact .of_eq rfl

end Sched

/-! ## From `thread_init` -/

section Init

open Sched

variable {file_lock tid_lock : ℕ}

@[simp] theorem thread_init_running : (thread_init file_lock tid_lock).running = 0 := rfl

@[simp] theorem thread_init_ready_list : (thread_init file_lock tid_lock).ready_list = [] := rfl

@[simp] theorem thread_init_all_list : (thread_init file_lock tid_lock).all_list = [0] := rfl

@[simp] theorem thread_init_idle_thread : (thread_init file_lock tid_lock).idle_thread = none :=
  rfl

@[simp] theorem thread_init_initial_thread :
    (thread_init file_lock tid_lock).initial_thread = 0 := rfl

@[simp] theorem thread_init_created : (thread_init file_lock tid_lock).created = 1 := rfl

@[simp] theorem thread_init_freed : (thread_init file_lock tid_lock).freed = [] := rfl

@[simp] theorem thread_init_status (t : ℕ) :
    (thread_init file_lock tid_lock).status t = if t = 0 then some THREAD_RUNNING else none := by
  simp [thread_init, setStatus, init_thread, lock_init, sema_init, Function.update_apply]

/-- Every semaphore starts without waiters, and no thread waits anywhere. -/
theorem thread_init_queue (q : Queue) : (thread_init file_lock tid_lock).queue q = [] := by
  cases q <;> simp [thread_init, queue, setStatus, init_thread, lock_init, sema_init,
    Function.update_apply]
  split_ifs <;> rfl

theorem thread_init_inv : SchedInv (thread_init file_lock tid_lock) where
  ready_nodup := List.nodup_nil
  ready_ready := by simp
  ready_complete t := by simp
  idle_not_ready := by simp
  idle_live := by simp
  queues := QueueOk.empty thread_init_queue
  all_nodup := by simp
  all_live t := by simp
  freed_nodup := List.nodup_nil
  fresh t ht := by simp at ht ⊢; omega
  running := by simp
  running_unique t := by simp
  freed_dying t := by simp

/-- Every state that a run of calls reaches from `thread_init` keeps the invariant. -/
theorem SchedInv.reachable {s : Sched}
    (hs : Lts.Reachable (· = thread_init file_lock tid_lock) schedStep s) : SchedInv s :=
  hs.invariant (fun h => by subst h; exact thread_init_inv) fun hst h => h.step hst

end Init

/-- The scheduler's invariant, in every state that a run of calls from `thread_init` reaches:
one thread is `THREAD_RUNNING`, the thread whose stack runs; the ready list holds each of its
threads once, all ready, and every ready thread but the idle thread; the waiters of a semaphore
are blocked, each once, off the ready list and on no other semaphore; `all_list` holds each
thread that is made and not dying, once; the idle thread is not on the ready list; the freed
pages are those of the dying threads but `initial_thread`, each once; and a call frees at most
the page of the thread it is called by, never taking a freed page back. -/
theorem scheduler_state_invariant {file_lock tid_lock : ℕ} {s : Sched}
    (hs : Lts.Reachable (· = thread_init file_lock tid_lock) schedStep s) :
    (∃! t, s.status t = some THREAD_RUNNING) ∧ s.status s.running = some THREAD_RUNNING ∧
    s.ready_list.Nodup ∧ (∀ t ∈ s.ready_list, s.status t = some THREAD_READY) ∧
    (∀ t, s.status t = some THREAD_READY → s.idle_thread ≠ some t → t ∈ s.ready_list) ∧
    (∀ a, (s.semas a).waiters.Nodup ∧ ∀ t ∈ (s.semas a).waiters,
      s.status t = some THREAD_BLOCKED ∧ t ∉ s.ready_list ∧
        ∀ b, t ∈ (s.semas b).waiters → b = a) ∧
    (∀ t, t ∈ s.all_list ↔ s.status t ≠ none ∧ s.status t ≠ some THREAD_DYING) ∧
    s.all_list.Nodup ∧ (∀ i, s.idle_thread = some i → i ∉ s.ready_list) ∧
    s.freed.Nodup ∧
    (∀ t, t ∈ s.freed ↔ s.status t = some THREAD_DYING ∧ t ≠ s.initial_thread) ∧
    ∀ op s', schedStep s op s' →
      ∃ l, s'.freed = s.freed ++ l ∧ ∀ t ∈ l, t = s.running := by
  have h := SchedInv.reachable hs
  have hsema : ∀ a, (s.semas a).waiters.Nodup ∧ ∀ t ∈ (s.semas a).waiters,
      s.status t = some THREAD_BLOCKED ∧ t ∉ s.ready_list ∧
        ∀ b, t ∈ (s.semas b).waiters → b = a := by
    intro a
    refine ⟨h.queues.nodup (.sema a), fun t ht => ?_⟩
    have hb : s.status t = some THREAD_BLOCKED := h.queues.blocked (.sema a) t ht
    refine ⟨hb, h.not_ready_of_ne_ready (by simp [hb]), fun b hb' => ?_⟩
    exact Queue.sema.inj (h.queues.apart (.sema b) (.sema a) t hb' ht)
  exact ⟨⟨s.running, h.running, h.running_unique⟩, h.running, h.ready_nodup, h.ready_ready,
    h.ready_complete, hsema, h.all_live, h.all_nodup, h.idle_not_ready, h.freed_nodup,
    h.freed_dying, fun _ _ hst => Sched.exec_freedBy hst.2⟩

/-- The initial thread makes a thread and yields to it, and that thread exits: the initial
thread runs again, and the page of the thread that exited is freed, once. -/
theorem create_yield_exit_frees_page :
    ∃ s, Lts.Run schedStep (thread_init 7 8)
      [.thread_create_init true, .thread_create_unblock, .thread_yield, .thread_exit] s ∧
      s.running = 0 ∧ s.freed = [1] ∧ (∃! t, s.status t = some THREAD_RUNNING) ∧
      s.status 0 = some THREAD_RUNNING ∧ s.status 1 = some THREAD_DYING := by
  obtain ⟨s, hrun, hrunning, hfreed⟩ : ∃ s, Lts.Run schedStep (thread_init 7 8)
      [.thread_create_init true, .thread_create_unblock, .thread_yield, .thread_exit] s ∧
      s.running = 0 ∧ s.freed = [1] :=
    ⟨_, .cons ⟨Sched.allowed_of_idle_none rfl _, rfl⟩ <|
      .cons ⟨Sched.allowed_of_idle_none rfl _, rfl⟩ <|
      .cons ⟨Sched.allowed_of_idle_none rfl _, rfl⟩ <|
      .cons ⟨Sched.allowed_of_idle_none rfl _, rfl⟩ <| .nil _, rfl, rfl⟩
  obtain ⟨hone, hcur, -, -, -, -, -, -, -, -, hdying, -⟩ :=
    scheduler_state_invariant (Lts.Reachable.of_run rfl hrun)
  exact ⟨s, hrun, hrunning, hfreed, hone, hrunning ▸ hcur,
    ((hdying 1).mp (by simp [hfreed])).1⟩

end Pintos
