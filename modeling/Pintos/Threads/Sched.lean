import Pintos.Lib.Run
import Pintos.Threads.Kernel

/-!
# The scheduler (`threads/thread.c`, `threads/synch.c`)

The state is what `thread.c` and `synch.c` keep about threads: the status of each
`struct thread`, the thread whose stack the CPU runs (`running_thread ()`), `ready_list`,
`all_list`, `idle_thread`, `initial_thread`, `thread_ticks`, the semaphores and the holders of
the locks, and the `struct thread *` variables that `intq.c` makes a thread wait in. A thread is
known by its page. A page that is freed and handed out again makes a new thread here, so the
threads are numbered in the order they are made, and `freed` lists the pages that
`thread_schedule_tail` gives back, in order. A lock is named by the semaphore inside it.

Each function reads and writes this state with interrupts off, from its start to its end or to
`schedule`, so each is one step: a call of the running thread, or of an interrupt handler on
its stack. A loop that sleeps is one step a round: `sema_down` that finds the value zero
blocks, and the thread runs the round again once woken. `thread_create` is two steps,
`init_thread` and the `thread_unblock` at its end (`thread_create_init`,
`thread_create_unblock`), since `allocate_tid` can sleep on `tid_lock` between them.

What the running thread calls next is not fixed: any call may follow any other, so the runs of
`schedStep` hold every order the kernel has and more. The idle thread makes only the calls of
`idle ()` and of the interrupt handlers that run on its stack (`SchedOp.byIdle`). The thread
statistics, names, priorities and the page directories that `process_activate` switches are
not modelled.
-/

set_option linter.style.nameCheck false

namespace Pintos

/-- `enum thread_status`. -/
inductive thread_status
  | THREAD_RUNNING
  | THREAD_READY
  | THREAD_BLOCKED
  | THREAD_DYING
  deriving DecidableEq, Repr

open thread_status

/-- `struct semaphore`. -/
structure semaphore where
  value : ℕ
  waiters : List ℕ
  deriving DecidableEq, Repr

/-- The scheduler's state. -/
structure Sched where
  status : ℕ → Option thread_status
  running : ℕ
  ready_list : List ℕ
  all_list : List ℕ
  idle_thread : Option ℕ
  initial_thread : ℕ
  thread_ticks : ℕ
  semas : ℕ → semaphore
  holder : ℕ → Option ℕ
  waiter : ℕ → Option ℕ
  creating : ℕ → Option ℕ
  created : ℕ
  freed : List ℕ

/-- # of timer ticks to give each thread. -/
def TIME_SLICE : ℕ := 4

namespace Sched

variable (s : Sched)

/-- `t->status = st`. -/
def setStatus (t : ℕ) (st : thread_status) : Sched :=
  { s with status := Function.update s.status t (some st) }

/-- `thread_unblock (t)`. -/
def thread_unblock (t : ℕ) : Except Fault Sched :=
  if s.status t = some THREAD_BLOCKED then
    .ok { s.setStatus t THREAD_READY with ready_list := s.ready_list ++ [t] }
  else .error .panic

/-- `next_thread_to_run ()`: the thread to run, and the state after taking it off `ready_list`. -/
def next_thread_to_run : Option ℕ × Sched :=
  match s.ready_list with
  | [] => (s.idle_thread, s)
  | t :: rest => (some t, { s with ready_list := rest })

/-- `thread_schedule_tail (prev)`, on the stack of the thread just switched to. -/
def thread_schedule_tail (prev : Option ℕ) : Sched :=
  let s := { s.setStatus s.running THREAD_RUNNING with thread_ticks := 0 }
  match prev with
  | some prev =>
    if s.status prev = some THREAD_DYING ∧ prev ≠ s.initial_thread then
      { s with freed := s.freed ++ [prev] }
    else s
  | none => s

/-- `schedule ()`. -/
def schedule : Except Fault Sched :=
  let cur := s.running
  let (next, s) := s.next_thread_to_run
  if s.status cur = some THREAD_RUNNING then .error .panic
  else
    match next with
    -- `ASSERT (is_thread (next))`: no thread is ready and the idle thread has not started
    | none => .error .panic
    | some next =>
      if cur ≠ next then .ok ({ s with running := next }.thread_schedule_tail (some cur))
      else .ok (s.thread_schedule_tail none)

/-- `thread_block ()`. -/
def thread_block : Except Fault Sched := (s.setStatus s.running THREAD_BLOCKED).schedule

/-- `thread_yield ()`. -/
def thread_yield : Except Fault Sched :=
  let s :=
    if s.idle_thread ≠ some s.running then { s with ready_list := s.ready_list ++ [s.running] }
    else s
  (s.setStatus s.running THREAD_READY).schedule

/-- The timer interrupt: `thread_tick ()`, and the `thread_yield ()` that `intr_handler` makes on
return once the time slice is used up. -/
def thread_tick : Except Fault Sched :=
  let s := { s with thread_ticks := s.thread_ticks + 1 }
  if TIME_SLICE ≤ s.thread_ticks then s.thread_yield else .ok s

/-- The end of `thread_exit ()`: off `all_list`, dying, and scheduled away from. -/
def thread_exit : Except Fault Sched :=
  ({ s with all_list := s.all_list.erase s.running }.setStatus s.running THREAD_DYING).schedule

/-- `init_thread (t, name, priority)`: blocked, and on `all_list`. -/
def init_thread (t : ℕ) : Sched :=
  { s.setStatus t THREAD_BLOCKED with all_list := s.all_list ++ [t] }

/-- `thread_create` up to `allocate_tid`: a page from `palloc_get_page` (`palloc` says whether
there was one) made a thread, which the running thread keeps in `t`. -/
def thread_create_init (palloc : Bool) : Sched :=
  if palloc then
    { s.init_thread s.created with
      created := s.created + 1, creating := Function.update s.creating s.running (some s.created) }
  else s

/-- The end of `thread_create`: `thread_unblock (t)`. -/
def thread_create_unblock : Except Fault Sched :=
  match s.creating s.running with
  | some t => { s with creating := Function.update s.creating s.running none }.thread_unblock t
  -- no `thread_create` of this thread has a thread to unblock
  | none => .ok s

/-- `sema_init (sema, value)`. -/
def sema_init (sema value : ℕ) : Sched :=
  { s with semas := Function.update s.semas sema ⟨value, []⟩ }

/-- One round of the loop of `sema_down (sema)`: wait while the value is zero, else take one. -/
def sema_down (sema : ℕ) : Except Fault Sched :=
  let sm := s.semas sema
  if sm.value = 0 then
    let s := { s with
      semas := Function.update s.semas sema { sm with waiters := sm.waiters ++ [s.running] } }
    s.thread_block
  else .ok { s with semas := Function.update s.semas sema { sm with value := sm.value - 1 } }

/-- `sema_try_down (sema)`. -/
def sema_try_down (sema : ℕ) : Sched × Bool :=
  let sm := s.semas sema
  if 0 < sm.value then
    ({ s with semas := Function.update s.semas sema { sm with value := sm.value - 1 } }, true)
  else (s, false)

/-- `sema_up (sema)`. -/
def sema_up (sema : ℕ) : Except Fault Sched :=
  let sm := s.semas sema
  match sm.waiters with
  | [] => .ok { s with semas := Function.update s.semas sema { sm with value := sm.value + 1 } }
  | t :: rest => do
    let s := { s with semas := Function.update s.semas sema { sm with waiters := rest } }
    let s ← s.thread_unblock t
    pure { s with semas := Function.update s.semas sema ⟨sm.value + 1, rest⟩ }

/-- `lock_held_by_current_thread (lock)`. -/
def lock_held_by_current_thread (lock : ℕ) : Bool := s.holder lock = some s.running

/-- `lock_init (lock)`. -/
def lock_init (lock : ℕ) : Sched :=
  { s.sema_init lock 1 with holder := Function.update s.holder lock none }

/-- One round of `lock_acquire (lock)`: a round of `sema_down`, and the lock when it is taken. -/
def lock_acquire (lock : ℕ) : Except Fault Sched :=
  if s.lock_held_by_current_thread lock then .error .panic
  -- asleep in `sema_down`: the holder is set when a round finds the lock free
  else if (s.semas lock).value = 0 then s.sema_down lock
  else do
    let s ← s.sema_down lock
    pure { s with holder := Function.update s.holder lock (some s.running) }

/-- `lock_try_acquire (lock)`. -/
def lock_try_acquire (lock : ℕ) : Except Fault Sched :=
  if s.lock_held_by_current_thread lock then .error .panic
  else
    let (s, success) := s.sema_try_down lock
    if success then .ok { s with holder := Function.update s.holder lock (some s.running) }
    else .ok s

/-- `lock_release (lock)`. -/
def lock_release (lock : ℕ) : Except Fault Sched :=
  if s.lock_held_by_current_thread lock then
    { s with holder := Function.update s.holder lock none }.sema_up lock
  else .error .panic

/-- `wait (q, waiter)` of `intq.c`: `*waiter = thread_current (); thread_block ();`. -/
def intq_wait (waiter : ℕ) : Except Fault Sched :=
  { s with waiter := Function.update s.waiter waiter (some s.running) }.thread_block

/-- `signal (q, waiter)` of `intq.c`. -/
def intq_signal (waiter : ℕ) : Except Fault Sched :=
  match s.waiter waiter with
  | some t => do
    let s ← s.thread_unblock t
    pure { s with waiter := Function.update s.waiter waiter none }
  | none => .ok s

/-- The start of `idle ()`: `idle_thread = thread_current ()`. -/
def idle_start : Sched := { s with idle_thread := some s.running }

end Sched

/-- A call, by the running thread or by an interrupt handler on its stack. -/
inductive SchedOp
  | thread_create_init (palloc : Bool)
  | thread_create_unblock
  | thread_block
  | thread_yield
  | thread_tick
  | thread_exit
  | idle_start
  | sema_init (sema value : ℕ)
  | sema_down (sema : ℕ)
  | sema_try_down (sema : ℕ)
  | sema_up (sema : ℕ)
  | lock_init (lock : ℕ)
  | lock_acquire (lock : ℕ)
  | lock_try_acquire (lock : ℕ)
  | lock_release (lock : ℕ)
  | intq_wait (waiter : ℕ)
  | intq_signal (waiter : ℕ)
  deriving DecidableEq, Repr

/-- The calls the idle thread makes: `idle ()` blocks, and the interrupt handlers that run on its
stack tick, wake threads and yield. -/
def SchedOp.byIdle : SchedOp → Bool
  | .thread_block | .thread_yield | .thread_tick | .sema_up _ | .sema_try_down _
  | .intq_signal _ => true
  | _ => false

namespace Sched

/-- The state after a call. -/
def exec (s : Sched) : SchedOp → Except Fault Sched
  | .thread_create_init palloc => .ok (s.thread_create_init palloc)
  | .thread_create_unblock => s.thread_create_unblock
  | .thread_block => s.thread_block
  | .thread_yield => s.thread_yield
  | .thread_tick => s.thread_tick
  | .thread_exit => s.thread_exit
  | .idle_start => .ok s.idle_start
  | .sema_init sema value => .ok (s.sema_init sema value)
  | .sema_down sema => s.sema_down sema
  | .sema_try_down sema => .ok (s.sema_try_down sema).1
  | .sema_up sema => s.sema_up sema
  | .lock_init lock => .ok (s.lock_init lock)
  | .lock_acquire lock => s.lock_acquire lock
  | .lock_try_acquire lock => s.lock_try_acquire lock
  | .lock_release lock => s.lock_release lock
  | .intq_wait waiter => s.intq_wait waiter
  | .intq_signal waiter => s.intq_signal waiter

/-- Who may make a call: `idle ()` starts once, and the idle thread makes only its own calls. -/
def Allowed (s : Sched) : SchedOp → Prop
  | .idle_start => s.idle_thread = none
  | op => s.idle_thread = some s.running → op.byIdle = true

end Sched

/-- A call that may be made, and its result. -/
def schedStep (s : Sched) (op : SchedOp) (s' : Sched) : Prop :=
  s.Allowed op ∧ s.exec op = .ok s'

/-- `thread_init ()`, with the addresses of `file_lock` and `tid_lock`: the code that runs becomes
the initial thread, the first thread. Every semaphore starts empty. -/
def thread_init (file_lock tid_lock : ℕ) : Sched :=
  let s : Sched :=
    { status := fun _ => none, running := 0, ready_list := [], all_list := [],
      idle_thread := none, initial_thread := 0, thread_ticks := 0, semas := fun _ => ⟨0, []⟩,
      holder := fun _ => none, waiter := fun _ => none, creating := fun _ => none, created := 0,
      freed := [] }
  let s := (s.lock_init file_lock).lock_init tid_lock
  let s := { s.init_thread 0 with created := 1 }
  s.setStatus 0 THREAD_RUNNING

end Pintos
