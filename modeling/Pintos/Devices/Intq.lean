import Pintos.Lib.Ring
import Pintos.Threads.Kernel

/-!
# Interrupt queues (`devices/intq.c`)

A `struct intq` is a ring buffer of `INTQ_BUFSIZE` bytes between `tail` and `head`, two
single-thread waiter slots and a lock that lets one thread at a time wait. Its functions run
with interrupts off, so each runs without interruption until it returns or blocks. The system
is the queue with where each thread is in those functions (`Phase`): outside them, blocked in
`lock_acquire` or woken from it, blocked in `wait` or woken by `signal`. A step (`step`) is a
thread calling `intq_getc` or `intq_putc`, an interrupt handler calling one, or the scheduler
running a woken thread on.

In every reachable state (`IntqInv`) the buffer holds exactly the bytes put and not yet got,
in order, so the bytes got are those put, none lost or repeated (`IntqInv.fifo`), at most
`INTQ_BUFSIZE - 1` of them (`length_contents_lt`), and a thread blocked in `wait` has its
condition still false: it was woken as soon as the condition held (`IntqInv.cond_blocked`).

The loop `while (intq_empty (q)) { lock_acquire (...); wait (...); ... }` does not test the
queue again after `lock_acquire` returns. A second reader that slept on the lock while the
first waited calls `wait` on a queue that may have been refilled, and `wait`'s
`ASSERT (intq_empty (q))` stops the kernel (`intq_two_readers_panic`).
-/

namespace Pintos

/-- `INTQ_BUFSIZE`. -/
def INTQ_BUFSIZE : ℕ := 64

/-- `next (pos)`. -/
def next (pos : ℕ) : ℕ := (pos + 1) % INTQ_BUFSIZE

/-- `struct intq`: the lock as its holder and the waiters of its semaphore, the waiting
threads, and the buffer. -/
structure Intq where
  holder : Option ℕ
  waiters : List ℕ
  not_full : Option ℕ
  not_empty : Option ℕ
  buf : ℕ → UInt8
  head : ℕ
  tail : ℕ

/-- `intq_init (q)`, over whatever the buffer held. -/
def intq_init (buf : ℕ → UInt8) : Intq := ⟨none, [], none, none, buf, 0, 0⟩

/-- `intq_empty (q)`. -/
def intq_empty (q : Intq) : Bool := q.head == q.tail

/-- `intq_full (q)`. -/
def intq_full (q : Intq) : Bool := next q.head == q.tail

/-- The bytes in the queue, oldest first. -/
def contents (q : Intq) : List UInt8 :=
  Ring.window INTQ_BUFSIZE q.buf q.tail (Ring.count INTQ_BUFSIZE q.head q.tail)

/-- The `waiter` argument of `wait` and `signal`: `&q->not_full` or `&q->not_empty`. -/
inductive Waiter
  | not_full
  | not_empty
  deriving DecidableEq

namespace Intq

/-- `*waiter`. -/
def waiter (q : Intq) : Waiter → Option ℕ
  | .not_full => q.not_full
  | .not_empty => q.not_empty

/-- `*waiter = t`. -/
def setWaiter (q : Intq) : Waiter → Option ℕ → Intq
  | .not_full, t => { q with not_full := t }
  | .not_empty, t => { q with not_empty := t }

/-- The condition that `wait` asserts and `signal` asserts false: the queue is full for
`not_full`, empty for `not_empty`. -/
def blocked (q : Intq) : Waiter → Bool
  | .not_full => intq_full q
  | .not_empty => intq_empty q

end Intq

/-- A call into the queue. -/
inductive Call
  | getc
  | putc (byte : UInt8)
  deriving DecidableEq

/-- The slot a call waits in: `intq_getc` waits for `not_empty`, `intq_putc` for
`not_full`. -/
def Call.waiter : Call → Waiter
  | .getc => .not_empty
  | .putc _ => .not_full

/-- The slot a call signals when it is done: the other one. -/
def Call.signals : Call → Waiter
  | .getc => .not_full
  | .putc _ => .not_empty

/-- Where a thread is in the queue's functions. -/
inductive Phase
  | outside
  /-- running the call, within a step -/
  | running (c : Call)
  /-- blocked in `lock_acquire`, on the semaphore's waiters -/
  | lockBlocked (c : Call)
  /-- woken by `lock_release`, to test the semaphore again -/
  | lockReady (c : Call)
  /-- blocked in `wait` -/
  | condBlocked (c : Call)
  /-- woken by `signal`, to release the lock and test the queue again -/
  | condReady (c : Call)
  deriving DecidableEq

/-- The queue, the threads' phases, and the bytes that the finished calls have put and got,
in order; `put` and `got` record the history and are not state of the code. -/
structure IntqSys where
  q : Intq
  phase : ℕ → Phase
  put : List UInt8
  got : List UInt8

/-- A step of the system. -/
inductive Action
  /-- thread `t`, outside the queue's functions, calls one -/
  | call (t : ℕ) (c : Call)
  /-- an interrupt handler calls one -/
  | irq (c : Call)
  /-- the scheduler runs thread `t` on from where it was woken -/
  | run (t : ℕ)

namespace IntqSys

/-- The system after `intq_init`, with no thread in the queue's functions. -/
def init (buf : ℕ → UInt8) : IntqSys := ⟨intq_init buf, fun _ => .outside, [], []⟩

def setPhase (s : IntqSys) (t : ℕ) (p : Phase) : IntqSys :=
  { s with phase := Function.update s.phase t p }

def setQ (s : IntqSys) (q : Intq) : IntqSys := { s with q := q }

/-- `thread_unblock (t)`, which asserts that `t` is blocked. -/
def unblock (s : IntqSys) (t : ℕ) : Except Fault IntqSys :=
  match s.phase t with
  | .lockBlocked c => .ok (s.setPhase t (.lockReady c))
  | .condBlocked c => .ok (s.setPhase t (.condReady c))
  | _ => .error .panic

/-- `wait (q, waiter)` by thread `t` in the call `c`: `*waiter = thread_current ()` and block. -/
def wait (s : IntqSys) (w : Waiter) (t : ℕ) (c : Call) : Except Fault IntqSys :=
  if s.q.blocked w then .ok ((s.setQ (s.q.setWaiter w (some t))).setPhase t (.condBlocked c))
  else .error .panic

/-- `signal (q, waiter)`: wake the thread in the slot, if any, and clear it. -/
def signal (s : IntqSys) (w : Waiter) : Except Fault IntqSys :=
  if s.q.blocked w then .error .panic
  else
    match s.q.waiter w with
    | none => .ok s
    | some t => do
      let s ← s.unblock t
      .ok (s.setQ (s.q.setWaiter w none))

/-- The `sema_down` of `lock_acquire` by thread `t` and what follows it: take the free lock
and `wait`, or join the semaphore's waiters. -/
def acquireAndWait (s : IntqSys) (t : ℕ) (c : Call) : Except Fault IntqSys :=
  match s.q.holder with
  | none => (s.setQ { s.q with holder := some t }).wait c.waiter t c
  | some _ =>
    .ok ((s.setQ { s.q with waiters := s.q.waiters ++ [t] }).setPhase t (.lockBlocked c))

/-- `lock_acquire (&q->lock)` and the `wait` after it, by thread `t`; it asserts that `t`
does not hold the lock. -/
def lock_acquire (s : IntqSys) (t : ℕ) (c : Call) : Except Fault IntqSys :=
  if s.q.holder = some t then .error .panic else s.acquireAndWait t c

/-- `lock_release (&q->lock)` by thread `t`, which asserts that `t` holds it: clear the holder
and wake the first waiter of the semaphore. -/
def lock_release (s : IntqSys) (t : ℕ) : Except Fault IntqSys :=
  if s.q.holder ≠ some t then .error .panic
  else
    match s.q.waiters with
    | [] => .ok (s.setQ { s.q with holder := none })
    | w :: ws => (s.setQ { s.q with holder := none, waiters := ws }).unblock w

/-- The byte a call moves when it does not wait: `intq_getc` reads `buf[tail]` and moves
`tail` on, `intq_putc` writes `buf[head]` and moves `head` on. -/
def transfer (s : IntqSys) : Call → IntqSys
  | .getc => { s with q := { s.q with tail := next s.q.tail }, got := s.got ++ [s.q.buf s.q.tail] }
  | .putc byte =>
    { s with q := { s.q with buf := Function.update s.q.buf s.q.head byte, head := next s.q.head },
             put := s.put ++ [byte] }

/-- The `while` test of `intq_getc` or `intq_putc` and what follows it, in thread `ctx`
(`none` for an interrupt handler). -/
def body (s : IntqSys) (ctx : Option ℕ) (c : Call) : Except Fault IntqSys :=
  if s.q.blocked c.waiter then
    match ctx with
    -- `ASSERT (!intr_context ())`
    | none => .error .panic
    | some t => s.lock_acquire t c
  else do
    let s ← (s.transfer c).signal c.signals
    .ok (match ctx with
      | none => s
      | some t => s.setPhase t .outside)

/-- One step of the system; a thread that cannot take the step stays where it is. -/
def step (s : IntqSys) : Action → Except Fault IntqSys
  | .call t c => if s.phase t = .outside then (s.setPhase t (.running c)).body (some t) c else .ok s
  | .irq c => s.body none c
  | .run t =>
    match s.phase t with
    -- `sema_down` tests the semaphore again
    | .lockReady c => (s.setPhase t (.running c)).acquireAndWait t c
    | .condReady c => do
      let s ← (s.setPhase t (.running c)).lock_release t
      s.body (some t) c
    | _ => .ok s

/-- A run of steps, stopped by the first failure. -/
def runSteps (s : IntqSys) : List Action → Except Fault IntqSys
  | [] => .ok s
  | a :: as => do
    let s ← s.step a
    runSteps s as

end IntqSys

/-! ## Field lemmas -/

namespace Intq

variable (q : Intq) (w w' : Waiter) (t : Option ℕ)

@[simp] theorem waiter_setWaiter : (q.setWaiter w t).waiter w' = if w' = w then t else q.waiter w' := by
  cases w <;> cases w' <;> rfl

@[simp] theorem blocked_setWaiter : (q.setWaiter w t).blocked w' = q.blocked w' := by
  cases w <;> cases w' <;> rfl

@[simp] theorem holder_setWaiter : (q.setWaiter w t).holder = q.holder := by cases w <;> rfl
@[simp] theorem waiters_setWaiter : (q.setWaiter w t).waiters = q.waiters := by cases w <;> rfl
@[simp] theorem buf_setWaiter : (q.setWaiter w t).buf = q.buf := by cases w <;> rfl
@[simp] theorem head_setWaiter : (q.setWaiter w t).head = q.head := by cases w <;> rfl
@[simp] theorem tail_setWaiter : (q.setWaiter w t).tail = q.tail := by cases w <;> rfl

variable (h : Option ℕ) (ws : List ℕ)

@[simp] theorem waiter_with_holder : ({ q with holder := h } : Intq).waiter w = q.waiter w := by
  cases w <;> rfl
@[simp] theorem waiter_with_waiters : ({ q with waiters := ws } : Intq).waiter w = q.waiter w := by
  cases w <;> rfl
@[simp] theorem waiter_with_holder_waiters :
    ({ q with holder := h, waiters := ws } : Intq).waiter w = q.waiter w := by
  cases w <;> rfl
@[simp] theorem blocked_with_holder : ({ q with holder := h } : Intq).blocked w = q.blocked w := by
  cases w <;> rfl
@[simp] theorem blocked_with_waiters : ({ q with waiters := ws } : Intq).blocked w = q.blocked w := by
  cases w <;> rfl

end Intq

/-- A call's two slots are all the slots. -/
theorem Call.eq_waiter_or_signals (c : Call) (w : Waiter) : w = c.waiter ∨ w = c.signals := by
  cases c <;> cases w <;> simp [Call.waiter, Call.signals]

theorem Call.waiter_ne_signals (c : Call) : c.waiter ≠ c.signals := by
  cases c <;> simp [Call.waiter, Call.signals]

namespace IntqSys

variable (s : IntqSys) (t : ℕ) (p : Phase) (q : Intq)

@[simp] theorem q_setPhase : (s.setPhase t p).q = s.q := rfl
@[simp] theorem put_setPhase : (s.setPhase t p).put = s.put := rfl
@[simp] theorem got_setPhase : (s.setPhase t p).got = s.got := rfl
@[simp] theorem phase_setPhase : (s.setPhase t p).phase = Function.update s.phase t p := rfl
@[simp] theorem q_setQ : (s.setQ q).q = q := rfl
@[simp] theorem put_setQ : (s.setQ q).put = s.put := rfl
@[simp] theorem got_setQ : (s.setQ q).got = s.got := rfl
@[simp] theorem phase_setQ : (s.setQ q).phase = s.phase := rfl

end IntqSys

/-! ## The ring buffer -/

theorem length_contents_lt (q : Intq) (hh : q.head < INTQ_BUFSIZE) :
    (contents q).length < INTQ_BUFSIZE := by
  rw [contents, Ring.length_window]
  exact Ring.count_lt hh _

theorem next_lt (pos : ℕ) : next pos < INTQ_BUFSIZE := Nat.mod_lt _ (by decide)

namespace IntqSys

variable {s : IntqSys}

/-- `intq_getc` on a queue that is not empty returns its oldest byte. -/
theorem contents_transfer_getc (hh : s.q.head < INTQ_BUFSIZE) (ht : s.q.tail < INTQ_BUFSIZE)
    (hne : s.q.blocked Call.getc.waiter = false) :
    s.q.buf s.q.tail :: contents (s.transfer .getc).q = contents s.q := by
  have hne' : s.q.head ≠ s.q.tail := by simpa [Intq.blocked, Call.waiter, intq_empty] using hne
  simp only [contents, transfer]
  rw [← Ring.count_next_tail hh ht hne', Ring.window_succ_cons, Nat.mod_eq_of_lt ht]
  rfl

/-- `intq_putc` on a queue that is not full adds its byte at the end. -/
theorem contents_transfer_putc (hh : s.q.head < INTQ_BUFSIZE) (ht : s.q.tail < INTQ_BUFSIZE)
    {byte : UInt8} (hnf : s.q.blocked (Call.putc byte).waiter = false) :
    contents (s.transfer (.putc byte)).q = contents s.q ++ [byte] := by
  have hnf' : (s.q.head + 1) % INTQ_BUFSIZE ≠ s.q.tail := by
    simpa [Intq.blocked, Call.waiter, intq_full, next] using hnf
  simp only [contents, transfer, next]
  rw [Ring.count_next_head hh ht hnf', Ring.window, Ring.window_update_head hh ht,
    Ring.add_count_mod hh ht, Function.update_self]

@[simp] theorem holder_transfer (c : Call) : (s.transfer c).q.holder = s.q.holder := by
  cases c <;> rfl
@[simp] theorem waiters_transfer (c : Call) : (s.transfer c).q.waiters = s.q.waiters := by
  cases c <;> rfl
@[simp] theorem waiter_transfer (c : Call) (w : Waiter) : (s.transfer c).q.waiter w = s.q.waiter w := by
  cases c <;> cases w <;> rfl
@[simp] theorem phase_transfer (c : Call) : (s.transfer c).phase = s.phase := by
  cases c <;> rfl

theorem head_lt_transfer (hh : s.q.head < INTQ_BUFSIZE) (c : Call) :
    (s.transfer c).q.head < INTQ_BUFSIZE := by
  cases c with
  | getc => exact hh
  | putc byte => exact next_lt _

theorem tail_lt_transfer (ht : s.q.tail < INTQ_BUFSIZE) (c : Call) :
    (s.transfer c).q.tail < INTQ_BUFSIZE := by
  cases c with
  | getc => exact next_lt _
  | putc byte => exact ht

/-- A call that did not wait leaves the slot it signals with its condition false. -/
theorem signals_not_blocked (hh : s.q.head < INTQ_BUFSIZE) (ht : s.q.tail < INTQ_BUFSIZE)
    {c : Call} (hnb : s.q.blocked c.waiter = false) :
    (s.transfer c).q.blocked c.signals = false := by
  cases c with
  | getc =>
    -- one byte fewer than before: not `INTQ_BUFSIZE - 1` of them
    have hne' : s.q.head ≠ s.q.tail := by simpa [Intq.blocked, Call.waiter, intq_empty] using hnb
    have hc := Ring.count_next_tail hh ht hne'
    have hlt := Ring.count_lt hh s.q.tail
    have hfull := Ring.next_head_eq_iff hh (next_lt s.q.tail)
    simp only [Intq.blocked, Call.signals, intq_full, transfer, next, beq_eq_false_iff_ne] at hfull ⊢
    intro heq
    have := hfull.mp heq
    omega
  | putc byte =>
    have hnf' : (s.q.head + 1) % INTQ_BUFSIZE ≠ s.q.tail := by
      simpa [Intq.blocked, Call.waiter, intq_full, next] using hnb
    simpa [Intq.blocked, Call.signals, intq_empty, transfer, next] using hnf'

end IntqSys

/-- The byte a call that does not wait moves keeps the bytes put equal to the bytes got and
then those in the queue. -/
theorem IntqSys.fifo_transfer {s : IntqSys} (hh : s.q.head < INTQ_BUFSIZE)
    (ht : s.q.tail < INTQ_BUFSIZE) (hfifo : s.put = s.got ++ contents s.q) {c : Call}
    (hnb : s.q.blocked c.waiter = false) :
    (s.transfer c).put = (s.transfer c).got ++ contents (s.transfer c).q := by
  cases c with
  | getc =>
    rw [← contents_transfer_getc hh ht hnb] at hfifo
    simpa [transfer] using hfifo
  | putc byte =>
    rw [contents_transfer_putc hh ht hnb]
    simp [transfer, hfifo]

/-! ## The invariant -/

/-- What holds between the steps of every run from `intq_init`. -/
structure IntqInv (s : IntqSys) : Prop where
  head_lt : s.q.head < INTQ_BUFSIZE
  tail_lt : s.q.tail < INTQ_BUFSIZE
  /-- the bytes put are the bytes got, then the bytes in the queue -/
  fifo : s.put = s.got ++ contents s.q
  /-- a thread in a waiter slot is blocked in `wait` on it -/
  waiter_some : ∀ w t, s.q.waiter w = some t → ∃ c, c.waiter = w ∧ s.phase t = .condBlocked c
  /-- a thread blocked in `wait` is in its slot, and the queue is still empty or full -/
  cond_blocked : ∀ t c, s.phase t = .condBlocked c →
    s.q.waiter c.waiter = some t ∧ s.q.blocked c.waiter = true
  /-- the semaphore's waiters are the threads blocked in `lock_acquire` -/
  waiters_iff : ∀ t, t ∈ s.q.waiters ↔ ∃ c, s.phase t = .lockBlocked c
  waiters_nodup : s.q.waiters.Nodup
  /-- the lock is held by a thread in `wait` or woken from it, or by the one running -/
  holder_some : ∀ t, s.q.holder = some t →
    ∃ c, s.phase t = .condBlocked c ∨ s.phase t = .condReady c ∨ s.phase t = .running c
  /-- a thread in `wait` or woken from it holds the lock -/
  cond_holder : ∀ t c, s.phase t = .condBlocked c ∨ s.phase t = .condReady c →
    s.q.holder = some t

namespace IntqInv

variable {s s' : IntqSys} {t : ℕ} {c : Call}

theorem init (buf : ℕ → UInt8) : IntqInv (IntqSys.init buf) where
  head_lt := by simp [IntqSys.init, intq_init, INTQ_BUFSIZE]
  tail_lt := by simp [IntqSys.init, intq_init, INTQ_BUFSIZE]
  fifo := by simp [IntqSys.init, intq_init, contents, Ring.count, Ring.window]
  waiter_some w t h := by cases w <;> simp [IntqSys.init, intq_init, Intq.waiter] at h
  cond_blocked t c h := by simp [IntqSys.init] at h
  waiters_iff t := by simp [IntqSys.init, intq_init]
  waiters_nodup := List.nodup_nil
  holder_some t h := by simp [IntqSys.init, intq_init] at h
  cond_holder t c h := by simp [IntqSys.init] at h

/-- A thread in no slot and not on the semaphore goes outside or starts running; a thread that
holds the lock can only start running. -/
theorem setPhase (hinv : IntqInv s) (hl : ∀ c, s.phase t ≠ .lockBlocked c)
    (hc : ∀ c, s.phase t ≠ .condBlocked c) {p : Phase} (hp : p = .outside ∨ ∃ c, p = .running c)
    (hhold : s.q.holder = some t → ∃ c, p = .running c) : IntqInv (s.setPhase t p) := by
  have hpl : ∀ c, p ≠ .lockBlocked c := by rintro c rfl; simp at hp
  have hpc : ∀ c, p ≠ .condBlocked c := by rintro c rfl; simp at hp
  have hpr : ∀ c, p ≠ .condReady c := by rintro c rfl; simp at hp
  refine ⟨hinv.head_lt, hinv.tail_lt, hinv.fifo, fun w u hu => ?_, fun u c' hu => ?_,
    fun u => ?_, hinv.waiters_nodup, fun u hu => ?_, fun u c' hu => ?_⟩
  · obtain ⟨c', hw, hp'⟩ := hinv.waiter_some w u hu
    have hne : u ≠ t := by rintro rfl; exact hc c' hp'
    exact ⟨c', hw, by simpa [Function.update_of_ne hne] using hp'⟩
  · have hne : u ≠ t := by rintro rfl; simp at hu; exact hpc c' hu
    exact hinv.cond_blocked u c' (by simpa [Function.update_of_ne hne] using hu)
  · by_cases hne : u = t
    · subst hne
      simp only [IntqSys.q_setPhase, IntqSys.phase_setPhase, Function.update_self]
      rw [hinv.waiters_iff]
      exact ⟨fun ⟨c', h'⟩ => absurd h' (hl c'), fun ⟨c', h'⟩ => absurd h' (hpl c')⟩
    · simpa [Function.update_of_ne hne] using hinv.waiters_iff u
  · by_cases hne : u = t
    · subst hne
      obtain ⟨c', rfl⟩ := hhold hu
      exact ⟨c', by simp⟩
    · simpa [Function.update_of_ne hne] using hinv.holder_some u hu
  · have hne : u ≠ t := by
      rintro rfl
      simp only [IntqSys.phase_setPhase, Function.update_self] at hu
      exact hu.elim (hpc c') (hpr c')
    exact hinv.cond_holder u c' (by simpa [Function.update_of_ne hne] using hu)

/-- `lock_release` by the running holder: the lock is free, the first waiter of the semaphore
is woken, and the releasing thread is still running. -/
theorem lock_release (hinv : IntqInv s) (hrun : s.phase t = .running c)
    (h : s.lock_release t = .ok s') :
    IntqInv s' ∧ s'.q.holder = none ∧ s'.phase t = .running c := by
  unfold IntqSys.lock_release at h
  split_ifs at h with hne
  rw [not_not] at hne
  -- no thread but `t` held the lock, so none is in `wait` or woken from it
  have hnocond : ∀ u c', s.phase u = .condBlocked c' ∨ s.phase u = .condReady c' → False := by
    intro u c' hu
    have := hinv.cond_holder u c' hu
    rw [hne, Option.some.injEq] at this
    subst this
    rcases hu with hu | hu <;> simp [hrun] at hu
  have hnoslot : ∀ w u, s.q.waiter w = some u → False := by
    intro w u hu
    obtain ⟨c', -, hp⟩ := hinv.waiter_some w u hu
    exact hnocond u c' (.inl hp)
  cases hw : s.q.waiters with
  | nil =>
    rw [hw] at h
    cases h
    refine ⟨⟨hinv.head_lt, hinv.tail_lt, hinv.fifo, fun w u hu => (hnoslot w u (by simpa using hu)).elim,
      fun u c' hu => (hnocond u c' (.inl hu)).elim, fun u => ?_, hinv.waiters_nodup,
      fun u hu => by simp at hu,
      fun u c' hu => (hnocond u c' hu).elim⟩, rfl, hrun⟩
    simpa [hw] using hinv.waiters_iff u
  | cons w ws =>
    rw [hw] at h
    obtain ⟨cw, hcw⟩ := (hinv.waiters_iff w).mp (by simp [hw])
    have hnd := hinv.waiters_nodup
    rw [hw, List.nodup_cons] at hnd
    have hwt : w ≠ t := by rintro rfl; simp [hrun] at hcw
    simp only [IntqSys.unblock, IntqSys.phase_setQ, hcw] at h
    cases h
    refine ⟨⟨hinv.head_lt, hinv.tail_lt, hinv.fifo,
      fun w' u hu => (hnoslot w' u (by simpa using hu)).elim, fun u c' hu => ?_, fun u => ?_,
      hnd.2, fun u hu => by simp at hu, fun u c' hu => ?_⟩, rfl, ?_⟩
    · by_cases huw : u = w
      · subst huw; simp at hu
      · exact (hnocond u c' (.inl (by simpa [Function.update_of_ne huw] using hu))).elim
    · by_cases huw : u = w
      · subst huw; simp [hnd.1]
      · have := hinv.waiters_iff u
        simp only [hw, List.mem_cons, huw, false_or] at this
        simpa [Function.update_of_ne huw] using this
    · by_cases huw : u = w
      · subst huw; simp at hu
      · exact (hnocond u c' (by simpa [Function.update_of_ne huw] using hu)).elim
    · simpa [Function.update_of_ne hwt.symm] using hrun

/-- The `sema_down` of `lock_acquire` and the `wait` after it, by a running thread that does
not hold the lock. -/
theorem acquireAndWait (hinv : IntqInv s) (hrun : s.phase t = .running c)
    (hhold : s.q.holder ≠ some t) (h : s.acquireAndWait t c = .ok s') : IntqInv s' := by
  have htw : t ∉ s.q.waiters := by
    rw [hinv.waiters_iff]
    rintro ⟨c', hc'⟩
    simp [hrun] at hc'
  unfold IntqSys.acquireAndWait at h
  cases hh : s.q.holder with
  | none =>
    have hnocond : ∀ u c', s.phase u = .condBlocked c' ∨ s.phase u = .condReady c' → False := by
      intro u c' hu
      simpa [hh] using hinv.cond_holder u c' hu
    rw [hh] at h
    simp only [IntqSys.wait, IntqSys.q_setQ, Intq.blocked_with_holder] at h
    split_ifs at h with hb
    cases h
    refine ⟨by simpa using hinv.head_lt, by simpa using hinv.tail_lt,
      by simpa [contents] using hinv.fifo, fun w u hu => ?_, fun u c' hu => ?_,
      fun u => ?_, by simpa using hinv.waiters_nodup, fun u hu => ?_, fun u c' hu => ?_⟩
    · simp only [IntqSys.q_setPhase, IntqSys.q_setQ, Intq.waiter_setWaiter,
        Intq.waiter_with_holder] at hu
      split_ifs at hu with hw
      · cases hu
        exact ⟨c, hw.symm, by simp⟩
      · obtain ⟨c', -, hp⟩ := hinv.waiter_some w u hu
        exact (hnocond u c' (.inl hp)).elim
    · by_cases hut : u = t
      · subst hut
        simp only [IntqSys.phase_setPhase, Function.update_self, Phase.condBlocked.injEq] at hu
        subst hu
        simp [hb]
      · simp only [IntqSys.phase_setPhase, Function.update_of_ne hut, IntqSys.phase_setQ] at hu
        exact (hnocond u c' (.inl hu)).elim
    · by_cases hut : u = t
      · subst hut
        simp [htw]
      · simpa [Function.update_of_ne hut] using hinv.waiters_iff u
    · simp only [IntqSys.q_setPhase, IntqSys.q_setQ, Intq.holder_setWaiter, Option.some.injEq] at hu
      subst hu
      exact ⟨c, by simp⟩
    · by_cases hut : u = t
      · subst hut; simp
      · simp only [IntqSys.phase_setPhase, Function.update_of_ne hut, IntqSys.phase_setQ] at hu
        exact (hnocond u c' hu).elim
  | some v =>
    rw [hh] at h
    cases h
    have hvt : v ≠ t := by rintro rfl; exact hhold hh
    refine ⟨hinv.head_lt, hinv.tail_lt, hinv.fifo, fun w u hu => ?_, fun u c' hu => ?_,
      fun u => ?_, ?_, fun u hu => ?_, fun u c' hu => ?_⟩
    · obtain ⟨c', hw, hp⟩ := hinv.waiter_some w u (by simpa using hu)
      have hut : u ≠ t := by rintro rfl; simp [hrun] at hp
      exact ⟨c', hw, by simpa [Function.update_of_ne hut] using hp⟩
    · have hut : u ≠ t := by rintro rfl; simp at hu
      simpa using hinv.cond_blocked u c' (by simpa [Function.update_of_ne hut] using hu)
    · by_cases hut : u = t
      · subst hut; simp
      · simpa [Function.update_of_ne hut, hut] using hinv.waiters_iff u
    · exact List.nodup_append.mpr ⟨hinv.waiters_nodup, by simp,
        fun a ha b hb => by rintro rfl; simp at hb; subst hb; exact htw ha⟩
    · simp only [IntqSys.q_setPhase, IntqSys.q_setQ, hh, Option.some.injEq] at hu
      subst hu
      simpa [Function.update_of_ne hvt] using hinv.holder_some v hh
    · have hut : u ≠ t := by rintro rfl; simp at hu
      simpa [hh] using hinv.cond_holder u c' (by simpa [Function.update_of_ne hut] using hu)

/-- A call that does not wait moves its byte and wakes the thread in the slot it signals;
afterwards no thread is in `wait`, and the lock and the other threads are as they were. -/
theorem transfer_signal (hinv : IntqInv s) (hnb : s.q.blocked c.waiter = false)
    (h : (s.transfer c).signal c.signals = .ok s') :
    IntqInv s' ∧ s'.q.holder = s.q.holder ∧
      ∀ u, (∀ c', s.phase u ≠ .condBlocked c') → s'.phase u = s.phase u := by
  -- the slot of `c` is empty: a thread in it would have its condition true
  have hslot : s.q.waiter c.waiter = none := by
    cases hw : s.q.waiter c.waiter with
    | none => rfl
    | some v =>
      obtain ⟨c', hc', hp⟩ := hinv.waiter_some _ v hw
      have := (hinv.cond_blocked v c' hp).2
      rw [hc', hnb] at this
      cases this
  have hnb₁ := IntqSys.signals_not_blocked hinv.head_lt hinv.tail_lt hnb
  have hh₁ := IntqSys.head_lt_transfer hinv.head_lt c
  have ht₁ := IntqSys.tail_lt_transfer hinv.tail_lt c
  have hfifo₁ := IntqSys.fifo_transfer hinv.head_lt hinv.tail_lt hinv.fifo hnb
  unfold IntqSys.signal at h
  rw [if_neg (by simp [hnb₁])] at h
  cases hw : s.q.waiter c.signals with
  | none =>
    rw [IntqSys.waiter_transfer, hw] at h
    cases h
    have hnocond : ∀ u c', s.phase u ≠ .condBlocked c' := by
      intro u c' hu
      have := (hinv.cond_blocked u c' hu).1
      rcases Call.eq_waiter_or_signals c c'.waiter with hc | hc <;> simp_all
    refine ⟨⟨hh₁, ht₁, hfifo₁, fun w u hu => ?_, fun u c' hu => ?_, fun u => ?_,
      by simpa using hinv.waiters_nodup, fun u hu => ?_, fun u c' hu => ?_⟩, by simp,
      fun u _ => by simp⟩
    · rw [IntqSys.waiter_transfer] at hu
      rcases Call.eq_waiter_or_signals c w with rfl | rfl <;> simp_all
    · exact (hnocond u c' (by simpa using hu)).elim
    · simpa using hinv.waiters_iff u
    · simpa using hinv.holder_some u (by simpa using hu)
    · simpa using hinv.cond_holder u c' (by simpa using hu)
  | some u =>
    rw [IntqSys.waiter_transfer, hw] at h
    obtain ⟨cu, hcu, hpu⟩ := hinv.waiter_some _ u hw
    simp only [bind, Except.bind, IntqSys.unblock, IntqSys.phase_transfer, hpu] at h
    cases h
    have hnocond : ∀ v c', v ≠ u → s.phase v ≠ .condBlocked c' := by
      intro v c' hvu hv
      have := (hinv.cond_blocked v c' hv).1
      rcases Call.eq_waiter_or_signals c c'.waiter with hc | hc
      · rw [hc, hslot] at this; cases this
      · rw [hc, hw, Option.some.injEq] at this; exact hvu this.symm
    refine ⟨⟨by simpa using hh₁, by simpa using ht₁, by simpa [contents] using hfifo₁,
      fun w v hv => ?_, fun v c' hv => ?_, fun v => ?_, by simpa using hinv.waiters_nodup,
      fun v hv => ?_, fun v c' hv => ?_⟩, by simp, fun v hv => ?_⟩
    · simp only [IntqSys.q_setQ, Intq.waiter_setWaiter, IntqSys.q_setPhase,
        IntqSys.waiter_transfer] at hv
      by_cases hws : w = c.signals
      · rw [if_pos hws] at hv
        cases hv
      · rw [if_neg hws] at hv
        rcases Call.eq_waiter_or_signals c w with rfl | rfl
        · rw [hslot] at hv
          cases hv
        · exact absurd rfl hws
    · by_cases hvu : v = u
      · subst hvu; simp at hv
      · exact (hnocond v c' hvu (by simpa [Function.update_of_ne hvu] using hv)).elim
    · by_cases hvu : v = u
      · subst hvu
        have : v ∉ s.q.waiters := by rw [hinv.waiters_iff]; rintro ⟨c', hc'⟩; simp [hpu] at hc'
        simp [this]
      · simpa [Function.update_of_ne hvu] using hinv.waiters_iff v
    · by_cases hvu : v = u
      · subst hvu; exact ⟨cu, by simp⟩
      · simpa [Function.update_of_ne hvu] using hinv.holder_some v (by simpa using hv)
    · by_cases hvu : v = u
      · subst hvu; simpa using hinv.cond_holder v cu (.inl hpu)
      · simpa using hinv.cond_holder v c' (by simpa [Function.update_of_ne hvu] using hv)
    · have hvu : v ≠ u := by rintro rfl; exact hv cu hpu
      simp [Function.update_of_ne hvu]

/-- The loop test of a call and what follows it, in a running thread that does not hold the
lock. -/
theorem body_thread (hinv : IntqInv s) (hrun : s.phase t = .running c)
    (hhold : s.q.holder ≠ some t) (h : s.body (some t) c = .ok s') : IntqInv s' := by
  unfold IntqSys.body at h
  split_ifs at h with hb
  · -- the queue is empty or full: take the lock and wait
    dsimp only at h
    unfold IntqSys.lock_acquire at h
    rw [if_neg hhold] at h
    exact hinv.acquireAndWait hrun hhold h
  · -- move the byte, signal, and return
    rw [Bool.not_eq_true] at hb
    cases h₁ : (s.transfer c).signal c.signals with
    | error e => rw [h₁] at h; cases h
    | ok s₁ =>
      rw [h₁] at h
      cases h
      obtain ⟨hinv₁, hhold₁, hphase₁⟩ := hinv.transfer_signal hb h₁
      have hrun₁ : s₁.phase t = .running c := by
        rw [hphase₁ t (by simp [hrun]), hrun]
      exact hinv₁.setPhase (by simp [hrun₁]) (by simp [hrun₁]) (.inl rfl)
        (fun h' => absurd (hhold₁ ▸ h') hhold)

/-- The loop test of a call and what follows it, in an interrupt handler. -/
theorem body_irq (hinv : IntqInv s) (h : s.body none c = .ok s') : IntqInv s' := by
  unfold IntqSys.body at h
  split_ifs at h with hb
  rw [Bool.not_eq_true] at hb
  cases h₁ : (s.transfer c).signal c.signals with
  | error e => rw [h₁] at h; cases h
  | ok s₁ =>
    rw [h₁] at h
    cases h
    exact (hinv.transfer_signal hb h₁).1

/-- Every step from a state of the invariant that does not stop the kernel keeps it. -/
theorem step (hinv : IntqInv s) {a : Action} (h : s.step a = .ok s') : IntqInv s' := by
  cases a with
  | call t c =>
    rw [IntqSys.step] at h
    split_ifs at h with hout
    · -- a thread outside holds no lock
      have hhold : s.q.holder ≠ some t := by
        intro hh
        obtain ⟨c', hc'⟩ := hinv.holder_some t hh
        simp [hout] at hc'
      exact (hinv.setPhase (by simp [hout]) (by simp [hout]) (.inr ⟨c, rfl⟩)
        (fun hh => absurd hh hhold)).body_thread (by simp) hhold h
    · cases h
      exact hinv
  | irq c => exact hinv.body_irq h
  | run t =>
    rw [IntqSys.step] at h
    cases hp : s.phase t with
    | lockReady c =>
      rw [hp] at h
      have hhold : s.q.holder ≠ some t := by
        intro hh
        obtain ⟨c', hc'⟩ := hinv.holder_some t hh
        simp [hp] at hc'
      exact (hinv.setPhase (by simp [hp]) (by simp [hp]) (.inr ⟨c, rfl⟩)
        (fun hh => absurd hh hhold)).acquireAndWait (by simp) hhold h
    | condReady c =>
      rw [hp] at h
      dsimp only at h
      cases h₁ : (s.setPhase t (.running c)).lock_release t with
      | error e => rw [h₁] at h; cases h
      | ok s₁ =>
        rw [h₁] at h
        have hinv₀ : IntqInv (s.setPhase t (.running c)) :=
          hinv.setPhase (by simp [hp]) (by simp [hp]) (.inr ⟨c, rfl⟩) fun _ => ⟨c, rfl⟩
        obtain ⟨hinv₁, hhold₁, hrun₁⟩ :=
          hinv₀.lock_release (by simp : (s.setPhase t (.running c)).phase t = .running c) h₁
        exact hinv₁.body_thread hrun₁ (by simp [hhold₁]) h
    | outside | running _ | lockBlocked _ | condBlocked _ =>
      rw [hp] at h
      cases h
      exact hinv

/-- A run of steps that does not stop the kernel keeps the invariant. -/
theorem runSteps : ∀ {s s' : IntqSys} (acts : List Action), IntqInv s →
    s.runSteps acts = .ok s' → IntqInv s'
  | _, _, [], hinv, h => by cases h; exact hinv
  | s, _, a :: as, hinv, h => by
    simp only [IntqSys.runSteps, bind, Except.bind] at h
    cases h₁ : s.step a with
    | error e => rw [h₁] at h; cases h
    | ok s₁ =>
      rw [h₁] at h
      exact runSteps as (hinv.step h₁) h

end IntqInv

/-- Every state a run from `intq_init` reaches without stopping the kernel. -/
def IntqSys.Reachable (s : IntqSys) : Prop :=
  ∃ buf acts, (IntqSys.init buf).runSteps acts = .ok s

theorem IntqSys.Reachable.inv {s : IntqSys} (h : s.Reachable) : IntqInv s := by
  obtain ⟨buf, acts, h⟩ := h
  exact (IntqInv.init buf).runSteps acts h

/-- In every reachable state the bytes got are the first bytes put, in order, and the queue
holds the rest: none is lost or repeated. -/
theorem IntqSys.Reachable.fifo {s : IntqSys} (h : s.Reachable) : s.put = s.got ++ contents s.q :=
  h.inv.fifo

/-- The queue never holds more than `INTQ_BUFSIZE - 1` bytes. -/
theorem IntqSys.Reachable.length_contents_le {s : IntqSys} (h : s.Reachable) :
    (contents s.q).length ≤ INTQ_BUFSIZE - 1 := by
  have := length_contents_lt s.q h.inv.head_lt
  omega

/-- A thread blocked in `wait` waits for a condition that is still false: the queue is empty
for a reader and full for a writer, so a call that made it true woke the thread. -/
theorem IntqSys.Reachable.cond_blocked {s : IntqSys} (h : s.Reachable) {t : ℕ} {c : Call}
    (hc : s.phase t = .condBlocked c) : s.q.blocked c.waiter = true :=
  (h.inv.cond_blocked t c hc).2

/-- Two readers and two bytes: the first reader waits holding the lock and the second sleeps
on the lock; two bytes arrive, the first reader takes one and releases the lock, and the second
reader, run on, waits on a queue that holds a byte, so `wait`'s assertion stops the kernel. -/
theorem intq_two_readers_panic :
    ∃ s, (IntqSys.init fun _ => 0).runSteps
        [.call 1 .getc, .call 2 .getc, .irq (.putc 120), .irq (.putc 121), .run 1] = .ok s ∧
      s.phase 2 = .lockReady .getc ∧ s.got = [120] ∧ contents s.q = [121] ∧
      s.step (.run 2) = .error .panic := by
  refine ⟨_, rfl, rfl, rfl, ?_, rfl⟩
  decide

end Pintos
