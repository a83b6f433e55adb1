import Pintos.Devices.Intq
import Pintos.Devices.Kbd
import Pintos.Lib.EState

/-!
# The input buffer (`devices/input.c`) and the interrupt handlers that fill it

`input.c` keeps one `struct intq`, `buffer`, of the keys from the keyboard and the serial port.
The keyboard's interrupt handler adds the character of a key press with `input_putc` unless
`input_full ()`; the serial port's handler adds the bytes the UART has received while the buffer
has room; and threads read with `input_getc`, which the `read` system call on standard input
calls once a byte. The system (`InputSys`) is the keyboard driver's state and the buffer with
the threads in its functions, and `keys` records the bytes handed to `input_putc`, in order.

In every reachable state the bytes the readers got, and then those in the buffer, are the keys
in order (`input_keys_fifo`): no key handed over is lost or repeated. Neither handler ever stops
the kernel (`input_interrupts_never_fault`): both test `input_full ()` before `input_putc`, so its
`ASSERT` holds, and the thread that `intq_putc` wakes is one blocked in `wait`, so
`thread_unblock`'s `ASSERT` holds too.
-/

set_option linter.style.nameCheck false

namespace Pintos

/-! ## Threads that only read -/

/-- The call a thread is in, if any. -/
def Phase.call : Phase → Option Call
  | .outside => none
  | .running c | .lockBlocked c | .lockReady c | .condBlocked c | .condReady c => some c

namespace IntqSys

/-- Every thread in the queue's functions is in `intq_getc`. -/
def Readers (s : IntqSys) : Prop := ∀ t c, (s.phase t).call = some c → c = .getc

/-- From `s` to `s'` no byte was put, and threads that only read still only read. -/
structure Reads (s s' : IntqSys) : Prop where
  put : s'.put = s.put
  readers : s.Readers → s'.Readers

variable {s s' s'' : IntqSys} {t : ℕ} {c : Call}

theorem Reads.refl (s : IntqSys) : Reads s s := ⟨rfl, id⟩

theorem Reads.trans (h₁ : Reads s s') (h₂ : Reads s' s'') : Reads s s'' :=
  ⟨h₂.put.trans h₁.put, h₂.readers ∘ h₁.readers⟩

theorem Readers.setPhase (hr : s.Readers) {p : Phase} (hp : ∀ c, p.call = some c → c = .getc) :
    (s.setPhase t p).Readers := by
  intro u c hu
  by_cases hut : u = t
  · subst hut
    exact hp c (by simpa using hu)
  · exact hr u c (by simpa [Function.update_of_ne hut] using hu)

theorem reads_setPhase_getc {p : Phase} (hp : ∀ c, p.call = some c → c = .getc) :
    Reads s (s.setPhase t p) :=
  ⟨rfl, fun hr => hr.setPhase hp⟩

/-- A thread that moves on within its call. -/
theorem reads_setPhase_same {p : Phase} (hp : p.call = (s.phase t).call) :
    Reads s (s.setPhase t p) :=
  ⟨rfl, fun hr => hr.setPhase fun c hc => hr t c (hp ▸ hc)⟩

theorem reads_setQ (q : Intq) : Reads s (s.setQ q) := ⟨rfl, id⟩

theorem reads_unblock (h : s.unblock t = .ok s') : Reads s s' := by
  unfold unblock at h
  cases hp : s.phase t with
  | lockBlocked c =>
    rw [hp] at h
    cases h
    exact reads_setPhase_same (by rw [hp]; rfl)
  | condBlocked c =>
    rw [hp] at h
    cases h
    exact reads_setPhase_same (by rw [hp]; rfl)
  | outside | running _ | lockReady _ | condReady _ =>
    rw [hp] at h
    cases h

theorem reads_wait_getc {w : Waiter} (h : s.wait w t .getc = .ok s') : Reads s s' := by
  unfold wait at h
  split_ifs at h
  cases h
  exact (reads_setQ _).trans (reads_setPhase_getc fun _ hc => (Option.some.inj hc).symm)

theorem reads_signal {w : Waiter} (h : s.signal w = .ok s') : Reads s s' := by
  unfold signal at h
  split_ifs at h
  cases hw : s.q.waiter w with
  | none =>
    rw [hw] at h
    cases h
    exact Reads.refl s
  | some u =>
    rw [hw] at h
    obtain ⟨s₁, h₁, h₂⟩ := Except.bind_eq_ok.mp h
    cases h₂
    exact (reads_unblock h₁).trans (reads_setQ _)

theorem reads_acquireAndWait_getc (h : s.acquireAndWait t .getc = .ok s') : Reads s s' := by
  unfold acquireAndWait at h
  cases hh : s.q.holder with
  | none =>
    rw [hh] at h
    exact (reads_setQ _).trans (reads_wait_getc h)
  | some _ =>
    rw [hh] at h
    cases h
    exact (reads_setQ _).trans (reads_setPhase_getc fun _ hc => (Option.some.inj hc).symm)

theorem reads_lock_release (h : s.lock_release t = .ok s') : Reads s s' := by
  unfold lock_release at h
  split_ifs at h
  cases hw : s.q.waiters with
  | nil =>
    rw [hw] at h
    cases h
    exact reads_setQ _
  | cons w ws =>
    rw [hw] at h
    exact (reads_setQ _).trans (reads_unblock h)

/-- The loop test of `intq_getc` and what follows it, in a thread. -/
theorem reads_body_getc (h : s.body (some t) .getc = .ok s') : Reads s s' := by
  unfold body at h
  split_ifs at h
  · -- the queue is empty: take the lock and wait
    dsimp only at h
    unfold lock_acquire at h
    split_ifs at h
    exact reads_acquireAndWait_getc h
  · -- take the oldest byte, signal `not_full`, and return
    obtain ⟨s₁, h₁, h₂⟩ := Except.bind_eq_ok.mp h
    cases h₂
    have htransfer : Reads s (s.transfer .getc) := ⟨rfl, id⟩
    exact (htransfer.trans (reads_signal h₁)).trans
      (reads_setPhase_getc (t := t) (p := .outside) fun _ hc => by cases hc)

/-- A thread's call of `intq_getc` puts no byte, and its threads still only read. -/
theorem Readers.step_getc (hr : s.Readers) (h : s.step (.call t .getc) = .ok s') :
    s'.Readers ∧ s'.put = s.put := by
  rw [IntqSys.step] at h
  split_ifs at h
  · have hreads := (reads_setPhase_getc (s := s) (t := t) (p := .running .getc)
      fun _ hc => (Option.some.inj hc).symm).trans (reads_body_getc h)
    exact ⟨hreads.readers hr, hreads.put⟩
  · cases h
    exact ⟨hr, rfl⟩

/-- Running a reader on puts no byte, and its threads still only read. -/
theorem Readers.step_run (hr : s.Readers) (h : s.step (.run t) = .ok s') :
    s'.Readers ∧ s'.put = s.put := by
  rw [IntqSys.step] at h
  cases hp : s.phase t with
  | lockReady c =>
    rw [hp] at h
    obtain rfl : c = .getc := hr t c (by rw [hp]; rfl)
    have hreads := (reads_setPhase_same (s := s) (t := t) (p := .running .getc)
      (by rw [hp]; rfl)).trans (reads_acquireAndWait_getc h)
    exact ⟨hreads.readers hr, hreads.put⟩
  | condReady c =>
    rw [hp] at h
    obtain rfl : c = .getc := hr t c (by rw [hp]; rfl)
    obtain ⟨s₁, h₁, h₂⟩ := Except.bind_eq_ok.mp h
    have hreads := ((reads_setPhase_same (s := s) (t := t) (p := .running .getc)
      (by rw [hp]; rfl)).trans (reads_lock_release h₁)).trans (reads_body_getc h₂)
    exact ⟨hreads.readers hr, hreads.put⟩
  | outside | running _ | lockBlocked _ | condBlocked _ =>
    rw [hp] at h
    cases h
    exact ⟨hr, rfl⟩

/-- `intq_putc` from an interrupt handler puts its byte, and the threads still only read. -/
theorem Readers.step_putc (hr : s.Readers) {byte : UInt8}
    (h : s.step (.irq (.putc byte)) = .ok s') : s'.Readers ∧ s'.put = s.put ++ [byte] := by
  rw [IntqSys.step] at h
  unfold body at h
  split_ifs at h
  obtain ⟨s₁, h₁, h₂⟩ := Except.bind_eq_ok.mp h
  cases h₂
  have hreads := reads_signal h₁
  exact ⟨hreads.readers hr, hreads.put⟩

end IntqSys

/-- `intq_putc` from an interrupt handler on a queue that is not full returns: the byte goes in,
and the thread in `not_empty`, if any, is blocked in `wait`, so `thread_unblock` wakes it. -/
theorem IntqInv.putc_ok {s : IntqSys} (hinv : IntqInv s) (hnf : intq_full s.q = false)
    (byte : UInt8) : ∃ s', s.step (.irq (.putc byte)) = .ok s' := by
  have hnb : s.q.blocked (Call.putc byte).waiter = false := hnf
  have hnb₁ := IntqSys.signals_not_blocked hinv.head_lt hinv.tail_lt hnb
  have hsig : ∃ s₁, (s.transfer (.putc byte)).signal (Call.putc byte).signals = .ok s₁ := by
    unfold IntqSys.signal
    rw [if_neg (by simp [hnb₁]), IntqSys.waiter_transfer]
    cases hw : s.q.waiter (Call.putc byte).signals with
    | none => exact ⟨_, rfl⟩
    | some u =>
      obtain ⟨c, _, hp⟩ := hinv.waiter_some _ u hw
      simp only [bind, Except.bind, IntqSys.unblock, IntqSys.phase_transfer, hp]
      exact ⟨_, rfl⟩
  obtain ⟨s₁, h₁⟩ := hsig
  refine ⟨s₁, ?_⟩
  simp only [IntqSys.step, IntqSys.body, hnb, Bool.false_eq_true, if_false]
  rw [Except.bind_eq_ok]
  exact ⟨s₁, h₁, rfl⟩

/-! ## The system -/

/-- `input_full ()`. -/
def input_full (buffer : IntqSys) : Bool := intq_full buffer.q

/-- `input_putc (key)`, in an interrupt handler: `ASSERT (!intq_full (&buffer))`, then
`intq_putc`. -/
def input_putc (buffer : IntqSys) (key : UInt8) : Except Fault IntqSys :=
  if intq_full buffer.q then .error .panic else buffer.step (.irq (.putc key))

/-- `input_getc ()` by thread `t`: `intq_getc` with interrupts off. -/
def input_getc (buffer : IntqSys) (t : ℕ) : Except Fault IntqSys := buffer.step (.call t .getc)

/-- The keyboard driver's state, `buffer` with the threads in its functions, and the keys handed
to `input_putc`, in order; `keys` records the history and is not state of the code. -/
structure InputSys where
  kbd : Kbd.State
  buffer : IntqSys
  keys : List UInt8

/-- A step of the system. -/
inductive InputAction
  /-- a keyboard interrupt that reads the bytes `b₁` and `b₂` from the data register -/
  | keyboard (b₁ b₂ : UInt8)
  /-- a serial interrupt, with the bytes the UART has received, in order -/
  | serial (rx : List UInt8)
  /-- thread `t` calls `input_getc` -/
  | getc (t : ℕ)
  /-- the scheduler runs thread `t` on from where it was woken in `intq_getc` -/
  | run (t : ℕ)

namespace InputSys

/-- The system after `input_init` and `kbd_init`. -/
def init (buf : ℕ → UInt8) : InputSys := ⟨Kbd.State.boot, IntqSys.init buf, []⟩

/-- `input_putc (key)` by a handler, recorded in `keys`. -/
def putKey (s : InputSys) (key : UInt8) : Except Fault InputSys := do
  let buffer ← input_putc s.buffer key
  pure { s with buffer, keys := s.keys ++ [key] }

/-- `keyboard_interrupt ()`; `none` when Ctrl+Alt+Delete reboots the machine. -/
def keyboard_interrupt (s : InputSys) (b₁ b₂ : UInt8) : Option (Except Fault InputSys) :=
  match Kbd.keyboard_interrupt s.kbd (input_full s.buffer) b₁ b₂ with
  | (kbd, .noKey) => some (.ok { s with kbd })
  | (kbd, .key c) => some ({ s with kbd }.putKey c)
  | (_, .reboot) => none

/-- The receive loop of `serial_interrupt ()`, `while (!input_full () && (inb (LSR_REG) & LSR_DR)
!= 0) input_putc (inb (RBR_REG));`, over the bytes `rx` the UART has received. -/
def serial_interrupt (s : InputSys) : List UInt8 → Except Fault InputSys
  | [] => .ok s
  | b :: rx =>
    if !input_full s.buffer then do
      let s ← s.putKey b
      s.serial_interrupt rx
    else .ok s

/-- The state after an action; `none` when the machine reboots. -/
def exec (s : InputSys) : InputAction → Option (Except Fault InputSys)
  | .keyboard b₁ b₂ => s.keyboard_interrupt b₁ b₂
  | .serial rx => some (s.serial_interrupt rx)
  | .getc t => some do
    let buffer ← input_getc s.buffer t
    pure { s with buffer }
  | .run t => some do
    let buffer ← s.buffer.step (.run t)
    pure { s with buffer }

/-- An action that neither reboots nor stops the kernel, and its result. -/
def step (s : InputSys) (a : InputAction) (s' : InputSys) : Prop := s.exec a = some (.ok s')

/-- The states of every run from `input_init`, over whatever the buffer's memory held. -/
def Reachable (s : InputSys) : Prop := Lts.Reachable (fun s => ∃ buf, s = init buf) step s

end InputSys

/-! ## The invariant -/

/-- What holds between the steps of every run. -/
structure InputInv (s : InputSys) : Prop where
  buffer : IntqInv s.buffer
  readers : s.buffer.Readers
  /-- the keys handed over are the bytes the buffer was given -/
  keys : s.keys = s.buffer.put

namespace InputInv

variable {s s' : InputSys}

theorem init (buf : ℕ → UInt8) : InputInv (InputSys.init buf) :=
  ⟨IntqInv.init buf, fun _ _ h => (by simp [InputSys.init, IntqSys.init, Phase.call] at h), rfl⟩

theorem with_kbd (h : InputInv s) (kbd : Kbd.State) : InputInv { s with kbd } :=
  ⟨h.buffer, h.readers, h.keys⟩

theorem putKey (h : InputInv s) {key : UInt8} (hs : s.putKey key = .ok s') : InputInv s' := by
  obtain ⟨buffer, hb, hs'⟩ := Except.bind_eq_ok.mp hs
  cases hs'
  unfold input_putc at hb
  split_ifs at hb
  obtain ⟨hr, hput⟩ := h.readers.step_putc hb
  exact ⟨h.buffer.step hb, hr, by rw [hput, h.keys]⟩

/-- A handler's `input_putc` on a buffer that is not full returns. -/
theorem putKey_ok (h : InputInv s) (hnf : input_full s.buffer = false) (key : UInt8) :
    ∃ s', s.putKey key = .ok s' := by
  obtain ⟨buffer, hb⟩ := h.buffer.putc_ok hnf key
  refine ⟨{ s with buffer, keys := s.keys ++ [key] }, ?_⟩
  rw [InputSys.putKey, Except.bind_eq_ok]
  refine ⟨buffer, ?_, rfl⟩
  rw [input_putc, if_neg (by simpa [input_full] using hnf), hb]

/-- The receive loop of the serial handler keeps the invariant and returns. -/
theorem serial_interrupt : ∀ (rx : List UInt8) {s : InputSys}, InputInv s →
    ∃ s', s.serial_interrupt rx = .ok s' ∧ InputInv s'
  | [], s, h => ⟨s, rfl, h⟩
  | b :: rx, s, h => by
    by_cases hf : input_full s.buffer
    · exact ⟨s, by simp [InputSys.serial_interrupt, hf], h⟩
    · obtain ⟨s₁, h₁⟩ := h.putKey_ok (by simpa using hf) b
      obtain ⟨s₂, h₂, hinv₂⟩ := serial_interrupt rx (h.putKey h₁)
      refine ⟨s₂, ?_, hinv₂⟩
      simp only [InputSys.serial_interrupt, hf, Bool.not_false, if_true]
      rw [Except.bind_eq_ok]
      exact ⟨s₁, h₁, h₂⟩

/-- A keyboard interrupt that does not reboot keeps the invariant and returns. -/
theorem keyboard_interrupt (h : InputInv s) (b₁ b₂ : UInt8) :
    ∀ r, s.keyboard_interrupt b₁ b₂ = some r → ∃ s', r = .ok s' ∧ InputInv s' := by
  intro r hr
  unfold InputSys.keyboard_interrupt at hr
  cases hk : Kbd.keyboard_interrupt s.kbd (input_full s.buffer) b₁ b₂ with
  | mk kbd out =>
    rw [hk] at hr
    cases out with
    | noKey =>
      cases hr
      exact ⟨_, rfl, h.with_kbd kbd⟩
    | key c =>
      cases hr
      obtain ⟨_, _, _, hnf, _⟩ := Kbd.keyboard_interrupt_key hk
      obtain ⟨s₁, h₁⟩ := (h.with_kbd kbd).putKey_ok hnf c
      exact ⟨s₁, h₁, (h.with_kbd kbd).putKey h₁⟩
    | reboot => cases hr

/-- Every action that returns keeps the invariant. -/
theorem step (h : InputInv s) {a : InputAction} (hs : InputSys.step s a s') : InputInv s' := by
  cases a with
  | keyboard b₁ b₂ =>
    obtain ⟨_, heq, hinv⟩ := h.keyboard_interrupt b₁ b₂ _ hs
    cases heq
    exact hinv
  | serial rx =>
    obtain ⟨s₁, h₁, hinv⟩ := h.serial_interrupt rx
    have : InputSys.exec s (.serial rx) = some (.ok s₁) := by rw [InputSys.exec, h₁]
    rw [InputSys.step, this] at hs
    cases hs
    exact hinv
  | getc t =>
    obtain ⟨buffer, hb, hs'⟩ := Except.bind_eq_ok.mp (Option.some.inj hs)
    cases hs'
    obtain ⟨hr, hput⟩ := h.readers.step_getc hb
    exact ⟨h.buffer.step hb, hr, by rw [hput, h.keys]⟩
  | run t =>
    obtain ⟨buffer, hb, hs'⟩ := Except.bind_eq_ok.mp (Option.some.inj hs)
    cases hs'
    obtain ⟨hr, hput⟩ := h.readers.step_run hb
    exact ⟨h.buffer.step hb, hr, by rw [hput, h.keys]⟩

end InputInv

theorem InputSys.Reachable.inv {s : InputSys} (h : s.Reachable) : InputInv s :=
  Lts.Reachable.invariant (fun ⟨buf, hs⟩ => hs ▸ InputInv.init buf) (fun hs h => h.step hs) h

/-! ## What the readers get, and that the handlers return -/

/-- In every reachable state the bytes that `input_getc` returned, followed by those in the
buffer, are the keys the keyboard and the serial port handed to `input_putc`, in order. -/
theorem input_keys_fifo {s : InputSys} (h : s.Reachable) :
    s.keys = s.buffer.got ++ contents s.buffer.q := by
  rw [h.inv.keys]
  exact h.inv.buffer.fifo

/-- A reader waits, the serial port delivers two bytes, and the reader, run on, gets the first:
the second is still in the buffer. -/
theorem reader_gets_first_serial_byte :
    ∃ s, InputSys.Reachable s ∧ s.buffer.got = [104] ∧ contents s.buffer.q = [105] ∧
      s.keys = s.buffer.got ++ contents s.buffer.q :=
  have hrun : Lts.Run InputSys.step (InputSys.init fun _ => 0)
      [.getc 1, .serial [104, 105], .run 1] _ :=
    .cons rfl (.cons rfl (.cons rfl (.nil _)))
  have hreach : InputSys.Reachable _ := Lts.Reachable.of_run ⟨fun _ => 0, rfl⟩ hrun
  ⟨_, hreach, rfl, rfl, input_keys_fifo hreach⟩

/-- In every reachable state a keyboard interrupt either reboots or returns, and a serial
interrupt returns, whatever the bytes they read: neither stops the kernel. -/
theorem input_interrupts_never_fault {s : InputSys} (h : s.Reachable) :
    (∀ b₁ b₂ e, s.keyboard_interrupt b₁ b₂ ≠ some (.error e)) ∧
      ∀ rx e, s.serial_interrupt rx ≠ .error e := by
  constructor
  · intro b₁ b₂ e he
    obtain ⟨_, heq, _⟩ := h.inv.keyboard_interrupt b₁ b₂ _ he
    cases heq
  · intro rx e he
    obtain ⟨_, hok, _⟩ := h.inv.serial_interrupt rx
    rw [hok] at he
    cases he

/-- With a reader blocked in `wait` on the empty buffer, no keyboard or serial interrupt stops
the kernel. -/
theorem waiting_reader_interrupts_return :
    ∃ s, InputSys.Reachable s ∧ s.buffer.phase 1 = .condBlocked .getc ∧
      (∀ b₁ b₂ e, s.keyboard_interrupt b₁ b₂ ≠ some (.error e)) ∧
      ∀ rx e, s.serial_interrupt rx ≠ .error e :=
  have hrun : Lts.Run InputSys.step (InputSys.init fun _ => 0) [.getc 1] _ := .cons rfl (.nil _)
  have hreach : InputSys.Reachable _ := Lts.Reachable.of_run ⟨fun _ => 0, rfl⟩ hrun
  ⟨_, hreach, rfl, input_interrupts_never_fault hreach⟩

end Pintos
