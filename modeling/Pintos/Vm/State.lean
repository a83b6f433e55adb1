import Pintos.Threads.Palloc
import Pintos.Userprog.Pagedir
import Pintos.Lib.ListCursor

/-!
# The state of the virtual-memory subsystem (`vm/page.h`, `vm/frame.h`, `vm/swap.c`)

Every structure the VM code touches, in one record `Vm`: the global `frame_table` and
`clock_hand` of `vm/frame.c`, palloc's user pool and kernel memory, the swap bitmap and swap
storage of `vm/swap.c`, the `file_page` blocks on the heap, and for every live thread its page
directory and supplemental page table (`struct thread`'s `pagedir`, `spt`, `current_esp`).

Pointers keep their meaning. A frame record lives at the heap address `Frame.addr`:
`page->frame` and `clock_hand` hold that address, and `vm_frame_free` compares its argument
with `Frame.kva`. A supplemental page is named by its thread and page address (`PageRef`), the
key of its hash table; a thread never removes a page from its table, so the name stays unique
for the page's life. A record that is freed disappears from the state, and a read through a
pointer to it is a `Fault.undefined`.

The access lemmas (`page_updPage`, `frame_updFrame`, `thread_setThread` and the field lemmas)
are the simp set every later module computes with.
-/

namespace Pintos

/-- `enum vm_type`. -/
inductive VmType
  | VM_ANON
  | VM_FILE
  | VM_STACK
  deriving DecidableEq, Repr

/-- `struct file_page`, the `aux` block of `lazy_load_segment`. -/
structure FilePage where
  file : Nat
  ofs : Nat
  read_bytes : Nat
  zero_bytes : Nat
  deriving DecidableEq, Repr

/-- The function `page->initializer` points to when it is not `NULL`: `lazy_load_segment`, or
whatever an uninitialized `malloc` block held. -/
inductive Initializer
  | lazy_load_segment
  | garbage
  deriving DecidableEq, Repr

/-- `struct suppPage`. `file` is a `struct file *`, `aux` the address of a `file_page` block;
`NULL` is `none`. -/
structure SuppPage where
  va : Nat
  type : VmType
  writable : Bool
  frame : Option Nat
  in_swap : Bool
  swap_slot : Nat
  file : Option Nat
  ofs : Nat
  read_bytes : Nat
  zero_bytes : Nat
  pinned : Bool
  initializer : Option Initializer
  aux : Option Nat
  deriving DecidableEq, Repr

/-- A `struct suppPage *`: the page at `va` in thread `tid`'s table. -/
structure PageRef where
  tid : Tid
  va : Nat
  deriving DecidableEq, Repr

/-- `struct frame`, at heap address `addr`. -/
structure Frame where
  addr : Nat
  kva : Nat
  page : Option PageRef
  owner : Tid
  pinned : Bool
  deriving DecidableEq, Repr

/-- The VM fields of a live `struct thread`. -/
structure VmThread where
  tid : Tid
  pagedir : Option Pagedir
  spt : Option (List SuppPage)
  current_esp : Nat

/-- The state of the VM subsystem. -/
structure Vm where
  frame_table : List Frame
  clock_hand : Option Nat
  user_pool : Pool
  mem : Mem
  swap_size : Nat
  swap_available : Bitmap
  using_memory_swap : Bool
  swap_memory_map : Nat → Option PageData
  swap_disk : Nat → PageData
  file_pages : Nat → Option FilePage
  files : Nat → List UInt8
  threads : List VmThread

namespace Vm

variable (s : Vm)

/-! ## Threads -/

/-- The live thread `t`. -/
def thread (t : Tid) : Option VmThread := s.threads.find? (·.tid = t)

/-- Update the live thread `t`. -/
def setThread (t : Tid) (f : VmThread → VmThread) : Vm :=
  { s with threads := s.threads.map fun th => if th.tid = t then f th else th }

/-! ## Supplemental pages -/

/-- `spt_find_page` in `r.tid`'s table at `r.va`. -/
def page (r : PageRef) : Option SuppPage :=
  (s.thread r.tid).bind fun th => th.spt.bind fun spt => spt.find? (·.va = r.va)

/-- Update the page `r` in place. -/
def updPage (r : PageRef) (f : SuppPage → SuppPage) : Vm :=
  s.setThread r.tid fun th =>
    { th with spt := th.spt.map fun spt => spt.map fun p => if p.va = r.va then f p else p }

/-! ## Frames -/

/-- The frame record at heap address `a`. -/
def frame (a : Nat) : Option Frame := s.frame_table.find? (·.addr = a)

/-- Update the frame record at `a` in place. -/
def updFrame (a : Nat) (f : Frame → Frame) : Vm :=
  { s with frame_table := s.frame_table.map fun fr => if fr.addr = a then f fr else fr }

/-- How each page is loaded, as `vm_do_claim_page` reads it: its type, its backing file and its
initializer. -/
def loaders : PageRef → Option (VmType × Option Nat × Option Initializer) :=
  fun r => (s.page r).map fun p => (p.type, p.file, p.initializer)

/-- The addresses of the frame records, in list order, and the clock hand: all that `list_next`
and the hand's validity depend on. -/
def frameKeys : List Nat × Option Nat := (s.frame_table.map (·.addr), s.clock_hand)

/-- Every page of every live thread's table satisfies `Q`. -/
def AllPages (Q : SuppPage → Prop) : Prop := ∀ th ∈ s.threads, ∀ p ∈ th.spt.getD [], Q p

end Vm

/-! ## Access lemmas -/

namespace Vm

variable {s : Vm}

theorem thread_setThread (t t' : Tid) (f : VmThread → VmThread) (hf : ∀ th, (f th).tid = th.tid) :
    (s.setThread t f).thread t' = if t' = t then (s.thread t).map f else s.thread t' := by
  unfold thread setThread
  exact List.find?_map_update f hf t t' s.threads

theorem frame_updFrame (a a' : Nat) (f : Frame → Frame) (hf : ∀ fr, (f fr).addr = fr.addr) :
    (s.updFrame a f).frame a' = if a' = a then (s.frame a).map f else s.frame a' := by
  unfold frame updFrame
  exact List.find?_map_update f hf a a' s.frame_table

theorem page_updPage (r r' : PageRef) (f : SuppPage → SuppPage) (hf : ∀ p, (f p).va = p.va) :
    (s.updPage r f).page r' = if r' = r then (s.page r).map f else s.page r' := by
  unfold page updPage
  rw [thread_setThread]
  swap
  · intro th; rfl
  by_cases ht : r'.tid = r.tid
  · simp only [ht, if_true]
    cases hth : s.thread r.tid with
    | none => simp
    | some th =>
      cases hspt : th.spt with
      | none => simp [hspt]
      | some spt =>
        simp only [Option.map_some, Option.bind_some, hspt, Option.map_some]
        rw [List.find?_map_update f hf r.va r'.va spt]
        by_cases hv : r'.va = r.va
        · have hr : r' = r := by cases r; cases r'; simp_all
          subst hr
          simp
        · have hr : r' ≠ r := fun h => hv (h ▸ rfl)
          simp [hv, hr]
  · have hr : r' ≠ r := fun h => ht (h ▸ rfl)
    simp [ht, hr]

theorem thread_pagedir_updPage (r : PageRef) (f : SuppPage → SuppPage) (t : Tid) :
    ((s.updPage r f).thread t).bind (·.pagedir) = (s.thread t).bind (·.pagedir) := by
  unfold updPage
  rw [thread_setThread]
  · split
    · rename_i h
      subst h
      cases s.thread r.tid <;> rfl
    · rfl
  · intro th
    rfl

@[simp] theorem updPage_frame_table (r : PageRef) (f : SuppPage → SuppPage) :
    (s.updPage r f).frame_table = s.frame_table := rfl

@[simp] theorem updPage_clock_hand (r : PageRef) (f : SuppPage → SuppPage) :
    (s.updPage r f).clock_hand = s.clock_hand := rfl

@[simp] theorem updPage_user_pool (r : PageRef) (f : SuppPage → SuppPage) :
    (s.updPage r f).user_pool = s.user_pool := rfl

@[simp] theorem updPage_swap_available (r : PageRef) (f : SuppPage → SuppPage) :
    (s.updPage r f).swap_available = s.swap_available := rfl

@[simp] theorem updFrame_page (a : Nat) (f : Frame → Frame) (r : PageRef) :
    (s.updFrame a f).page r = s.page r := rfl

@[simp] theorem updFrame_threads (a : Nat) (f : Frame → Frame) :
    (s.updFrame a f).threads = s.threads := rfl

@[simp] theorem updFrame_clock_hand (a : Nat) (f : Frame → Frame) :
    (s.updFrame a f).clock_hand = s.clock_hand := rfl

@[simp] theorem updFrame_user_pool (a : Nat) (f : Frame → Frame) :
    (s.updFrame a f).user_pool = s.user_pool := rfl

@[simp] theorem updFrame_swap_available (a : Nat) (f : Frame → Frame) :
    (s.updFrame a f).swap_available = s.swap_available := rfl

@[simp] theorem setThread_frame_table (t : Tid) (f : VmThread → VmThread) :
    (s.setThread t f).frame_table = s.frame_table := rfl

@[simp] theorem setThread_clock_hand (t : Tid) (f : VmThread → VmThread) :
    (s.setThread t f).clock_hand = s.clock_hand := rfl

@[simp] theorem setThread_user_pool (t : Tid) (f : VmThread → VmThread) :
    (s.setThread t f).user_pool = s.user_pool := rfl

@[simp] theorem setThread_swap_available (t : Tid) (f : VmThread → VmThread) :
    (s.setThread t f).swap_available = s.swap_available := rfl

@[simp] theorem updPage_frameKeys (r : PageRef) (f : SuppPage → SuppPage) :
    (s.updPage r f).frameKeys = s.frameKeys := rfl

@[simp] theorem setThread_frameKeys (t : Tid) (f : VmThread → VmThread) :
    (s.setThread t f).frameKeys = s.frameKeys := rfl

/-- Updating a page in place keeps every page's loader if the update does. -/
theorem updPage_loaders (r : PageRef) (f : SuppPage → SuppPage) (hva : ∀ p, (f p).va = p.va)
    (hf : ∀ p, ((f p).type, (f p).file, (f p).initializer) = (p.type, p.file, p.initializer)) :
    (s.updPage r f).loaders = s.loaders := by
  funext r'
  unfold loaders
  rw [page_updPage r r' f hva]
  split
  · rename_i h
    subst h
    cases s.page r' <;> simp [hf]
  · rfl

theorem loaders_eq_some {r : PageRef} {x : VmType × Option Nat × Option Initializer} :
    s.loaders r = some x ↔ ∃ p, s.page r = some p ∧ (p.type, p.file, p.initializer) = x := by
  simp [loaders]

theorem loaders_of_threads {s' : Vm} (h : s'.threads = s.threads) : s'.loaders = s.loaders := by
  unfold loaders page thread
  rw [h]

theorem thread_of_threads {s' : Vm} (h : s'.threads = s.threads) : s'.thread = s.thread := by
  funext t
  unfold thread
  rw [h]

theorem page_of_threads {s' : Vm} (h : s'.threads = s.threads) : s'.page = s.page := by
  funext r
  unfold page
  rw [thread_of_threads h]

@[simp] theorem updFrame_loaders (a : Nat) (f : Frame → Frame) :
    (s.updFrame a f).loaders = s.loaders := rfl

theorem updFrame_frameKeys (a : Nat) (f : Frame → Frame) (hf : ∀ fr, (f fr).addr = fr.addr) :
    (s.updFrame a f).frameKeys = s.frameKeys := by
  simp only [frameKeys, updFrame, List.map_map, Prod.mk.injEq, and_true]
  apply List.map_congr_left
  intro fr _
  by_cases h : fr.addr = a <;> simp [h, hf]

/-! ## A property of every page -/

section AllPages

variable {Q : SuppPage → Prop}

theorem AllPages.page (h : s.AllPages Q) {r : PageRef} {p : SuppPage} (hp : s.page r = some p) :
    Q p := by
  unfold Vm.page at hp
  obtain ⟨th, hth, hp⟩ := Option.bind_eq_some_iff.mp hp
  obtain ⟨spt, hspt, hp⟩ := Option.bind_eq_some_iff.mp hp
  apply h th (List.mem_of_find?_eq_some hth)
  rw [hspt]
  exact List.mem_of_find?_eq_some hp

theorem AllPages.of_threads {s' : Vm} (h : s.AllPages Q) (ht : s'.threads = s.threads) :
    s'.AllPages Q := by
  unfold AllPages
  rw [ht]
  exact h

theorem AllPages.setThread (h : s.AllPages Q) (t : Tid) {f : VmThread → VmThread}
    (hf : ∀ th, (∀ p ∈ th.spt.getD [], Q p) → ∀ p ∈ (f th).spt.getD [], Q p) :
    (s.setThread t f).AllPages Q := by
  intro th' hth'
  obtain ⟨th, hth, rfl⟩ := List.mem_map.mp hth'
  split
  · exact hf th (h th hth)
  · exact h th hth

theorem AllPages.updPage (h : s.AllPages Q) (r : PageRef) {f : SuppPage → SuppPage}
    (hf : ∀ p, Q p → Q (f p)) : (s.updPage r f).AllPages Q := by
  apply h.setThread
  intro th hth p hp
  cases hspt : th.spt with
  | none => simp [hspt] at hp
  | some spt =>
    simp only [hspt, Option.map_some, Option.getD_some, List.mem_map] at hp hth
    obtain ⟨q, hq, rfl⟩ := hp
    split
    · exact hf q (hth q hq)
    · exact hth q hq

end AllPages

end Vm

end Pintos
