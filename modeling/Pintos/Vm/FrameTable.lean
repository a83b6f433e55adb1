import Pintos.Vm.State
import Pintos.Lib.ListCursor

/-!
# Frame-table searches by kernel address (`vm/frame.c`)

`vm_frame_init`, and the three operations that look a frame up by its `kva` with the loop
`for (e = list_begin (&frame_table); ...) if (f->kva == kva) { ...; break; }`: `vm_frame_pin`,
`vm_frame_unpin` and `vm_frame_free`. Each acts on the first frame whose `kva` matches, so
they are `List.updateFirst` and `List.eraseP` on the table. `select_victim`, `evict_frame` and
`vm_frame_allocate` follow in `Pintos.Vm.Frame`, after the swap code they call.
-/

namespace Pintos

open Vm

/-- `vm_frame_init`: an empty table with the hand at `list_end`. -/
def vm_frame_init (s : Vm) : Vm := { s with frame_table := [], clock_hand := none }

/-- The search loop shared by `vm_frame_pin` and `vm_frame_unpin`. -/
def setPinned (s : Vm) (kva : Nat) (pinned : Bool) : Vm :=
  if kva = 0 then s
  else { s with frame_table := s.frame_table.updateFirst (·.kva = kva) fun fr => { fr with pinned } }

/-- `vm_frame_pin (kva)`. -/
def vm_frame_pin (s : Vm) (kva : Nat) : Vm := setPinned s kva true

/-- `vm_frame_unpin (kva)`. -/
def vm_frame_unpin (s : Vm) (kva : Nat) : Vm := setPinned s kva false

/-- Give a page back to the user pool. -/
def freeUserPage (s : Vm) (kva : Nat) : Vm × Except Fault Unit :=
  match palloc_free_page s.user_pool s.mem kva with
  | .ok (pool, mem) => ({ s with user_pool := pool, mem := mem }, .ok ())
  | .error e => (s, .error e)

theorem freeUserPage_threads (s : Vm) (kva : Nat) : (freeUserPage s kva).1.threads = s.threads := by
  unfold freeUserPage
  split <;> rfl

/-- `vm_frame_free (kva)`: take the first frame with this `kva` out of the table, then free its
page and the record. -/
def vm_frame_free (s : Vm) (kva : Nat) : Vm × Except Fault Unit :=
  if kva = 0 then (s, .ok ())
  else
    match s.frame_table.find? (·.kva = kva) with
    | none => (s, .ok ())
    | some fr => freeUserPage { s with frame_table := s.frame_table.eraseP (·.kva = kva) } fr.kva

/-! ## Field lemmas -/

section

variable (s : Vm) (kva : Nat) (pinned : Bool)

@[simp] theorem setPinned_threads : (setPinned s kva pinned).threads = s.threads := by
  unfold setPinned; split <;> rfl

@[simp] theorem setPinned_clock_hand : (setPinned s kva pinned).clock_hand = s.clock_hand := by
  unfold setPinned; split <;> rfl

@[simp] theorem setPinned_user_pool : (setPinned s kva pinned).user_pool = s.user_pool := by
  unfold setPinned; split <;> rfl

@[simp] theorem setPinned_mem : (setPinned s kva pinned).mem = s.mem := by
  unfold setPinned; split <;> rfl

@[simp] theorem setPinned_swap_available :
    (setPinned s kva pinned).swap_available = s.swap_available := by
  unfold setPinned; split <;> rfl

@[simp] theorem setPinned_page (r : PageRef) : (setPinned s kva pinned).page r = s.page r := by
  unfold setPinned; split <;> rfl

theorem setPinned_frame_table_addr :
    (setPinned s kva pinned).frame_table.map (·.addr) = s.frame_table.map (·.addr) := by
  unfold setPinned
  split
  · rfl
  · exact @List.map_updateFirst_of_key _ _ Frame.addr _ (fun fr => { fr with pinned })
      (fun _ => rfl) _

@[simp] theorem setPinned_loaders : (setPinned s kva pinned).loaders = s.loaders := by
  funext r
  simp [Vm.loaders]

@[simp] theorem setPinned_frameKeys : (setPinned s kva pinned).frameKeys = s.frameKeys := by
  simp only [Vm.frameKeys, setPinned_frame_table_addr, setPinned_clock_hand]

end

/-- What `freeUserPage` changes: only the pool and memory. -/
theorem freeUserPage_spec {s s' : Vm} {kva : Nat} (h : freeUserPage s kva = (s', .ok ())) :
    ∃ pool mem, palloc_free_page s.user_pool s.mem kva = .ok (pool, mem) ∧
      s' = { s with user_pool := pool, mem := mem } := by
  unfold freeUserPage at h
  split at h
  · rename_i pool mem hfree
    cases h
    exact ⟨pool, mem, hfree, rfl⟩
  · cases h

/-- `vm_frame_free` removes exactly the first frame with the given `kva`, if any. -/
theorem vm_frame_free_frame_table {s s' : Vm} {kva : Nat} {r : Except Fault Unit}
    (h : vm_frame_free s kva = (s', r)) :
    s'.frame_table = if kva = 0 then s.frame_table else s.frame_table.eraseP (·.kva = kva) := by
  unfold vm_frame_free at h
  split at h
  · rename_i hk
    cases h
    simp [hk]
  · rename_i hk
    rw [if_neg hk]
    split at h
    · rename_i hnone
      cases h
      rw [List.eraseP_of_forall_not]
      simpa using List.find?_eq_none.mp hnone
    · unfold freeUserPage at h
      split at h <;> cases h <;> rfl

/-- `vm_frame_free` of an address that is no frame's `kva` does nothing. -/
theorem vm_frame_free_of_no_kva {s : Vm} {kva : Nat} (h : ∀ fr ∈ s.frame_table, fr.kva ≠ kva) :
    vm_frame_free s kva = (s, .ok ()) := by
  unfold vm_frame_free
  split
  · rfl
  · rw [List.find?_eq_none.mpr (by simpa using h)]

theorem vm_frame_free_clock_hand {s s' : Vm} {kva : Nat} {r : Except Fault Unit}
    (h : vm_frame_free s kva = (s', r)) : s'.clock_hand = s.clock_hand := by
  unfold vm_frame_free freeUserPage at h
  repeat' split at h
  all_goals cases h; rfl

end Pintos
