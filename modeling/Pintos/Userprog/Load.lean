import Pintos.Lib.EState
import Pintos.Threads.Kernel

/-!
# What `load` acquires and releases (`userprog/process.c`)

The paths of `start_process` and `load` through their calls, with what each call returns as an
input (`LoadOutcomes`), and the three resources they acquire as the state: whether the
`fn_copy` block is live, whether the current thread holds `file_lock`, and how many page
directories `pagedir_create` has given the process. `free` of a block that is not live is a
double free, memory the code no longer owns; `lock_release` of a lock the thread does not hold
fails its `ASSERT`. So a path that returns normally released what it held once and only once.

`load_outcome` runs every path: when `pagedir_create` fails, `load` frees `fn_copy` and jumps to
`done`, whose `release_file_lock` finds the lock not held; when `filesys_open` or the header
check fails, it frees `fn_copy` and `done` frees it again. On the other paths each resource is
released once, but `start_process` has already given the process a directory, so a process that
reaches `filesys_open` has two (`start_process_pagedirs`).
-/

namespace Pintos

/-- What happens to one program header in `load`'s loop. -/
inductive PhdrOutcome
  /-- `file_ofs < 0 || file_ofs > file_length (file)` -/
  | bad_offset
  /-- `file_read` of the header comes back short -/
  | short_read
  /-- `PT_NULL`, `PT_NOTE`, `PT_PHDR`, `PT_STACK` or an unknown type: ignored -/
  | ignored
  /-- `PT_DYNAMIC`, `PT_INTERP` or `PT_SHLIB` -/
  | refused
  /-- `PT_LOAD` that `validate_segment` rejects -/
  | invalid
  /-- `PT_LOAD` whose `load_segment` fails -/
  | segment_failed
  /-- `PT_LOAD` loaded -/
  | loaded
  deriving DecidableEq, Repr

/-- What the calls of `load` return. -/
structure LoadOutcomes where
  /-- `malloc (strlen (file_name) + 1)` for `fn_copy` -/
  fn_copy : Bool
  /-- `strtok_r` finds an executable name -/
  token : Bool
  /-- `pagedir_create ()` -/
  pagedir : Bool
  /-- `filesys_open (exec_name)` -/
  opened : Bool
  /-- the header read and its checks -/
  header : Bool
  /-- the program headers, `e_phnum` of them -/
  phdrs : List PhdrOutcome
  /-- `setup_stack (esp)` -/
  stack : Bool
  deriving DecidableEq, Repr

/-- What `start_process` calls before `load`. -/
structure StartOutcomes where
  /-- `malloc` of the supplemental page table -/
  spt : Bool
  /-- `pagedir_create ()` -/
  pagedir : Bool
  load : LoadOutcomes
  deriving DecidableEq, Repr

/-- The resources: `fn_copy` live, `file_lock` held by the current thread, and the page
directories created for the process. -/
structure LoadRes where
  fn_copy : Bool
  file_lock : Bool
  pagedirs : Nat
  deriving DecidableEq, Repr

abbrev LoadM := EStateM Fault LoadRes

/-- `free (fn_copy)`. -/
def freeFnCopy : LoadM Unit := do
  if (← get).fn_copy then modify fun r => { r with fn_copy := false }
  else throw .undefined

/-- `acquire_file_lock ()`. -/
def acquire_file_lock : LoadM Unit := modify fun r => { r with file_lock := true }

/-- `release_file_lock ()`: `lock_release` asserts that the current thread holds the lock. -/
def release_file_lock : LoadM Unit := do
  if (← get).file_lock then modify fun r => { r with file_lock := false }
  else throw .panic

/-- `pagedir_create ()`, returning `ok`. -/
def pagedirCreate (ok : Bool) : LoadM Bool := do
  if ok then modify fun r => { r with pagedirs := r.pagedirs + 1 }
  return ok

/-- The program-header loop: `true` when every header is ignored or loaded, `false` at the
first `goto done`. -/
def phdrLoop : List PhdrOutcome → Bool
  | [] => true
  | p :: rest =>
    match p with
    | .ignored | .loaded => phdrLoop rest
    | _ => false

/-- The part of `load` from `pagedir_create` to `goto done`: its `success`. -/
def loadBody (o : LoadOutcomes) : LoadM Bool := do
  if !(← pagedirCreate o.pagedir) then
    freeFnCopy
    return false
  acquire_file_lock
  if !o.opened then
    freeFnCopy
    return false
  if !o.header then
    freeFnCopy
    return false
  if !phdrLoop o.phdrs then return false
  if !o.stack then return false
  -- `push_argument` and the entry point cannot fail
  return true

/-- `load (file_name, eip, esp)`. -/
def load (o : LoadOutcomes) : LoadM Bool := do
  if !o.fn_copy then return false
  modify fun r => { r with fn_copy := true }
  if !o.token then
    freeFnCopy
    return false
  let success ← loadBody o
  -- `done:`
  release_file_lock
  freeFnCopy
  return success

/-- `start_process`: the supplemental table, the directory, then `load`. -/
def start_process (o : StartOutcomes) : LoadM Bool := do
  if !o.spt then return false
  if !(← pagedirCreate o.pagedir) then return false
  load o.load

/-- A thread before `start_process`: no block, no lock, no directory. -/
def LoadRes.init : LoadRes := ⟨false, false, 0⟩

/-! ## The resources on each path -/

section Steps

variable (r : LoadRes)

theorem pagedirCreate_run (ok : Bool) :
    pagedirCreate ok r = .ok ok (if ok then { r with pagedirs := r.pagedirs + 1 } else r) := by
  cases ok <;> rfl

end Steps

/-- The body of `load` from a state with a live `fn_copy`. -/
theorem loadBody_run (o : LoadOutcomes) {r : LoadRes} (hfn : r.fn_copy = true) :
    loadBody o r =
      if o.pagedir = false then .ok false { r with fn_copy := false }
      else if o.opened = false ∨ o.header = false then
        .ok false { r with pagedirs := r.pagedirs + 1, file_lock := true, fn_copy := false }
      else .ok (phdrLoop o.phdrs && o.stack) { r with pagedirs := r.pagedirs + 1, file_lock := true } := by
  unfold loadBody
  rw [EStateM.bind_ok (pagedirCreate_run r o.pagedir)]
  cases hpd : o.pagedir
  · -- `pagedir_create` failed: `fn_copy` is freed before `goto done`
    simp [freeFnCopy, hfn, Functor.map, EStateM.map]
  · cases ho : o.opened <;> cases hh : o.header <;>
      simp [acquire_file_lock, freeFnCopy, hfn, Functor.map, EStateM.map]
    -- every check passed: `success` is what the header loop and `setup_stack` return
    cases phdrLoop o.phdrs <;> cases o.stack <;> rfl

/-- Every path of `load` from a thread that holds neither `fn_copy` nor the lock. -/
theorem load_outcome (o : LoadOutcomes) {r : LoadRes} (hfn : r.fn_copy = false)
    (hl : r.file_lock = false) :
    load o r =
      if o.fn_copy = false ∨ o.token = false then .ok false r
      else if o.pagedir = false then .error .panic r
      else if o.opened = false ∨ o.header = false then
        .error .undefined { r with pagedirs := r.pagedirs + 1 }
      else .ok (phdrLoop o.phdrs && o.stack) { r with pagedirs := r.pagedirs + 1 } := by
  obtain ⟨fn, lock, n⟩ := r
  cases hfn
  cases hl
  unfold load
  cases hc : o.fn_copy
  · simp
  cases ht : o.token
  · -- no executable name: `fn_copy` is freed and `load` returns before `done`
    simp [freeFnCopy, Functor.map, EStateM.map]
  simp only [Bool.not_true, Bool.false_eq_true, if_false, EStateM.modify_bind_apply]
  have hbody : loadBody o ⟨true, false, n⟩ = _ := loadBody_run o rfl
  cases hpd : o.pagedir
  · -- `pagedir_create` failed: `done` releases a lock the thread never took
    simp only [hpd, if_true] at hbody
    simp [EStateM.bind_ok hbody, release_file_lock]
  cases ho : o.opened <;> cases hh : o.header <;> simp only [hpd, ho, hh] at hbody <;>
    simp [EStateM.bind_ok hbody, release_file_lock, freeFnCopy, Functor.map, EStateM.map]

/-- A path of `load` that returns normally leaves the thread as it found it: `fn_copy` freed,
the lock not held, and at most one more directory. -/
theorem load_ok_releases (o : LoadOutcomes) {r r' : LoadRes} {b : Bool} (hfn : r.fn_copy = false)
    (hl : r.file_lock = false) (h : load o r = .ok b r') :
    r'.fn_copy = false ∧ r'.file_lock = false ∧ r'.pagedirs ≤ r.pagedirs + 1 := by
  rw [load_outcome o hfn hl] at h
  split_ifs at h <;> cases h <;> simp [hfn, hl]

/-- A load that gets through every call, from a thread holding nothing: `fn_copy` freed, the
lock released, and the one directory `load` creates. -/
theorem load_ok_releases_of_loaded :
    load ⟨true, true, true, true, true, [.loaded], true⟩ LoadRes.init = .ok true ⟨false, false, 1⟩ ∧
      (⟨false, false, 1⟩ : LoadRes).fn_copy = false ∧ (⟨false, false, 1⟩ : LoadRes).file_lock = false ∧
      (⟨false, false, 1⟩ : LoadRes).pagedirs ≤ LoadRes.init.pagedirs + 1 := by
  have h : load ⟨true, true, true, true, true, [.loaded], true⟩ LoadRes.init =
      .ok true ⟨false, false, 1⟩ := rfl
  exact ⟨h, load_ok_releases _ rfl rfl h⟩

/-- `start_process` creates a directory, and `load` creates another once it gets past
`strtok_r`: whatever `load` does next, the process has been given two. -/
theorem start_process_pagedirs (o : StartOutcomes) (hspt : o.spt = true) (hpd : o.pagedir = true)
    (hfn : o.load.fn_copy = true) (htok : o.load.token = true) (hpd' : o.load.pagedir = true) :
    (start_process o LoadRes.init).state.pagedirs = 2 := by
  have hload : load o.load ⟨false, false, 1⟩ = _ := load_outcome o.load rfl rfl
  unfold start_process
  simp only [hspt, Bool.not_true, Bool.false_eq_true, if_false]
  rw [hpd, EStateM.bind_ok (pagedirCreate_run LoadRes.init true)]
  simp only [if_true, Bool.not_true, Bool.false_eq_true, if_false]
  change (load o.load ⟨false, false, 1⟩).state.pagedirs = 2
  rw [hload]
  simp only [hfn, htok, hpd', Bool.true_eq_false, or_self, if_false]
  split_ifs <;> rfl

/-- From a thread before `start_process`: when `pagedir_create` fails, `load` releases a lock it
never took; when `filesys_open` or the header check fails, it frees `fn_copy` twice; and a
process whose `load` gets past `strtok_r` has been given two page directories. -/
theorem load_mishandles_release :
    (∀ o : LoadOutcomes, o.fn_copy = true → o.token = true → o.pagedir = false →
      load o LoadRes.init = .error .panic LoadRes.init) ∧
    (∀ o : LoadOutcomes, o.fn_copy = true → o.token = true → o.pagedir = true →
      (o.opened = false ∨ o.header = false) →
      load o LoadRes.init = .error .undefined ⟨false, false, 1⟩) ∧
    (∀ o : StartOutcomes, o.spt = true → o.pagedir = true → o.load.fn_copy = true →
      o.load.token = true → o.load.pagedir = true →
      (start_process o LoadRes.init).state.pagedirs = 2) := by
  refine ⟨?panic, ?double_free, ?two_dirs⟩
  case panic =>
    intro o hfn htok hpd
    rw [load_outcome o rfl rfl]
    simp [hfn, htok, hpd]
  case double_free =>
    intro o hfn htok hpd hfail
    rw [load_outcome o rfl rfl]
    simp only [hfn, htok, hpd, Bool.true_eq_false, or_self, if_false, if_pos hfail]
    rfl
  case two_dirs =>
    intro o hspt hpd hfn htok hpd'
    exact start_process_pagedirs o hspt hpd hfn htok hpd'

/-- The three paths: `pagedir_create` failing, a missing executable, and a process that loads. -/
theorem load_mishandles_release_at_missing_file :
    load ⟨true, true, false, true, true, [], true⟩ LoadRes.init = .error .panic LoadRes.init ∧
    load ⟨true, true, true, false, true, [], true⟩ LoadRes.init =
      .error .undefined ⟨false, false, 1⟩ ∧
    (start_process ⟨true, true, ⟨true, true, true, true, true, [.loaded], true⟩⟩
      LoadRes.init).state.pagedirs = 2 :=
  ⟨load_mishandles_release.1 _ rfl rfl rfl,
    load_mishandles_release.2.1 _ rfl rfl rfl (Or.inl rfl),
    load_mishandles_release.2.2 _ rfl rfl rfl rfl rfl⟩

end Pintos
