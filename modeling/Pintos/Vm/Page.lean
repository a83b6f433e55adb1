import Pintos.Vm.Frame

/-!
# Supplemental pages: registration, loading and teardown (`vm/page.c`, `process_exit`)

`vm_alloc_page` and `vm_alloc_page_with_initializer` register a page in the current thread's
table; they differ in which fields of the fresh `malloc` block they write. `vm_alloc_page`
leaves `initializer`, `aux`, `file`, `ofs`, `read_bytes` and `zero_bytes` as the block held
them, so `malloc`'s result is a whole `SuppPage` value (`none` for `NULL`), of which the
function overwrites its fields.

`vm_do_claim_page` is cut at the points where it releases `frame_lock` or calls out:
`claimLink` links the new frame and pins it, `claimLoad` fills it (the initializer, `swap_in`,
or a file read), `claimFail` is the cleanup every failure runs, and `claimInstall` maps the
page. The concurrent model reuses these pieces.

At exit, `page_destroy` passes `page->frame`, the address of the frame record, to
`vm_frame_free`, which looks the frame up by `kva`; `pagedir_destroy` then frees every present
page of the directory. `file_read_at` through a `NULL` file reads `file->inode` at address 0,
a kernel access to an unmapped user address that kills the process.
-/

namespace Pintos

open Vm Bitmap

/-- `file_read_at (file, buffer, size, file_ofs)`: copy what the file holds from `file_ofs`,
at most `size` bytes, and return how many. -/
def file_read_at (s : Vm) (file : Option Nat) (buffer size ofs : Nat) : Vm × Except Fault Nat :=
  match file with
  | none => (s, .error .killed)
  | some f =>
    let bytes := ((s.files f).drop ofs).take size
    ({ s with mem := writeBytes s.mem buffer bytes }, .ok bytes.length)

/-! ## Registration -/

/-- Add `page` to thread `t`'s table. -/
def sptInsert (s : Vm) (t : Tid) (page : SuppPage) : Vm :=
  s.setThread t fun th => { th with spt := th.spt.map (page :: ·) }

/-- The body shared by `vm_alloc_page` and `vm_alloc_page_with_initializer`: if thread `t` has
no page at `upage`, store `page` (what was written into the `malloc` block, `none` when
`malloc` failed) in its table. -/
def allocPage (s : Vm) (t : Tid) (upage : Nat) (page : Option SuppPage) : Vm × Except Fault Bool :=
  match (s.thread t).bind (·.spt) with
  -- `hash_find` through a `NULL` table
  | none => (s, .error .killed)
  | some spt =>
    if (spt.find? (·.va = upage)).isSome then (s, .ok false)
    else
      match page with
      | none => (s, .ok false)
      | some page => (sptInsert s t page, .ok true)

/-- A `malloc` block of zero bytes read as a page record: every pointer `NULL`. -/
def SuppPage.zero : SuppPage := ⟨0, .VM_ANON, false, none, false, 0, none, 0, 0, 0, false, none, none⟩

/-- `vm_alloc_page (type, upage, writable)` by thread `t`; `block` is the `malloc` result. -/
def vm_alloc_page (s : Vm) (t : Tid) (type : VmType) (upage : Nat) (writable : Bool)
    (block : Option SuppPage) : Vm × Except Fault Bool :=
  let upage := pg_round_down upage
  allocPage s t upage <| block.map fun old =>
    { old with va := upage, writable, frame := none, type, pinned := false, in_swap := false,
               swap_slot := SIZE_MAX }

/-- `vm_alloc_page_with_initializer (type, upage, writable, init, aux)` by thread `t`; `block`
says whether `malloc` succeeded. -/
def vm_alloc_page_with_initializer (s : Vm) (t : Tid) (type : VmType) (upage : Nat)
    (writable : Bool) (init : Option Initializer) (aux : Option Nat) (block : Bool) :
    Vm × Except Fault Bool :=
  let upage := pg_round_down upage
  allocPage s t upage <| if block then
    some ⟨upage, type, writable, none, false, SIZE_MAX, none, 0, 0, 0, false, init, aux⟩
  else none

/-- `vm_supt_install_filesys (spt, upage, file, offset, read_bytes, zero_bytes, writable)` by
thread `t`; `aux` is the address `malloc` gave the `file_page` block, and `block` the result of
the page record's `malloc`. -/
def vm_supt_install_filesys (s : Vm) (t : Tid) (upage file offset read_bytes zero_bytes : Nat)
    (writable : Bool) (aux : Option Nat) (block : Bool) : Vm × Except Fault Bool :=
  match aux with
  | none => (s, .ok false)
  | some a =>
    let s := { s with
      file_pages := Function.update s.file_pages a (some ⟨file, offset, read_bytes, zero_bytes⟩) }
    vm_alloc_page_with_initializer s t .VM_FILE upage writable (some .lazy_load_segment)
      (some a) block

/-! ## Loading -/

/-- `lazy_load_segment (page, aux)` for the page `r`. -/
def lazy_load_segment (s : Vm) (r : PageRef) (aux : Option Nat) : Vm × Except Fault Bool :=
  match aux with
  | none => (s, .error .killed)
  | some a =>
    match s.file_pages a, s.page r with
    | some fpage, some page =>
      match page.frame.bind s.frame with
      | none => if page.frame.isNone then (s, .ok false) else (s, .error .undefined)
      | some fr =>
        if fr.kva = 0 then (s, .ok false)
        else
          match file_read_at s (some fpage.file) fr.kva fpage.read_bytes fpage.ofs with
          | (s, .error e) => (s, .error e)
          | (s, .ok n) =>
            -- `free (fpage)` on both paths; `page->aux` still points to it
            let s := { s with file_pages := Function.update s.file_pages a none }
            if n ≠ fpage.read_bytes then (s, .ok false)
            else ({ s with mem := memset s.mem (fr.kva + fpage.read_bytes) 0 fpage.zero_bytes },
              .ok true)
    | _, _ => (s, .error .undefined)

/-- `page->frame = frame; frame->page = page; frame->owner = thread_current ();
vm_frame_pin (kva); page->pinned = true;` -/
def claimLink (s : Vm) (r : PageRef) (fr : Frame) (cur : Tid) : Vm :=
  let s := (s.updPage r fun p => { p with frame := some fr.addr }).updFrame fr.addr
    fun f => { f with page := some r, owner := cur }
  (vm_frame_pin s fr.kva).updPage r fun p => { p with pinned := true }

/-- The loading part of `vm_do_claim_page` for the page `r` in the frame at `kva`: the page's
initializer if it has one, else by type. -/
def claimLoad (s : Vm) (r : PageRef) (kva : Nat) : Vm × Except Fault Bool :=
  match s.page r with
  | none => (s, .error .undefined)
  | some page =>
    match page.initializer with
    | some .lazy_load_segment =>
      match lazy_load_segment s r page.aux with
      | (s, .ok true) => (s.updPage r fun p => { p with initializer := none, aux := none }, .ok true)
      | res => res
    -- a call through the stale function pointer of a `vm_alloc_page` block
    | some .garbage => (s, .error .undefined)
    | none =>
      match page.type with
      | .VM_ANON | .VM_STACK =>
        if page.in_swap then
          match swap_in s r kva with
          | (s, .ok true) => (s.updPage r fun p => { p with in_swap := false }, .ok true)
          | res => res
        else (s, .ok true)
      | .VM_FILE =>
        match file_read_at s page.file kva page.read_bytes page.ofs with
        | (s, .error e) => (s, .error e)
        | (s, .ok n) =>
          if n ≠ page.read_bytes then (s, .ok false)
          else ({ s with mem := memset s.mem (kva + page.read_bytes) 0 page.zero_bytes }, .ok true)

/-- The cleanup of every failure after linking: `vm_frame_unpin (kva); page->pinned = false;
vm_frame_free (kva); page->frame = NULL; return false;` -/
def claimFail (s : Vm) (r : PageRef) (kva : Nat) : Vm × Except Fault Bool :=
  let s := (vm_frame_unpin s kva).updPage r fun p => { p with pinned := false }
  match vm_frame_free s kva with
  | (s, .ok ()) => (s.updPage r fun p => { p with frame := none }, .ok false)
  | (s, .error e) => (s, .error e)

/-- The end of `vm_do_claim_page`: `pagedir_set_page` in the current thread's directory, which
may need a page table (`ptPage`), the dirty bit of a file page cleared, and the frame unpinned. -/
def claimInstall (s : Vm) (r : PageRef) (kva : Nat) (cur : Tid) (ptPage : Bool) :
    Vm × Except Fault Bool :=
  match s.page r, (s.thread cur).map (·.pagedir) with
  | some page, some (some pd) =>
    -- `pagedir_set_page`'s `ASSERT (is_user_vaddr (upage))`
    if !is_user_vaddr page.va then (s, .error .panic)
    else
      match pagedir_set_page pd page.va kva page.writable ptPage with
      | none => (s, .error .panic)
      | some (false, _) => claimFail s r kva
      | some (true, pd) =>
        let pd := if page.type = .VM_FILE then pagedir_set_dirty pd page.va false else pd
        ((vm_frame_unpin (s.setPagedir cur pd) kva).updPage r fun p => { p with pinned := false },
          .ok true)
  | some _, some none => (s, .error .panic)
  | _, _ => (s, .error .undefined)

/-- What one claim's allocations return: the `malloc` calls of `vm_frame_allocate`, and whether
`pagedir_set_page` gets a page for a missing page table. -/
structure ClaimAlloc where
  alloc : Alloc
  ptPage : Bool
  deriving DecidableEq, Repr

/-- `vm_do_claim_page (page)` for the page `r` by thread `cur`. -/
def vm_do_claim_page (s : Vm) (r : PageRef) (cur : Tid) (o : ClaimAlloc) :
    Vm × Except Fault Bool :=
  match s.page r with
  | none => (s, .ok false)
  | some page =>
    if page.pinned then (s, .ok false)
    else
      match vm_frame_allocate s PAL_USER_ZERO cur o.alloc with
      | (s, .ok (some fr)) =>
        match claimLoad (claimLink s r fr cur) r fr.kva with
        | (s, .ok true) => claimInstall s r fr.kva cur o.ptPage
        | (s, .ok false) => claimFail s r fr.kva
        | (s, .error e) => (s, .error e)
      | (s, .ok none) => (s, .ok false)
      | (s, .error e) => (s, .error e)

/-! ## Teardown -/

/-- `page_destroy`: `vm_frame_free (page->frame)` with the frame record's address. -/
def page_destroy (s : Vm) (page : SuppPage) : Vm × Except Fault Unit :=
  match page.frame with
  | none => (s, .ok ())
  | some fa => vm_frame_free s fa

/-- `supplemental_page_table_destroy`: `page_destroy` on every page. -/
def supplemental_page_table_destroy (s : Vm) : List SuppPage → Vm × Except Fault Unit
  | [] => (s, .ok ())
  | page :: rest =>
    match page_destroy s page with
    | (s, .ok ()) => supplemental_page_table_destroy s rest
    | res => res

/-- `palloc_free_page` on each page in turn. -/
def freeUserPages (s : Vm) : List Nat → Vm × Except Fault Unit
  | [] => (s, .ok ())
  | kva :: rest =>
    match freeUserPage s kva with
    | (s, .ok ()) => freeUserPages s rest
    | res => res

/-- `pagedir_destroy (pd)`: every present user page goes back to the pool. The page tables and
the directory itself are kernel-pool pages, outside this model. -/
def pagedir_destroy (s : Vm) (pd : Pagedir) : Vm × Except Fault Unit :=
  freeUserPages s pd.presentPages

/-- The first half of `process_exit` for thread `t`: destroy its supplemental page table, if it
has one, and drop it. -/
def dropSpt (s : Vm) (t : Tid) : Vm × Except Fault Unit :=
  match (s.thread t).bind (·.spt) with
  | none => (s, .ok ())
  | some spt =>
    match supplemental_page_table_destroy s spt with
    | (s, .ok ()) => (s.setThread t fun th => { th with spt := none }, .ok ())
    | res => res

/-- `process_exit ()` for thread `t`: drop the supplemental page table, then destroy the page
directory. -/
def process_exit (s : Vm) (t : Tid) : Vm × Except Fault Unit :=
  match dropSpt s t with
  | (s, .ok ()) =>
    match (s.thread t).bind (·.pagedir) with
    | none => (s, .ok ())
    | some pd => pagedir_destroy (s.setThread t fun th => { th with pagedir := none }) pd
  | res => res

/-! ## Loading lemmas -/

/-- `file_read_at` writes memory and nothing else. -/
theorem file_read_at_frame (s : Vm) (file : Option Nat) (buffer size ofs : Nat) :
    ∃ mem, (file_read_at s file buffer size ofs).1 = { s with mem := mem } := by
  cases file with
  | none => exact ⟨s.mem, rfl⟩
  | some f => exact ⟨_, rfl⟩

/-- `lazy_load_segment` writes memory and frees the `file_page` block, and nothing else. -/
theorem lazy_load_segment_frame (s : Vm) (r : PageRef) (aux : Option Nat) :
    ∃ mem fp, (lazy_load_segment s r aux).1 = { s with mem := mem, file_pages := fp } := by
  unfold lazy_load_segment
  split
  · exact ⟨s.mem, s.file_pages, rfl⟩
  split
  · rename_i fpage _ _ _
    split
    · split <;> exact ⟨s.mem, s.file_pages, rfl⟩
    · rename_i fr _
      split
      · exact ⟨s.mem, s.file_pages, rfl⟩
      · obtain ⟨mem, hmem⟩ := file_read_at_frame s (some fpage.file) fr.kva fpage.read_bytes
          fpage.ofs
        generalize file_read_at s (some fpage.file) fr.kva fpage.read_bytes fpage.ofs = res at hmem ⊢
        obtain ⟨s₁, _ | n⟩ := res
        · exact ⟨mem, s.file_pages, hmem⟩
        · dsimp only at hmem ⊢
          subst hmem
          split
          · exact ⟨mem, _, rfl⟩
          · exact ⟨_, _, rfl⟩
  · exact ⟨s.mem, s.file_pages, rfl⟩

theorem lazy_load_segment_threads (s : Vm) (r : PageRef) (aux : Option Nat) :
    (lazy_load_segment s r aux).1.threads = s.threads := by
  obtain ⟨mem, fp, h⟩ := lazy_load_segment_frame s r aux
  rw [h]

/-- The first successful load of a lazily loaded page drops its initializer: from then on its
type and `page->file` are all `vm_do_claim_page` has to load it by. -/
theorem claimLoad_lazy_loaders {s s' : Vm} {r : PageRef} {page : SuppPage} {kva : Nat}
    (hpage : s.page r = some page) (hinit : page.initializer = some .lazy_load_segment)
    (h : claimLoad s r kva = (s', .ok true)) : s'.loaders r = some (page.type, page.file, none) := by
  unfold claimLoad at h
  simp only [hpage, hinit] at h
  have hL := loaders_of_threads (lazy_load_segment_threads s r page.aux)
  split at h
  · rename_i s₁ heq
    obtain ⟨rfl, -⟩ := Prod.mk.inj h
    rw [heq] at hL
    have hr : s₁.loaders r = some (page.type, page.file, some .lazy_load_segment) := by
      rw [show s₁.loaders = s.loaders from hL]
      simp [loaders, hpage, hinit]
    obtain ⟨p₁, hp₁, hfields⟩ := loaders_eq_some.mp hr
    simp only [Prod.mk.injEq] at hfields
    unfold loaders
    rw [page_updPage, if_pos rfl, hp₁]
    · simp [hfields]
    · intro; rfl
  · rename_i hne
    exact (hne s' h).elim

/-- A file page with neither an initializer nor a file cannot be loaded: `file_read_at` on the
`NULL` file kills the process. -/
theorem claimLoad_of_unbacked {s : Vm} {r : PageRef} {page : SuppPage} (kva : Nat)
    (hpage : s.page r = some page) (htype : page.type = .VM_FILE)
    (hinit : page.initializer = none) (hfile : page.file = none) :
    claimLoad s r kva = (s, .error .killed) := by
  simp [claimLoad, hpage, hinit, htype, hfile, file_read_at]

theorem claimLink_loaders (s : Vm) (r : PageRef) (fr : Frame) (cur : Tid) :
    (claimLink s r fr cur).loaders = s.loaders := by
  unfold claimLink vm_frame_pin
  dsimp only
  rw [updPage_loaders, setPinned_loaders, updFrame_loaders, updPage_loaders]
  all_goals intro; rfl

theorem claimLink_mem (s : Vm) (r : PageRef) (fr : Frame) (cur : Tid) :
    (claimLink s r fr cur).mem = s.mem := by
  unfold claimLink vm_frame_pin
  simp [Vm.updPage, Vm.setThread, Vm.updFrame]

/-- Linking sets the page's frame and pins it. -/
theorem claimLink_page {s : Vm} {r : PageRef} {page : SuppPage} (hpage : s.page r = some page)
    (fr : Frame) (cur : Tid) :
    (claimLink s r fr cur).page r = some { page with frame := some fr.addr, pinned := true } := by
  unfold claimLink vm_frame_pin
  dsimp only
  rw [page_updPage, if_pos rfl, setPinned_page, updFrame_page, page_updPage, if_pos rfl, hpage]
  · rfl
  all_goals intro; rfl

/-- A fresh anonymous or stack page has nothing to load. -/
theorem claimLoad_fresh {s : Vm} {r : PageRef} {page : SuppPage} (kva : Nat)
    (hpage : s.page r = some page) (htype : page.type ≠ .VM_FILE)
    (hinit : page.initializer = none) (hswap : page.in_swap = false) :
    claimLoad s r kva = (s, .ok true) := by
  unfold claimLoad
  simp only [hpage, hinit]
  cases ht : page.type with
  | VM_FILE => exact absurd ht htype
  | VM_ANON => simp [hswap]
  | VM_STACK => simp [hswap]

theorem claimFail_ne_ok_true (s : Vm) (r : PageRef) (kva : Nat) : (claimFail s r kva).2 ≠ .ok true := by
  unfold claimFail
  dsimp only
  split <;> simp

/-- A successful `claimInstall` maps the page at `kva` in `cur`'s directory and writes no
memory. -/
theorem claimInstall_ok {s s' : Vm} {r : PageRef} {kva : Nat} {cur : Tid} {ptPage : Bool}
    (h : claimInstall s r kva cur ptPage = (s', .ok true)) : s'.mem = s.mem ∧
    ∃ page pd, s.page r = some page ∧ (s'.thread cur).bind (·.pagedir) = some pd ∧
      (pd.entry page.va).present = true ∧ (pd.entry page.va).kpage = kva := by
  unfold claimInstall at h
  split at h
  · rename_i page pd₀ hpage hpd₀
    split at h
    · cases h
    split at h
    · cases h
    · exact absurd (congrArg Prod.snd h) (claimFail_ne_ok_true s r kva)
    rename_i pd₁ hset
    obtain ⟨rfl, -⟩ := Prod.mk.inj h
    obtain ⟨th, hth, -⟩ := Option.map_eq_some_iff.mp hpd₀
    have hentry := ((pagedir_set_page_entry hset).1 rfl).2.2 page.va
    rw [if_pos rfl] at hentry
    refine ⟨by simp [Vm.updPage, Vm.setThread, vm_frame_unpin, Vm.setPagedir], page,
      if page.type = .VM_FILE then pagedir_set_dirty pd₁ page.va false else pd₁, hpage, ?_, ?_⟩
    · -- unpinning and the page update leave the directory just installed
      rw [thread_pagedir_updPage, vm_frame_unpin]
      unfold Vm.thread
      rw [setPinned_threads, ← Vm.thread, thread_setPagedir, if_pos rfl, hth]
      rfl
    · split <;> simp [pagedir_set_dirty_entry, hentry, pte_create_user]
  · cases h
  · cases h

/-- A property kept by each stage of `vm_do_claim_page` is kept by the whole. -/
theorem vm_do_claim_page_preserves (P : Vm → Prop)
    (halloc : ∀ s cur alloc, P s → P (vm_frame_allocate s PAL_USER_ZERO cur alloc).1)
    (hlink : ∀ s r fr cur, P s → P (claimLink s r fr cur))
    (hload : ∀ s r kva, P s → P (claimLoad s r kva).1)
    (hinst : ∀ s r kva cur ptPage, P s → P (claimInstall s r kva cur ptPage).1)
    (hfail : ∀ s r kva, P s → P (claimFail s r kva).1)
    {s : Vm} (hs : P s) (r : PageRef) (cur : Tid) (o : ClaimAlloc) :
    P (vm_do_claim_page s r cur o).1 := by
  unfold vm_do_claim_page
  split
  · exact hs
  split
  · exact hs
  have h₁ := halloc s cur o.alloc hs
  split
  · rename_i s₁ fr hs₁
    rw [hs₁] at h₁
    have h₂ := hload _ r fr.kva (hlink s₁ r fr cur h₁)
    split
    · rename_i s₂ hs₂
      rw [hs₂] at h₂
      exact hinst s₂ r fr.kva cur o.ptPage h₂
    · rename_i s₂ hs₂
      rw [hs₂] at h₂
      exact hfail s₂ r fr.kva h₂
    · rename_i s₂ e hs₂
      rw [hs₂] at h₂
      exact h₂
  all_goals
    rename_i hs₁
    rw [hs₁] at h₁
    exact h₁

/-! ## Teardown lemmas -/

/-- `page_destroy` of pages whose `frame` pointer is no frame's `kva` changes nothing. -/
theorem supplemental_page_table_destroy_of_no_kva {s : Vm} : ∀ {pages : List SuppPage},
    (∀ p ∈ pages, ∀ fr ∈ s.frame_table, p.frame ≠ some fr.kva) →
      supplemental_page_table_destroy s pages = (s, .ok ())
  | [], _ => rfl
  | p :: ps, h => by
    have hp : page_destroy s p = (s, .ok ()) := by
      unfold page_destroy
      cases hf : p.frame with
      | none => rfl
      | some a =>
        refine vm_frame_free_of_no_kva fun fr hfr hka => ?_
        exact h p List.mem_cons_self fr hfr (hka ▸ hf)
    rw [supplemental_page_table_destroy, hp]
    exact supplemental_page_table_destroy_of_no_kva fun q hq => h q (List.mem_cons_of_mem _ hq)

theorem freeUserPage_ok {s s' : Vm} {kva : Nat} (h : freeUserPage s kva = (s', .ok ())) :
    s'.frame_table = s.frame_table ∧ s'.threads = s.threads ∧ s'.user_pool.base = s.user_pool.base ∧
      (∀ k, s.user_pool.free k → s'.user_pool.free k) ∧ (kva ≠ 0 → s'.user_pool.free kva) := by
  obtain ⟨pool, mem, hfree, rfl⟩ := freeUserPage_spec h
  exact ⟨rfl, rfl, palloc_free_page_spec hfree⟩

/-- A run of `palloc_free_page` that succeeds leaves each of its pages free. -/
theorem freeUserPages_ok : ∀ {s s' : Vm} {ks : List Nat}, freeUserPages s ks = (s', .ok ()) →
    s'.frame_table = s.frame_table ∧ s'.threads = s.threads ∧
      (∀ k, s.user_pool.free k → s'.user_pool.free k) ∧ ∀ k ∈ ks, k ≠ 0 → s'.user_pool.free k
  | s, s', [], h => by
    cases h
    exact ⟨rfl, rfl, fun _ hk => hk, by simp⟩
  | s, s', k :: ks, h => by
    unfold freeUserPages at h
    split at h
    · rename_i s₁ h₁
      obtain ⟨hft₁, hth₁, -, hkeep₁, hk⟩ := freeUserPage_ok h₁
      obtain ⟨hft, hth, hkeep, hfree⟩ := freeUserPages_ok h
      refine ⟨hft.trans hft₁, hth.trans hth₁, fun k' hk' => hkeep k' (hkeep₁ k' hk'), ?_⟩
      rintro k' (_ | ⟨_, hk'⟩) hne
      · exact hkeep k (hk hne)
      · exact hfree k' hk' hne
    · rename_i hne
      exact (hne s' h).elim

theorem pagedir_setThread_spt (s : Vm) (t t' : Tid) (spt : Option (List SuppPage)) :
    ((s.setThread t fun th => { th with spt }).thread t').bind (·.pagedir) =
      (s.thread t').bind (·.pagedir) := by
  rw [thread_setThread t t' (fun th => { th with spt }) (fun _ => rfl)]
  split
  · rename_i h
    rw [h]
    cases s.thread t <;> rfl
  · rfl

/-- Dropping a table whose pages point at no frame's `kva` frees nothing. -/
theorem dropSpt_of_no_kva {s : Vm} {t : Tid}
    (h : ∀ p ∈ ((s.thread t).bind (·.spt)).getD [], ∀ fr ∈ s.frame_table, p.frame ≠ some fr.kva) :
    ∃ s₁, dropSpt s t = (s₁, .ok ()) ∧ s₁.frame_table = s.frame_table ∧
      s₁.user_pool = s.user_pool ∧ (s₁.thread t).bind (·.pagedir) = (s.thread t).bind (·.pagedir) := by
  unfold dropSpt
  split
  · exact ⟨s, rfl, rfl, rfl, rfl⟩
  · rename_i spt hspt
    rw [hspt] at h
    have h' : ∀ p ∈ spt, ∀ fr ∈ s.frame_table, p.frame ≠ some fr.kva := h
    rw [supplemental_page_table_destroy_of_no_kva h']
    exact ⟨_, rfl, rfl, rfl, pagedir_setThread_spt s t t none⟩

/-! ## Loading and pinning the pages of a system call's buffer -/

/-- `vm_load_page (spt, pagedir, upage)` by thread `t`: claim the page if its table has it. -/
def vm_load_page (s : Vm) (t : Tid) (upage : Nat) (o : ClaimAlloc) : Vm × Except Fault Bool :=
  match (s.thread t).bind (·.spt) with
  -- `hash_find` through a `NULL` table
  | none => (s, .error .killed)
  | some spt =>
    if (spt.find? (·.va = pg_round_down upage)).isSome then
      vm_do_claim_page s ⟨t, pg_round_down upage⟩ t o
    else (s, .ok false)

/-- The last branch of `vm_pin_page`: `else if (!p->in_swap) vm_do_claim_page (p);`. -/
def pinLoad (s : Vm) (r : PageRef) (p : SuppPage) (o : ClaimAlloc) : Vm × Except Fault Unit :=
  if p.in_swap then (s, .ok ())
  else
    match vm_do_claim_page s r r.tid o with
    | (s, .ok _) => (s, .ok ())
    | (s, .error e) => (s, .error e)

/-- `vm_pin_page (supt, upage)` by thread `t`: mark the page pinned, and pin its frame or load
it. `p->frame->kva` reads the frame record. -/
def vm_pin_page (s : Vm) (t : Tid) (upage : Nat) (o : ClaimAlloc) : Vm × Except Fault Unit :=
  match (s.thread t).bind (·.spt) with
  | none => (s, .ok ())
  | some spt =>
    match spt.find? (·.va = pg_round_down upage) with
    | none => (s, .ok ())
    | some p =>
      let r : PageRef := ⟨t, pg_round_down upage⟩
      let s := s.updPage r fun p => { p with pinned := true }
      match p.frame.map fun a => (s.frame a).map (·.kva) with
      | some none => (s, .error .undefined)
      | some (some kva) => if kva ≠ 0 then (vm_frame_pin s kva, .ok ()) else pinLoad s r p o
      | none => pinLoad s r p o

/-- `vm_unpin_page (supt, upage)` by thread `t`. -/
def vm_unpin_page (s : Vm) (t : Tid) (upage : Nat) : Vm × Except Fault Unit :=
  match (s.thread t).bind (·.spt) with
  | none => (s, .ok ())
  | some spt =>
    match spt.find? (·.va = pg_round_down upage) with
    | none => (s, .ok ())
    | some p =>
      let s := s.updPage ⟨t, pg_round_down upage⟩ fun p => { p with pinned := false }
      match p.frame.map fun a => (s.frame a).map (·.kva) with
      | some none => (s, .error .undefined)
      | some (some kva) => if kva ≠ 0 then (vm_frame_unpin s kva, .ok ()) else (s, .ok ())
      | none => (s, .ok ())

end Pintos
