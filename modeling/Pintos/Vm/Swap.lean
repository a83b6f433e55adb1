import Pintos.Vm.FrameTable

/-!
# Swap slots (`vm/swap.c`)

`swap_available` has one bit per page-sized slot, of the swap partition or, when there is none,
of the in-memory emulation (`DEFAULT_SWAP_SIZE` slots, each a `malloc`'d page). The two halves
of the file disagree on what a bit means: `vm_swap_init` sets every bit and `vm_swap_free` sets
the bit of the slot it releases, while `swap_out` takes a slot by scanning for a clear bit and
`swap_in` clears the bit of the slot it has read back.

`swap_out_fails_of_all_set` is the consequence for `swap_out`: while every bit is set it finds
no slot, and it returns `false` having changed nothing.
-/

namespace Pintos

open Vm Bitmap

/-- Slots of the in-memory emulation. -/
def DEFAULT_SWAP_SIZE : Nat := 1024

/-- `PGSIZE / BLOCK_SECTOR_SIZE`. -/
def SECTORS_PER_PAGE : Nat := PGSIZE / 512

/-- `vm_swap_init`, where `device` is the size in sectors of the `BLOCK_SWAP` device, if any. -/
def vm_swap_init (s : Vm) (device : Option Nat) : Vm :=
  let size := match device with
    | none => DEFAULT_SWAP_SIZE
    | some sectors => sectors / SECTORS_PER_PAGE
  { s with
    using_memory_swap := device.isNone
    swap_size := size
    swap_memory_map := fun _ => none
    swap_available := bitmap_set_all (bitmap_create size) true }

/-- The end of a successful `swap_out`: unpin, and record the slot in the page. -/
def swapOutDone (s : Vm) (r : PageRef) (kva slot : Nat) : Vm × Except Fault Bool :=
  ((vm_frame_unpin s kva).updPage r fun p => { p with in_swap := true, swap_slot := slot }, .ok true)

/-- `swap_out (page)`: copy the page's frame to a free slot. Under memory emulation `block` says
whether `malloc (PGSIZE)` returns a block for the copy. -/
def swap_out (s : Vm) (r : PageRef) (block : Bool) : Vm × Except Fault Bool :=
  match s.page r with
  | none => (s, .error .undefined)
  | some page =>
    match page.frame with
    | none => (s, .ok false)
    | some fa =>
      let found := bitmap_scan_and_flip s.swap_available 0 1 false
      let slot := found.1
      let s := { s with swap_available := found.2 }
      if slot = BITMAP_ERROR then (s, .ok false)
      else
        match s.frame fa with
        | none => (s, .error .undefined)
        | some fr =>
          let s := vm_frame_pin s fr.kva
          if s.using_memory_swap then
            if block then
              let copy := Function.update s.swap_memory_map slot (some (readPage s.mem fr.kva))
              swapOutDone { s with swap_memory_map := copy } r fr.kva slot
            else
              -- `swap_memory_map[slot] = malloc (PGSIZE)` stored NULL: release the pin and the slot
              let s := vm_frame_unpin s fr.kva
              ({ s with
                swap_memory_map := Function.update s.swap_memory_map slot none
                swap_available := bitmap_reset s.swap_available slot }, .ok false)
          else
            let copy := Function.update s.swap_disk slot (readPage s.mem fr.kva)
            swapOutDone { s with swap_disk := copy } r fr.kva slot

/-- The end of a successful `swap_in`: unpin, clear the slot's bit, and leave the swap. -/
def swapInDone (s : Vm) (r : PageRef) (kva slot : Nat) : Vm × Except Fault Bool :=
  let s := vm_frame_unpin s kva
  ({ s with swap_available := bitmap_reset s.swap_available slot }.updPage r
    fun p => { p with in_swap := false }, .ok true)

/-- `swap_in (page, kva)`: read the page's slot back into the frame at `kva`. -/
def swap_in (s : Vm) (r : PageRef) (kva : Nat) : Vm × Except Fault Bool :=
  match s.page r with
  | none => (s, .error .undefined)
  | some page =>
    if !page.in_swap then (s, .ok false)
    else if s.swap_size ≤ page.swap_slot then (s, .ok false)
    else
      let slot := page.swap_slot
      let s := vm_frame_pin s kva
      if s.using_memory_swap then
        match s.swap_memory_map slot with
        | none => (vm_frame_unpin s kva, .ok false)
        | some d =>
          swapInDone { s with
            mem := writePage s.mem kva d
            swap_memory_map := Function.update s.swap_memory_map slot none } r kva slot
      else swapInDone { s with mem := writePage s.mem kva (s.swap_disk slot) } r kva slot

/-- `vm_swap_free (swap_index)`. -/
def vm_swap_free (s : Vm) (idx : Nat) : Vm × Except Fault Unit :=
  if s.swap_size ≤ idx then (s, .error .panic)
  else if bitmap_test s.swap_available idx then (s, .error .panic)
  else
    let s := if s.using_memory_swap then
      { s with swap_memory_map := Function.update s.swap_memory_map idx none } else s
    ({ s with swap_available := bitmap_set s.swap_available idx true }, .ok ())

/-! ## What the swap operations leave alone -/

/-- `swap_out` changes no frame record's place and does not move the clock hand. -/
theorem swap_out_frameKeys (s : Vm) (r : PageRef) (block : Bool) :
    (swap_out s r block).1.frameKeys = s.frameKeys := by
  unfold swap_out swapOutDone
  dsimp only
  repeat' split
  all_goals simp [Vm.frameKeys, vm_frame_pin, vm_frame_unpin, setPinned_frame_table_addr]

/-- `swap_out` changes no page's loader. -/
theorem swap_out_loaders (s : Vm) (r : PageRef) (block : Bool) :
    (swap_out s r block).1.loaders = s.loaders := by
  unfold swap_out swapOutDone
  dsimp only
  repeat' split
  all_goals dsimp only
  -- the slot's record goes into the page; every other branch leaves the tables alone
  all_goals first
    | rfl
    | (rw [updPage_loaders]
       · exact loaders_of_threads (by simp [vm_frame_pin, vm_frame_unpin])
       all_goals intro; rfl)
    | exact loaders_of_threads (by simp [vm_frame_pin, vm_frame_unpin])

/-- A `swap_out` that fails writes no thread's tables: no page record and no directory. -/
theorem swap_out_threads_of_false {s s' : Vm} {r : PageRef} {block : Bool}
    (h : swap_out s r block = (s', .ok false)) : s'.threads = s.threads := by
  unfold swap_out swapOutDone at h
  dsimp only at h
  repeat' split at h
  all_goals
    obtain ⟨hs, hres⟩ := Prod.mk.inj h
    subst hs
    cases hres
  all_goals first | rfl | simp [vm_frame_pin, vm_frame_unpin]

/-! ## `swap_out` against a full bitmap -/

/-- Every slot of the bitmap is marked. -/
def AllSet (b : Bitmap) : Prop := ∀ i < bitmap_size b, bitmap_test b i = true

theorem bitmap_scan_and_flip_of_allSet {b : Bitmap} (hb : AllSet b) :
    bitmap_scan_and_flip b 0 1 false = (BITMAP_ERROR, b) := by
  have hscan : bitmap_scan b 0 1 false = BITMAP_ERROR := by
    apply bitmap_scan_eq_error_of_forall
    intro j _ hj
    rw [bitmap_contains_one, hb j (by omega)]
    rfl
  simp [bitmap_scan_and_flip, hscan]

/-- While every bit of `swap_available` is set, `swap_out` of a live page finds no slot and
returns `false` with the state unchanged. -/
theorem swap_out_fails_of_all_set {s : Vm} {r : PageRef} {page : SuppPage} (block : Bool)
    (hpage : s.page r = some page) (hset : AllSet s.swap_available) :
    swap_out s r block = (s, .ok false) := by
  unfold swap_out
  simp only [hpage]
  cases page.frame with
  | none => rfl
  | some fa => simp [bitmap_scan_and_flip_of_allSet hset]

end Pintos
