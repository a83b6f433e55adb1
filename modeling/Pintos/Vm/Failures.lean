import Pintos.Vm.Clock
import Pintos.Vm.Eviction

/-!
# What the failure paths of eviction and claiming leave behind (`vm/frame.c`, `vm/page.c`)

`evict_frame` clears the victim's entry in its owner's directory before it calls `swap_out`,
and when `swap_out` fails it returns `false` without restoring it: `vm_frame_allocate` returns
`NULL`, the victim's page is no longer present, and `page->frame` still names the frame
(`evict_frame_unmaps_of_false`). From boot, swap has no free slot, so the first eviction of a
stack page does this (`failed_eviction_unmaps_victim`).

`vm_do_claim_page` undoes the frame link on failure but not what loading did. A lazily loaded
page whose load succeeds and whose `pagedir_set_page` then fails has lost its initializer and
its `file_page` block, and `page->file` is `NULL`: the next fault kills the process. A load
that reads fewer bytes than `read_bytes` frees the `file_page` block and leaves `page->aux`
pointing to it: the next fault reads freed memory (`failed_claim_loses_segment`).
-/

namespace Pintos

open Vm

/-! ## A failed eviction -/

/-- Threads 1 and 2 fault in their stack pages, which fills the two-page pool, and thread 1
registers an anonymous page. -/
def unmapRun : List VmOp :=
  [.spawn 1, .allocPage 1 .VM_STACK (PHYS_BASE - PGSIZE) true (some SuppPage.zero),
   .claim 1 (PHYS_BASE - PGSIZE) ⟨⟨some 0xc0101000, true⟩, true⟩,
   .spawn 2, .allocPage 2 .VM_STACK (PHYS_BASE - PGSIZE) true (some SuppPage.zero),
   .claim 2 (PHYS_BASE - PGSIZE) ⟨⟨some 0xc0102000, true⟩, true⟩,
   .allocPage 1 .VM_ANON 0x08048000 true (some SuppPage.zero)]

def unmapPre : Vm := (vmRun handBoot unmapRun).getD handBoot

/-- The allocation for thread 1's anonymous page selects thread 1's stack frame, whose
`swap_out` finds no slot: `vm_frame_allocate` returns `NULL`, and the stack page, linked to its
frame as before, is no longer present in thread 1's directory. -/
theorem failed_eviction_unmaps_victim : ∃ s₁ s₂ : Vm, VmReachable s₁ ∧
    s₁.present 1 (PHYS_BASE - PGSIZE) = true ∧
    (s₁.page ⟨1, PHYS_BASE - PGSIZE⟩).bind (·.frame) = some 0xc0101000 ∧
    vm_frame_allocate s₁ PAL_USER_ZERO 1 ⟨some 0xc0101100, true⟩ = (s₂, .ok none) ∧
    s₂.present 1 (PHYS_BASE - PGSIZE) = false ∧
    s₂.page ⟨1, PHYS_BASE - PGSIZE⟩ = s₁.page ⟨1, PHYS_BASE - PGSIZE⟩ ∧
    s₂.frame_table = s₁.frame_table := by
  have hrun : vmRun handBoot unmapRun = some unmapPre := by rfl
  have halloc : vm_frame_allocate unmapPre PAL_USER_ZERO 1 ⟨some 0xc0101100, true⟩ =
      ((vm_frame_allocate unmapPre PAL_USER_ZERO 1 ⟨some 0xc0101100, true⟩).1, .ok none) := by
    rfl
  exact ⟨unmapPre, _, VmReachable.of_vmRun (vmInit_bootVm _ _ _ _ _ _ _ _) hrun, by decide,
    by decide, halloc, by decide, by decide, by decide⟩

/-! ## Failed claims -/

/-- Thread 1 registers a page of file 7 with `vm_supt_install_filesys`, reading `n` bytes. -/
def segmentOf (n : Nat) : List VmOp :=
  [.spawn 1, .installFilesys 1 0x08048000 7 0 n (PGSIZE - n) true (some 0xc0102000) true]

def segmentPre (n : Nat) : Vm := (vmRun evictionBoot (segmentOf n)).getD evictionBoot

/-- The fault on the page, with `pt` saying whether `pagedir_set_page` gets a page table. -/
def segmentClaim (pt : Bool) : VmOp := .claim 1 0x08048000 ⟨⟨some 0xc0101000, true⟩, pt⟩

/-- The fault again, with every allocation granted. -/
def segmentRetry : VmOp := .claim 1 0x08048000 ⟨⟨some 0xc0101100, true⟩, true⟩

/-- The page record after the first fault. -/
def claimedSegment (n : Nat) (pt : Bool) : SuppPage :=
  (((vmStep (segmentPre n) (segmentClaim pt)).getD (segmentPre n)).page ⟨1, 0x08048000⟩).getD
    SuppPage.zero

/-- A page of file 7 (sixteen bytes) registered from boot. When the load succeeds and
`pagedir_set_page` gets no page table, the claim fails having dropped the initializer and freed
the `file_page` block, and the retry kills the process. When the page asks for thirty-two
bytes, the short read fails the claim, which frees the block and keeps `page->aux` and the
initializer, and the retry reads the freed block. -/
theorem failed_claim_loses_segment :
    (VmReachable (segmentPre 16) ∧
      (segmentPre 16).page ⟨1, 0x08048000⟩ = some ⟨0x08048000, .VM_FILE, true, none, false,
        SIZE_MAX, none, 0, 0, 0, false, some .lazy_load_segment, some 0xc0102000⟩ ∧
      (segmentPre 16).file_pages 0xc0102000 = some ⟨7, 0, 16, PGSIZE - 16⟩ ∧
      (vm_do_claim_page (segmentPre 16) ⟨1, 0x08048000⟩ 1 ⟨⟨some 0xc0101000, true⟩, false⟩).2 =
        .ok false ∧
      (claimedSegment 16 false).initializer = none ∧ (claimedSegment 16 false).aux = none ∧
      (claimedSegment 16 false).file = none ∧
      ((vmStep (segmentPre 16) (segmentClaim false)).getD (segmentPre 16)).file_pages 0xc0102000 =
        none ∧
      ((vmStep (segmentPre 16) (segmentClaim false)).bind fun s => vmStep s segmentRetry).map
        (fun s => (s.thread 1).isSome) = some false) ∧
    (VmReachable (segmentPre 32) ∧
      (vm_do_claim_page (segmentPre 32) ⟨1, 0x08048000⟩ 1 ⟨⟨some 0xc0101000, true⟩, true⟩).2 =
        .ok false ∧
      (claimedSegment 32 true).initializer = some .lazy_load_segment ∧
      (claimedSegment 32 true).aux = some 0xc0102000 ∧
      ((vmStep (segmentPre 32) (segmentClaim true)).getD (segmentPre 32)).file_pages 0xc0102000 =
        none ∧
      ((vmStep (segmentPre 32) (segmentClaim true)).bind fun s => vmStep s segmentRetry) =
        none) := by
  have hrun₁ : vmRun evictionBoot (segmentOf 16) = some (segmentPre 16) := by rfl
  have hrun₂ : vmRun evictionBoot (segmentOf 32) = some (segmentPre 32) := by rfl
  exact ⟨⟨VmReachable.of_vmRun (vmInit_bootVm _ _ _ _ _ _ _ _) hrun₁, rfl, rfl, rfl, rfl, rfl,
      rfl, rfl, rfl⟩,
    ⟨VmReachable.of_vmRun (vmInit_bootVm _ _ _ _ _ _ _ _) hrun₂, rfl, rfl, rfl, rfl, rfl⟩⟩

end Pintos
