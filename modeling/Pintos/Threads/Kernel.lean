import Pintos.Threads.Vaddr

/-!
# Kernel memory and how kernel paths fail

Kernel virtual memory is one byte per address (`Mem`); `memset` and the page copies are the
byte loops of `lib/string.c` (`memset`, and `memcpy` of a whole page between memory and a
heap block). A page's bytes are `PageData`, offset `i` of the page at `i`.

A kernel path that does not return ends in a `Fault`: the current process is killed with
`exit (-1)` (`page_fault` does this for every kernel access to an unmapped user address
that the stack cannot grow into), the kernel stops (`ASSERT`, `PANIC`, `NOT_REACHED`), or
control reaches memory the code does not own (a jump through an uninitialized function
pointer, a read through a pointer to freed memory), after which nothing is modelled.
-/

namespace Pintos

/-- Kernel virtual memory. -/
abbrev Mem := Nat → UInt8

/-- The bytes of one page. -/
abbrev PageData := Nat → UInt8

/-- `tid_t`. -/
abbrev Tid := Nat

/-- `memset (dst, value, size)`. -/
def memset (m : Mem) (dst : Nat) (value : UInt8) (size : Nat) : Mem :=
  fun a => if dst ≤ a ∧ a < dst + size then value else m a

/-- `memcpy (dst, bytes, length)` from a buffer holding `bytes`. -/
def writeBytes (m : Mem) (dst : Nat) (bytes : List UInt8) : Mem :=
  fun a => if dst ≤ a ∧ a < dst + bytes.length then bytes.getD (a - dst) 0 else m a

/-- The page at `kva`, as `memcpy (block, kva, PGSIZE)` copies it out. -/
def readPage (m : Mem) (kva : Nat) : PageData := fun i => m (kva + i)

/-- `memcpy (kva, block, PGSIZE)`: the page at `kva` becomes `d`. -/
def writePage (m : Mem) (kva : Nat) (d : PageData) : Mem :=
  fun a => if kva ≤ a ∧ a < kva + PGSIZE then d (a - kva) else m a

/-- Two pages hold the same bytes. -/
def SameBytes (d e : PageData) : Prop := ∀ i < PGSIZE, d i = e i

/-- How a kernel path ends when it does not return. -/
inductive Fault
  /-- the current process is terminated with `exit (-1)` -/
  | killed
  /-- a failed `ASSERT`, `PANIC` or `NOT_REACHED`: the kernel stops -/
  | panic
  /-- a jump through, or a read of, memory that the code does not own -/
  | undefined
  deriving DecidableEq, Repr

theorem memset_apply (m : Mem) (dst : Nat) (value : UInt8) (size a : Nat) :
    memset m dst value size a = if dst ≤ a ∧ a < dst + size then value else m a := rfl

theorem writeBytes_apply (m : Mem) (dst : Nat) (bytes : List UInt8) (a : Nat) :
    writeBytes m dst bytes a =
      if dst ≤ a ∧ a < dst + bytes.length then bytes.getD (a - dst) 0 else m a := rfl

theorem readPage_writePage (m : Mem) (kva : Nat) (d : PageData) :
    SameBytes (readPage (writePage m kva d) kva) d := by
  intro i hi
  simp [readPage, writePage, hi]

theorem writePage_apply_of_lt {m : Mem} {kva a : Nat} (d : PageData) (h : a < kva) :
    writePage m kva d a = m a := by
  simp [writePage]
  omega

theorem writePage_apply_of_le {m : Mem} {kva a : Nat} (d : PageData) (h : kva + PGSIZE ≤ a) :
    writePage m kva d a = m a := by
  simp [writePage]
  omega

end Pintos
