import Mathlib.Logic.Function.Basic
import Mathlib.Data.Nat.ModEq

/-!
# Circular buffers

A buffer of `N` cells holds a queue in the cells from `tail` on, wrapping at `N`, up to the
cell `head` where the next element goes. `window buf tail n` reads the `n` cells from `tail`;
`count N head tail` is the queue's length, `(head + N - tail) % N`.

With `head` and `tail` below `N`, the count is the one offset below `N` from `tail` to `head`
(`add_count_mod`, `count_eq_of_add_mod`), since offsets below `N` land on distinct cells
(`add_mod_inj`). The window grows at its end by the cell at `head`, gives up its first cell
when `tail` moves on (`window_succ_cons`), and does not see a write at `head`
(`window_update_head`). Moving `head` on adds one to the count unless the queue is full, that
is holds `N - 1` elements (`count_next_head`, `next_head_eq_iff`); moving `tail` on takes one
off a queue that is not empty (`count_next_tail`, `count_eq_zero_iff`).
-/

namespace Ring

variable {β : Type*} (N : ℕ)

/-- The `n` cells of `buf` from `tail` on, wrapping at `N`. -/
def window (buf : ℕ → β) (tail : ℕ) : ℕ → List β
  | 0 => []
  | n + 1 => window buf tail n ++ [buf ((tail + n) % N)]

/-- The length of the queue from `tail` up to `head`. -/
def count (head tail : ℕ) : ℕ := (head + N - tail) % N

variable {N}

@[simp] theorem length_window (buf : ℕ → β) (tail : ℕ) :
    ∀ n, (window N buf tail n).length = n
  | 0 => rfl
  | n + 1 => by simp [window, length_window buf tail n]

theorem window_congr {buf buf' : ℕ → β} {tail : ℕ} :
    ∀ {n : ℕ}, (∀ i < n, buf ((tail + i) % N) = buf' ((tail + i) % N)) →
      window N buf tail n = window N buf' tail n
  | 0, _ => rfl
  | n + 1, h => by
    rw [window, window, window_congr fun i hi => h i (by omega), h n (by omega)]

/-- Reading the window from its first cell. -/
theorem window_succ_cons (buf : ℕ → β) (tail : ℕ) :
    ∀ n, window N buf tail (n + 1) = buf (tail % N) :: window N buf ((tail + 1) % N) n
  | 0 => rfl
  | n + 1 => by
    rw [window, window_succ_cons buf tail n, window, List.cons_append, Nat.mod_add_mod,
      Nat.add_assoc, Nat.add_comm 1 n]

/-- Two offsets below `N` from one cell land on the same cell only if they are equal. -/
theorem add_mod_inj {tail i j : ℕ} (hi : i < N) (hj : j < N)
    (h : (tail + i) % N = (tail + j) % N) : i = j := by
  have : i % N = j % N := Nat.ModEq.add_left_cancel' tail h
  rwa [Nat.mod_eq_of_lt hi, Nat.mod_eq_of_lt hj] at this

theorem count_lt {head : ℕ} (hh : head < N) (tail : ℕ) : count N head tail < N :=
  Nat.mod_lt _ (by omega)

section Bounds

variable {head tail : ℕ} (hh : head < N) (ht : tail < N)
include hh ht


/-- The cell after the queue is `head`. -/
theorem add_count_mod : (tail + count N head tail) % N = head := by
  unfold count
  by_cases hle : tail ≤ head
  · rw [show head + N - tail = head - tail + N by omega, Nat.add_mod_right,
      Nat.mod_eq_of_lt (show head - tail < N by omega), show tail + (head - tail) = head by omega,
      Nat.mod_eq_of_lt hh]
  · rw [Nat.mod_eq_of_lt (show head + N - tail < N by omega),
      show tail + (head + N - tail) = head + N by omega, Nat.add_mod_right, Nat.mod_eq_of_lt hh]

/-- The count is the one offset below `N` from `tail` to `head`. -/
theorem count_eq_of_add_mod {c : ℕ} (hc : c < N) (h : (tail + c) % N = head) :
    count N head tail = c :=
  add_mod_inj (count_lt hh tail) hc (by rw [add_count_mod hh ht, h])

theorem count_eq_zero_iff : count N head tail = 0 ↔ head = tail := by
  constructor
  · intro h0
    have := add_count_mod hh ht
    rwa [h0, Nat.add_zero, Nat.mod_eq_of_lt ht, eq_comm] at this
  · rintro rfl
    exact count_eq_of_add_mod hh hh (by omega) (by rw [Nat.add_zero, Nat.mod_eq_of_lt hh])

/-- Every cell of the queue is before `head`: a write at `head` is outside it. -/
theorem add_mod_ne_of_lt_count {i : ℕ} (hi : i < count N head tail) : (tail + i) % N ≠ head := by
  intro heq
  have := count_eq_of_add_mod hh ht (by have := count_lt hh tail; omega) heq
  omega

/-- A write at `head` leaves the queue alone. -/
theorem window_update_head (buf : ℕ → β) (b : β) :
    window N (Function.update buf head b) tail (count N head tail) =
      window N buf tail (count N head tail) :=
  window_congr fun _ hi => Function.update_of_ne (add_mod_ne_of_lt_count hh ht hi) _ _

/-- The queue is full when moving `head` on would reach `tail`: it has `N - 1` elements. -/
theorem next_head_eq_iff : (head + 1) % N = tail ↔ count N head tail = N - 1 := by
  have hc := add_count_mod hh ht
  have hlt := count_lt hh tail
  constructor
  · intro hfull
    -- `count + 1` steps from `tail` come back to `tail`, so `count + 1` is `N`
    have h₁ : (tail + (count N head tail + 1)) % N = (tail + 0) % N := by
      rw [← Nat.add_assoc, ← Nat.mod_add_mod, hc, hfull, Nat.add_zero, Nat.mod_eq_of_lt ht]
    by_contra hne
    have := add_mod_inj (show count N head tail + 1 < N by omega) (show 0 < N by omega) h₁
    omega
  · intro hfull
    rw [← hc, hfull, Nat.mod_add_mod, show tail + (N - 1) + 1 = tail + N by omega,
      Nat.add_mod_right, Nat.mod_eq_of_lt ht]

/-- Moving `head` on a queue that is not full adds one element. -/
theorem count_next_head (hfull : (head + 1) % N ≠ tail) :
    count N ((head + 1) % N) tail = count N head tail + 1 := by
  have hlt := count_lt hh tail
  have hne : count N head tail ≠ N - 1 := fun h => hfull ((next_head_eq_iff hh ht).mpr h)
  refine count_eq_of_add_mod (Nat.mod_lt _ (by omega)) ht (by omega) ?_
  rw [← Nat.add_assoc, ← Nat.mod_add_mod, add_count_mod hh ht]

/-- Moving `tail` on a queue that is not empty takes one element off. -/
theorem count_next_tail (hempty : head ≠ tail) :
    count N head ((tail + 1) % N) + 1 = count N head tail := by
  have hlt := count_lt hh tail
  have hne : count N head tail ≠ 0 := fun h => hempty ((count_eq_zero_iff hh ht).mp h)
  have : count N head ((tail + 1) % N) = count N head tail - 1 := by
    refine count_eq_of_add_mod hh (Nat.mod_lt _ (by omega)) (by omega) ?_
    rw [Nat.mod_add_mod, show tail + 1 + (count N head tail - 1) = tail + count N head tail by omega,
      add_count_mod hh ht]
  omega

end Bounds

end Ring
