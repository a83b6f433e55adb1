import Mathlib.Data.List.Basic

/-!
# Machines that give out one value a step

A step `next : σ → σ × β` moves a state on and gives out one value, as a generator of
pseudo-random bytes or a cipher's keystream does. `Mealy.run next n x` takes `n` steps from `x`
and collects the values, first first. Two runs in a row are one run (`run_add`), and a map of
states that commutes with one step commutes with every run (`run_hom`): this is how a concrete
machine is shown to give out what an abstract one does.
-/

namespace Mealy

variable {σ τ β : Type*} (next : σ → σ × β)

/-- `n` steps of `next` from `x`: the state reached and the values given out. -/
def run : ℕ → σ → σ × List β
  | 0, x => (x, [])
  | n + 1, x =>
    let (y, b) := next x
    let (z, bs) := run n y
    (z, b :: bs)

@[simp] theorem run_zero (x : σ) : run next 0 x = (x, []) := rfl

theorem run_succ (n : ℕ) (x : σ) :
    run next (n + 1) x = ((run next n (next x).1).1, (next x).2 :: (run next n (next x).1).2) :=
  rfl

@[simp] theorem length_run (n : ℕ) (x : σ) : (run next n x).2.length = n := by
  induction n generalizing x with
  | zero => rfl
  | succ n ih => simp [run_succ, ih]

/-- `n + m` steps are `n` steps and then `m`. -/
theorem run_add (n m : ℕ) (x : σ) :
    run next (n + m) x =
      ((run next m (run next n x).1).1, (run next n x).2 ++ (run next m (run next n x).1).2) := by
  induction n generalizing x with
  | zero => simp
  | succ n ih =>
    rw [Nat.add_right_comm, run_succ, ih, run_succ]
    simp

/-- A map of states that commutes with one step commutes with every run. -/
theorem run_hom {anext : τ → τ × β} (f : τ → σ)
    (h : ∀ y, next (f y) = (f (anext y).1, (anext y).2)) (n : ℕ) (y : τ) :
    run next n (f y) = (f (run anext n y).1, (run anext n y).2) := by
  induction n generalizing y with
  | zero => rfl
  | succ n ih => simp only [run_succ, h, ih]

end Mealy
