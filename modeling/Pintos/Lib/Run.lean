import Mathlib.Logic.Basic

/-!
# Runs of a labelled transition system

A labelled step relation `step : σ → α → σ → Prop`, its finite runs (`Run`), the states reachable
from an initial predicate (`Reachable`), the rule that carries an invariant along every run
(`Run.invariant`, `Reachable.invariant`), forward simulation of one system by another
(`Run.simulate`) or by a fold of an abstract update over the labels (`Run.foldl_simulate`), and a
run of every label list when the abstract system is a function and the concrete one never gets stuck
(`Run.exists_foldl`). A run is a list of labels, so a counterexample to a claim about every run is a
concrete label list together with its `Run` derivation.
-/

namespace Lts

variable {σ α : Type*} {step : σ → α → σ → Prop} {init : σ → Prop}
  {s t u : σ} {a : α} {as bs : List α}

/-- `Run step s as t`: the labels `as`, taken in order, lead from `s` to `t`. -/
inductive Run (step : σ → α → σ → Prop) : σ → List α → σ → Prop
  | nil (s : σ) : Run step s [] s
  | cons {s t u : σ} {a : α} {as : List α} :
      step s a t → Run step t as u → Run step s (a :: as) u

namespace Run

theorem single (h : step s a t) : Run step s [a] t := .cons h (.nil t)

theorem append (h₁ : Run step s as t) (h₂ : Run step t bs u) : Run step s (as ++ bs) u := by
  induction h₁ with
  | nil => exact h₂
  | cons hst _ ih => exact .cons hst (ih h₂)

theorem snoc (h : Run step s as t) (h' : step t a u) : Run step s (as ++ [a]) u :=
  h.append (single h')

/-- A property that every step preserves holds at the end of every run that starts in it. -/
theorem invariant {P : σ → Prop} (hstep : ∀ {s a t}, step s a t → P s → P t)
    (h : Run step s as t) (hs : P s) : P t := by
  induction h with
  | nil => exact hs
  | cons hst _ ih => exact ih (hstep hst hs)

/-- Forward simulation: if every step of `step` from a state related to `x` is matched by a step
of `astep` with the same label from `x`, then every run is matched by a run of `astep` with the
same labels, and the end states are related. -/
theorem simulate {τ : Type*} {astep : τ → α → τ → Prop} {R : σ → τ → Prop}
    (hsim : ∀ {s a t x}, step s a t → R s x → ∃ y, astep x a y ∧ R t y)
    (h : Run step s as t) {x : τ} (hR : R s x) : ∃ y, Run astep x as y ∧ R t y := by
  induction h generalizing x with
  | nil s => exact ⟨x, .nil x, hR⟩
  | cons hst _ ih =>
    obtain ⟨x₁, hx₁, hR₁⟩ := hsim hst hR
    obtain ⟨y, hy, hRy⟩ := ih hR₁
    exact ⟨y, .cons hx₁ hy, hRy⟩

/-- A system that can take every label from every state related to an abstract state `x`, and
then is related to `g x a`, has a run of every label list, whose end is related to the fold of
`g` over the labels: the abstract system is a function, and the concrete one never gets stuck. -/
theorem exists_foldl {τ : Type*} {R : σ → τ → Prop} (g : τ → α → τ)
    (hstep : ∀ {s x} (a : α), R s x → ∃ t, step s a t ∧ R t (g x a)) :
    ∀ (as : List α) {s : σ} {x : τ}, R s x → ∃ t, Run step s as t ∧ R t (as.foldl g x)
  | [], s, _, hR => ⟨s, .nil s, hR⟩
  | a :: as, _, _, hR => by
    obtain ⟨t, hst, hRt⟩ := hstep a hR
    obtain ⟨u, hu, hRu⟩ := exists_foldl g hstep as hRt
    exact ⟨u, .cons hst hu, hRu⟩

/-- A run tracked by an abstract state that each label updates by `g`: if every step from a
state related to `x` ends related to `g x a`, the end of a run is related to the fold of `g`
over its labels. -/
theorem foldl_simulate {τ : Type*} {R : σ → τ → Prop} (g : τ → α → τ)
    (hsim : ∀ {s a t x}, step s a t → R s x → R t (g x a)) (h : Run step s as t) {x : τ}
    (hR : R s x) : R t (as.foldl g x) := by
  induction h generalizing x with
  | nil => exact hR
  | cons hst _ ih => exact ih (hsim hst hR)

end Run

/-- The states that some run from an initial state reaches. -/
def Reachable (init : σ → Prop) (step : σ → α → σ → Prop) (t : σ) : Prop :=
  ∃ s as, init s ∧ Run step s as t

namespace Reachable

theorem of_init (h : init s) : Reachable init step s := ⟨s, [], h, .nil s⟩

theorem of_run (h : init s) (hr : Run step s as t) : Reachable init step t := ⟨s, as, h, hr⟩

theorem of_step (h : Reachable init step s) (h' : step s a t) : Reachable init step t := by
  obtain ⟨s₀, as, h₀, hr⟩ := h
  exact ⟨s₀, as ++ [a], h₀, hr.snoc h'⟩

theorem append_run (h : Reachable init step s) (hr : Run step s as t) : Reachable init step t := by
  obtain ⟨s₀, bs, h₀, hr₀⟩ := h
  exact ⟨s₀, bs ++ as, h₀, hr₀.append hr⟩

/-- The invariant rule: a property of every initial state that every step preserves holds in
every reachable state. -/
theorem invariant {P : σ → Prop} (hinit : ∀ {s}, init s → P s)
    (hstep : ∀ {s a t}, step s a t → P s → P t) (h : Reachable init step t) : P t := by
  obtain ⟨s, as, hs, hr⟩ := h
  exact hr.invariant hstep (hinit hs)

/-- The invariant rule for a step relation whose steps may use an invariant of their source
state that is already known to hold in every reachable state. -/
theorem invariant_of {P Q : σ → Prop} (hQ : ∀ {s}, Reachable init step s → Q s)
    (hinit : ∀ {s}, init s → P s)
    (hstep : ∀ {s a t}, Q s → step s a t → P s → P t) (h : Reachable init step t) : P t := by
  -- carry reachability along with `P`, so that `Q` is available at the source of each step
  have key : Reachable init step t ∧ P t := by
    refine invariant (P := fun s => Reachable init step s ∧ P s) ?_ ?_ h
    · intro s hs
      exact ⟨of_init hs, hinit hs⟩
    · intro s a t hst ⟨hr, hp⟩
      exact ⟨hr.of_step hst, hstep (hQ hr) hst hp⟩
  exact key.2

end Reachable

end Lts
