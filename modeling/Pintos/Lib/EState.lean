import Mathlib.Logic.Basic

/-!
# Running `EStateM` programs

A program of `EStateM ε σ` run from a state ends in `.ok a s'` or `.error e s'`, keeping the
state either way. These lemmas compute a sequence by the result of its first part, which is how
the proofs about a handler written in `do` notation go: one lemma per part, chained by
`bind_ok`.
-/

namespace EStateM

variable {ε σ α β : Type} {x : EStateM ε σ α} {f : α → EStateM ε σ β} {s s' : σ} {a : α} {e : ε}

theorem bind_ok (h : x s = .ok a s') : (x >>= f) s = f a s' := by
  show EStateM.bind x f s = _
  simp only [EStateM.bind, h]

theorem bind_error (h : x s = .error e s') : (x >>= f) s = .error e s' := by
  show EStateM.bind x f s = _
  simp only [EStateM.bind, h]

/-- A sequence that returns ran its first part to the end. -/
theorem bind_eq_ok {b : β} : (x >>= f) s = .ok b s' ↔ ∃ a s₁, x s = .ok a s₁ ∧ f a s₁ = .ok b s' := by
  constructor
  · intro h
    cases hx : x s with
    | ok a s₁ => rw [bind_ok hx] at h; exact ⟨a, s₁, rfl, h⟩
    | error e s₁ => rw [bind_error hx] at h; cases h
  · rintro ⟨a, s₁, hx, h⟩
    rw [bind_ok hx, h]

@[simp] theorem pure_apply (a : α) (s : σ) : (pure a : EStateM ε σ α) s = .ok a s := rfl

@[simp] theorem throw_apply (e : ε) (s : σ) : (throw e : EStateM ε σ α) s = .error e s := rfl

@[simp] theorem throw_bind_apply (e : ε) (s : σ) : ((throw e : EStateM ε σ α) >>= f) s = .error e s :=
  rfl

@[simp] theorem map_throw_apply (g : α → β) (e : ε) (s : σ) :
    (g <$> (throw e : EStateM ε σ α)) s = .error e s := rfl

@[simp] theorem get_apply (s : σ) : (get : EStateM ε σ σ) s = .ok s s := rfl

@[simp] theorem set_apply (s s' : σ) : (set s' : EStateM ε σ PUnit) s = .ok ⟨⟩ s' := rfl

@[simp] theorem modifyGet_apply (g : σ → α × σ) (s : σ) :
    (modifyGet g : EStateM ε σ α) s = .ok (g s).1 (g s).2 := rfl

@[simp] theorem modify_apply (g : σ → σ) (s : σ) :
    (modify g : EStateM ε σ PUnit) s = .ok ⟨⟩ (g s) := rfl

@[simp] theorem pure_bind_apply (a : α) (f : α → EStateM ε σ β) (s : σ) :
    (pure a >>= f) s = f a s := rfl

@[simp] theorem get_bind_apply (f : σ → EStateM ε σ β) (s : σ) : (get >>= f) s = f s s := rfl

@[simp] theorem set_bind_apply (s' : σ) (f : PUnit → EStateM ε σ β) (s : σ) :
    (set s' >>= f) s = f ⟨⟩ s' := rfl

@[simp] theorem modify_bind_apply (g : σ → σ) (f : PUnit → EStateM ε σ β) (s : σ) :
    (modify g >>= f) s = f ⟨⟩ (g s) := rfl

@[simp] theorem modifyGet_bind_apply (g : σ → α × σ) (f : α → EStateM ε σ β) (s : σ) :
    (modifyGet g >>= f) s = f (g s).1 (g s).2 := rfl

/-! ## Views a program leaves as they were -/

variable {γ : Type}

/-- The state a run ends in, whether it returns or fails. -/
def Result.state : Result ε σ α → σ
  | .ok _ s => s
  | .error _ s => s

@[simp] theorem Result.state_ok (a : α) (s : σ) : (Result.ok a s : Result ε σ α).state = s := rfl

@[simp] theorem Result.state_error (e : ε) (s : σ) : (Result.error e s : Result ε σ α).state = s :=
  rfl

/-- The value a run returns, if it returns. -/
def Result.value? : Result ε σ α → Option α
  | .ok a _ => some a
  | .error _ _ => none

/-- A run that returns `a` is `.ok a` in the state it ends in; with `value?` decidable, this
turns a computed run into an equation. -/
theorem Result.eq_ok_of_value? {r : Result ε σ α} (h : r.value? = some a) : r = .ok a r.state := by
  cases r with
  | ok b s => cases h; rfl
  | error e s => cases h

/-- The error a run fails with, if it fails. -/
def Result.error? : Result ε σ α → Option ε
  | .ok _ _ => none
  | .error e _ => some e

/-- A run that fails with `e` is `.error e` in the state it ends in. -/
theorem Result.eq_error_of_error? {r : Result ε σ α} {e : ε} (h : r.error? = some e) :
    r = .error e r.state := by
  cases r with
  | ok b s => cases h
  | error e' s => cases h; rfl

/-- `x` leaves the view `v` of the state as it was, however it ends. -/
def Keeps {γ : Type} (v : σ → γ) (x : EStateM ε σ α) : Prop := ∀ s, v (x s).state = v s

theorem Keeps.ok {v : σ → γ} (h : Keeps v x) (hx : x s = .ok a s') : v s' = v s := by
  have := h s
  rwa [hx] at this

theorem Keeps.error {v : σ → γ} (h : Keeps v x) (hx : x s = .error e s') : v s' = v s := by
  have := h s
  rwa [hx] at this

theorem Keeps.pure (v : σ → γ) (a : α) : Keeps v (pure a : EStateM ε σ α) := fun _ => rfl

theorem Keeps.throw (v : σ → γ) (e : ε) : Keeps v (throw e : EStateM ε σ α) := fun _ => rfl

theorem Keeps.get (v : σ → γ) : Keeps v (get : EStateM ε σ σ) := fun _ => rfl

theorem Keeps.modify {v : σ → γ} {g : σ → σ} (h : ∀ s, v (g s) = v s) :
    Keeps v (modify g : EStateM ε σ PUnit) := h

theorem Keeps.modifyGet {v : σ → γ} {g : σ → α × σ} (h : ∀ s, v (g s).2 = v s) :
    Keeps v (modifyGet g : EStateM ε σ α) := h

theorem Keeps.bind {v : σ → γ} (hx : Keeps v x) (hf : ∀ a, Keeps v (f a)) : Keeps v (x >>= f) := by
  intro s
  cases h : x s with
  | ok a s₁ =>
    rw [bind_ok h]
    exact (hf a s₁).trans (hx.ok h)
  | error e s₁ =>
    rw [bind_error h]
    exact hx.error h

theorem Keeps.map {δ : Type} {v : σ → γ} (g : α → δ) (hx : Keeps v x) : Keeps v (g <$> x) := by
  intro s
  show v (EStateM.map g x s).state = v s
  unfold EStateM.map
  cases h : x s with
  | ok a s₁ => exact hx.ok h
  | error e s₁ => exact hx.error h

theorem Keeps.ite {v : σ → γ} {c : Prop} [Decidable c] {y : EStateM ε σ α} (hx : Keeps v x)
    (hy : Keeps v y) : Keeps v (if c then x else y) := by
  split
  · exact hx
  · exact hy

/-! ## Pre- and postconditions -/

/-- Every run of `x` from a state that satisfies `P` and returns `a` ends in a state that
satisfies `Q a`. Runs that fail are not constrained. -/
def Triple (P : σ → Prop) (x : EStateM ε σ α) (Q : α → σ → Prop) : Prop :=
  ∀ ⦃s a s'⦄, P s → x s = .ok a s' → Q a s'

namespace Triple

variable {P P' : σ → Prop} {Q Q' : α → σ → Prop} {R : β → σ → Prop}

theorem ok (h : Triple P x Q) (hs : P s) (hx : x s = .ok a s') : Q a s' := h hs hx

theorem pure (h : ∀ s, P s → Q a s) : Triple P (Pure.pure a : EStateM ε σ α) Q := by
  intro s b s' hs hx
  cases hx
  exact h s hs

theorem throw (e : ε) : Triple P (MonadExcept.throw e : EStateM ε σ α) Q := by
  intro s b s' _ hx
  cases hx

theorem throw_bind (e : ε) {g : α → EStateM ε σ β} :
    Triple P (MonadExcept.throw e >>= g : EStateM ε σ β) R := by
  intro s b s' _ hx
  cases hx

theorem bind {g : α → EStateM ε σ β} {R' : α → σ → Prop} (hx : Triple P x R')
    (hg : ∀ a, Triple (R' a) (g a) R) : Triple P (x >>= g) R := by
  intro s b s' hs h
  obtain ⟨a, s₁, h₁, h₂⟩ := bind_eq_ok.mp h
  exact hg a (hx hs h₁) h₂

theorem ite {c : Prop} [Decidable c] {y : EStateM ε σ α} (hx : c → Triple P x Q)
    (hy : ¬c → Triple P y Q) : Triple P (if c then x else y) Q := by
  split
  · exact hx ‹_›
  · exact hy ‹_›

theorem mono (h : Triple P x Q) (hP : ∀ s, P' s → P s) (hQ : ∀ a s, Q a s → Q' a s) :
    Triple P' x Q' :=
  fun _ _ _ hs hx => hQ _ _ (h (hP _ hs) hx)

/-- A program that keeps the view `v` keeps every property of the view. -/
theorem of_keeps {v : σ → γ} (hx : Keeps v x) (hP : ∀ s s', v s' = v s → P s → P s') :
    Triple P x fun _ => P :=
  fun s _ _ hs h => hP s _ (hx.ok h) hs

end Triple

end EStateM

namespace Except

variable {ε α β : Type} {x : Except ε α} {f : α → Except ε β} {b : β}

/-- An `Except` sequence that returns ran its first part to a value. -/
theorem bind_eq_ok : (x >>= f) = .ok b ↔ ∃ a, x = .ok a ∧ f a = .ok b := by
  cases x with
  | error e => simp [bind, Except.bind]
  | ok a => simp [bind, Except.bind]

theorem ok_bind (a : α) (f : α → Except ε β) : (Except.ok a >>= f) = f a := rfl

end Except
