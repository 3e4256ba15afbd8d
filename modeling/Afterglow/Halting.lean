import Mathlib.Tactic.Common

/-!
# Programs that return or halt

A program over a state that may end the process, `StateT σ (Except ε)`. `Leads` speaks about both ways
to end at once: `E` about how the process halts, `Q` about what a call returns and leaves behind. Its
rules follow the program text, so a specification of a call is used by `Leads.bind` and `Leads.mono`
and the call itself is never unfolded.
-/

namespace Afterglow.Halting

variable {σ τ ε α β : Type}

/-- From `s` the program either returns, and `Q` holds of its value and of the state it leaves, or it
halts, and `E` holds of how. -/
def Leads (m : StateT σ (Except ε) α) (s : σ) (E : ε → Prop) (Q : α → σ → Prop) : Prop :=
  match m s with
  | .ok (a, s') => Q a s'
  | .error e => E e

/-- A program that works on a part of the state. -/
def zoom (part : τ → σ) (put : σ → τ → τ) (m : StateT σ (Except ε) α) : StateT τ (Except ε) α :=
  fun t => (m (part t)).map fun p => (p.1, put p.2 t)

section Rules

variable {m : StateT σ (Except ε) α} {s : σ} {E : ε → Prop} {Q Q' : α → σ → Prop}

theorem Leads.pure {a : α} (h : Q a s) : Leads (Pure.pure a) s E Q := h

theorem Leads.throw {e : ε} (h : E e) : Leads (MonadExcept.throw e) s E Q := h

theorem Leads.lift_ok {a : α} (h : Q a s) : Leads (liftM (Except.ok a : Except ε α)) s E Q := h

theorem Leads.lift_error {e : ε} (h : E e) : Leads (liftM (Except.error e : Except ε α)) s E Q := h

/-- What a call leaves is where the rest of the program starts. -/
theorem Leads.bind {f : α → StateT σ (Except ε) β} {P : β → σ → Prop}
    (h : Leads m s E fun a s' => Leads (f a) s' E P) : Leads (m >>= f) s E P := by
  unfold Leads at h ⊢
  show match StateT.bind m f s with | .ok (b, s') => P b s' | .error e => E e
  cases hm : m s with
  | error e =>
    rw [hm] at h
    simp only [StateT.bind, hm]
    exact h
  | ok p =>
    rw [hm] at h
    simp only [StateT.bind, hm]
    exact h

theorem Leads.mono (h : Leads m s E Q) (hQ : ∀ a s', Q a s' → Q' a s') : Leads m s E Q' := by
  unfold Leads at h ⊢
  cases hm : m s with
  | error e =>
    rw [hm] at h
    exact h
  | ok p =>
    rw [hm] at h
    exact hQ _ _ h

theorem Leads.weaken {E' : ε → Prop} (h : Leads m s E Q) (hE : ∀ e, E e → E' e) : Leads m s E' Q := by
  unfold Leads at h ⊢
  cases hm : m s with
  | error e =>
    rw [hm] at h
    exact hE _ h
  | ok p =>
    rw [hm] at h
    exact h

theorem Leads.get {P : σ → σ → Prop} (h : P s s) : Leads MonadState.get s E P := h

/-- Work on a part of the state leaves the rest alone. -/
theorem Leads.zoom {part : τ → σ} {put : σ → τ → τ} {t : τ} {P : α → τ → Prop}
    (h : Leads m (part t) E fun a s' => P a (put s' t)) : Leads (zoom part put m) t E P := by
  unfold Leads at h ⊢
  show match (m (part t)).map _ with | .ok (a, t') => P a t' | .error e => E e
  cases hm : m (part t) with
  | error e =>
    rw [hm] at h
    exact h
  | ok p =>
    rw [hm] at h
    exact h

/-- A program without a value to return halts. -/
theorem Leads.halts {m : StateT σ (Except ε) Empty} {Q : Empty → σ → Prop} (h : Leads m s E Q) :
    ∃ e, m s = .error e ∧ E e := by
  unfold Leads at h
  cases hm : m s with
  | error e =>
    rw [hm] at h
    exact ⟨e, rfl, h⟩
  | ok p => exact p.1.elim

end Rules

end Afterglow.Halting
