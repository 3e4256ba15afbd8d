import Afterglow.Concurrency.System

/-!
# Disciplines: what a thread may do next, and what follows for the whole system

A discipline tracks a local state per thread (what the thread holds, or what it has done) and says
which operations are allowed in it. `Safe` is the weakest precondition of a program for a discipline;
it composes along `bind`, so each function of the modelled code gets one lemma.

`Upholds` is the other half: an invariant of shared state, trace and all local states that every
allowed operation keeps, however it is answered. Together they give the invariant in every reachable
state, with every thread still on its discipline (`Upholds.reachable`).
-/

namespace Afterglow.Concurrency

/-- A discipline on the operations of a thread, relative to a local state `L`. -/
structure Discipline (E : Type) (R : E → Type) (ι L : Type) where
  /-- The operations thread `i` may issue in local state `l`. -/
  pre : ι → L → E → Prop
  /-- The local state after an answer. -/
  next : ι → L → (e : E) → R e → L

variable {E : Type} {R : E → Type} {ι S L : Type} {α β : Type}

/-- Run from local state `l`, thread `i` only issues allowed operations and returns in `Q`. -/
def Prog.Safe (D : Discipline E R ι L) (i : ι) (Q : α → L → Prop) : Prog E R α → L → Prop
  | .ret a, l => Q a l
  | .op e k, l => D.pre i l e ∧ ∀ r, (k r).Safe D i Q (D.next i l e r)

namespace Prog.Safe

variable {D : Discipline E R ι L} {i : ι} {Q Q' : α → L → Prop}

theorem op {e : E} {k : R e → Prog E R α} {l : L} (hpre : D.pre i l e)
    (hk : ∀ r, (k r).Safe D i Q (D.next i l e r)) : (Prog.op e k).Safe D i Q l := ⟨hpre, hk⟩

/-- Issue one operation and continue. -/
theorem perform {e : E} {f : R e → Prog E R α} {l : L} (hpre : D.pre i l e)
    (hf : ∀ r, (f r).Safe D i Q (D.next i l e r)) : (Prog.perform e >>= f).Safe D i Q l := ⟨hpre, hf⟩

theorem mono {p : Prog E R α} {l : L} (h : p.Safe D i Q l) (hQ : ∀ a l, Q a l → Q' a l) :
    p.Safe D i Q' l := by
  induction p generalizing l with
  | ret a => exact hQ a l h
  | op e k ih => exact ⟨h.1, fun r => ih r (h.2 r)⟩

theorem bind {p : Prog E R α} {f : α → Prog E R β} {Q : β → L → Prop} {l : L}
    (h : p.Safe D i (fun a l => (f a).Safe D i Q l) l) : (p >>= f).Safe D i Q l := by
  induction p generalizing l with
  | ret a => exact h
  | op e k ih => exact ⟨h.1, fun r => ih r (h.2 r)⟩

theorem deferring {d : Prog E R Unit} {body : Prog E R α} {l : L}
    (h : body.Safe D i (fun a l => d.Safe D i (fun _ l => Q a l) l) l) :
    (Prog.deferring d body).Safe D i Q l :=
  bind (h.mono fun _ _ hd => bind (hd.mono fun _ _ hq => hq))

/-- A program all of whose operations are allowed and leave the local state alone. -/
theorem of_all {p : Prog E R α} {l : L}
    (h : p.All fun e => D.pre i l e ∧ ∀ r, D.next i l e r = l) : p.Safe D i (fun _ l' => l' = l) l := by
  induction p with
  | ret a => exact rfl
  | op e k ih =>
      refine ⟨h.1.1, fun r => ?_⟩
      rw [h.1.2 r]
      exact ih r (h.2 r)

/-- The same for a program whose results are known. -/
theorem of_all_returns {p : Prog E R α} {l : L} {P : α → Prop}
    (h : p.All fun e => D.pre i l e ∧ ∀ r, D.next i l e r = l) (hP : p.Returns P) :
    p.Safe D i (fun a l' => l' = l ∧ P a) l := by
  induction p with
  | ret a => exact ⟨rfl, hP⟩
  | op e k ih =>
      refine ⟨h.1.1, fun r => ?_⟩
      rw [h.1.2 r]
      exact ih r (h.2 r) (hP r)

end Prog.Safe

variable [DecidableEq ι] {A : ι → Type} {sem : Semantics E R ι S}

/-- `I` is kept by every operation that the discipline allows, in every way it can be answered. -/
def Upholds (sem : Semantics E R ι S) (D : Discipline E R ι L)
    (I : S → List (Entry E R ι) → (ι → L) → Prop) : Prop :=
  ∀ s tr ℓ i e r s', I s tr ℓ → D.pre i (ℓ i) e → sem.act i s e r s' →
    I s' (tr ++ [⟨⟨e, r⟩, i⟩]) (Function.update ℓ i (D.next i (ℓ i) e r))

/-- The invariant, with every thread on its discipline. -/
def Holds (D : Discipline E R ι L) (I : S → List (Entry E R ι) → (ι → L) → Prop)
    (Q : (i : ι) → A i → L → Prop) (c : Config E R ι S A) : Prop :=
  ∃ ℓ : ι → L, I c.shared c.trace ℓ ∧ ∀ i, (c.prog i).Safe D i (Q i) (ℓ i)

/-- Disciplined threads keep an upheld invariant along every run. -/
theorem Upholds.reachable {D : Discipline E R ι L} {I : S → List (Entry E R ι) → (ι → L) → Prop}
    (hup : Upholds sem D I) {Q : (i : ι) → A i → L → Prop} {c₀ c : Config E R ι S A}
    (h : Reachable sem c₀ c) (hinit : Holds D I Q c₀) : Holds D I Q c := by
  refine h.induct (P := Holds D I Q) hinit ?_
  rintro c i e k r s _ ⟨ℓ, hI, hsafe⟩ hprog hact
  have hi := hsafe i
  rw [hprog] at hi
  refine ⟨Function.update ℓ i (D.next i (ℓ i) e r), hup _ _ _ _ _ _ _ hI hi.1 hact, ?_⟩
  intro j
  by_cases hij : j = i
  · subst hij
    simp only [Config.advance, Function.update_self]
    exact hi.2 r
  · simp only [Config.advance, Function.update_of_ne hij]
    exact hsafe j

/-! ## Local states as functions of the trace -/

/-- The local state that a thread reaches from `l` by the given events. -/
def Discipline.replay (D : Discipline E R ι L) (i : ι) (l : L) (events : List (Event E R)) : L :=
  events.foldl (fun l ev => D.next i l ev.op ev.ans) l

omit [DecidableEq ι] in
theorem Discipline.replay_snoc (D : Discipline E R ι L) (i : ι) (l : L) (events : List (Event E R))
    (ev : Event E R) :
    D.replay i l (events ++ [ev]) = D.next i (D.replay i l events) ev.op ev.ans := by
  simp [replay]

/-- The local states after a trace, for threads that start in `l₀`. -/
def Discipline.locals (D : Discipline E R ι L) (l₀ : ι → L) (tr : List (Entry E R ι)) (i : ι) : L :=
  D.replay i (l₀ i) (own i tr)

theorem Discipline.locals_snoc (D : Discipline E R ι L) (l₀ : ι → L) (tr : List (Entry E R ι))
    (i : ι) (e : E) (r : R e) :
    D.locals l₀ (tr ++ [⟨⟨e, r⟩, i⟩])
      = Function.update (D.locals l₀ tr) i (D.next i (D.locals l₀ tr i) e r) := by
  funext j
  by_cases hij : j = i
  · subst hij
    rw [Function.update_self, locals, own_snoc_self, replay_snoc]
    rfl
  · rw [Function.update_of_ne hij, locals, own_snoc_of_ne (Ne.symm hij)]
    rfl

/-- Disciplined threads keep an upheld invariant along every run, with the local states that the
trace determines. -/
theorem Upholds.locals {D : Discipline E R ι L} {I : S → List (Entry E R ι) → (ι → L) → Prop}
    (hup : Upholds sem D I) {Q : (i : ι) → A i → L → Prop} {s₀ : S} {p : (i : ι) → Prog E R (A i)}
    {l₀ : ι → L} {c : Config E R ι S A} (h : Reachable sem (.start s₀ p) c) (hinit : I s₀ [] l₀)
    (hsafe : ∀ i, (p i).Safe D i (Q i) (l₀ i)) :
    I c.shared c.trace (D.locals l₀ c.trace) ∧
      ∀ i, (c.prog i).Safe D i (Q i) (D.locals l₀ c.trace i) := by
  refine h.induct (P := fun c => I c.shared c.trace (D.locals l₀ c.trace) ∧
    ∀ i, (c.prog i).Safe D i (Q i) (D.locals l₀ c.trace i)) ⟨hinit, hsafe⟩ ?_
  rintro c i e k r s _ ⟨hI, hs⟩ hprog hact
  have hi := hs i
  rw [hprog] at hi
  simp only [Config.advance]
  rw [D.locals_snoc]
  refine ⟨hup _ _ _ _ _ _ _ hI hi.1 hact, ?_⟩
  intro j
  by_cases hij : j = i
  · subst hij
    simp only [Function.update_self]
    exact hi.2 r
  · simp only [Function.update_of_ne hij]
    exact hs j

end Afterglow.Concurrency
