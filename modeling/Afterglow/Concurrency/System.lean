import Mathlib.Logic.Relation
import Mathlib.Logic.Function.Basic
import Afterglow.Concurrency.Prog

/-!
# Interleaving thread systems

A system runs one `Prog` per thread over a shared state. A step picks any thread, lets the semantics
answer its next operation, and appends the answered operation to the trace. An operation that the
semantics cannot answer in the current state blocks its thread.

The trace is the only history. What a thread did is read off it by `own`, and `own_after` says that
this is a run of the thread's own program: facts about what one thread issued, and in which order,
are facts of sequential `Prog` runs.
-/

namespace Afterglow.Concurrency

/-- What an operation of thread `i` may be answered in a shared state, and the state it leaves. -/
structure Semantics (E : Type) (R : E → Type) (ι S : Type) where
  act : ι → S → (e : E) → R e → S → Prop

/-- A trace entry: an event and the thread it belongs to. -/
structure Entry (E : Type) (R : E → Type) (ι : Type) extends Event E R where
  who : ι

/-- A state of the whole system: shared state, what each thread has left to run, and the trace. -/
structure Config (E : Type) (R : E → Type) (ι S : Type) (α : ι → Type) where
  shared : S
  prog : (i : ι) → Prog E R (α i)
  trace : List (Entry E R ι)

variable {E : Type} {R : E → Type} {ι S : Type} {α : ι → Type} [DecidableEq ι]

namespace Config

/-- The state in which every thread is about to start. -/
def start (s : S) (p : (i : ι) → Prog E R (α i)) : Config E R ι S α := ⟨s, p, []⟩

/-- Thread `i` got answer `r` to operation `e`, leaving shared state `s` and program `p`. -/
def advance (c : Config E R ι S α) (i : ι) (e : E) (r : R e) (s : S) (p : Prog E R (α i)) :
    Config E R ι S α :=
  ⟨s, Function.update c.prog i p, c.trace ++ [⟨⟨e, r⟩, i⟩]⟩

end Config

/-- The events of thread `i`, in order. -/
def own (i : ι) (tr : List (Entry E R ι)) : List (Event E R) :=
  (tr.filter fun en => en.who = i).map Entry.toEvent

@[simp] theorem own_nil (i : ι) : own i ([] : List (Entry E R ι)) = [] := rfl

theorem own_append (i : ι) (tr tr' : List (Entry E R ι)) :
    own i (tr ++ tr') = own i tr ++ own i tr' := by
  simp [own]

@[simp] theorem own_snoc_self (i : ι) (tr : List (Entry E R ι)) (ev : Event E R) :
    own i (tr ++ [⟨ev, i⟩]) = own i tr ++ [ev] := by
  simp [own]

theorem own_snoc_of_ne {i j : ι} (h : j ≠ i) (tr : List (Entry E R ι)) (ev : Event E R) :
    own i (tr ++ [⟨ev, j⟩]) = own i tr := by
  simp [own, h]

theorem mem_own {i : ι} {tr : List (Entry E R ι)} {ev : Event E R} :
    ev ∈ own i tr ↔ (⟨ev, i⟩ : Entry E R ι) ∈ tr := by
  simp only [own, List.mem_map, List.mem_filter, decide_eq_true_eq]
  constructor
  · rintro ⟨⟨ev', j⟩, ⟨hmem, rfl⟩, rfl⟩
    exact hmem
  · intro hmem
    exact ⟨_, ⟨hmem, rfl⟩, rfl⟩

variable (sem : Semantics E R ι S)

/-- One step: some thread's next operation is answered. -/
inductive Step : Config E R ι S α → Config E R ι S α → Prop
  | mk {c : Config E R ι S α} {i : ι} {e : E} {k : R e → Prog E R (α i)} {r : R e} {s : S}
      (hprog : c.prog i = .op e k) (hact : sem.act i c.shared e r s) :
      Step c (c.advance i e r s (k r))

/-- The states reachable from `c₀` under any interleaving and any answers. -/
def Reachable (c₀ c : Config E R ι S α) : Prop := Relation.ReflTransGen (Step sem) c₀ c

variable {sem}

/-- An invariant of single steps is an invariant of runs. -/
theorem Reachable.induct {c₀ c : Config E R ι S α} (h : Reachable sem c₀ c)
    {P : Config E R ι S α → Prop} (hinit : P c₀)
    (hstep : ∀ c i e (k : R e → Prog E R (α i)) r s, Reachable sem c₀ c → P c →
      c.prog i = .op e k → sem.act i c.shared e r s → P (c.advance i e r s (k r))) : P c := by
  induction h with
  | refl => exact hinit
  | @tail b d hb hs ih =>
      obtain ⟨hprog, hact⟩ := hs
      exact hstep b _ _ _ _ _ hb ih hprog hact

theorem Reachable.step {c₀ c : Config E R ι S α} (h : Reachable sem c₀ c) {i : ι} {e : E}
    {k : R e → Prog E R (α i)} {r : R e} {s : S} (hprog : c.prog i = .op e k)
    (hact : sem.act i c.shared e r s) : Reachable sem c₀ (c.advance i e r s (k r)) :=
  Relation.ReflTransGen.tail h (.mk hprog hact)

/-- What a thread did so far is a partial run of its program. -/
theorem Reachable.own_after {s₀ : S} {p : (i : ι) → Prog E R (α i)} {c : Config E R ι S α}
    (h : Reachable sem (.start s₀ p) c) (i : ι) : (p i).After (own i c.trace) (c.prog i) := by
  refine h.induct (P := fun c => (p i).After (own i c.trace) (c.prog i)) (.refl _) ?_
  intro c j e k r s _ ih hprog _
  by_cases hij : j = i
  · subst hij
    simp only [Config.advance, Function.update_self, own_snoc_self]
    rw [hprog] at ih
    exact ih.snoc r
  · simp only [Config.advance, Function.update_of_ne (Ne.symm hij), own_snoc_of_ne hij]
    exact ih

/-- A returned thread has done a complete run of its program. -/
theorem Reachable.own_runs {s₀ : S} {p : (i : ι) → Prog E R (α i)} {c : Config E R ι S α}
    (h : Reachable sem (.start s₀ p) c) {i : ι} {a : α i} (hret : c.prog i = .ret a) :
    (p i).Runs (own i c.trace) a := by
  have hafter := h.own_after i
  rw [hret] at hafter
  exact hafter.runs

/-- Traces grow. -/
theorem Reachable.own_isPrefix {c₀ c : Config E R ι S α} (h : Reachable sem c₀ c) (i : ι) :
    own i c₀.trace <+: own i c.trace := by
  refine h.induct (P := fun c => own i c₀.trace <+: own i c.trace) List.prefix_rfl ?_
  intro c j e k r s _ ih _ _
  rw [Config.advance, own_append]
  exact ih.trans (List.prefix_append _ _)

/-- The state in which a thread issued one of its operations. -/
theorem Reachable.own_split {c₀ c : Config E R ι S α} (h : Reachable sem c₀ c) {i : ι}
    {t t' : List (Event E R)} {ev : Event E R} (heq : own i c.trace = t ++ ev :: t')
    (hle : (own i c₀.trace).length ≤ t.length) :
    ∃ c₁ k s, Reachable sem c₀ c₁ ∧ own i c₁.trace = t ∧ c₁.prog i = .op ev.op k ∧
      sem.act i c₁.shared ev.op ev.ans s ∧ Reachable sem (c₁.advance i ev.op ev.ans s (k ev.ans)) c := by
  induction h generalizing t' with
  | refl =>
      rw [heq, List.length_append, List.length_cons] at hle
      omega
  | @tail b c hb hs ih =>
      obtain @⟨j, e, k, r, s, hprog, hact⟩ := hs
      by_cases hij : j = i
      · subst hij
        simp only [Config.advance, own_snoc_self] at heq
        rcases List.eq_nil_or_concat t' with rfl | ⟨t', last, rfl⟩
        · obtain ⟨hown, hev⟩ := List.append_inj' heq rfl
          cases hev
          exact ⟨b, k, s, hb, hown, hprog, hact, .refl⟩
        · rw [List.concat_eq_append, ← List.cons_append, ← List.append_assoc] at heq
          obtain ⟨c₁, k₁, s₁, h₁, hown, hprog₁, hact₁, hrest⟩ := ih (List.append_inj' heq rfl).1
          exact ⟨c₁, k₁, s₁, h₁, hown, hprog₁, hact₁, hrest.step hprog hact⟩
      · simp only [Config.advance, own_snoc_of_ne hij] at heq
        obtain ⟨c₁, k₁, s₁, h₁, hown, hprog₁, hact₁, hrest⟩ := ih heq
        exact ⟨c₁, k₁, s₁, h₁, hown, hprog₁, hact₁, hrest.step hprog hact⟩

/-! ## Driving a system

A scheduler picks a thread at a time and an oracle answers its operation. What this produces is
reachable whenever the oracle only gives answers that the semantics allows. -/

/-- Let the threads named in `schedule` take a step each, answered by `oracle`. -/
def drive (oracle : ι → S → (e : E) → Option (R e × S)) :
    List ι → Config E R ι S α → Option (Config E R ι S α)
  | [], c => some c
  | i :: rest, c =>
    match c.prog i with
    | .ret _ => none
    | .op e k =>
      match oracle i c.shared e with
      | none => none
      | some (r, s) => drive oracle rest (c.advance i e r s (k r))

theorem drive_reachable {oracle : ι → S → (e : E) → Option (R e × S)}
    (hsound : ∀ i s e r s', oracle i s e = some (r, s') → sem.act i s e r s')
    {schedule : List ι} {c₀ c c' : Config E R ι S α} (h : Reachable sem c₀ c)
    (hd : drive oracle schedule c = some c') : Reachable sem c₀ c' := by
  induction schedule generalizing c with
  | nil =>
      obtain rfl := Option.some.inj hd
      exact h
  | cons i rest ih =>
      rw [drive] at hd
      split at hd
      · cases hd
      · next e k hprog =>
          split at hd
          · cases hd
          · next r s horacle => exact ih (h.step hprog (hsound _ _ _ _ _ horacle)) hd

/-- Along a run driven by answers that keep `P`, every step starts in `P`. -/
theorem drive_keeping {oracle : ι → S → (e : E) → Option (R e × S)} {P : S → Prop}
    (hsound : ∀ i s e r s', oracle i s e = some (r, s') → sem.act i s e r s')
    (hkeep : ∀ i s e r s', P s → oracle i s e = some (r, s') → P s') {schedule : List ι}
    {c c' : Config E R ι S α} (hc : P c.shared) (hd : drive oracle schedule c = some c') :
    Relation.ReflTransGen (fun a b => Step sem a b ∧ P a.shared) c c' := by
  induction schedule generalizing c with
  | nil =>
      obtain rfl := Option.some.inj hd
      exact .refl
  | cons i rest ih =>
      rw [drive] at hd
      split at hd
      · cases hd
      · next e k hprog =>
          split at hd
          · cases hd
          · next r s horacle =>
              refine .head ⟨.mk hprog (hsound _ _ _ _ _ horacle), hc⟩ (ih ?_ hd)
              exact hkeep _ _ _ _ _ hc horacle

/-! ## Mapping results

Code that only turns results into others takes no step of its own. -/

theorem Prog.bind_ret_eq_op {A B : Type} {f : A → B} {p : Prog E R A} {e : E} {k : R e → Prog E R B}
    (h : (p >>= fun a => .ret (f a)) = .op e k) :
    ∃ k', p = .op e k' ∧ k = fun r => k' r >>= fun a => .ret (f a) := by
  cases p with
  | ret a => cases h
  | op e' k' =>
    cases h
    exact ⟨k', rfl, rfl⟩

theorem Prog.bind_ret_eq_ret {A B : Type} {f : A → B} {p : Prog E R A} {b : B}
    (h : (p >>= fun a => .ret (f a)) = .ret b) : ∃ a, p = .ret a ∧ b = f a := by
  cases p with
  | ret a =>
    cases h
    exact ⟨a, rfl, rfl⟩
  | op e k => cases h

variable {β : ι → Type}

/-- The same state, with the results of the threads mapped by `f`. -/
def Config.mapResults (f : (i : ι) → α i → β i) (c : Config E R ι S α) : Config E R ι S β where
  shared := c.shared
  prog i := c.prog i >>= fun a => .ret (f i a)
  trace := c.trace

theorem Config.mapResults_advance (f : (i : ι) → α i → β i) (c : Config E R ι S α) (i : ι) (e : E) (r : R e)
    (s : S) (p : Prog E R (α i)) : (c.advance i e r s p).mapResults f =
      (c.mapResults f).advance i e r s (p >>= fun a => .ret (f i a)) := by
  simp only [mapResults, advance, Config.mk.injEq, true_and, and_true]
  funext j
  by_cases hj : j = i
  · subst hj
    simp only [Function.update_self]
  · simp only [Function.update_of_ne hj]

/-- The runs with mapped results are the runs without, with their results mapped. -/
theorem Reachable.of_mapResults {f : (i : ι) → α i → β i} {c₀ : Config E R ι S α} {c : Config E R ι S β}
    (h : Reachable sem (c₀.mapResults f) c) : ∃ c', Reachable sem c₀ c' ∧ c = c'.mapResults f := by
  refine h.induct (P := fun c => ∃ c', Reachable sem c₀ c' ∧ c = c'.mapResults f) ⟨c₀, .refl, rfl⟩ ?_
  rintro c i e k r s _ ⟨c', hc', rfl⟩ hprog hact
  obtain ⟨k', hprog', rfl⟩ := Prog.bind_ret_eq_op hprog
  exact ⟨_, hc'.step hprog' hact, (c'.mapResults_advance f i e r s (k' r)).symm⟩

end Afterglow.Concurrency
