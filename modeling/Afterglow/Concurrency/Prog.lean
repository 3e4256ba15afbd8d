import Mathlib.Logic.Function.Basic
import Mathlib.Tactic.Common

/-!
# Sequential programs over a signature of operations

A program is a well-founded tree: it either returns a value or issues an operation and continues
with whatever answer the environment gives. Code is embedded in this monad statement by statement;
everything the code cannot decide for itself (a lock being granted, a system call failing, the
result of another thread) is an answer.

`Runs` is the sequential trace semantics: the operations a program issued, with their answers, up to
its return. `All` bounds the operations a program can issue at all.
-/

namespace Afterglow.Concurrency

/-- A sequential program over operations `E`, where operation `e` is answered by a value of `R e`. -/
inductive Prog (E : Type) (R : E → Type) (α : Type) : Type
  | ret (a : α)
  | op (e : E) (k : R e → Prog E R α)

/-- An issued operation together with its answer. -/
structure Event (E : Type) (R : E → Type) where
  op : E
  ans : R op

namespace Prog

variable {E : Type} {R : E → Type} {α β γ : Type}

/-- Sequencing: graft `f a` onto every return `a`. -/
protected def bind : Prog E R α → (α → Prog E R β) → Prog E R β
  | .ret a, f => f a
  | .op e k, f => .op e fun r => (k r).bind f

instance : Monad (Prog E R) where
  pure := .ret
  bind := Prog.bind

/-- Issue one operation and return its answer. -/
def perform (e : E) : Prog E R (R e) := .op e .ret

/-- Go's `defer`: run `body`, then `d`, and hand back what `body` returned. Errors are values here,
so every way out of `body` passes through `d`. -/
def deferring (d : Prog E R Unit) (body : Prog E R α) : Prog E R α :=
  body >>= fun a => d >>= fun _ => pure a

/-- What a program has returned, if it is at its end. -/
def returned? : Prog E R α → Option α
  | .ret a => some a
  | .op _ _ => none

theorem returned?_eq_some {p : Prog E R α} {a : α} : p.returned? = some a ↔ p = .ret a := by
  cases p <;> simp [returned?]

@[simp] theorem pure_eq_ret (a : α) : (pure a : Prog E R α) = .ret a := rfl

@[simp] theorem ret_bind (a : α) (f : α → Prog E R β) : (Prog.ret a >>= f) = f a := rfl

@[simp] theorem op_bind (e : E) (k : R e → Prog E R α) (f : α → Prog E R β) :
    (Prog.op e k >>= f) = .op e fun r => k r >>= f := rfl

@[simp] theorem perform_bind (e : E) (f : R e → Prog E R β) :
    (perform e >>= f) = .op e f := rfl

theorem bind_ret (p : Prog E R α) : (p >>= Prog.ret) = p := by
  induction p with
  | ret a => rfl
  | op e k ih =>
      rw [op_bind]
      congr 1
      funext r
      exact ih r

theorem bind_assoc (p : Prog E R α) (f : α → Prog E R β) (g : β → Prog E R γ) :
    (p >>= f) >>= g = p >>= fun a => f a >>= g := by
  induction p with
  | ret a => rfl
  | op e k ih =>
      simp only [op_bind]
      congr 1
      funext r
      exact ih r

/-! ## Sequential traces -/

/-- `Runs p tr a`: answering the operations of `p` as in `tr` makes it return `a`. -/
inductive Runs : Prog E R α → List (Event E R) → α → Prop
  | ret (a : α) : Runs (.ret a) [] a
  | op {e : E} {k : R e → Prog E R α} {r : R e} {tr : List (Event E R)} {a : α}
      (h : Runs (k r) tr a) : Runs (.op e k) (⟨e, r⟩ :: tr) a

/-- `After p tr q`: answering the operations of `p` as in `tr` leaves the program `q` to run. -/
inductive After : Prog E R α → List (Event E R) → Prog E R α → Prop
  | refl (p : Prog E R α) : After p [] p
  | op {e : E} {k : R e → Prog E R α} {r : R e} {tr : List (Event E R)} {q : Prog E R α}
      (h : After (k r) tr q) : After (.op e k) (⟨e, r⟩ :: tr) q

theorem runs_ret_iff {a b : α} {tr : List (Event E R)} :
    Runs (Prog.ret a : Prog E R α) tr b ↔ tr = [] ∧ b = a := by
  constructor
  · rintro ⟨⟩
    exact ⟨rfl, rfl⟩
  · rintro ⟨rfl, rfl⟩
    exact .ret _

theorem runs_op_iff {e : E} {k : R e → Prog E R α} {tr : List (Event E R)} {a : α} :
    Runs (.op e k) tr a ↔ ∃ r tr', tr = ⟨e, r⟩ :: tr' ∧ Runs (k r) tr' a := by
  constructor
  · rintro (_ | h)
    exact ⟨_, _, rfl, h⟩
  · rintro ⟨r, tr', rfl, h⟩
    exact .op h

theorem runs_perform_iff {e : E} {f : R e → Prog E R α} {tr : List (Event E R)} {a : α} :
    Runs (perform e >>= f) tr a ↔ ∃ r tr', tr = ⟨e, r⟩ :: tr' ∧ Runs (f r) tr' a :=
  runs_op_iff

theorem runs_bind_iff {p : Prog E R α} {f : α → Prog E R β} {tr : List (Event E R)} {b : β} :
    Runs (p >>= f) tr b ↔ ∃ t₁ a t₂, tr = t₁ ++ t₂ ∧ Runs p t₁ a ∧ Runs (f a) t₂ b := by
  induction p generalizing tr with
  | ret a =>
      simp only [ret_bind, runs_ret_iff]
      constructor
      · intro h
        exact ⟨[], a, tr, rfl, ⟨rfl, rfl⟩, h⟩
      · rintro ⟨t₁, a', t₂, rfl, ⟨rfl, rfl⟩, h⟩
        exact h
  | op e k ih =>
      simp only [op_bind, runs_op_iff, ih]
      constructor
      · rintro ⟨r, tr', rfl, t₁, a, t₂, rfl, h₁, h₂⟩
        exact ⟨⟨e, r⟩ :: t₁, a, t₂, rfl, ⟨r, t₁, rfl, h₁⟩, h₂⟩
      · rintro ⟨t₁, a, t₂, rfl, ⟨r, t₁', rfl, h₁⟩, h₂⟩
        exact ⟨r, t₁' ++ t₂, rfl, t₁', a, t₂, rfl, h₁, h₂⟩

theorem runs_deferring_iff {d : Prog E R Unit} {body : Prog E R α} {tr : List (Event E R)} {a : α} :
    Runs (deferring d body) tr a ↔ ∃ t₁ t₂, tr = t₁ ++ t₂ ∧ Runs body t₁ a ∧ Runs d t₂ () := by
  simp only [deferring, runs_bind_iff, pure_eq_ret, runs_ret_iff]
  constructor
  · rintro ⟨t₁, a', t₂, rfl, h₁, t₃, u, t₄, rfl, h₂, rfl, rfl⟩
    exact ⟨t₁, t₃, by simp, h₁, h₂⟩
  · rintro ⟨t₁, t₂, rfl, h₁, h₂⟩
    exact ⟨t₁, a, t₂, rfl, h₁, t₂, (), [], by simp, h₂, rfl, rfl⟩

/-- One more answered operation extends a partial run. -/
theorem After.snoc {p : Prog E R α} {tr : List (Event E R)} {e : E} {k : R e → Prog E R α}
    (h : After p tr (.op e k)) (r : R e) : After p (tr ++ [⟨e, r⟩]) (k r) := by
  generalize hq : Prog.op e k = q at h
  induction h with
  | refl p =>
      subst hq
      exact .op (.refl _)
  | op h ih => exact .op (ih hq)

/-- A partial run that has reached a return is a run. -/
theorem After.runs {p : Prog E R α} {tr : List (Event E R)} {a : α} (h : After p tr (.ret a)) :
    Runs p tr a := by
  generalize hq : Prog.ret a = q at h
  induction h with
  | refl p =>
      subst hq
      exact .ret a
  | op h ih => exact .op (ih hq)

theorem After.append_runs {p q : Prog E R α} {tr tr' : List (Event E R)} {a : α} (h : After p tr q)
    (hq : Runs q tr' a) : Runs p (tr ++ tr') a := by
  induction h with
  | refl p => exact hq
  | op h ih => exact .op (ih hq)

theorem After.of_ret {a : α} {tr : List (Event E R)} {q : Prog E R α} (h : After (.ret a) tr q) :
    tr = [] ∧ q = .ret a := by
  cases h
  exact ⟨rfl, rfl⟩

theorem Runs.after {p : Prog E R α} {tr : List (Event E R)} {a : α} (h : Runs p tr a) :
    After p tr (.ret a) := by
  induction h with
  | ret a => exact .refl _
  | op h ih => exact .op ih

/-- A partial run of a sequence is still in its first part, or past it. -/
theorem After.of_bind {p : Prog E R α} {f : α → Prog E R β} {tr : List (Event E R)} {q : Prog E R β}
    (h : After (p >>= f) tr q) :
    (∃ p', After p tr p' ∧ q = p' >>= f) ∨
      ∃ t₁ a t₂, tr = t₁ ++ t₂ ∧ Runs p t₁ a ∧ After (f a) t₂ q := by
  induction p generalizing tr with
  | ret a => exact .inr ⟨[], a, tr, rfl, .ret a, h⟩
  | op e k ih =>
      rcases h with _ | @⟨_, _, r, tr, _, h⟩
      · exact .inl ⟨.op e k, .refl _, rfl⟩
      · rcases ih r h with ⟨p', hp', rfl⟩ | ⟨t₁, a, t₂, rfl, h₁, h₂⟩
        · exact .inl ⟨p', .op hp', rfl⟩
        · exact .inr ⟨⟨e, r⟩ :: t₁, a, t₂, rfl, .op h₁, h₂⟩

/-- Mapping the result adds no operations. -/
theorem After.of_map {p : Prog E R α} {f : α → β} {tr : List (Event E R)} {q : Prog E R β}
    (h : After (p >>= fun a => .ret (f a)) tr q) :
    ∃ p', After p tr p' ∧ q = p' >>= fun a => .ret (f a) := by
  rcases h.of_bind with hin | ⟨t₁, a, t₂, rfl, h₁, h₂⟩
  · exact hin
  · obtain ⟨rfl, rfl⟩ := h₂.of_ret
    refine ⟨.ret a, ?_, rfl⟩
    rw [List.append_nil]
    exact h₁.after

/-- Where every operation can be answered, every program can run to its return. -/
theorem exists_runs (hR : ∀ e, Nonempty (R e)) (p : Prog E R α) : ∃ tr a, Runs p tr a := by
  induction p with
  | ret a => exact ⟨[], a, .ret a⟩
  | op e k ih =>
      obtain ⟨r⟩ := hR e
      obtain ⟨tr, a, hrun⟩ := ih r
      exact ⟨⟨e, r⟩ :: tr, a, .op hrun⟩

/-- Then a partial run is the beginning of a run. -/
theorem After.exists_runs (hR : ∀ e, Nonempty (R e)) {p q : Prog E R α} {tr : List (Event E R)}
    (h : After p tr q) : ∃ tr' a, Runs p (tr ++ tr') a := by
  obtain ⟨tr', a, hrun⟩ := Prog.exists_runs hR q
  exact ⟨tr', a, h.append_runs hrun⟩

/-! ## Operations a program can issue -/

/-- Every operation that `p` can issue, whatever the answers, satisfies `P`. -/
def All (P : E → Prop) : Prog E R α → Prop
  | .ret _ => True
  | .op e k => P e ∧ ∀ r, (k r).All P

@[simp] theorem all_ret (P : E → Prop) (a : α) : All P (Prog.ret a : Prog E R α) := trivial

@[simp] theorem all_op {P : E → Prop} {e : E} {k : R e → Prog E R α} :
    All P (.op e k) ↔ P e ∧ ∀ r, (k r).All P := Iff.rfl

theorem All.perform {P : E → Prop} {e : E} {f : R e → Prog E R α} (he : P e)
    (hf : ∀ r, (f r).All P) : (Prog.perform e >>= f).All P := ⟨he, hf⟩

theorem All.bind {P : E → Prop} {p : Prog E R α} {f : α → Prog E R β} (hp : p.All P)
    (hf : ∀ a, (f a).All P) : (p >>= f).All P := by
  induction p with
  | ret a => exact hf a
  | op e k ih => exact ⟨hp.1, fun r => ih r (hp.2 r)⟩

theorem All.deferring {P : E → Prop} {d : Prog E R Unit} {body : Prog E R α} (hd : d.All P)
    (hb : body.All P) : (deferring d body).All P :=
  hb.bind fun _ => hd.bind fun _ => trivial

/-- What bounds the operations of a program bounds the events of its runs. -/
theorem Runs.all {P : E → Prop} {p : Prog E R α} {tr : List (Event E R)} {a : α}
    (h : Runs p tr a) (hp : p.All P) : ∀ ev ∈ tr, P ev.op := by
  induction h with
  | ret a => simp
  | op h ih =>
      intro ev hev
      rcases List.mem_cons.mp hev with rfl | hev
      · exact hp.1
      · exact ih (hp.2 _) ev hev

/-- The same for partial runs, and for what is left to run. -/
theorem After.all {P : E → Prop} {p q : Prog E R α} {tr : List (Event E R)} (h : After p tr q)
    (hp : p.All P) : (∀ ev ∈ tr, P ev.op) ∧ q.All P := by
  induction h with
  | refl p => exact ⟨by simp, hp⟩
  | op h ih =>
      obtain ⟨htr, hq⟩ := ih (hp.2 _)
      refine ⟨?_, hq⟩
      intro ev hev
      rcases List.mem_cons.mp hev with rfl | hev
      · exact hp.1
      · exact htr ev hev

theorem All.mono {P P' : E → Prop} {p : Prog E R α} (hp : p.All P) (h : ∀ e, P e → P' e) :
    p.All P' := by
  induction p with
  | ret a => trivial
  | op e k ih => exact ⟨h e hp.1, fun r => ih r (hp.2 r)⟩

/-! ## Operations that come last -/

/-- After an operation in `P`, the program returns at once. -/
def Last (P : E → Prop) : Prog E R α → Prop
  | .ret _ => True
  | .op e k => (P e → ∀ r, ∃ a, k r = .ret a) ∧ ∀ r, (k r).Last P

theorem Last.bind {P : E → Prop} {p : Prog E R α} {f : α → Prog E R β} (hp : p.All fun e => ¬ P e)
    (hf : ∀ a, (f a).Last P) : (p >>= f).Last P := by
  induction p with
  | ret a => exact hf a
  | op e k ih => exact ⟨fun he => absurd he hp.1, fun r => ih r (hp.2 r)⟩

/-- Once it has issued such an operation, the program has returned. -/
theorem After.ret_of_last {P : E → Prop} {p q : Prog E R α} {tr : List (Event E R)} (h : After p tr q)
    (hp : p.Last P) {ev : Event E R} (hev : ev ∈ tr) (hP : P ev.op) : ∃ a, q = .ret a := by
  induction h with
  | refl p => cases hev
  | @op e k r tr q h ih =>
      rcases List.mem_cons.mp hev with rfl | hev
      · obtain ⟨a, ha⟩ := hp.1 hP r
        rw [ha] at h
        cases h
        exact ⟨a, rfl⟩
      · exact ih (hp.2 r) hev

/-! ## What a program can return -/

/-- Whatever the answers, `p` returns a value in `Q`. -/
def Returns (Q : α → Prop) : Prog E R α → Prop
  | .ret a => Q a
  | .op _ k => ∀ r, (k r).Returns Q

theorem Returns.bind {Q : β → Prop} {p : Prog E R α} {f : α → Prog E R β}
    (h : p.Returns fun a => (f a).Returns Q) : (p >>= f).Returns Q := by
  induction p with
  | ret a => exact h
  | op e k ih => exact fun r => ih r (h r)

theorem returns_true (p : Prog E R α) : p.Returns fun _ => True := by
  induction p with
  | ret a => trivial
  | op e k ih => exact ih

theorem Returns.mono {Q Q' : α → Prop} {p : Prog E R α} (h : p.Returns Q) (hQ : ∀ a, Q a → Q' a) :
    p.Returns Q' := by
  induction p with
  | ret a => exact hQ a h
  | op e k ih => exact fun r => ih r (h r)

theorem Returns.deferring {Q : α → Prop} {d : Prog E R Unit} {body : Prog E R α}
    (h : body.Returns Q) : (Prog.deferring d body).Returns Q :=
  Returns.bind (h.mono fun _ hQ => Returns.bind ((returns_true d).mono fun _ _ => hQ))

/-- What bounds the results of a program may be used for the operations that follow. -/
theorem All.bind_returns {P : E → Prop} {Q : α → Prop} {p : Prog E R α} {f : α → Prog E R β}
    (hp : p.All P) (hQ : p.Returns Q) (hf : ∀ a, Q a → (f a).All P) : (p >>= f).All P := by
  induction p with
  | ret a => exact hf a hQ
  | op e k ih => exact ⟨hp.1, fun r => ih r (hp.2 r) (hQ r)⟩

theorem returns_of_runs {Q : α → Prop} {p : Prog E R α} (h : ∀ tr a, Runs p tr a → Q a) :
    p.Returns Q := by
  induction p with
  | ret a => exact h [] a (.ret a)
  | op e k ih => exact fun r => ih r fun tr a hrun => h _ a (.op hrun)

theorem Runs.returns {Q : α → Prop} {p : Prog E R α} {tr : List (Event E R)} {a : α}
    (h : Runs p tr a) (hp : p.Returns Q) : Q a := by
  induction h with
  | ret a => exact hp
  | op h ih => exact ih (hp _)

/-! ## Evaluation

Where the answers are given by a function, a program is too. -/

/-- What `p` returns when `f` answers its operations; `none` if it issues one that `f` leaves open. -/
def eval? (f : (e : E) → Option (R e)) : Prog E R α → Option α
  | .ret a => some a
  | .op e k => (f e).bind fun r => (k r).eval? f

section Eval

variable {f : (e : E) → Option (R e)}

@[simp] theorem eval?_ret (a : α) : (Prog.ret a : Prog E R α).eval? f = some a := rfl

@[simp] theorem eval?_op (e : E) (k : R e → Prog E R α) :
    (Prog.op e k).eval? f = (f e).bind fun r => (k r).eval? f := rfl

@[simp] theorem eval?_perform (e : E) : (perform e : Prog E R (R e)).eval? f = f e := by
  rw [perform, eval?_op]
  cases f e <;> rfl

@[simp] theorem eval?_bind (p : Prog E R α) (q : α → Prog E R β) :
    (p >>= q).eval? f = (p.eval? f).bind fun a => (q a).eval? f := by
  induction p with
  | ret a => rfl
  | op e k ih =>
      rw [op_bind, eval?_op, eval?_op, Option.bind_assoc]
      congr 1
      funext r
      exact ih r

@[simp] theorem eval?_deferring (d : Prog E R Unit) (body : Prog E R α) :
    (deferring d body).eval? f = (body.eval? f).bind fun a => (d.eval? f).map fun _ => a := by
  rw [deferring, eval?_bind]
  congr 1
  funext a
  rw [eval?_bind]
  cases d.eval? f <;> rfl

/-- An evaluation is a run whose answers are those of `f`. -/
theorem runs_of_eval? {p : Prog E R α} {a : α} (h : p.eval? f = some a) :
    ∃ tr, p.Runs tr a ∧ ∀ ev ∈ tr, f ev.op = some ev.ans := by
  induction p with
  | ret b =>
      obtain rfl := Option.some.inj h
      exact ⟨[], .ret b, by simp⟩
  | op e k ih =>
      obtain ⟨r, hr, hk⟩ := Option.bind_eq_some_iff.mp h
      obtain ⟨tr, hruns, htr⟩ := ih r hk
      refine ⟨⟨e, r⟩ :: tr, .op hruns, ?_⟩
      intro ev hev
      rcases List.mem_cons.mp hev with rfl | hev
      · exact hr
      · exact htr ev hev

/-- A run whose answers are those of `f` is an evaluation. -/
theorem Runs.eval? {p : Prog E R α} {tr : List (Event E R)} {a : α} (h : Runs p tr a)
    (hf : ∀ ev ∈ tr, f ev.op = some ev.ans) : p.eval? f = some a := by
  induction h with
  | ret a => rfl
  | @op e k r tr a h ih =>
      have hr : f e = some r := hf ⟨e, r⟩ List.mem_cons_self
      rw [eval?_op, hr]
      exact ih fun ev hev => hf ev (List.mem_cons_of_mem _ hev)

end Eval

end Prog

end Afterglow.Concurrency
