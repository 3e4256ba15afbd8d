import Afterglow.Execution.Holdings
import Afterglow.Service.Judge
import Afterglow.Service.SharedCompile

/-!
# Concurrent requests

Any number of `Judge` calls run at a time, each with the goroutines of its cases. Their programs follow
`checkerDiscipline` and, over containers, `heldDiscipline`, so both invariants hold along every run.
-/

namespace Afterglow.Engine

open Concurrency Execution Service

variable {g : JudgeEngine} {i : Tid} {ctx : Ctx}

/-- What a goroutine of `judgeCalls` returns. -/
abbrev JudgeAns : Tid → Type
  | .judge _ => JudgeResult × Option Err
  | .case _ _ => Unit

variable (g) in
/-- Any number of concurrent `Judge` calls, call `j` with its own context and request. The goroutine of
a case waits in `caseBegin` until its request starts it. -/
def judgeCalls (requests : ℕ → Ctx × JudgeRequest) : (i : Tid) → EProg (JudgeAns i)
  | .judge j => judge g (requests j).1 (requests j).2
  | .case _ _ => caseThread g

/-! ## Operations of the parts -/

/-- A call out of the engine. -/
def Op.IsAsk : Op → Prop
  | .ask _ => True
  | _ => False

/-- A read of a resource. -/
def Op.ReadsResource : Op → Prop
  | .ask (.readResource _ _) => True
  | _ => False

theorem Op.ReadsResource.isAsk {e : Op} (he : e.ReadsResource) : e.IsAsk := by
  cases e <;> first | exact absurd he id | trivial

theorem readSource_all (choice : CheckerChoice) : (readSource g choice).All Op.ReadsResource := by
  unfold readSource
  split
  · trivial
  · split
    · exact ⟨trivial, fun _ => trivial⟩
    · trivial
  · exact ⟨trivial, fun _ => trivial⟩

theorem materializeCase_all (testCase : JudgeTestCase) :
    (materializeCase g testCase).All Op.ReadsResource := by
  unfold materializeCase
  split
  · trivial
  · split
    · trivial
    · refine ⟨trivial, fun input => ?_⟩
      match input with
      | .error e => trivial
      | .ok input =>
        refine ⟨trivial, fun expectedOutput => ?_⟩
        cases expectedOutput <;> trivial

theorem materializeCases_all (index : ℕ) (testCases : List JudgeTestCase) :
    (materializeCases g index testCases).All Op.ReadsResource := by
  induction testCases generalizing index with
  | nil => trivial
  | cons testCase rest ih =>
    refine Prog.All.bind (materializeCase_all testCase) fun data => ?_
    match data with
    | .error e => trivial
    | .ok data => exact Prog.All.bind (ih _) fun _ => trivial

theorem materialize_all (req : JudgeRequest) (profile : LanguageProfile) (choice : CheckerChoice) :
    (materialize g req profile choice).All Op.ReadsResource := by
  refine Prog.All.bind (readSource_all choice) fun src => ?_
  match src with
  | .error e => trivial
  | .ok src => exact Prog.All.bind (materializeCases_all 0 req.testCases) fun _ => trivial

/-! ## Shared compilations -/

section Checker

variable (hx : g.executor.All Op.CheckerQuiet) {l : CheckerLocal}

theorem Op.IsAsk.quiet {e : Op} (he : e.IsAsk) : e.CheckerQuiet := by
  cases e <;> first | exact absurd he id | trivial

include hx

theorem executeJudgePlan_checker {plan : JudgePlan} (hlead : l.lead = none) (hrunning : l.running = none) :
    (executeJudgePlan g ctx plan).Safe (checkerDiscipline g) i (fun _ l' =>
      l'.lead = none ∧ l'.running = none) l := by
  have hprogram : checkerSource? g (plan.profile.compile.request plan.sourceCode) = none := by
    by_contra hsome
    obtain ⟨source, hsource⟩ := Option.ne_none_iff_exists'.mp hsome
    exact CompileConfig.request_ne_checker _ _ _ _ ((checkerSource?_eq_some g).mp hsource)
  refine Prog.Safe.bind (Prog.Safe.bind ((Compile_safe hx hprogram).mono ?_))
  rintro compiled l' rfl
  match compiled with
  | .error e => exact ⟨hlead, hrunning⟩
  | .ok ⟨log, none⟩ => exact ⟨hlead, hrunning⟩
  | .ok ⟨log, some artifact⟩ =>
    refine Prog.Safe.bind (Prog.Safe.bind ((compileChecker_safe hx hlead hrunning).mono ?_))
    rintro compilation l' ⟨hlead', hrunning', -⟩
    match compilation with
    | .error e => exact ⟨hlead', hrunning'⟩
    | .ok ⟨log, none⟩ => exact ⟨hlead', hrunning'⟩
    | .ok ⟨log, some checker⟩ =>
      refine Prog.Safe.bind (Prog.Safe.perform trivial fun _ => ⟨trivial, fun _ => ?_⟩)
      exact ⟨hlead', hrunning'⟩

theorem judge_checker {req : JudgeRequest} (hlead : l.lead = none) (hrunning : l.running = none) :
    (judge g ctx req).Safe (checkerDiscipline g) i (fun _ l' =>
      l'.lead = none ∧ l'.running = none) l := by
  unfold judge
  split
  · exact ⟨hlead, hrunning⟩
  split
  · exact ⟨hlead, hrunning⟩
  split
  · exact ⟨hlead, hrunning⟩
  · next choice _ =>
      refine Prog.Safe.perform trivial fun acquired => ?_
      match acquired with
      | some e => exact ⟨hlead, hrunning⟩
      | none =>
        refine Prog.Safe.deferring (Prog.Safe.bind ?_)
        refine (safe_of_quiet ((materialize_all _ _ choice).mono fun _ he => he.isAsk.quiet) _).mono ?_
        rintro plan l' rfl
        match plan with
        | .error e => exact ⟨trivial, fun _ => ⟨hlead, hrunning⟩⟩
        | .ok plan =>
          refine Prog.Safe.bind ((executeJudgePlan_checker hx hlead hrunning).mono ?_)
          rintro result l' hl'
          exact ⟨trivial, fun _ => hl'⟩

theorem runCase_checker {r : CaseRunner} {tc : CaseData} :
    (runCase g ctx r tc).Safe (checkerDiscipline g) i (fun _ l' => l' = l) l := by
  refine Prog.Safe.bind (Prog.Safe.bind ((Run_safe hx).mono ?_))
  rintro ran l' rfl
  match ran with
  | .error e => exact rfl
  | .ok runOut =>
    show Prog.Safe _ _ _ (ite (_ ≠ Verdict.ok) _ _) _
    split
    · exact rfl
    · refine Prog.Safe.bind (Prog.Safe.bind ((Run_safe hx).mono ?_))
      rintro checked l' rfl
      cases checked <;> exact rfl

theorem caseThread_checker :
    (caseThread g).Safe (checkerDiscipline g) i (fun _ l' => l' = l) l := by
  refine Prog.Safe.perform trivial fun _ => Prog.Safe.bind ((runCase_checker hx).mono ?_)
  rintro res l' rfl
  exact ⟨trivial, fun _ => rfl⟩

end Checker

/-! ## Holdings -/

section Held

variable (hg : g.executor = containerExecutor) {l : Held}

/-- Between executor calls and flights, with or without a judge slot. -/
structure Held.AtRest (judge : Bool) (l : Held) : Prop where
  judge : l.judge = judge
  clear : l.Clear
  executing : l.executing = none

theorem Held.Steady.idle {l l' : Held} (h : l.Steady l') (hidle : l.Idle) : l'.Idle :=
  ⟨h.permit.trans hidle.1, h.cpu.trans hidle.2.1,
    Held.dir_eq_none.mp (h.dir.trans (Held.dir_eq_none.mpr hidle.2.2))⟩

theorem Held.Steady.atRest {judge : Bool} {l l' : Held} (h : l.Steady l') (hrest : l.AtRest judge) :
    l'.AtRest judge where
  judge := h.judge.trans hrest.judge
  clear := ⟨h.idle hrest.clear.1, h.leading.trans hrest.clear.2⟩
  executing := h.executing.trans hrest.executing

/-- A program that only calls out of the engine. -/
theorem held_of_asks {α : Type} {p : EProg α} (hp : p.All Op.IsAsk) :
    p.Safe heldDiscipline i (fun _ l' => l' = l) l := by
  refine Prog.Safe.of_all (hp.mono fun e he => ?_)
  cases e <;> first | exact absurd he id | exact ⟨trivial, fun _ => rfl⟩

include hg

theorem compileChecker_held {j : ℕ} {source : Bytes} {judge : Bool} (hrest : l.AtRest judge) :
    (compileChecker g ctx source).Safe heldDiscipline (.judge j) (fun _ => Held.AtRest judge) l := by
  refine Prog.Safe.perform trivial fun _ => Prog.Safe.bind (Prog.Safe.perform trivial fun cached => ?_)
  match cached with
  | some compilation => exact ⟨trivial, fun _ => hrest⟩
  | none =>
    refine Prog.Safe.perform ⟨⟨j, rfl⟩, hrest.clear⟩ fun flight => ?_
    match flight with
    | .join f => exact ⟨⟨⟨j, rfl⟩, hrest.clear⟩, fun _ => ⟨trivial, fun _ => hrest⟩⟩
    | .lead f =>
      -- while leading, everything but the flight is as before
      have hdone : ∀ l' : Held, Held.Steady { l with leading := true } l' → ∀ res,
          Prog.Safe heldDiscipline (.judge j)
            (fun res' l' => Prog.Safe heldDiscipline (.judge j) (fun _ => Held.AtRest judge)
              (note (.leaveChecker ctx source res') >>= fun _ => pure res') l')
            (perform (.flightDone (g.sha256 source) f res) >>= fun _ => pure res) l' := by
        intro l' hl' res
        have hidle := hl'.idle hrest.clear.1
        refine Prog.Safe.perform ⟨hl'.leading, hidle⟩ fun _ => ⟨trivial, fun _ => ?_⟩
        exact ⟨hl'.judge.trans hrest.judge, ⟨hidle, rfl⟩, hl'.executing.trans hrest.executing⟩
      refine Prog.Safe.bind (Prog.Safe.deferring (Prog.Safe.perform trivial fun again => ?_))
      match again with
      | some compilation => exact ask_safe fun _ => hdone _ (.refl _) _
      | none =>
        refine Prog.Safe.bind (Prog.Safe.bind ?_)
        rw [hg]
        refine (Compile_held (l := { l with leading := true }) hrest.clear.1 hrest.executing).mono ?_
        intro compiled l' hl'
        match compiled with
        | .error e => exact ask_safe fun _ => hdone l' hl' _
        | .ok compilation =>
          show Prog.Safe _ _ _ (ite (compilation.artifact.isSome = true) _ _) _
          split
          · exact Prog.Safe.perform trivial fun _ => ask_safe fun _ => hdone l' hl' _
          · exact ask_safe fun _ => hdone l' hl' _

theorem executeJudgePlan_held {j : ℕ} {plan : JudgePlan} {judge : Bool} (hrest : l.AtRest judge) :
    (executeJudgePlan g ctx plan).Safe heldDiscipline (.judge j) (fun _ => Held.AtRest judge) l := by
  refine Prog.Safe.bind (Prog.Safe.bind ?_)
  rw [hg]
  refine (Compile_held hrest.clear.1 hrest.executing).mono fun compiled l₁ hl₁ => ?_
  have hrest₁ := hl₁.atRest hrest
  match compiled with
  | .error e => exact hrest₁
  | .ok ⟨log, none⟩ => exact hrest₁
  | .ok ⟨log, some artifact⟩ =>
    refine Prog.Safe.bind (Prog.Safe.bind ((compileChecker_held hg hrest₁).mono ?_))
    intro compilation l₂ hrest₂
    match compilation with
    | .error e => exact hrest₂
    | .ok ⟨log, none⟩ => exact hrest₂
    | .ok ⟨log, some checker⟩ =>
      refine Prog.Safe.bind (Prog.Safe.perform ⟨⟨j, rfl⟩, hrest₂.clear⟩ fun _ => ?_)
      refine ⟨⟨⟨j, rfl⟩, rfl, hrest₂.clear⟩, fun _ => ?_⟩
      exact ⟨hrest₂.judge, hrest₂.clear, hrest₂.executing⟩

theorem judge_held {j : ℕ} {req : JudgeRequest} (hrest : l.AtRest false) :
    (judge g ctx req).Safe heldDiscipline (.judge j) (fun _ => Held.AtRest false) l := by
  unfold judge
  split
  · exact hrest
  split
  · exact hrest
  split
  · exact hrest
  · next choice _ =>
      refine Prog.Safe.perform ⟨⟨j, rfl⟩, hrest.judge, hrest.clear⟩ fun acquired => ?_
      match acquired with
      | some e => exact hrest
      | none =>
        have hrest₁ : Held.AtRest true { l with judge := true } :=
          ⟨rfl, hrest.clear, hrest.executing⟩
        have hrelease : ∀ l' : Held, l'.AtRest true → (perform .judgeRelease).Safe heldDiscipline
            (.judge j) (fun _ => Held.AtRest false) l' :=
          fun l' hl' => ⟨⟨hl'.judge, hl'.clear⟩, fun _ => ⟨rfl, hl'.clear, hl'.executing⟩⟩
        refine Prog.Safe.deferring (Prog.Safe.bind ?_)
        refine (held_of_asks ((materialize_all _ _ choice).mono fun _ he => he.isAsk)).mono ?_
        rintro plan l' rfl
        match plan with
        | .error e => exact hrelease _ hrest₁
        | .ok plan =>
          refine Prog.Safe.bind ((executeJudgePlan_held hg hrest₁).mono ?_)
          intro result l' hl'
          exact hrelease l' hl'

theorem runCase_held {r : CaseRunner} {tc : CaseData} {judge : Bool} (hrest : l.AtRest judge) :
    (runCase g ctx r tc).Safe heldDiscipline i (fun _ => Held.AtRest judge) l := by
  refine Prog.Safe.bind (Prog.Safe.bind ?_)
  rw [hg]
  refine (Run_held hrest.clear.1 hrest.executing).mono fun ran l₁ hl₁ => ?_
  have hrest₁ := hl₁.atRest hrest
  match ran with
  | .error e => exact hrest₁
  | .ok runOut =>
    show Prog.Safe _ _ _ (ite (_ ≠ Verdict.ok) _ _) _
    split
    · exact hrest₁
    · refine Prog.Safe.bind (Prog.Safe.bind ?_)
      rw [hg]
      refine (Run_held hrest₁.clear.1 hrest₁.executing).mono fun checked l₂ hl₂ => ?_
      cases checked <;> exact hl₂.atRest hrest₁

theorem caseThread_held {j n : ℕ} (hrest : l.AtRest false) :
    (caseThread g).Safe heldDiscipline (.case j n) (fun _ => Held.AtRest false) l := by
  refine Prog.Safe.perform ⟨⟨j, n, rfl⟩, hrest.judge, hrest.clear⟩ fun _ => ?_
  refine Prog.Safe.bind ((runCase_held hg hrest).mono fun res l' hl' => ?_)
  exact ⟨⟨⟨j, n, rfl⟩, hl'.judge, hl'.clear⟩, fun _ => hl'⟩

end Held

/-! ## The invariants of concurrent requests -/

section Runs

variable {requests : ℕ → Ctx × JudgeRequest} {judgeMax execMax : ℕ} {cpus : List ℕ}
  {c : Config Op Op.Ans Tid State JudgeAns}
  (h : Reachable semantics (.start (State.new judgeMax execMax cpus) (judgeCalls g requests)) c)

include h

theorem judgeCalls_checker (hx : g.executor.All Op.CheckerQuiet) :
    CheckerInv g c.shared c.trace ((checkerDiscipline g).locals (fun _ => {}) c.trace) ∧
      ∀ i, (c.prog i).Safe (checkerDiscipline g) i (fun _ l => l.lead = none ∧ l.running = none)
        ((checkerDiscipline g).locals (fun _ => {}) c.trace i) := by
  refine checker_upholds.locals h (checkerInv_new _ _ _) fun i => ?_
  cases i with
  | judge j => exact judge_checker hx rfl rfl
  | case j n => exact (caseThread_checker hx).mono fun _ _ hl => by rw [hl]; exact ⟨rfl, rfl⟩

theorem judgeCalls_held (hg : g.executor = containerExecutor) (hcpus : cpus.Nodup) :
    HeldInv judgeMax execMax cpus c.shared c.trace (held c.trace) ∧
      ∀ i, (c.prog i).Safe heldDiscipline i (fun _ => Held.AtRest false) (held c.trace i) := by
  have hstart : Held.AtRest false {} := ⟨rfl, ⟨⟨rfl, rfl, rfl⟩, rfl⟩, rfl⟩
  refine (held_upholds judgeMax execMax cpus).locals h (heldInv_new _ _ hcpus) fun i => ?_
  cases i with
  | judge j => exact judge_held hg hstart
  | case j n => exact caseThread_held hg hstart

end Runs

end Afterglow.Engine
