import Afterglow.Service.Admission

/-!
# The course of a goroutine

What becomes of a request is decided by a few of its events: what the executor returned, how it came by
its checker, what its cases were started with and how they ended. `course` reads these off the events of
a goroutine, and each function of the service has one lemma that says which courses it can take and what
it returns on them.
-/

namespace Afterglow.Engine

open Concurrency Execution Service

/-- The events that a course is made of. -/
inductive Milestone
  /-- `Compile` of the executor returned. -/
  | compiled (ctx : Ctx) (req : CompileRequest) (res : Except Err Execution.CompileResult)
  /-- `Run` of the executor returned. -/
  | ran (ctx : Ctx) (req : RunRequest) (res : Except Err RunResult)
  /-- A flight was entered. -/
  | entered (key : Bytes) (fl : Flight)
  /-- The flight that was joined handed over its result. -/
  | shared (f : ℕ) (res : Except Err Execution.CompileResult)
  /-- The result of the flight that was led was published. -/
  | published (key : Bytes) (f : ℕ) (res : Except Err Execution.CompileResult)
  /-- `checkerCompiler.compile` returned. -/
  | checker (ctx : Ctx) (source : Bytes) (res : Except Err Execution.CompileResult)
  /-- The cases were started. -/
  | started (batch : Batch)
  /-- The results of the cases were collected. -/
  | collected (results : List JudgeCaseResult)
  /-- A case began. -/
  | begun (ctx : Ctx) (runner : CaseRunner) (data : CaseData)
  /-- A case ended. -/
  | ended (res : JudgeCaseResult)

/-- The milestone that an event is. -/
def Milestone.of : Event Op Op.Ans → Option Milestone
  | ⟨.mark (.leaveCompile ctx req res), _⟩ => some (.compiled ctx req res)
  | ⟨.mark (.leaveRun ctx req res), _⟩ => some (.ran ctx req res)
  | ⟨.flightDo key, fl⟩ => some (.entered key fl)
  | ⟨.flightWait f, res⟩ => some (.shared f res)
  | ⟨.flightDone key f res, _⟩ => some (.published key f res)
  | ⟨.mark (.leaveChecker ctx source res), _⟩ => some (.checker ctx source res)
  | ⟨.goCases batch, _⟩ => some (.started batch)
  | ⟨.wgWait, results⟩ => some (.collected results)
  | ⟨.caseBegin, r⟩ => some (.begun r.1 r.2.1 r.2.2)
  | ⟨.caseEnd res, _⟩ => some (.ended res)
  | _ => none

/-- The event that a milestone is. -/
def Milestone.event : Milestone → Event Op Op.Ans
  | .compiled ctx req res => ⟨.mark (.leaveCompile ctx req res), ()⟩
  | .ran ctx req res => ⟨.mark (.leaveRun ctx req res), ()⟩
  | .entered key fl => ⟨.flightDo key, fl⟩
  | .shared f res => ⟨.flightWait f, res⟩
  | .published key f res => ⟨.flightDone key f res, ()⟩
  | .checker ctx source res => ⟨.mark (.leaveChecker ctx source res), ()⟩
  | .started batch => ⟨.goCases batch, ()⟩
  | .collected results => ⟨.wgWait, results⟩
  | .begun ctx runner data => ⟨.caseBegin, (ctx, runner, data)⟩
  | .ended res => ⟨.caseEnd res, ()⟩

theorem Milestone.of_eq_some {ev : Event Op Op.Ans} {m : Milestone} :
    Milestone.of ev = some m ↔ ev = m.event := by
  constructor
  · intro h
    unfold Milestone.of at h
    split at h <;> cases h <;> rfl
  · rintro rfl
    cases m <;> rfl

/-- The milestones among some events, in order. -/
def course (events : List (Event Op Op.Ans)) : List Milestone := events.filterMap Milestone.of

@[simp] theorem course_nil : course [] = [] := rfl

@[simp] theorem course_append (t t' : List (Event Op Op.Ans)) :
    course (t ++ t') = course t ++ course t' :=
  List.filterMap_append

@[simp] theorem course_cons (ev : Event Op Op.Ans) (t : List (Event Op Op.Ans)) :
    course (ev :: t) = (Milestone.of ev).toList ++ course t := by
  rw [course, List.filterMap_cons]
  cases Milestone.of ev <;> rfl

theorem mem_course {t : List (Event Op Op.Ans)} {m : Milestone} : m ∈ course t ↔ m.event ∈ t := by
  simp only [course, List.mem_filterMap, Milestone.of_eq_some, exists_eq_right]

/-- The operations that are no milestones. -/
def Op.Unmarked (e : Op) : Prop := ∀ r, Milestone.of ⟨e, r⟩ = none

theorem course_unmarked {t : List (Event Op Op.Ans)} (h : ∀ ev ∈ t, ev.op.Unmarked) : course t = [] :=
  List.filterMap_eq_nil_iff.mpr fun ev hev => h ev hev ev.ans

theorem Op.OfExecutor.unmarked {e : Op} (he : e.OfExecutor) : e.Unmarked := by
  intro r
  cases e with
  | mark m => cases m <;> first | rfl | exact absurd he id
  | _ => first | rfl | exact absurd he id

theorem Op.ReadsResource.unmarked {e : Op} (he : e.ReadsResource) : e.Unmarked := by
  intro r
  cases e <;> first | rfl | exact absurd he id

variable {g : JudgeEngine} {ctx : Ctx} {tr : List (Event Op Op.Ans)}

section Executor

variable (hx : g.executor.All Op.OfExecutor)

include hx

theorem Compile_course {req : CompileRequest} {res : Except Err Execution.CompileResult}
    (h : (g.executor.Compile ctx req).Runs tr res) : course tr = [.compiled ctx req res] := by
  obtain ⟨_, t₁, rfl, h₁⟩ := Prog.runs_perform_iff.mp h
  obtain ⟨t₂, res', t₃, rfl, h₂, h₃⟩ := Prog.runs_bind_iff.mp h₁
  obtain ⟨_, t₄, rfl, h₄⟩ := Prog.runs_perform_iff.mp h₃
  obtain ⟨rfl, rfl⟩ := Prog.runs_ret_iff.mp h₄
  have hinside : course t₂ = [] :=
    course_unmarked fun ev hev => (h₂.all (hx.compile _ _) ev hev).unmarked
  simp [hinside, Milestone.of]

theorem Run_course {req : RunRequest} {res : Except Err RunResult}
    (h : (g.executor.Run ctx req).Runs tr res) : course tr = [.ran ctx req res] := by
  obtain ⟨_, t₁, rfl, h₁⟩ := Prog.runs_perform_iff.mp h
  obtain ⟨t₂, res', t₃, rfl, h₂, h₃⟩ := Prog.runs_bind_iff.mp h₁
  obtain ⟨_, t₄, rfl, h₄⟩ := Prog.runs_perform_iff.mp h₃
  obtain ⟨rfl, rfl⟩ := Prog.runs_ret_iff.mp h₄
  have hinside : course t₂ = [] :=
    course_unmarked fun ev hev => (h₂.all (hx.run _ _) ev hev).unmarked
  simp [hinside, Milestone.of]

end Executor

/-! ## The checker of a request -/

variable (g ctx) in
/-- How a call of `checkerCompiler.compile` goes. -/
inductive CheckerCourse (source : Bytes) : List Milestone → Except Err Execution.CompileResult → Prop
  | cached (v : Execution.CompileResult) : CheckerCourse source [.checker ctx source (.ok v)] (.ok v)
  | joined (f : ℕ) (res : Except Err Execution.CompileResult) :
    CheckerCourse source
      [.entered (g.sha256 source) (.join f), .shared f res, .checker ctx source res] res
  /-- Another flight filled the cache since the first look-up. -/
  | filled (f : ℕ) (v : Execution.CompileResult) :
    CheckerCourse source
      [.entered (g.sha256 source) (.lead f), .published (g.sha256 source) f (.ok v),
        .checker ctx source (.ok v)] (.ok v)
  | compiled (f : ℕ) (raw : Except Err Execution.CompileResult) :
    CheckerCourse source
      [.entered (g.sha256 source) (.lead f),
        .compiled (compileCtx ctx) (checkerCompileRequest g.testlibHeader source) raw,
        .published (g.sha256 source) f (setupResult raw), .checker ctx source (setupResult raw)]
      (setupResult raw)

section Executor

variable (hx : g.executor.All Op.OfExecutor)

include hx

/-- The function that the leader of a flight runs. -/
theorem compileShared_course {source : Bytes} {res : Except Err Execution.CompileResult}
    (h : (compileShared g ctx source).Runs tr res) :
    (∃ v, course tr = [] ∧ res = .ok v) ∨
    ∃ raw, course tr = [.compiled (compileCtx ctx) (checkerCompileRequest g.testlibHeader source) raw] ∧
      res = setupResult raw := by
  obtain ⟨t₁, t₂, rfl, hbody, hcancel⟩ := Prog.runs_deferring_iff.mp h
  have hnone : course t₂ = [] := by
    obtain ⟨_, t₃, rfl, hret⟩ := Prog.runs_perform_iff.mp hcancel
    obtain ⟨rfl, -⟩ := Prog.runs_ret_iff.mp hret
    rfl
  rw [course_append, hnone, List.append_nil]
  obtain ⟨again, t₃, rfl, hlooked⟩ := Prog.runs_perform_iff.mp hbody
  match again with
  | some v =>
    obtain ⟨rfl, rfl⟩ := Prog.runs_ret_iff.mp hlooked
    exact .inl ⟨v, rfl, rfl⟩
  | none =>
    obtain ⟨t₄, compiled, t₅, rfl, huncached, hrest⟩ := Prog.runs_bind_iff.mp hlooked
    obtain ⟨t₆, raw, t₇, rfl, hcompile, hret⟩ := Prog.runs_bind_iff.mp huncached
    obtain ⟨rfl, rfl⟩ := Prog.runs_ret_iff.mp hret
    have hmade := Compile_course hx hcompile
    -- what is left puts an artifact into the cache
    have hleft : course t₅ = [] ∧ res = setupResult raw := by
      cases raw with
      | error e =>
        obtain ⟨rfl, rfl⟩ := Prog.runs_ret_iff.mp hrest
        exact ⟨rfl, rfl⟩
      | ok compilation =>
        change Prog.Runs (ite (compilation.artifact.isSome = true) _ _) t₅ res at hrest
        split at hrest
        · obtain ⟨_, t₈, rfl, hadded⟩ := Prog.runs_perform_iff.mp hrest
          obtain ⟨rfl, rfl⟩ := Prog.runs_ret_iff.mp hadded
          exact ⟨rfl, rfl⟩
        · obtain ⟨rfl, rfl⟩ := Prog.runs_ret_iff.mp hrest
          exact ⟨rfl, rfl⟩
    refine .inr ⟨raw, ?_, hleft.2⟩
    simp [hmade, hleft.1, Milestone.of]

theorem compileChecker_course {source : Bytes} {res : Except Err Execution.CompileResult}
    (h : (compileChecker g ctx source).Runs tr res) : CheckerCourse g ctx source (course tr) res := by
  obtain ⟨_, t₁, rfl, h₁⟩ := Prog.runs_perform_iff.mp h
  obtain ⟨t₂, res', t₃, rfl, h₂, h₃⟩ := Prog.runs_bind_iff.mp h₁
  obtain ⟨_, t₄, rfl, h₄⟩ := Prog.runs_perform_iff.mp h₃
  obtain ⟨rfl, rfl⟩ := Prog.runs_ret_iff.mp h₄
  obtain ⟨cached, t₅, rfl, h₅⟩ := Prog.runs_perform_iff.mp h₂
  match cached with
  | some v =>
    obtain ⟨rfl, rfl⟩ := Prog.runs_ret_iff.mp h₅
    exact .cached v
  | none =>
    obtain ⟨flight, t₆, rfl, h₆⟩ := Prog.runs_perform_iff.mp h₅
    match flight with
    | .join f =>
      obtain ⟨shared, t₇, rfl, h₇⟩ := Prog.runs_op_iff.mp h₆
      obtain ⟨rfl, rfl⟩ := Prog.runs_ret_iff.mp h₇
      exact .joined f res
    | .lead f =>
      obtain ⟨t₇, made, t₈, rfl, hshared, h₇⟩ := Prog.runs_bind_iff.mp h₆
      obtain ⟨_, t₉, rfl, h₈⟩ := Prog.runs_perform_iff.mp h₇
      obtain ⟨rfl, rfl⟩ := Prog.runs_ret_iff.mp h₈
      rcases compileShared_course hx hshared with ⟨v, hnone, rfl⟩ | ⟨raw, hmade, rfl⟩
      · simpa [hnone, Milestone.of] using CheckerCourse.filled f v
      · simpa [hmade, Milestone.of] using CheckerCourse.compiled f raw

end Executor

/-! ## Plans -/

/-- The source of a chosen checker was given or read. -/
def SourceOf (choice : CheckerChoice) (reads : List (Event Op Op.Ans)) (src : Bytes) : Prop :=
  match choice.kind with
  | .inline => src = utf8 choice.value
  | .external => ⟨.ask (.readResource .external choice.value), .ok src⟩ ∈ reads
  | .builtin => ⟨.ask (.readResource .bundled (builtinCheckerPath choice.value)), .ok src⟩ ∈ reads

/-- The data of a case was given or read. -/
def DataOf (reads : List (Event Op Op.Ans)) (testCase : JudgeTestCase) (data : CaseData) : Prop :=
  if testCase.inputFile = "" then
    data = { input := utf8 testCase.inputText, expectedOutput := utf8 testCase.expectedOutput }
  else
    ⟨.ask (.readResource .external testCase.inputFile), .ok data.input⟩ ∈ reads ∧
      ⟨.ask (.readResource .external testCase.expectedOutputFile), .ok data.expectedOutput⟩ ∈ reads

/-- The plan of a request after some reads. -/
structure PlanOf (req : JudgeRequest) (profile : LanguageProfile) (choice : CheckerChoice)
    (reads : List (Event Op Op.Ans)) (plan : JudgePlan) : Prop where
  request : plan = {
    sourceCode := utf8 req.sourceCode
    timeLimit := req.timeLimit
    memoryLimit := req.memoryLimit
    cases := plan.cases
    language := req.language
    profile := profile
    checker := plan.checker
    checkerProvidedByRequest := choice.providedByRequest }
  checker : SourceOf choice reads plan.checker
  cases : List.Forall₂ (DataOf reads) req.testCases plan.cases

theorem DataOf.mono {reads reads' : List (Event Op Op.Ans)} (hsub : reads ⊆ reads')
    {testCase : JudgeTestCase} {data : CaseData} (h : DataOf reads testCase data) :
    DataOf reads' testCase data := by
  unfold DataOf at h ⊢
  split
  case isTrue htext => rwa [if_pos htext] at h
  case isFalse htext =>
    rw [if_neg htext] at h
    exact ⟨hsub h.1, hsub h.2⟩

theorem SourceOf.mono {reads reads' : List (Event Op Op.Ans)} (hsub : reads ⊆ reads')
    {choice : CheckerChoice} {src : Bytes} (h : SourceOf choice reads src) :
    SourceOf choice reads' src := by
  unfold SourceOf at h ⊢
  cases hkind : choice.kind with
  | inline => simpa only [hkind] using h
  | external | builtin =>
    simp only [hkind] at h ⊢
    exact hsub h

theorem readSource_sourceOf {choice : CheckerChoice} {src : Bytes}
    (h : (readSource g choice).Runs tr (.ok src)) : SourceOf choice tr src := by
  unfold readSource at h
  unfold SourceOf
  cases hkind : choice.kind with
  | inline =>
    simp only [hkind] at h ⊢
    obtain ⟨-, heq⟩ := Prog.runs_ret_iff.mp h
    exact Except.ok.inj heq
  | external =>
    simp only [hkind] at h ⊢
    split at h
    · obtain ⟨read, tr', rfl, h'⟩ := Prog.runs_op_iff.mp h
      obtain ⟨-, heq⟩ := Prog.runs_ret_iff.mp h'
      match read with
      | .error e => cases heq
      | .ok data =>
        obtain rfl := Except.ok.inj heq
        exact List.mem_cons_self
    · obtain ⟨-, heq⟩ := Prog.runs_ret_iff.mp h
      cases heq
  | builtin =>
    simp only [hkind] at h ⊢
    obtain ⟨read, tr', rfl, h'⟩ := Prog.runs_op_iff.mp h
    obtain ⟨-, heq⟩ := Prog.runs_ret_iff.mp h'
    match read with
    | .error e => cases heq
    | .ok data =>
      obtain rfl := Except.ok.inj heq
      exact List.mem_cons_self

theorem materializeCase_dataOf {testCase : JudgeTestCase} {data : CaseData}
    (h : (materializeCase g testCase).Runs tr (.ok data)) : DataOf tr testCase data := by
  unfold materializeCase at h
  unfold DataOf
  split at h
  case isTrue htext =>
    obtain ⟨-, heq⟩ := Prog.runs_ret_iff.mp h
    rw [if_pos htext]
    exact Except.ok.inj heq
  case isFalse htext =>
    rw [if_neg htext]
    split at h
    · obtain ⟨-, heq⟩ := Prog.runs_ret_iff.mp h
      cases heq
    · obtain ⟨input, t₁, rfl, h₁⟩ := Prog.runs_op_iff.mp h
      match input with
      | .error e =>
        obtain ⟨-, heq⟩ := Prog.runs_ret_iff.mp h₁
        cases heq
      | .ok input =>
        obtain ⟨expectedOutput, t₂, rfl, h₂⟩ := Prog.runs_op_iff.mp h₁
        match expectedOutput with
        | .error e =>
          obtain ⟨-, heq⟩ := Prog.runs_ret_iff.mp h₂
          cases heq
        | .ok expectedOutput =>
          obtain ⟨-, heq⟩ := Prog.runs_ret_iff.mp h₂
          obtain rfl := Except.ok.inj heq
          exact ⟨List.mem_cons_self, List.mem_cons_of_mem _ List.mem_cons_self⟩

theorem materializeCases_dataOf {testCases : List JudgeTestCase} {index : ℕ} {cases : List CaseData}
    (h : (materializeCases g index testCases).Runs tr (.ok cases)) :
    List.Forall₂ (DataOf tr) testCases cases := by
  induction testCases generalizing index tr cases with
  | nil =>
    obtain ⟨-, heq⟩ := Prog.runs_ret_iff.mp h
    obtain rfl := Except.ok.inj heq
    exact .nil
  | cons testCase rest ih =>
    obtain ⟨t₁, data, t₂, rfl, h₁, h₂⟩ := Prog.runs_bind_iff.mp h
    match data with
    | .error e =>
      obtain ⟨-, heq⟩ := Prog.runs_ret_iff.mp h₂
      cases heq
    | .ok data =>
      obtain ⟨t₃, others, t₄, rfl, h₃, h₄⟩ := Prog.runs_bind_iff.mp h₂
      obtain ⟨rfl, heq⟩ := Prog.runs_ret_iff.mp h₄
      match others with
      | .error e => cases heq
      | .ok others =>
        obtain rfl := Except.ok.inj heq
        refine .cons ((materializeCase_dataOf h₁).mono (List.subset_append_left _ _)) ?_
        refine (ih h₃).imp fun _ _ hdata => hdata.mono fun ev hev => ?_
        simp [hev]

theorem materialize_planOf {req : JudgeRequest} {profile : LanguageProfile} {choice : CheckerChoice}
    {plan : JudgePlan} (h : (materialize g req profile choice).Runs tr (.ok plan)) :
    PlanOf req profile choice tr plan := by
  obtain ⟨t₁, src, t₂, rfl, h₁, h₂⟩ := Prog.runs_bind_iff.mp h
  match src with
  | .error e =>
    obtain ⟨-, heq⟩ := Prog.runs_ret_iff.mp h₂
    cases heq
  | .ok src =>
    obtain ⟨t₃, cases, t₄, rfl, h₃, h₄⟩ := Prog.runs_bind_iff.mp h₂
    obtain ⟨rfl, heq⟩ := Prog.runs_ret_iff.mp h₄
    match cases with
    | .error e => cases heq
    | .ok cases =>
      obtain rfl := Except.ok.inj heq
      refine ⟨rfl, (readSource_sourceOf h₁).mono (List.subset_append_left _ _), ?_⟩
      refine (materializeCases_dataOf h₃).imp fun _ _ hdata => hdata.mono fun ev hev => ?_
      simp [hev]

/-! ## Requests -/

/-- What `executeJudgePlan` hands to the goroutines of its cases. -/
def JudgePlan.batch (plan : JudgePlan) (ctx : Ctx) (program checker : Artifact) : Batch where
  ctx := ctx
  runner :=
    { program := { language := plan.language, profile := plan.profile.run, artifact := program }
      checker := checker
      userChecker := plan.checkerProvidedByRequest
      timeLimit := plan.timeLimit
      memLimit := plan.memoryLimit }
  cases := plan.cases

variable (g ctx) in
/-- How `executeJudgePlan` goes. -/
inductive PlanCourse (plan : JudgePlan) : List Milestone → JudgeResult → Prop
  | failed (e : Err) :
    PlanCourse plan [.compiled ctx (plan.profile.compile.request plan.sourceCode) (.error e)]
      (failedBeforeRun ("compile infrastructure error: " ++ e.message))
  | rejected (log : Bytes) :
    PlanCourse plan [.compiled ctx (plan.profile.compile.request plan.sourceCode) (.ok ⟨log, none⟩)]
      { status := .compileError, compile := ⟨false, log⟩ }
  | checkerFailed (log : Bytes) (artifact : Artifact) (e : Err) {ms : List Milestone}
    (h : CheckerCourse g ctx plan.checker ms (.error e)) :
    PlanCourse plan
      (.compiled ctx (plan.profile.compile.request plan.sourceCode) (.ok ⟨log, some artifact⟩) :: ms)
      { status := .systemError, compile := ⟨true, log⟩ }
  | checkerRejected (log : Bytes) (artifact : Artifact) (checkerLog : Bytes) {ms : List Milestone}
    (h : CheckerCourse g ctx plan.checker ms (.ok ⟨checkerLog, none⟩)) :
    PlanCourse plan
      (.compiled ctx (plan.profile.compile.request plan.sourceCode) (.ok ⟨log, some artifact⟩) :: ms)
      { status := if plan.checkerProvidedByRequest then .checkerCompileError else .systemError
        compile := ⟨true, log⟩
        checkerCompile := some ⟨false, checkerLog⟩ }
  | judged (log : Bytes) (artifact : Artifact) (checkerLog : Bytes) (checker : Artifact)
    (results : List JudgeCaseResult) {ms : List Milestone}
    (h : CheckerCourse g ctx plan.checker ms (.ok ⟨checkerLog, some checker⟩)) :
    PlanCourse plan
      (.compiled ctx (plan.profile.compile.request plan.sourceCode) (.ok ⟨log, some artifact⟩) ::
        (ms ++ [.started (plan.batch ctx artifact checker), .collected results]))
      { status := aggregateStatus results
        compile := ⟨true, log⟩
        checkerCompile := some ⟨true, checkerLog⟩
        cases := results }

section Executor

variable (hx : g.executor.All Op.OfExecutor)

include hx

theorem executeJudgePlan_course {plan : JudgePlan} {result : JudgeResult}
    (h : (executeJudgePlan g ctx plan).Runs tr result) : PlanCourse g ctx plan (course tr) result := by
  obtain ⟨t₁, compiled, t₂, rfl, hprogram, hrest⟩ := Prog.runs_bind_iff.mp h
  obtain ⟨t₃, compileOut, t₄, rfl, hcompile, hret⟩ := Prog.runs_bind_iff.mp hprogram
  obtain ⟨rfl, rfl⟩ := Prog.runs_ret_iff.mp hret
  rw [List.append_nil, course_append, Compile_course hx hcompile, List.singleton_append]
  match compileOut with
  | .error e =>
    obtain ⟨rfl, rfl⟩ := Prog.runs_ret_iff.mp hrest
    exact .failed e
  | .ok ⟨log, none⟩ =>
    obtain ⟨rfl, rfl⟩ := Prog.runs_ret_iff.mp hrest
    exact .rejected log
  | .ok ⟨log, some artifact⟩ =>
    obtain ⟨t₅, compilation, t₆, rfl, hprepare, hcases⟩ := Prog.runs_bind_iff.mp hrest
    obtain ⟨t₇, checkerOut, t₈, rfl, hchecker, hret⟩ := Prog.runs_bind_iff.mp hprepare
    obtain ⟨rfl, rfl⟩ := Prog.runs_ret_iff.mp hret
    have hcourse := compileChecker_course hx hchecker
    rw [List.append_nil, course_append]
    match checkerOut with
    | .error e =>
      obtain ⟨rfl, rfl⟩ := Prog.runs_ret_iff.mp hcases
      simpa using PlanCourse.checkerFailed log artifact e hcourse
    | .ok ⟨checkerLog, none⟩ =>
      obtain ⟨rfl, rfl⟩ := Prog.runs_ret_iff.mp hcases
      simpa using PlanCourse.checkerRejected log artifact checkerLog hcourse
    | .ok ⟨checkerLog, some checker⟩ =>
      obtain ⟨t₉, results, t₁₀, rfl, hall, hret⟩ := Prog.runs_bind_iff.mp hcases
      obtain ⟨rfl, rfl⟩ := Prog.runs_ret_iff.mp hret
      obtain ⟨_, t₁₁, rfl, hwait⟩ := Prog.runs_perform_iff.mp hall
      obtain ⟨collected, t₁₂, rfl, hret⟩ := Prog.runs_op_iff.mp hwait
      obtain ⟨rfl, rfl⟩ := Prog.runs_ret_iff.mp hret
      exact .judged log artifact checkerLog checker results hcourse

/-- A call that read its resources and carried out its plan in its judge slot. -/
theorem admitted_course {req : JudgeRequest} {profile : LanguageProfile} {choice : CheckerChoice}
    {plan : JudgePlan} {reads rest : List (Event Op Op.Ans)} {result : JudgeResult}
    (hreads : (materialize g req profile choice).Runs reads (.ok plan))
    (hplan : (executeJudgePlan g ctx plan).Runs rest result)
    (htr : tr = ⟨.judgeAcquire ctx, none⟩ :: (reads ++ (rest ++ [⟨.judgeRelease, ()⟩]))) :
    PlanOf req profile choice tr plan ∧ PlanCourse g ctx plan (course tr) result := by
  have hsub : reads ⊆ tr := by
    intro ev hev
    simp [htr, hev]
  have hplanOf := materialize_planOf hreads
  have hnone : course reads = [] :=
    course_unmarked fun ev hev => (hreads.all (materialize_all _ _ _) ev hev).unmarked
  refine ⟨⟨hplanOf.request, hplanOf.checker.mono hsub, ?_⟩, ?_⟩
  · exact hplanOf.cases.imp fun _ _ hdata => hdata.mono hsub
  · rw [htr]
    simpa [hnone, Milestone.of] using executeJudgePlan_course hx hplan

/-- A call that returned a result from its judge slot went the course of its plan. -/
theorem judge_course {req : JudgeRequest} {result : JudgeResult}
    (h : (judge g ctx req).Runs tr (result, none)) (hslot : ∀ e, ⟨.judgeAcquire ctx, some e⟩ ∉ tr) :
    ∃ profile choice plan, Resolved g req profile choice ∧ PlanOf req profile choice tr plan ∧
      PlanCourse g ctx plan (course tr) result := by
  obtain ⟨profile, choice, plan, reads, rest, hresolved, htr, hreads, hplan⟩ := judge_runs_ok h hslot
  exact ⟨profile, choice, plan, hresolved, admitted_course hx hreads hplan htr⟩

/-- Any call of `Judge` goes the course of a plan or none. -/
theorem judge_course_any {req : JudgeRequest} {res : JudgeResult × Option Err}
    (h : (judge g ctx req).Runs tr res) :
    course tr = [] ∨ ∃ plan result, PlanCourse g ctx plan (course tr) result := by
  rcases judge_runs h with ⟨-, rfl, -⟩ | ⟨profile, choice, -, ⟨e, rfl⟩ | ⟨t, rfl, hadmitted⟩⟩
  · exact .inl rfl
  · exact .inl rfl
  obtain ⟨reads, rest, rfl, hrest⟩ := judgeAdmitted_runs hadmitted
  have hreads : course reads = [] := by
    rcases hrest with ⟨e, hreads, -⟩ | ⟨plan, result, hreads, -⟩
    · exact course_unmarked fun ev hev => (hreads.all (materialize_all _ _ _) ev hev).unmarked
    · exact course_unmarked fun ev hev => (hreads.all (materialize_all _ _ _) ev hev).unmarked
  rcases hrest with ⟨e, -, rfl, -⟩ | ⟨plan, result, -, hplan, -⟩
  · exact .inl (by simp [hreads, Milestone.of])
  · exact .inr ⟨plan, result, by simpa [hreads, Milestone.of] using executeJudgePlan_course hx hplan⟩

end Executor

/-! ## Cases -/

/-- What a case comes to, given what the run of the program and the run of the checker returned. -/
def caseOutcome (language : Language) (userChecker : Bool) :
    Except Err RunResult → Option (Except Err RunResult) → JudgeCaseResult
  | .error e, _ => { verdict := .uke, extraInfo := utf8 ("infrastructure error: " ++ e.message) }
  | .ok runOut, none =>
    let runResult := normalizeLanguageRunResult language runOut
    judgeCaseResultFromExecution runResult runResult.verdict runResult.extraInfo
  | .ok runOut, some (.error e) =>
    judgeCaseResultFromExecution (normalizeLanguageRunResult language runOut) .uke
      (utf8 ("checker infrastructure error: " ++ e.message))
  | .ok runOut, some (.ok out) =>
    judgeCaseResultFromExecution (normalizeLanguageRunResult language runOut)
      (checkVerdict userChecker (checkerResultOf out).outcome) (checkMessage (checkerResultOf out))

variable (ctx) in
/-- How `runCase` goes. -/
inductive CaseCourse (r : CaseRunner) (tc : CaseData) : List Milestone → JudgeCaseResult → Prop
  | failed (e : Err) :
    CaseCourse r tc [.ran ctx (r.program.request tc.input r.timeLimit r.memLimit) (.error e)]
      (caseOutcome r.program.language r.userChecker (.error e) none)
  | stopped (runOut : RunResult)
    (h : (normalizeLanguageRunResult r.program.language runOut).verdict ≠ .ok) :
    CaseCourse r tc [.ran ctx (r.program.request tc.input r.timeLimit r.memLimit) (.ok runOut)]
      (caseOutcome r.program.language r.userChecker (.ok runOut) none)
  | checked (runOut : RunResult) (checked : Except Err RunResult)
    (h : (normalizeLanguageRunResult r.program.language runOut).verdict = .ok) :
    CaseCourse r tc
      [.ran ctx (r.program.request tc.input r.timeLimit r.memLimit) (.ok runOut),
        .ran ctx (checkerRunRequest r.checker tc.input
          (normalizeLanguageRunResult r.program.language runOut).stdout tc.expectedOutput) checked]
      (caseOutcome r.program.language r.userChecker (.ok runOut) (some checked))

section Executor

variable (hx : g.executor.All Op.OfExecutor)

include hx

theorem runCase_course {r : CaseRunner} {tc : CaseData} {res : JudgeCaseResult}
    (h : (runCase g ctx r tc).Runs tr res) : CaseCourse ctx r tc (course tr) res := by
  obtain ⟨t₁, ran, t₂, rfl, hprogram, hrest⟩ := Prog.runs_bind_iff.mp h
  obtain ⟨t₃, runOut, t₄, rfl, hrun, hret⟩ := Prog.runs_bind_iff.mp hprogram
  obtain ⟨rfl, rfl⟩ := Prog.runs_ret_iff.mp hret
  rw [List.append_nil, course_append, Run_course hx hrun, List.singleton_append]
  match runOut with
  | .error e =>
    obtain ⟨rfl, rfl⟩ := Prog.runs_ret_iff.mp hrest
    exact .failed e
  | .ok runOut =>
    change Prog.Runs (ite (_ ≠ Verdict.ok) _ _) t₂ res at hrest
    split at hrest
    case isTrue hstopped =>
      obtain ⟨rfl, rfl⟩ := Prog.runs_ret_iff.mp hrest
      exact .stopped runOut hstopped
    case isFalse hok =>
      obtain ⟨t₅, checked, t₆, rfl, hcheck, hret⟩ := Prog.runs_bind_iff.mp hrest
      obtain ⟨t₇, out, t₈, rfl, hrun', hret'⟩ := Prog.runs_bind_iff.mp hcheck
      obtain ⟨rfl, rfl⟩ := Prog.runs_ret_iff.mp hret'
      rw [List.append_nil, course_append, Run_course hx hrun', List.singleton_append]
      cases out with
      | error e =>
        obtain ⟨rfl, rfl⟩ := Prog.runs_ret_iff.mp hret
        exact .checked runOut (.error e) (not_not.mp hok)
      | ok out =>
        obtain ⟨rfl, rfl⟩ := Prog.runs_ret_iff.mp hret
        exact .checked runOut (.ok out) (not_not.mp hok)

theorem caseThread_course (h : (caseThread g).Runs tr ()) :
    ∃ ctx runner data ms res, course tr = .begun ctx runner data :: (ms ++ [.ended res]) ∧
      CaseCourse ctx runner data ms res := by
  obtain ⟨started, t₁, rfl, h₁⟩ := Prog.runs_perform_iff.mp h
  obtain ⟨t₂, res, t₃, rfl, hcase, hend⟩ := Prog.runs_bind_iff.mp h₁
  obtain ⟨_, t₄, rfl, hret⟩ := Prog.runs_op_iff.mp hend
  obtain ⟨rfl, -⟩ := Prog.runs_ret_iff.mp hret
  exact ⟨started.1, started.2.1, started.2.2, course t₂, res, by simp [Milestone.of],
    runCase_course hx hcase⟩

end Executor

end Afterglow.Engine
