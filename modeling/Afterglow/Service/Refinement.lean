import Afterglow.Service.Evidence

/-!
# Concurrent requests refine requests judged alone

Reference: `internal/service/judge_service.go` and `internal/service/checker_compiler.go`.

Requests share judge slots, the executor, a cache of compiled checkers and the compilations in flight, and
each runs its cases in goroutines. `judgeAlone` has none of this: it compiles the program and the checker
and goes through the cases one after another. Where the executor and the resources answer equal requests
equally, every call of `Judge` that got its slot returns what `judgeAlone` computes, whatever the other
requests are, whatever was cached or evicted, and however the goroutines were interleaved.

## The argument

* `checker_alone`: a checker from the cache or from another request's flight is the outcome of compiling
  the same source, so it is the one that a compilation of its own would have returned.
* `case_alone`: a case makes at most two runs, and these decide its result.
* `plan_alone` and `judge_alone` put these together along the course of a request.
-/

namespace Afterglow.Engine

open Concurrency Execution Service

/-! ## A request alone -/

/-- An executor and resources that answer equal requests equally. -/
structure Outside where
  compile : CompileRequest → Except Err Execution.CompileResult
  run : RunRequest → Except Err RunResult
  read : Resources → String → Except Err Bytes

namespace Outside

variable (o : Outside)

/-- The answers to the reads. -/
def answer : (e : Op) → Option e.Ans
  | .ask (.readResource fs name) => some (o.read fs name)
  | _ => none

/-- The run of the checker, if there is one. -/
def checkRun (r : CaseRunner) (tc : CaseData) : Except Err RunResult → Option (Except Err RunResult)
  | .error _ => none
  | .ok runOut =>
    let runResult := normalizeLanguageRunResult r.program.language runOut
    if runResult.verdict = .ok then
      some (o.run (checkerRunRequest r.checker tc.input runResult.stdout tc.expectedOutput))
    else none

/-- A case by itself. -/
def caseAlone (r : CaseRunner) (tc : CaseData) : JudgeCaseResult :=
  let ran := o.run (r.program.request tc.input r.timeLimit r.memLimit)
  caseOutcome r.program.language r.userChecker ran (o.checkRun r tc ran)

variable (g : JudgeEngine)

/-- A plan whose program has been compiled, with its own compilation of the checker. -/
def programAlone (plan : JudgePlan) (program : Artifact) (compileResult : CompileResult) : JudgeResult :=
  match o.compile (checkerCompileRequest g.testlibHeader plan.checker) with
  | .error _ => { status := .systemError, compile := compileResult }
  | .ok ⟨checkerLog, none⟩ =>
    { status := if plan.checkerProvidedByRequest then .checkerCompileError else .systemError
      compile := compileResult
      checkerCompile := some ⟨false, checkerLog⟩ }
  | .ok ⟨checkerLog, some checker⟩ =>
    let runner : CaseRunner :=
      { program := { language := plan.language, profile := plan.profile.run, artifact := program }
        checker := checker
        userChecker := plan.checkerProvidedByRequest
        timeLimit := plan.timeLimit
        memLimit := plan.memoryLimit }
    let results := plan.cases.map (o.caseAlone runner)
    { status := aggregateStatus results
      compile := compileResult
      checkerCompile := some ⟨true, checkerLog⟩
      cases := results }

/-- A plan by itself. -/
def planAlone (plan : JudgePlan) : JudgeResult :=
  match o.compile (plan.profile.compile.request plan.sourceCode) with
  | .error e => failedBeforeRun ("compile infrastructure error: " ++ e.message)
  | .ok ⟨log, none⟩ => { status := .compileError, compile := ⟨false, log⟩ }
  | .ok ⟨log, some program⟩ => o.programAlone g plan program ⟨true, log⟩

/-- A request whose plan is made or could not be made. -/
def admittedAlone : Except Err JudgePlan → JudgeResult × Option Err
  | .error e => ({}, some e)
  | .ok plan => (o.planAlone g plan, none)

/-- A request by itself. -/
def judgeAlone (req : JudgeRequest) : Option (JudgeResult × Option Err) :=
  match validateJudgeRequest req with
  | some e => some ({}, some e)
  | none =>
    match profileForLanguage req.language with
    | .error e => some ({}, some e)
    | .ok profile =>
      match resolveChecker g req.checker req.checkerSourceCode with
      | .error e => some ({}, some e)
      | .ok choice => ((materialize g req profile choice).eval? o.answer).map (o.admittedAlone g)

/-- The answers in a trace are these. -/
structure Rules (tr : Trace) : Prop where
  compile : ∀ i ctx req res, Did tr i (.mark (.leaveCompile ctx req res)) () → res = o.compile req
  run : ∀ i ctx req res, Did tr i (.mark (.leaveRun ctx req res)) () → res = o.run req
  read : ∀ i fs name res, Did tr i (.ask (.readResource fs name)) res → res = o.read fs name

end Outside

/-! ## The parts of a request -/

variable {g : JudgeEngine} {o : Outside} {ctx : Ctx}

theorem case_alone {r : CaseRunner} {tc : CaseData} {ms : List Milestone} {res : JudgeCaseResult}
    (h : CaseCourse ctx r tc ms res) (hran : ∀ ctx' req out, .ran ctx' req out ∈ ms → out = o.run req) :
    res = o.caseAlone r tc := by
  cases h with
  | failed e =>
    have hrun := hran _ _ _ List.mem_cons_self
    rw [Outside.caseAlone, ← hrun]
    rfl
  | stopped runOut hstopped =>
    have hrun := hran _ _ _ List.mem_cons_self
    rw [Outside.caseAlone, ← hrun]
    simp only [Outside.checkRun, if_neg hstopped]
  | checked runOut checked hok =>
    have hrun := hran _ _ _ List.mem_cons_self
    have hcheck := hran _ _ _ (List.mem_cons_of_mem _ List.mem_cons_self)
    rw [Outside.caseAlone, ← hrun]
    simp only [Outside.checkRun, if_pos hok, ← hcheck]

theorem Op.ReadsResource.exists_read {e : Op} (he : e.ReadsResource) :
    ∃ fs name, e = .ask (.readResource fs name) := by
  unfold Op.ReadsResource at he
  split at he
  · exact ⟨_, _, rfl⟩
  · exact absurd he id

/-- The reads of a goroutine are answered as `o` answers them. -/
theorem reads_alone {tr : Trace} (hrules : o.Rules tr) {i : Tid} {α : Type} {p : EProg α}
    {t : List (Event Op Op.Ans)} {a : α} (hsub : t ⊆ own i tr) (hall : p.All Op.ReadsResource)
    (hruns : p.Runs t a) : p.eval? o.answer = some a := by
  refine hruns.eval? ?_
  rintro ⟨e, r⟩ hev
  obtain ⟨fs, name, rfl⟩ := (hruns.all hall _ hev).exists_read
  obtain rfl := hrules.read _ _ _ _ (mem_own.mp (hsub hev))
  rfl

section Calls

variable (hx : g.executor.All Op.OfExecutor) {requests : ℕ → Ctx × JudgeRequest} {judgeMax execMax : ℕ}
  {cpus : List ℕ} {c : Config Op Op.Ans Tid State JudgeAns}
  (h : Reachable semantics (.start (State.new judgeMax execMax cpus) (judgeCalls g requests)) c)
  (hrules : o.Rules c.trace)
  (hcoll : ∀ source source', Asked c.trace source → Asked c.trace source' →
    g.sha256 source = g.sha256 source' → source = source')

include hx h hrules

/-- The cases that a request collected are those that it would have gone through by itself. -/
theorem cases_alone {j : ℕ} {batch : Batch} {results : List JudgeCaseResult}
    (hcollected : .collected results ∈ course (own (.judge j) c.trace))
    (hbatch : ∀ batch', .started batch' ∈ course (own (.judge j) c.trace) → batch' = batch) :
    results = batch.cases.map (o.caseAlone batch.runner) := by
  have hover := casesOver hx h hcollected hbatch
  apply List.ext_getElem?
  intro n
  rw [List.getElem?_map]
  cases hres : results[n]? with
  | none =>
    have hlen := hover.length
    rw [List.getElem?_eq_none_iff] at hres
    rw [List.getElem?_eq_none (by omega)]
    rfl
  | some res =>
    obtain ⟨data, ms, hdata, hcourse, hcase⟩ := hover.ended n res hres
    rw [hdata, Option.map_some, case_alone hcase]
    intro ctx' req out hmem
    have hran : .ran ctx' req out ∈ course (own (.case j n) c.trace) := by
      rw [hcourse]
      simp [hmem]
    exact hrules.run (.case j n) ctx' req out (mem_own.mp (mem_course.mp hran))

include hcoll

/-- A checker, wherever it came from, is what compiling its source returns. -/
theorem checker_alone {i : Tid} {source : Bytes} {t₁ t₂ t₃ : List (Event Op Op.Ans)}
    {res : Except Err Execution.CompileResult} (hown : own i c.trace = t₁ ++ (t₂ ++ t₃))
    (hruns : (compileChecker g ctx source).Runs t₂ res) :
    res = setupResult (o.compile (checkerCompileRequest g.testlibHeader source)) := by
  obtain ⟨hasked, k, source', hkey, hasked', ctx', raw, hdid, rfl⟩ := compileChecker_outcome hx h hown hruns
  obtain rfl := hcoll source' source hasked' hasked hkey
  rw [hrules.compile _ _ _ _ hdid]

theorem plan_alone {j : ℕ} {plan : JudgePlan} {t₁ t₂ t₃ : List (Event Op Op.Ans)} {result : JudgeResult}
    (hown : own (.judge j) c.trace = t₁ ++ (t₂ ++ t₃)) (hruns : (executeJudgePlan g ctx plan).Runs t₂ result)
    (hbefore : course t₁ = []) (hbehind : course t₃ = []) : result = o.planAlone g plan := by
  have hcourse : course (own (.judge j) c.trace) = course t₂ := by
    rw [hown, course_append, course_append, hbefore, hbehind, List.nil_append, List.append_nil]
  -- the executor answers as it would alone, and so does a shared or cached compilation
  have hcompile : ∀ ctx' req raw, .compiled ctx' req raw ∈ course t₂ → raw = o.compile req := by
    intro ctx' req raw hmem
    rw [← hcourse] at hmem
    exact hrules.compile (.judge j) ctx' req raw (mem_own.mp (mem_course.mp hmem))
  have hchecker : ∀ ctx' source res, .checker ctx' source res ∈ course t₂ →
      res = setupResult (o.compile (checkerCompileRequest g.testlibHeader plan.checker)) := by
    intro ctx' source res hmem
    obtain ⟨t₄, t₅, t₆, rfl, hprepare⟩ := executeJudgePlan_compileChecker hx hruns hmem
    have hsplit : own (.judge j) c.trace = (t₁ ++ t₄) ++ (t₅ ++ (t₆ ++ t₃)) := by
      rw [hown]
      simp
    exact checker_alone hx h hrules hcoll hsplit hprepare
  have hplan := executeJudgePlan_course hx hruns
  generalize hms : course t₂ = ms at hcompile hchecker hplan
  cases hplan with
  | failed e | rejected log => rw [Outside.planAlone, ← hcompile _ _ _ List.mem_cons_self]
  | checkerFailed log artifact e hc =>
    obtain ⟨ctx', source, hmem⟩ := hc.checker_mem.mpr rfl
    obtain ⟨e', he'⟩ := setupResult_eq_error.mp ⟨e, (hchecker _ _ _ (List.mem_cons_of_mem _ hmem)).symm⟩
    rw [Outside.planAlone, ← hcompile _ _ _ List.mem_cons_self]
    simp only [Outside.programAlone, he']
  | checkerRejected log artifact checkerLog hc =>
    obtain ⟨ctx', source, hmem⟩ := hc.checker_mem.mpr rfl
    have hout := setupResult_eq_ok.mp (hchecker _ _ _ (List.mem_cons_of_mem _ hmem)).symm
    rw [Outside.planAlone, ← hcompile _ _ _ List.mem_cons_self]
    simp only [Outside.programAlone, hout]
  | judged log artifact checkerLog checker results hc =>
    obtain ⟨ctx', source, hmem⟩ := hc.checker_mem.mpr rfl
    have hout := setupResult_eq_ok.mp (hchecker _ _ _ (List.mem_cons_of_mem _ (List.mem_append_left _ hmem))).symm
    have hcases : results = (plan.batch ctx artifact checker).cases.map
        (o.caseAlone (plan.batch ctx artifact checker).runner) := by
      refine cases_alone hx h hrules (j := j) ?_ ?_
      · rw [hcourse, hms]
        simp
      · intro batch hbatch
        rw [hcourse, hms] at hbatch
        simpa [hc.not_started] using hbatch
    rw [Outside.planAlone, ← hcompile _ _ _ List.mem_cons_self]
    simp only [Outside.programAlone, hout, hcases]
    rfl

/-- A request in its judge slot. -/
theorem judgeAdmitted_alone {j : ℕ} {req : JudgeRequest} {profile : LanguageProfile} {choice : CheckerChoice}
    {t : List (Event Op Op.Ans)} {res : JudgeResult × Option Err}
    (hown : own (.judge j) c.trace = ⟨.judgeAcquire ctx, none⟩ :: (t ++ [⟨.judgeRelease, ()⟩]))
    (hruns : (judgeAdmitted g ctx req profile choice).Runs t res) :
    ((materialize g req profile choice).eval? o.answer).map (o.admittedAlone g) = some res := by
  obtain ⟨reads, rest, rfl, hrest⟩ := judgeAdmitted_runs hruns
  have hsub : reads ⊆ own (.judge j) c.trace := by
    intro ev hev
    rw [hown]
    simp [hev]
  rcases hrest with ⟨e, hreads, -, rfl⟩ | ⟨plan, result, hreads, hplan, rfl⟩
  · rw [reads_alone hrules hsub (materialize_all _ _ _) hreads]
    rfl
  · have hnone : course reads = [] :=
      course_unmarked fun ev hev => (hreads.all (materialize_all _ _ _) ev hev).unmarked
    have hsplit : own (.judge j) c.trace =
        (⟨.judgeAcquire ctx, none⟩ :: reads) ++ (rest ++ [⟨.judgeRelease, ()⟩]) := by
      rw [hown]
      simp
    have hresult := plan_alone hx h hrules hcoll hsplit hplan (by simpa [Milestone.of] using hnone) rfl
    rw [reads_alone hrules hsub (materialize_all _ _ _) hreads, hresult]
    rfl

/-- A call of `Judge`, whatever its slot. -/
theorem judge_runs_alone {j : ℕ} {res : JudgeResult × Option Err}
    (hruns : (judge g (requests j).1 (requests j).2).Runs (own (.judge j) c.trace) res) :
    o.judgeAlone g (requests j).2 = some res ∨
      (∃ e, Did c.trace (.judge j) (.judgeAcquire (requests j).1) (some e)) ∧
        res = (failedBeforeRun "judge request cancelled or timed out while waiting for capacity", none) := by
  unfold judge at hruns
  rw [Outside.judgeAlone]
  cases hvalid : validateJudgeRequest (requests j).2 with
  | some e =>
    simp only [hvalid] at hruns ⊢
    exact .inl (by rw [(Prog.runs_ret_iff.mp hruns).2])
  | none =>
    simp only [hvalid] at hruns ⊢
    cases hprofile : profileForLanguage (requests j).2.language with
    | error e =>
      simp only [hprofile] at hruns ⊢
      exact .inl (by rw [(Prog.runs_ret_iff.mp hruns).2])
    | ok profile =>
      simp only [hprofile] at hruns ⊢
      cases hchoice : resolveChecker g (requests j).2.checker (requests j).2.checkerSourceCode with
      | error e =>
        simp only [hchoice] at hruns ⊢
        exact .inl (by rw [(Prog.runs_ret_iff.mp hruns).2])
      | ok choice =>
        simp only [hchoice] at hruns ⊢
        obtain ⟨acquired, t, hown, hruns⟩ := Prog.runs_perform_iff.mp hruns
        cases acquired with
        | some e =>
          refine .inr ⟨⟨e, mem_own.mp ?_⟩, (Prog.runs_ret_iff.mp hruns).2⟩
          rw [hown]
          exact List.mem_cons_self
        | none =>
          obtain ⟨t₁, t₂, rfl, hadmitted, hrelease⟩ := Prog.runs_deferring_iff.mp hruns
          obtain ⟨_, t₃, rfl, hdone⟩ := Prog.runs_op_iff.mp hrelease
          obtain ⟨rfl, -⟩ := Prog.runs_ret_iff.mp hdone
          exact .inl (judgeAdmitted_alone hx h hrules hcoll hown hadmitted)

end Calls

/-- Concurrent requests refine requests judged alone. Where the executor and the resources answer equal
requests equally and the checker sources in use do not collide, every call of `Judge` that returned has
returned what its request comes to by itself, unless its context ended while it waited for a slot. -/
theorem judge_refines_alone (hx : g.executor.All Op.OfExecutor) {requests : ℕ → Ctx × JudgeRequest}
    {judgeMax execMax : ℕ} {cpus : List ℕ} {c : Config Op Op.Ans Tid State JudgeAns}
    (h : Reachable semantics (.start (State.new judgeMax execMax cpus) (judgeCalls g requests)) c)
    (hrules : o.Rules c.trace)
    (hcoll : ∀ source source', Asked c.trace source → Asked c.trace source' →
      g.sha256 source = g.sha256 source' → source = source')
    {j : ℕ} {res : JudgeResult × Option Err} (hret : c.prog (.judge j) = .ret res) :
    o.judgeAlone g (requests j).2 = some res ∨
      (∃ e, Did c.trace (.judge j) (.judgeAcquire (requests j).1) (some e)) ∧
        res = (failedBeforeRun "judge request cancelled or timed out while waiting for capacity", none) :=
  judge_runs_alone hx h hrules hcoll (h.own_runs hret)

/-! ## A cached checker -/

/-- The calm world as functions. -/
def calmOutside : Outside where
  compile req := calmAnswer (.compile (.request 0) req)
  run req := (calmAnswer (.run (.request 0) req)).map Subtype.val
  read fs name := calmAnswer (.readResource fs name)

/-- An event agrees with the calm world, and asks for no checker but `x`. -/
def calmEvent : Event Op Op.Ans → Bool
  | ⟨.mark (.leaveCompile _ req res), _⟩ => res = calmOutside.compile req
  | ⟨.mark (.leaveRun _ req res), _⟩ => res = calmOutside.run req
  | ⟨.ask (.readResource fs name), res⟩ => decide ((res : Except Err Bytes) = calmOutside.read fs name)
  | ⟨.mark (.enterChecker _ source), _⟩ => source = utf8 "x"
  | _ => true

theorem calmOutside_rules {tr : Trace} (h : ∀ en ∈ tr, calmEvent en.toEvent = true) :
    calmOutside.Rules tr where
  compile _ _ _ _ hdid := of_decide_eq_true (h _ hdid)
  run _ _ _ _ hdid := of_decide_eq_true (h _ hdid)
  read _ _ _ _ hdid := of_decide_eq_true (h _ hdid)

theorem asked_of_calm {tr : Trace} (h : ∀ en ∈ tr, calmEvent en.toEvent = true) {source : Bytes}
    (hasked : Asked tr source) : source = utf8 "x" := by
  obtain ⟨i, ctx, hdid⟩ := hasked
  exact of_decide_eq_true (h _ hdid)

/-- The look-ups that found something. -/
def isHit : Event Op Op.Ans → Bool
  | ⟨.cacheGet _, some _⟩ => true
  | _ => false

/-- Request 1 takes the checker that request 0 has compiled. -/
theorem judge_refines_alone_cached :
    ∃ c : Config Op Op.Ans Tid State JudgeAns,
      Reachable semantics (.start (State.new 1 1 [0]) (judgeCalls oneCheckerEngine inlineRequests)) c ∧
      (own (.judge 1) c.trace).any isHit = true ∧
      ∃ result, result.status = .ok ∧ c.prog (.judge 1) = .ret (result, none) ∧
        calmOutside.judgeAlone oneCheckerEngine (inlineRequests 1).2 = some (result, none) := by
  let schedule := List.replicate 16 (Tid.judge 0) ++ List.replicate 8 (.case 0 0) ++
    List.replicate 2 (.judge 0) ++ List.replicate 8 (.judge 1) ++ List.replicate 8 (.case 1 0) ++
    List.replicate 2 (.judge 1)
  have hrun : (drive World.calm.answer schedule
      (.start (State.new 1 1 [0]) (judgeCalls oneCheckerEngine inlineRequests))).map (fun c =>
        ((c.prog (.judge 1)).returned?.map fun res => (res.1.status, res.2),
          refusals (own (.judge 1) c.trace), (own (.judge 1) c.trace).any isHit,
          c.trace.all fun en => calmEvent en.toEvent)) =
      some (some (.ok, none), 0, true, true) := by decide +kernel
  obtain ⟨c, hc, heq⟩ := Option.map_eq_some_iff.mp hrun
  simp only [Prod.mk.injEq] at heq
  obtain ⟨hstatus, hrefusals, hhit, hcalm⟩ := heq
  obtain ⟨⟨result, err⟩, hret, hres⟩ := Option.map_eq_some_iff.mp hstatus
  obtain ⟨hstatus', rfl⟩ := Prod.mk.inj hres
  have hreach : Reachable semantics
      (.start (State.new 1 1 [0]) (judgeCalls oneCheckerEngine inlineRequests)) c :=
    drive_reachable World.calm.answer_sound Relation.ReflTransGen.refl hc
  have hret' : c.prog (.judge 1) = .ret (result, none) := Prog.returned?_eq_some.mp hret
  have hall := List.all_eq_true.mp hcalm
  refine ⟨c, hreach, hhit, result, hstatus', hret', ?_⟩
  refine (judge_refines_alone anyExecutor_ofExecutor hreach (calmOutside_rules hall) ?_ hret').resolve_right ?_
  · intro source source' hasked hasked' _
    rw [asked_of_calm hall hasked, asked_of_calm hall hasked']
  · rintro ⟨⟨e, hdid⟩, -⟩
    exact List.countP_eq_zero.mp hrefusals _ (mem_own.mpr hdid) rfl

end Afterglow.Engine
