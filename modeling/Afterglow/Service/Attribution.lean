import Afterglow.Service.CheckerChoice
import Afterglow.Service.Course

/-!
# Who is to blame

The status of a result names one of five parties: nobody, the program, the inline checker at its
compilation, the inline checker at a case, or the engine. Each status is characterised by what the
executor returned to the request and to the shared compilation that it waited on.
-/

namespace Afterglow.Engine

open Concurrency Execution Service

variable {g : JudgeEngine} {ctx : Ctx}

/-! ## Goroutines that are still running -/

theorem Op.ans_nonempty (e : Op) : Nonempty e.Ans := by
  cases e with
  | judgeAcquire ctx | execAcquire ctx | removeAll d | writeFile d name content mode | cacheGet key =>
    exact ⟨none⟩
  | cpuTake ctx | mkdirTemp | flightWait f | stat d name | readFile d name =>
    exact ⟨.error (.text "")⟩
  | flightDo key => exact ⟨.lead 0⟩
  | caseBegin =>
    let program : CompiledLanguageProgram := ⟨.c, ⟨"", fun _ _ => []⟩, ⟨"", [], 0⟩⟩
    exact ⟨.request 0, ⟨program, ⟨"", [], 0⟩, false, 0, 0⟩, ⟨[], []⟩⟩
  | wgWait => exact ⟨[]⟩
  | enterExecute ctx req => exact ⟨none⟩
  | watch ctx req => exact ⟨World.calm.watch (.judge 0) ctx req⟩
  | ask q => exact ⟨calmAnswer q⟩
  | _ => exact ⟨()⟩

/-- The last operation of the goroutine of a case. -/
def Op.IsCaseEnd : Op → Prop
  | .caseEnd _ => True
  | _ => False

theorem Op.OfExecutor.not_isCaseEnd {e : Op} (he : e.OfExecutor) : ¬ e.IsCaseEnd := by
  cases e <;> first | exact absurd he id | exact id

section Calls

variable (hx : g.executor.All Op.OfExecutor) {requests : ℕ → Ctx × JudgeRequest} {judgeMax execMax : ℕ}
  {cpus : List ℕ} {c : Config Op Op.Ans Tid State JudgeAns}
  (h : Reachable semantics (.start (State.new judgeMax execMax cpus) (judgeCalls g requests)) c)

include hx

theorem caseThread_last : (caseThread g).Last Op.IsCaseEnd := by
  have hrun : ∀ ctx req, (g.executor.Run ctx req).All fun e => ¬ e.IsCaseEnd := fun _ _ =>
    Run_all hx (fun _ he => he.not_isCaseEnd) (Prog.returns_true _) id fun _ _ => id
  refine ⟨fun hcase => absurd hcase id, fun started => ?_⟩
  show Prog.Last _ (runCase g started.1 started.2.1 started.2.2 >>= fun res => perform (.caseEnd res))
  exact Prog.Last.bind (runCase_all (hrun _) _ _) fun res => ⟨fun _ _ => ⟨_, rfl⟩, fun _ => trivial⟩

include h

/-- However far a request has got, it is on the course of a plan. -/
theorem judge_course_partial (j : ℕ) :
    ∃ ms, course (own (.judge j) c.trace) <+: ms ∧
      (ms = [] ∨ ∃ plan result, PlanCourse g (requests j).1 plan ms result) := by
  obtain ⟨t, res, hruns⟩ := (h.own_after (.judge j)).exists_runs Op.ans_nonempty
  refine ⟨_, ?_, judge_course_any hx hruns⟩
  rw [course_append]
  exact List.prefix_append _ _

/-- A case that has ended went the course of a case, with what its request started it with. -/
theorem case_course {j n : ℕ} {res : JudgeCaseResult} (hend : Did c.trace (.case j n) (.caseEnd res) ()) :
    ∃ batch data ms, Did c.trace (.judge j) (.goCases batch) () ∧ batch.cases[n]? = some data ∧
      course (own (.case j n) c.trace) = .begun batch.ctx batch.runner data :: (ms ++ [.ended res]) ∧
      CaseCourse batch.ctx batch.runner data ms res := by
  obtain ⟨u, hret⟩ := (h.own_after (.case j n)).ret_of_last (caseThread_last hx) (mem_own.mpr hend) trivial
  obtain ⟨ctx', runner, data, ms, res', hcourse, hcase⟩ := caseThread_course hx (h.own_runs hret)
  have hbegun : Milestone.begun ctx' runner data ∈ course (own (.case j n) c.trace) := by simp [hcourse]
  obtain ⟨batch, hgo, rfl, rfl, hdata⟩ := case_begun hx h (mem_own.mp (mem_course.mp hbegun))
  have hended : Milestone.ended res ∈ course (own (.case j n) c.trace) :=
    mem_course.mpr (mem_own.mpr hend)
  obtain rfl : res = res' := by
    rw [hcourse] at hended
    cases hcase <;> simpa using hended
  exact ⟨batch, data, ms, hgo, hdata, hcourse, hcase⟩

end Calls

/-! ## Shared compilations -/

theorem act_nextFlight {i : Tid} {s s' : State} {e : Op} {r : e.Ans} (h : act i s e r s') :
    s.nextFlight ≤ s'.nextFlight := by
  unfold act at h
  split at h
  all_goals grind [State.setDir]

/-- Flights are numbered: no two goroutines lead the same one. -/
theorem lead_unique {α : Tid → Type} {p : (i : Tid) → EProg (α i)} {judgeMax execMax : ℕ}
    {cpus : List ℕ} {c : Config Op Op.Ans Tid State α}
    (h : Reachable semantics (.start (State.new judgeMax execMax cpus) p) c) {i i' : Tid} {f : ℕ}
    {key key' : Bytes} (hlead : Did c.trace i (.flightDo key) (.lead f))
    (hlead' : Did c.trace i' (.flightDo key') (.lead f)) : i = i' := by
  suffices hall : (∀ i key f, Did c.trace i (.flightDo key) (.lead f) → f < c.shared.nextFlight) ∧
      ∀ i i' key key' f, Did c.trace i (.flightDo key) (.lead f) →
        Did c.trace i' (.flightDo key') (.lead f) → i = i' from hall.2 i i' key key' f hlead hlead'
  refine h.induct (P := fun c =>
    (∀ i key f, Did c.trace i (.flightDo key) (.lead f) → f < c.shared.nextFlight) ∧
      ∀ i i' key key' f, Did c.trace i (.flightDo key) (.lead f) →
        Did c.trace i' (.flightDo key') (.lead f) → i = i') ?_ ?_
  · exact ⟨by simp [Config.start, Did], by simp [Config.start, Did]⟩
  rintro c k e kont r s _ ⟨hlt, hinj⟩ _ hact
  simp only [Config.advance]
  -- the number of a flight led in this step is the next one
  have hnew : ∀ i key f, (⟨⟨.flightDo key, .lead f⟩, i⟩ : Entry Op Op.Ans Tid) = ⟨⟨e, r⟩, k⟩ →
      i = k ∧ f = c.shared.nextFlight ∧ f < s.nextFlight := by
    rintro i key f ⟨⟩
    obtain ⟨-, rfl, rfl⟩ := hact
    exact ⟨rfl, rfl, Nat.lt_succ_self _⟩
  refine ⟨?_, ?_⟩
  · intro i key f hdid
    rcases did_snoc.mp hdid with hdid | heq
    · exact (hlt i key f hdid).trans_le (act_nextFlight hact)
    · exact (hnew i key f heq).2.2
  · intro i i' key key' f hdid hdid'
    rcases did_snoc.mp hdid with hold | heq <;> rcases did_snoc.mp hdid' with hold' | heq'
    · exact hinj i i' key key' f hold hold'
    · obtain ⟨-, rfl, -⟩ := hnew i' key' f heq'
      exact absurd (hlt i key _ hold) (lt_irrefl _)
    · obtain ⟨-, rfl, -⟩ := hnew i key f heq
      exact absurd (hlt i' key' _ hold') (lt_irrefl _)
    · rw [(hnew i key f heq).1, (hnew i' key' f heq').1]

/-- What a request that leads a flight publishes is the outcome of its compilation, if it made one. -/
theorem PlanCourse.published {plan : JudgePlan} {ms : List Milestone} {result : JudgeResult}
    (h : PlanCourse g ctx plan ms result) {ctx' : Ctx} {source key : Bytes} {f : ℕ}
    {raw res : Except Err Execution.CompileResult}
    (hcompiled : .compiled ctx' (checkerCompileRequest g.testlibHeader source) raw ∈ ms)
    (hpublished : .published key f res ∈ ms) : res = setupResult raw := by
  have hne : checkerCompileRequest g.testlibHeader source ≠
      plan.profile.compile.request plan.sourceCode :=
    (CompileConfig.request_ne_checker _ _ _ _).symm
  have hchecker : ∀ ms' res', CheckerCourse g ctx plan.checker ms' res' →
      .compiled ctx' (checkerCompileRequest g.testlibHeader source) raw ∈ ms' →
      .published key f res ∈ ms' → res = setupResult raw := by
    intro ms' res' hcourse hcompiled hpublished
    cases hcourse <;> simp_all
  cases h with
  | failed e | rejected log => simp at hpublished
  | checkerFailed log artifact e hc | checkerRejected log artifact checkerLog hc =>
    exact hchecker _ _ hc (by simpa [hne] using hcompiled) (by simpa using hpublished)
  | judged log artifact checkerLog checker results hc =>
    exact hchecker _ _ hc (by simpa [hne] using hcompiled) (by simpa using hpublished)

variable (g) in
/-- The compilation that flight `f` was led for returned an error. -/
def SharedFailed (tr : Trace) (f : ℕ) : Prop :=
  ∃ k key ctx source e, Did tr k (.flightDo key) (.lead f) ∧
    Did tr k (.mark (.leaveCompile ctx (checkerCompileRequest g.testlibHeader source) (.error e))) ()

theorem setupResult_eq_error {raw : Except Err Execution.CompileResult} :
    (∃ e, setupResult raw = .error e) ↔ ∃ e, raw = .error e := by
  cases raw <;> simp [setupResult, Except.mapError]

theorem setupResult_eq_ok {raw : Except Err Execution.CompileResult} {out : Execution.CompileResult} :
    setupResult raw = .ok out ↔ raw = .ok out := by
  cases raw <;> simp [setupResult, Except.mapError]

section Calls

variable (hx : g.executor.All Op.OfExecutor) {requests : ℕ → Ctx × JudgeRequest} {judgeMax execMax : ℕ}
  {cpus : List ℕ} {c : Config Op Op.Ans Tid State JudgeAns}
  (h : Reachable semantics (.start (State.new judgeMax execMax cpus) (judgeCalls g requests)) c)

include hx h

/-- A joined flight hands over an error exactly if the compilation of its leader returned one. -/
theorem shared_error_iff {i : Tid} {key : Bytes} {f : ℕ} {res : Except Err Execution.CompileResult}
    (hjoin : Did c.trace i (.flightDo key) (.join f)) (hwait : Did c.trace i (.flightWait f) res) :
    (∃ e, res = .error e) ↔ SharedFailed g c.trace f := by
  obtain ⟨inv, -⟩ := judgeCalls_checker h (hx.mono fun _ he => he.quiet)
  have hlanded := inv.history.waited _ _ _ hwait
  obtain ⟨-, k, hlead, hdone, hmade⟩ : Landed g c.trace key f res := by
    rcases inv.history.joins _ _ _ hjoin with hf | ⟨res', hres', hland⟩
    · exact absurd (hlanded.symm.trans (inv.flight.fresh _ _ hf).2) (by simp)
    · obtain rfl := Option.some.inj (hlanded.symm.trans hres')
      exact hland
  constructor
  · rintro ⟨e, rfl⟩
    obtain ⟨source, -, -, ctx', raw, hcompiled, heq⟩ := hmade fun ⟨out, hout, _⟩ => nomatch hout
    obtain ⟨e', rfl⟩ := setupResult_eq_error.mp ⟨e, heq.symm⟩
    exact ⟨k, key, ctx', source, e', hlead, hcompiled⟩
  · rintro ⟨k', key', ctx', source, e, hlead', hcompiled⟩
    obtain rfl := lead_unique h hlead hlead'
    cases k with
    | case j n =>
      have hcase := ((h.own_after (.case j n)).all (caseThread_ofCase hx)).1 _ (mem_own.mpr hlead)
      exact absurd hcase id
    | judge j =>
      obtain ⟨ms, hms, hplan⟩ := judge_course_partial hx h j
      have hcompiled' := hms.subset (mem_course.mpr (mem_own.mpr hcompiled) :
        Milestone.compiled _ _ _ ∈ course (own (.judge j) c.trace))
      have hdone' := hms.subset (mem_course.mpr (mem_own.mpr hdone) :
        Milestone.published _ _ _ ∈ course (own (.judge j) c.trace))
      rcases hplan with rfl | ⟨plan, result, hplan⟩
      · cases hdone'
      · exact ⟨_, hplan.published hcompiled' hdone'⟩

end Calls

/-! ## What happened to a request -/

variable (g) in
/-- An executor call made for request `j` returned an error, shared compilations that it waited on
included. -/
inductive ExecutorFailed (tr : Trace) (j : ℕ) : Prop
  | compile (i : Tid) (ctx : Ctx) (req : CompileRequest) (e : Err) (hi : i.request = j)
    (h : Did tr i (.mark (.leaveCompile ctx req (.error e))) ())
  | run (i : Tid) (ctx : Ctx) (req : RunRequest) (e : Err) (hi : i.request = j)
    (h : Did tr i (.mark (.leaveRun ctx req (.error e))) ())
  | shared (f : ℕ) (res : Except Err Execution.CompileResult)
    (hwait : Did tr (.judge j) (.flightWait f) res) (h : SharedFailed g tr f)

/-- The compilation of the program of request `j` returned `res`. -/
def ProgramCompile (req : JudgeRequest) (profile : LanguageProfile) (tr : Trace) (j : ℕ)
    (res : Except Err Execution.CompileResult) : Prop :=
  ∃ ctx, Did tr (.judge j)
    (.mark (.leaveCompile ctx (profile.compile.request (utf8 req.sourceCode)) res)) ()

/-- The compilation of the checker of request `j` returned `res`, by itself, shared or cached. -/
def CheckerCompile (tr : Trace) (j : ℕ) (res : Except Err Execution.CompileResult) : Prop :=
  ∃ ctx source, Did tr (.judge j) (.mark (.leaveChecker ctx source res)) ()

/-- What the `Run` calls of a goroutine returned, in order. -/
def runResults (events : List (Event Op Op.Ans)) : List (Except Err RunResult) :=
  (course events).filterMap fun m =>
    match m with
    | .ran _ _ res => some res
    | _ => none

/-- A run of the checker that neither accepted, by `OK` and exit code 0, nor rejected, by `RE` and exit
code 1 or 2. -/
def Undecided (out : RunResult) : Prop :=
  ¬ (out.verdict = .ok ∧ out.exitCode = 0) ∧
    ¬ (out.verdict = .re ∧ (out.exitCode = 1 ∨ out.exitCode = 2))

/-- The checker ran on case `n` of request `j` and neither accepted nor rejected. -/
def CheckerFailedOn (tr : Trace) (j n : ℕ) : Prop :=
  ∃ ran out, runResults (own (.case j n) tr) = [ran, .ok out] ∧ Undecided out

/-- The checker of a request is inline. -/
def InlineChecker (req : JudgeRequest) : Prop := req.checkerSourceCode ≠ ""

instance (req : JudgeRequest) : Decidable (InlineChecker req) := inferInstanceAs (Decidable (_ ≠ _))

/-- The shape of a result and whom its status blames. -/
structure Attributed (g : JudgeEngine) (req : JudgeRequest) (profile : LanguageProfile) (tr : Trace) (j : ℕ)
    (result : JudgeResult) : Prop where
  cases_nonempty : result.cases ≠ [] ↔
    (∃ out, ProgramCompile req profile tr j (.ok out) ∧ out.artifact.isSome) ∧
      ∃ out, CheckerCompile tr j (.ok out) ∧ out.artifact.isSome
  cases_length : result.cases ≠ [] → result.cases.length = req.testCases.length
  cases_own : ∀ n res, result.cases[n]? = some res → ∃ ran checked,
    runResults (own (.case j n) tr) = ran :: checked.toList ∧
      res = caseOutcome req.language (InlineChecker req) ran checked
  systemError : result.status = .systemError ↔ ExecutorFailed g tr j ∨ ¬ InlineChecker req ∧
    ((∃ out, CheckerCompile tr j (.ok out) ∧ out.artifact = none) ∨ ∃ n, CheckerFailedOn tr j n)
  compileError : result.status = .compileError ↔
    ∃ out, ProgramCompile req profile tr j (.ok out) ∧ out.artifact = none
  checkerCompileError : result.status = .checkerCompileError ↔
    (∃ out, ProgramCompile req profile tr j (.ok out) ∧ out.artifact.isSome) ∧ InlineChecker req ∧
      ∃ out, CheckerCompile tr j (.ok out) ∧ out.artifact = none
  checkerExecutionError : result.status = .checkerExecutionError ↔
    ¬ ExecutorFailed g tr j ∧ InlineChecker req ∧ ∃ n, CheckerFailedOn tr j n
  set : result.status ≠ .unset

/-! ## Reading the courses -/

theorem programCompile_iff {req : JudgeRequest} {profile : LanguageProfile} {tr : Trace} {j : ℕ}
    {res : Except Err Execution.CompileResult} :
    ProgramCompile req profile tr j res ↔ ∃ ctx,
      .compiled ctx (profile.compile.request (utf8 req.sourceCode)) res ∈ course (own (.judge j) tr) := by
  simp only [ProgramCompile, mem_course, mem_own, Milestone.event, Did]

theorem checkerCompile_iff {tr : Trace} {j : ℕ} {res : Except Err Execution.CompileResult} :
    CheckerCompile tr j res ↔ ∃ ctx source, .checker ctx source res ∈ course (own (.judge j) tr) := by
  simp only [CheckerCompile, mem_course, mem_own, Milestone.event, Did]

theorem mem_runResults {t : List (Event Op Op.Ans)} {res : Except Err RunResult} :
    res ∈ runResults t ↔ ∃ ctx req, .ran ctx req res ∈ course t := by
  simp only [runResults, List.mem_filterMap]
  constructor
  · rintro ⟨m, hm, heq⟩
    cases m <;> cases heq
    exact ⟨_, _, hm⟩
  · rintro ⟨ctx, req, hm⟩
    exact ⟨_, hm, rfl⟩

namespace CheckerCourse

variable {source : Bytes} {ms : List Milestone} {res : Except Err Execution.CompileResult}

theorem checker_mem (h : CheckerCourse g ctx source ms res) {res' : Except Err Execution.CompileResult} :
    (∃ ctx' source', .checker ctx' source' res' ∈ ms) ↔ res' = res := by
  cases h <;> simp

theorem not_program (h : CheckerCourse g ctx source ms res) (config : CompileConfig) (ctx' : Ctx)
    (sourceCode : Bytes) (res' : Except Err Execution.CompileResult) :
    .compiled ctx' (config.request sourceCode) res' ∉ ms := by
  cases h <;> simp [CompileConfig.request_ne_checker]

theorem not_ran (h : CheckerCourse g ctx source ms res) (ctx' : Ctx) (req : RunRequest)
    (res' : Except Err RunResult) : .ran ctx' req res' ∉ ms := by
  cases h <;> simp

theorem not_started (h : CheckerCourse g ctx source ms res) (batch : Batch) : .started batch ∉ ms := by
  cases h <;> simp

/-- It returns an error exactly if its own compilation did, or the one it waited on. -/
theorem error_iff (h : CheckerCourse g ctx source ms res) {Failed : ℕ → Prop}
    (hshared : ∀ f res', .shared f res' ∈ ms → ((∃ e, res' = .error e) ↔ Failed f)) :
    (∃ e, res = .error e) ↔ (∃ ctx' req e, .compiled ctx' req (.error e) ∈ ms) ∨
      ∃ f res', .shared f res' ∈ ms ∧ Failed f := by
  cases h with
  | cached v | filled f v => simp
  | joined f => simp [hshared f res (by simp)]
  | compiled f raw =>
    rw [setupResult_eq_error]
    simp [eq_comm]

end CheckerCourse

theorem PlanCourse.not_ran {plan : JudgePlan} {ms : List Milestone} {result : JudgeResult}
    (h : PlanCourse g ctx plan ms result) (ctx' : Ctx) (req : RunRequest) (res : Except Err RunResult) :
    .ran ctx' req res ∉ ms := by
  cases h with
  | failed | rejected => simp
  | checkerFailed log artifact e hc | checkerRejected log artifact checkerLog hc
  | judged log artifact checkerLog checker results hc => simp [hc.not_ran]

namespace CaseCourse

variable {r : CaseRunner} {tc : CaseData} {ms : List Milestone} {res : JudgeCaseResult}

/-- What a case comes to is decided by its one or two runs. -/
theorem runs (h : CaseCourse ctx r tc ms res) :
    ∃ ran checked, (ms.filterMap fun m => match m with | .ran _ _ res => some res | _ => none) =
        ran :: checked.toList ∧
      res = caseOutcome r.program.language r.userChecker ran checked ∧
      (checked.isSome → ∃ runOut, ran = .ok runOut) := by
  cases h with
  | failed e => exact ⟨.error e, none, rfl, rfl, by simp⟩
  | stopped runOut _ => exact ⟨.ok runOut, none, rfl, rfl, by simp⟩
  | checked runOut checked _ => exact ⟨.ok runOut, some checked, rfl, rfl, fun _ => ⟨runOut, rfl⟩⟩

end CaseCourse

theorem normalizeLanguageRunResult_ran {language : Language} {runOut : RunResult}
    (h : Verdict.Ran runOut.verdict) :
    Verdict.Ran (normalizeLanguageRunResult language runOut).verdict := by
  unfold normalizeLanguageRunResult
  split
  · exact .inr (.inr (.inl rfl))
  · exact h

theorem Verdict.Ran.ne {v : Verdict} (h : Verdict.Ran v) : v ≠ .uke ∧ v ≠ .checkerExecutionError := by
  rcases h with rfl | rfl | rfl | rfl | rfl <;> simp

section Outcome

variable {language : Language} {userChecker : Bool} {ran : Except Err RunResult}
  {checked : Option (Except Err RunResult)}

theorem checkerResultOf_failed {out : RunResult} :
    (checkerResultOf out).outcome = .failed ↔ Undecided out := by
  unfold checkerResultOf Undecided
  split_ifs with haccepted hrejected
  · exact iff_of_false (by simp) fun h => h.1 haccepted
  · exact iff_of_false (by simp) fun h => h.2 hrejected
  · exact iff_of_true rfl ⟨haccepted, hrejected⟩

theorem checkVerdict_eq_uke {outcome : CheckerOutcome} :
    checkVerdict userChecker outcome = .uke ↔ userChecker = false ∧ outcome = .failed := by
  cases outcome <;> cases userChecker <;> simp [checkVerdict]

theorem checkVerdict_eq_checkerExecutionError {outcome : CheckerOutcome} :
    checkVerdict userChecker outcome = .checkerExecutionError ↔
      userChecker = true ∧ outcome = .failed := by
  cases outcome <;> cases userChecker <;> simp [checkVerdict]

theorem caseOutcome_uke (hran : ∀ runOut, ran = .ok runOut → Verdict.Ran runOut.verdict) :
    (caseOutcome language userChecker ran checked).verdict = .uke ↔
      (∃ e, .error e ∈ ran :: checked.toList) ∨
        userChecker = false ∧ ∃ out, checked = some (.ok out) ∧ (checkerResultOf out).outcome = .failed := by
  match ran, checked with
  | .error e, _ => exact iff_of_true rfl (.inl ⟨e, List.mem_cons_self⟩)
  | .ok runOut, none =>
    have hne := (@normalizeLanguageRunResult_ran language _ (hran runOut rfl)).ne.1
    refine iff_of_false hne ?_
    simp
  | .ok runOut, some (.error e) =>
    exact iff_of_true rfl (.inl ⟨e, by simp⟩)
  | .ok runOut, some (.ok out) =>
    show checkVerdict _ _ = _ ↔ _
    rw [checkVerdict_eq_uke]
    simp

theorem caseOutcome_checkerExecutionError (hchecked : checked.isSome → ∃ runOut, ran = .ok runOut)
    (hran : ∀ runOut, ran = .ok runOut → Verdict.Ran runOut.verdict) :
    (caseOutcome language userChecker ran checked).verdict = .checkerExecutionError ↔
      userChecker = true ∧ ∃ out, checked = some (.ok out) ∧ (checkerResultOf out).outcome = .failed := by
  match ran, checked with
  | .error e, none => exact iff_of_false (by simp [caseOutcome]) (by simp)
  | .error e, some checked => exact absurd (hchecked rfl) (by simp)
  | .ok runOut, none =>
    have hne := (@normalizeLanguageRunResult_ran language _ (hran runOut rfl)).ne.2
    exact iff_of_false hne (by simp)
  | .ok runOut, some (.error e) =>
    exact iff_of_false (by simp [caseOutcome, judgeCaseResultFromExecution]) (by simp)
  | .ok runOut, some (.ok out) =>
    show checkVerdict _ _ = _ ↔ _
    rw [checkVerdict_eq_checkerExecutionError]
    simp

end Outcome

/-! ## The courses of a request and its cases -/

/-- Runs that return no error return one of the five verdicts of a run. -/
def Executor.ReturnsRan (x : Executor) : Prop :=
  ∀ ctx req, (x.run ctx req).Returns fun res => ∀ runOut, res = .ok runOut → Verdict.Ran runOut.verdict

theorem anyExecutor_returnsRan : anyExecutor.ReturnsRan := by
  intro ctx req answer runOut heq
  match answer with
  | .error e => cases heq
  | .ok out =>
    obtain rfl := Except.ok.inj heq
    exact out.2

/-- Where `Run` returns, it returns a result in `Q`. -/
def Op.Leaves (Q : Except Err RunResult → Prop) : Op → Prop
  | .mark (.leaveRun _ _ res) => Q res
  | _ => True

theorem Op.OfExecutor.leaves {Q : Except Err RunResult → Prop} {e : Op} (he : e.OfExecutor) :
    e.Leaves Q := by
  unfold Op.Leaves
  split
  · exact absurd he id
  · trivial

theorem caseThread_leaves {Q : Except Err RunResult → Prop} (hx : g.executor.All Op.OfExecutor)
    (hQ : ∀ ctx req, (g.executor.run ctx req).Returns Q) : (caseThread g).All (Op.Leaves Q) :=
  caseThread_all (fun ctx req => Run_all hx (fun _ he => he.leaves) (hQ ctx req) trivial fun _ hres => hres)
    trivial fun _ => trivial

/-- The cases of a request that was judged: those in range are all over, and the others do nothing. -/
structure CasesOver (tr : Trace) (j : ℕ) (batch : Batch) (results : List JudgeCaseResult) : Prop where
  length : results.length = batch.cases.length
  ended : ∀ n res, results[n]? = some res → ∃ data ms, batch.cases[n]? = some data ∧
    course (own (.case j n) tr) = .begun batch.ctx batch.runner data :: (ms ++ [.ended res]) ∧
    CaseCourse batch.ctx batch.runner data ms res
  idle : ∀ n, results[n]? = none → own (.case j n) tr = []

section Calls

variable (hx : g.executor.All Op.OfExecutor) {requests : ℕ → Ctx × JudgeRequest} {judgeMax execMax : ℕ}
  {cpus : List ℕ} {c : Config Op Op.Ans Tid State JudgeAns}
  (h : Reachable semantics (.start (State.new judgeMax execMax cpus) (judgeCalls g requests)) c)

include hx h

theorem casesOver {j : ℕ} {batch : Batch} {results : List JudgeCaseResult}
    (hcollected : .collected results ∈ course (own (.judge j) c.trace))
    (hbatch : ∀ batch', .started batch' ∈ course (own (.judge j) c.trace) → batch' = batch) :
    CasesOver c.trace j batch results := by
  have hgo : ∀ batch', Did c.trace (.judge j) (.goCases batch') () → batch' = batch :=
    fun batch' hgo => hbatch batch' (mem_course.mpr (mem_own.mpr hgo))
  obtain ⟨i, batch', hi, hstart, hlen, hended⟩ :=
    (slotInv_reachable h).waited (.judge j) results (mem_own.mp (mem_course.mp hcollected))
  rw [goCases_by_judge hx h hstart, hi] at hstart
  obtain rfl := hgo batch' hstart
  refine ⟨hlen, ?_, ?_⟩
  · intro n res hres
    obtain ⟨batch'', data, ms, hgo'', hdata, hcourse, hcase⟩ := case_course hx h (hended n res hres)
    obtain rfl := hgo batch'' hgo''
    exact ⟨data, ms, hdata, hcourse, hcase⟩
  · intro n hnone
    refine case_idle hx h fun batch'' hgo'' => ?_
    rw [hgo batch'' hgo'', List.getElem?_eq_none_iff, ← hlen]
    exact List.getElem?_eq_none_iff.mp hnone

/-- A request that started no cases has none that did anything. -/
theorem cases_idle {j : ℕ} (hnone : ∀ batch, .started batch ∉ course (own (.judge j) c.trace)) (n : ℕ) :
    own (.case j n) c.trace = [] :=
  case_idle hx h fun batch hgo => absurd (mem_course.mpr (mem_own.mpr hgo)) (hnone batch)

/-- Where the executor can fail a request: at a compilation, or in a case. -/
theorem executorFailed_iff {j : ℕ} {plan : JudgePlan} {result : JudgeResult}
    (hplan : PlanCourse g ctx plan (course (own (.judge j) c.trace)) result) :
    ExecutorFailed g c.trace j ↔
      ((∃ ctx' req e, .compiled ctx' req (.error e) ∈ course (own (.judge j) c.trace)) ∨
        ∃ f res, .shared f res ∈ course (own (.judge j) c.trace) ∧ SharedFailed g c.trace f) ∨
      ∃ n e, .error e ∈ runResults (own (.case j n) c.trace) := by
  constructor
  · rintro (⟨i, ctx', req, e, hi, hdid⟩ | ⟨i, ctx', req, e, hi, hdid⟩ | ⟨f, res, hwait, hfailed⟩)
    · cases i with
      | judge j' =>
        obtain rfl : j' = j := hi
        exact .inl (.inl ⟨ctx', req, e, mem_course.mpr (mem_own.mpr hdid)⟩)
      | case j' n =>
        have hcase := ((h.own_after (.case j' n)).all (caseThread_ofCase hx)).1 _ (mem_own.mpr hdid)
        exact absurd hcase id
    · have hmem : Milestone.ran ctx' req (.error e) ∈ course (own i c.trace) :=
        mem_course.mpr (mem_own.mpr hdid)
      cases i with
      | judge j' =>
        obtain rfl : j' = j := hi
        exact absurd hmem (hplan.not_ran _ _ _)
      | case j' n =>
        obtain rfl : j' = j := hi
        exact .inr ⟨n, e, mem_runResults.mpr ⟨ctx', req, hmem⟩⟩
    · exact .inl (.inr ⟨f, res, mem_course.mpr (mem_own.mpr hwait), hfailed⟩)
  · rintro ((⟨ctx', req, e, hmem⟩ | ⟨f, res, hmem, hfailed⟩) | ⟨n, e, hmem⟩)
    · exact .compile _ ctx' req e rfl (mem_own.mp (mem_course.mp hmem))
    · exact .shared f res (mem_own.mp (mem_course.mp hmem)) hfailed
    · obtain ⟨ctx', req, hmem⟩ := mem_runResults.mp hmem
      exact .run (.case j n) ctx' req e rfl (mem_own.mp (mem_course.mp hmem))

end Calls

/-- A flight that handed over a result was joined. -/
theorem PlanCourse.joined {plan : JudgePlan} {ms : List Milestone} {result : JudgeResult}
    (h : PlanCourse g ctx plan ms result) {f : ℕ} {res : Except Err Execution.CompileResult}
    (hshared : .shared f res ∈ ms) : ∃ key, .entered key (.join f) ∈ ms := by
  have hchecker : ∀ ms' res', CheckerCourse g ctx plan.checker ms' res' → .shared f res ∈ ms' →
      ∃ key, .entered key (.join f) ∈ ms' := by
    intro ms' res' hc hshared
    cases hc <;> simp_all
  cases h with
  | failed e | rejected log => simp at hshared
  | checkerFailed log artifact e hc | checkerRejected log artifact checkerLog hc
  | judged log artifact checkerLog checker results hc =>
    obtain ⟨key, hkey⟩ := hchecker _ _ hc (by simpa using hshared)
    exact ⟨key, by simp [hkey]⟩

/-- What the course of request `j` says about the trace. -/
structure CourseOf (g : JudgeEngine) (req : JudgeRequest) (profile : LanguageProfile) (tr : Trace) (j : ℕ)
    (ms : List Milestone) : Prop where
  program : ∀ res, ProgramCompile req profile tr j res ↔
    ∃ ctx, .compiled ctx (profile.compile.request (utf8 req.sourceCode)) res ∈ ms
  checker : ∀ res, CheckerCompile tr j res ↔ ∃ ctx source, .checker ctx source res ∈ ms
  failed : ExecutorFailed g tr j ↔
    ((∃ ctx req e, .compiled ctx req (.error e) ∈ ms) ∨
      ∃ f res, .shared f res ∈ ms ∧ SharedFailed g tr f) ∨
    ∃ n e, .error e ∈ runResults (own (.case j n) tr)
  shared : ∀ f res, .shared f res ∈ ms → ((∃ e, res = .error e) ↔ SharedFailed g tr f)
  idle : (∀ batch, .started batch ∉ ms) → ∀ n, own (.case j n) tr = []
  judged : ∀ batch results, .collected results ∈ ms → (∀ batch', .started batch' ∈ ms → batch' = batch) →
    CasesOver tr j batch results
  ran : ∀ n runOut, .ok runOut ∈ runResults (own (.case j n) tr) → Verdict.Ran runOut.verdict

theorem courseOf (hx : g.executor.All Op.OfExecutor) (hran : g.executor.ReturnsRan)
    {requests : ℕ → Ctx × JudgeRequest} {judgeMax execMax : ℕ} {cpus : List ℕ}
    {c : Config Op Op.Ans Tid State JudgeAns}
    (h : Reachable semantics (.start (State.new judgeMax execMax cpus) (judgeCalls g requests)) c) {j : ℕ}
    {plan : JudgePlan} {result : JudgeResult}
    (hplan : PlanCourse g ctx plan (course (own (.judge j) c.trace)) result) (req : JudgeRequest)
    (profile : LanguageProfile) :
    CourseOf g req profile c.trace j (course (own (.judge j) c.trace)) where
  program _ := programCompile_iff
  checker _ := checkerCompile_iff
  failed := executorFailed_iff hx h hplan
  shared f res hshared := by
    obtain ⟨key, hkey⟩ := hplan.joined hshared
    exact shared_error_iff hx h (mem_own.mp (mem_course.mp hkey)) (mem_own.mp (mem_course.mp hshared))
  idle := cases_idle hx h
  judged _ _ := casesOver hx h
  ran n runOut hmem := by
    obtain ⟨ctx', req', hmem'⟩ := mem_runResults.mp hmem
    have hafter := h.own_after (.case j n)
    exact (hafter.all (caseThread_leaves hx hran)).1 _ (mem_course.mp hmem') runOut rfl

theorem checkerFailedOn_iff {tr : Trace} {j n : ℕ} {ran : Except Err RunResult}
    {checked : Option (Except Err RunResult)}
    (hruns : runResults (own (.case j n) tr) = ran :: checked.toList) :
    CheckerFailedOn tr j n ↔ ∃ out, checked = some (.ok out) ∧ (checkerResultOf out).outcome = .failed := by
  unfold CheckerFailedOn
  simp only [hruns, checkerResultOf_failed]
  cases checked <;> simp

theorem not_checkerFailedOn {tr : Trace} {j n : ℕ} (hidle : own (.case j n) tr = []) :
    ¬ CheckerFailedOn tr j n := by
  rintro ⟨ran, out, hruns, -⟩
  rw [hidle] at hruns
  cases hruns

namespace CasesOver

variable {tr : Trace} {j : ℕ} {batch : Batch} {results : List JudgeCaseResult}
  (h : CasesOver tr j batch results)

include h

theorem outcome {n : ℕ} {res : JudgeCaseResult} (hres : results[n]? = some res) :
    ∃ ran checked, runResults (own (.case j n) tr) = ran :: checked.toList ∧
      res = caseOutcome batch.runner.program.language batch.runner.userChecker ran checked ∧
      (checked.isSome → ∃ runOut, ran = .ok runOut) := by
  obtain ⟨data, ms, -, hcourse, hcase⟩ := h.ended n res hres
  obtain ⟨ran, checked, hruns, hrest⟩ := hcase.runs
  refine ⟨ran, checked, ?_, hrest⟩
  rw [runResults, hcourse, ← hruns]
  simp

variable (hran : ∀ n runOut, .ok runOut ∈ runResults (own (.case j n) tr) → Verdict.Ran runOut.verdict)

include hran

theorem verdict_iff {n : ℕ} {res : JudgeCaseResult} (hres : results[n]? = some res) :
    (res.verdict = .uke ↔ (∃ e, .error e ∈ runResults (own (.case j n) tr)) ∨
      batch.runner.userChecker = false ∧ CheckerFailedOn tr j n) ∧
    (res.verdict = .checkerExecutionError ↔
      batch.runner.userChecker = true ∧ CheckerFailedOn tr j n) := by
  obtain ⟨ran, checked, hruns, rfl, hchecked⟩ := h.outcome hres
  have hran' : ∀ runOut, ran = .ok runOut → Verdict.Ran runOut.verdict := by
    rintro runOut rfl
    exact hran n runOut (by simp [hruns])
  rw [checkerFailedOn_iff hruns, hruns]
  exact ⟨caseOutcome_uke hran', caseOutcome_checkerExecutionError hchecked hran'⟩

theorem exists_uke : (∃ res ∈ results, res.verdict = .uke) ↔
    (∃ n e, .error e ∈ runResults (own (.case j n) tr)) ∨
      batch.runner.userChecker = false ∧ ∃ n, CheckerFailedOn tr j n := by
  constructor
  · rintro ⟨res, hmem, hverdict⟩
    obtain ⟨n, hn⟩ := List.mem_iff_getElem?.mp hmem
    rcases (h.verdict_iff hran hn).1.mp hverdict with hfailed | ⟨hsystem, hfailed⟩
    · exact .inl ⟨n, hfailed⟩
    · exact .inr ⟨hsystem, n, hfailed⟩
  · intro hfailed
    -- the case that failed is one of the batch
    obtain ⟨n, hn⟩ : ∃ n, (∃ e, .error e ∈ runResults (own (.case j n) tr)) ∨
        batch.runner.userChecker = false ∧ CheckerFailedOn tr j n := by
      rcases hfailed with ⟨n, hfailed⟩ | ⟨hsystem, n, hfailed⟩
      · exact ⟨n, .inl hfailed⟩
      · exact ⟨n, .inr ⟨hsystem, hfailed⟩⟩
    cases hres : results[n]? with
    | none =>
      have hidle := h.idle n hres
      rcases hn with ⟨e, hmem⟩ | ⟨-, hfailed⟩
      · rw [hidle] at hmem
        cases hmem
      · exact absurd hfailed (not_checkerFailedOn hidle)
    | some res => exact ⟨res, List.mem_of_getElem? hres, (h.verdict_iff hran hres).1.mpr hn⟩

theorem exists_checkerExecutionError : (∃ res ∈ results, res.verdict = .checkerExecutionError) ↔
    batch.runner.userChecker = true ∧ ∃ n, CheckerFailedOn tr j n := by
  constructor
  · rintro ⟨res, hmem, hverdict⟩
    obtain ⟨n, hn⟩ := List.mem_iff_getElem?.mp hmem
    obtain ⟨huser, hfailed⟩ := (h.verdict_iff hran hn).2.mp hverdict
    exact ⟨huser, n, hfailed⟩
  · rintro ⟨huser, n, hfailed⟩
    cases hres : results[n]? with
    | none => exact absurd hfailed (not_checkerFailedOn (h.idle n hres))
    | some res => exact ⟨res, List.mem_of_getElem? hres, (h.verdict_iff hran hres).2.mpr ⟨huser, hfailed⟩⟩

end CasesOver

/-- The plan is that of the request. -/
structure PlanFor (req : JudgeRequest) (profile : LanguageProfile) (plan : JudgePlan) : Prop where
  sourceCode : plan.sourceCode = utf8 req.sourceCode
  profile : plan.profile = profile
  language : plan.language = req.language
  inline : plan.checkerProvidedByRequest = decide (InlineChecker req)
  cases : plan.cases.length = req.testCases.length
  nonempty : req.testCases ≠ []

section Attributed

variable {req : JudgeRequest} {profile : LanguageProfile} {plan : JudgePlan} {tr : Trace} {j : ℕ}
  {ms : List Milestone}

/-- The compilation of the program failed. -/
theorem attributed_failed {e : Err} (hof : CourseOf g req profile tr j
      [.compiled ctx (plan.profile.compile.request plan.sourceCode) (.error e)]) (log : String) :
    Attributed g req profile tr j (failedBeforeRun log) := by
  have hnot : ∀ n, ¬ CheckerFailedOn tr j n := fun n => not_checkerFailedOn (hof.idle (by simp) n)
  have hfailed : ExecutorFailed g tr j :=
    hof.failed.mpr (.inl (.inl ⟨ctx, _, e, List.mem_cons_self⟩))
  constructor <;> simp [failedBeforeRun, hof.program, hof.checker, hnot, hfailed]

/-- The program did not compile. -/
theorem attributed_rejected {log : Bytes} (hfor : PlanFor req profile plan)
    (hof : CourseOf g req profile tr j
      [.compiled ctx (plan.profile.compile.request plan.sourceCode) (.ok ⟨log, none⟩)])
    (compile : CompileResult) :
    Attributed g req profile tr j { status := .compileError, compile := compile } := by
  have hidle := hof.idle (by simp)
  have hnot : ∀ n, ¬ CheckerFailedOn tr j n := fun n => not_checkerFailedOn (hidle n)
  have hfailed : ¬ ExecutorFailed g tr j := by
    rw [hof.failed]
    simp [hidle, runResults]
  constructor <;> simp [hof.program, hof.checker, hnot, hfailed, hfor.profile, hfor.sourceCode]

section Compiled

variable {program : Artifact} {log : Bytes} {res : Except Err Execution.CompileResult}
  {rest : List Milestone} (hc : CheckerCourse g ctx plan.checker ms res)
  (hof : CourseOf g req profile tr j
    (.compiled ctx (plan.profile.compile.request plan.sourceCode) (.ok ⟨log, some program⟩) ::
      (ms ++ rest)))

include hc hof

theorem CourseOf.program_compiled (hfor : PlanFor req profile plan)
    (hrest : ∀ ctx' req' res', .compiled ctx' req' res' ∉ rest) (res' : Except Err Execution.CompileResult) :
    ProgramCompile req profile tr j res' ↔ res' = .ok ⟨log, some program⟩ := by
  rw [hof.program]
  simp [hc.not_program, hrest, hfor.profile, hfor.sourceCode]

theorem CourseOf.checker_compiled (hrest : ∀ ctx' source res', .checker ctx' source res' ∉ rest)
    (res' : Except Err Execution.CompileResult) : CheckerCompile tr j res' ↔ res' = res := by
  rw [hof.checker, ← hc.checker_mem]
  simp [hrest]

theorem CourseOf.executorFailed (hrest : ∀ ctx' req' res', .compiled ctx' req' res' ∉ rest)
    (hrest' : ∀ f res', .shared f res' ∉ rest) :
    ExecutorFailed g tr j ↔ (∃ e, res = .error e) ∨ ∃ n e, .error e ∈ runResults (own (.case j n) tr) := by
  rw [hof.failed, hc.error_iff fun f res' hmem => hof.shared f res' (by simp [hmem])]
  simp [hrest, hrest']

end Compiled

/-- The checker did not compile or could not be compiled. -/
theorem attributed_unchecked {program : Artifact} {log : Bytes} {status : JudgeStatus}
    {checkerCompile : Option CompileResult} {res : Except Err Execution.CompileResult}
    (hc : CheckerCourse g ctx plan.checker ms res) (hfor : PlanFor req profile plan)
    (hof : CourseOf g req profile tr j
      (.compiled ctx (plan.profile.compile.request plan.sourceCode) (.ok ⟨log, some program⟩) :: ms))
    (hres : (∃ e, res = .error e) ∧ status = .systemError ∨
      (∃ checkerLog, res = .ok ⟨checkerLog, none⟩) ∧
        status = if plan.checkerProvidedByRequest then .checkerCompileError else .systemError)
    (compile : CompileResult) :
    Attributed g req profile tr j
      { status := status, compile := compile, checkerCompile := checkerCompile } := by
  rw [← List.append_nil ms] at hof
  have hidle := hof.idle (by simp [hc.not_started])
  have hnot : ∀ n, ¬ CheckerFailedOn tr j n := fun n => not_checkerFailedOn (hidle n)
  have hprogram := hof.program_compiled hc hfor (by simp)
  have hchecker := hof.checker_compiled hc (by simp)
  have hfailed := hof.executorFailed hc (by simp) (by simp)
  simp only [hidle, runResults, course_nil, List.filterMap_nil, List.not_mem_nil, exists_false, or_false]
    at hfailed
  rcases hres with ⟨⟨e, rfl⟩, rfl⟩ | ⟨⟨checkerLog, rfl⟩, rfl⟩
  · constructor <;> simp [hprogram, hchecker, hnot, hfailed]
  · rw [hfor.inline]
    by_cases hinline : InlineChecker req <;>
      constructor <;> simp [hprogram, hchecker, hnot, hfailed, hinline]

/-- The cases were judged. -/
theorem attributed_judged {program checker : Artifact} {log checkerLog : Bytes}
    {results : List JudgeCaseResult}
    (hc : CheckerCourse g ctx plan.checker ms (.ok ⟨checkerLog, some checker⟩))
    (hfor : PlanFor req profile plan)
    (hof : CourseOf g req profile tr j
      (.compiled ctx (plan.profile.compile.request plan.sourceCode) (.ok ⟨log, some program⟩) ::
        (ms ++ [.started (plan.batch ctx program checker), .collected results])))
    (compile : CompileResult) (checkerCompile : Option CompileResult) :
    Attributed g req profile tr j
      { status := aggregateStatus results
        compile := compile
        checkerCompile := checkerCompile
        cases := results } := by
  have hprogram := hof.program_compiled hc hfor (by simp)
  have hchecker := hof.checker_compiled hc (by simp)
  have hfailed := hof.executorFailed hc (by simp) (by simp)
  have hover : CasesOver tr j (plan.batch ctx program checker) results :=
    hof.judged _ _ (by simp) (by simp [hc.not_started])
  -- both artifacts are there, so the status is decided by the cases alone
  have huke := hover.exists_uke hof.ran
  have hcee := hover.exists_checkerExecutionError hof.ran
  have huser : (plan.batch ctx program checker).runner.userChecker = decide (InlineChecker req) := hfor.inline
  have hlen : results.length = req.testCases.length := hover.length.trans hfor.cases
  have hne : results ≠ [] := by
    rintro rfl
    exact hfor.nonempty (List.length_eq_zero_iff.mp hlen.symm)
  simp only [huser, decide_eq_true_eq, decide_eq_false_iff_not] at huke hcee
  have hstatus := aggregateStatus_spec results
  constructor
  · simp [hne, hprogram, hchecker]
  · exact fun _ => hlen
  · intro n res hres
    obtain ⟨ran, checked, hruns, hres, -⟩ := hover.outcome hres
    refine ⟨ran, checked, hruns, ?_⟩
    rw [hres, huser, ← hfor.language]
    rfl
  · rw [hstatus.systemError, huke, hfailed]
    simp [hchecker]
  · exact iff_of_false hstatus.compileError (by simp [hprogram])
  · exact iff_of_false hstatus.checkerCompileError (by simp [hchecker])
  · rw [hstatus.checkerExecutionError, huke, hcee, hfailed]
    by_cases hinline : InlineChecker req <;> simp [hinline]
  · exact hstatus.set

theorem PlanCourse.attributed {result : JudgeResult} (hplan : PlanCourse g ctx plan ms result)
    (hfor : PlanFor req profile plan) (hof : CourseOf g req profile tr j ms) :
    Attributed g req profile tr j result := by
  cases hplan with
  | failed e => exact attributed_failed hof _
  | rejected log => exact attributed_rejected hfor hof _
  | checkerFailed log artifact e hc =>
    exact attributed_unchecked hc hfor hof (.inl ⟨⟨e, rfl⟩, rfl⟩) _
  | checkerRejected log artifact checkerLog hc =>
    exact attributed_unchecked hc hfor hof (.inr ⟨⟨checkerLog, rfl⟩, rfl⟩) _
  | judged log artifact checkerLog checker results hc => exact attributed_judged hc hfor hof _ _

end Attributed

theorem Resolved.providedByRequest {req : JudgeRequest} {profile : LanguageProfile}
    {choice : CheckerChoice} (h : Resolved g req profile choice) :
    choice.providedByRequest = decide (InlineChecker req) := by
  obtain ⟨kind, value⟩ := choice
  have hchoice := h.choice
  by_cases hkind : kind = .inline
  · subst hkind
    obtain ⟨hblank, -, rfl⟩ := resolveChecker_inline.mp hchoice
    have hinline : InlineChecker req := by
      intro hempty
      rw [hempty] at hblank
      exact hblank rfl
    simp [CheckerChoice.providedByRequest, hinline]
  · have hinline : ¬ InlineChecker req := not_not.mpr (inlineSource_eq_of_ok hkind hchoice)
    simp [CheckerChoice.providedByRequest, hkind, hinline]

theorem PlanOf.planFor {req : JudgeRequest} {profile : LanguageProfile} {choice : CheckerChoice}
    {reads : List (Event Op Op.Ans)} {plan : JudgePlan} (h : PlanOf req profile choice reads plan)
    (hresolved : Resolved g req profile choice) : PlanFor req profile plan where
  sourceCode := congrArg JudgePlan.sourceCode h.request
  profile := congrArg JudgePlan.profile h.request
  language := congrArg JudgePlan.language h.request
  inline := (congrArg JudgePlan.checkerProvidedByRequest h.request).trans hresolved.providedByRequest
  cases := h.cases.length_eq.symm
  nonempty := List.length_pos_iff.mp (Nat.pos_of_ne_zero hresolved.wellFormed.cases_pos)

/-- The shape of a result and whom its status blames. A request that got its judge slot and returned a
result has a case for each test case exactly if program and checker compiled, each decided by its own
runs alone; and its status is decided by what the executor returned, to the request or to the shared
compilation it waited on. The executor may return anything that an executor can, and goroutines may
proceed in any order. -/
theorem judge_attributes_faults (hx : g.executor.All Op.OfExecutor) (hran : g.executor.ReturnsRan)
    {requests : ℕ → Ctx × JudgeRequest} {judgeMax execMax : ℕ} {cpus : List ℕ}
    {c : Config Op Op.Ans Tid State JudgeAns}
    (h : Reachable semantics (.start (State.new judgeMax execMax cpus) (judgeCalls g requests)) c) {j : ℕ}
    {result : JudgeResult} (hret : c.prog (.judge j) = .ret (result, none))
    (hslot : ∀ ctx e, ¬ Did c.trace (.judge j) (.judgeAcquire ctx) (some e)) :
    ∃ profile, profileForLanguage (requests j).2.language = .ok profile ∧
      Attributed g (requests j).2 profile c.trace j result := by
  have hruns : (judge g (requests j).1 (requests j).2).Runs (own (.judge j) c.trace) (result, none) :=
    h.own_runs hret
  obtain ⟨profile, choice, plan, hresolved, hplanOf, hplan⟩ :=
    judge_course hx hruns fun e hmem => hslot _ e (mem_own.mp hmem)
  exact ⟨profile, hresolved.profile, hplan.attributed (hplanOf.planFor hresolved)
    (courseOf hx hran h hplan _ _)⟩

/-- Programs run, and the checker exits with code 3, which is neither accepting nor rejecting. -/
def brokenCheckerWorld : World where
  ask _
    | .run ctx req => if req.files = [] then calmAnswer (.run ctx req)
        else .ok ⟨⟨.re, 3, [], [], 0, 0, []⟩, .inr (.inr (.inr (.inr rfl)))⟩
    | q => calmAnswer q
  watch := World.calm.watch
  produce := World.calm.produce

/-- All requests bring their own checker. -/
def inlineRequests (j : ℕ) : Ctx × JudgeRequest := (.request j,
  { sourceCode := "int main() {}"
    language := .c
    timeLimit := 1000
    memoryLimit := 256
    checkerSourceCode := "x"
    testCases := [{ inputText := "1", expectedOutput := "2" }] })

/-- The inline checker is to blame. -/
theorem judge_attributes_faults_broken_checker :
    ∃ c : Config Op Op.Ans Tid State JudgeAns,
      Reachable semantics (.start (State.new 1 1 [0]) (judgeCalls oneCheckerEngine inlineRequests)) c ∧
      ∃ result, c.prog (.judge 0) = .ret (result, none) ∧ result.status = .checkerExecutionError ∧
        ¬ ExecutorFailed oneCheckerEngine c.trace 0 ∧ ∃ n, CheckerFailedOn c.trace 0 n := by
  let schedule := List.replicate 16 (Tid.judge 0) ++ List.replicate 8 (.case 0 0) ++
    List.replicate 2 (.judge 0)
  have hrun : (drive brokenCheckerWorld.answer schedule
      (.start (State.new 1 1 [0]) (judgeCalls oneCheckerEngine inlineRequests))).map (fun c =>
        ((c.prog (.judge 0)).returned?.map fun res => (res.1.status, res.2),
          refusals (own (.judge 0) c.trace))) =
      some (some (.checkerExecutionError, none), 0) := by decide +kernel
  obtain ⟨c, hc, heq⟩ := Option.map_eq_some_iff.mp hrun
  obtain ⟨hstatus, hrefusals⟩ := Prod.mk.inj heq
  obtain ⟨⟨result, err⟩, hret, hres⟩ := Option.map_eq_some_iff.mp hstatus
  obtain ⟨hstatus', rfl⟩ := Prod.mk.inj hres
  have hreach : Reachable semantics
      (.start (State.new 1 1 [0]) (judgeCalls oneCheckerEngine inlineRequests)) c :=
    drive_reachable brokenCheckerWorld.answer_sound Relation.ReflTransGen.refl hc
  have hret' : c.prog (.judge 0) = .ret (result, none) := Prog.returned?_eq_some.mp hret
  have hslot : ∀ ctx e, ¬ Did c.trace (.judge 0) (.judgeAcquire ctx) (some e) := by
    intro ctx e hdid
    exact List.countP_eq_zero.mp hrefusals _ (mem_own.mpr hdid) rfl
  obtain ⟨profile, -, hattributed⟩ :=
    judge_attributes_faults anyExecutor_ofExecutor anyExecutor_returnsRan hreach hret' hslot
  obtain ⟨hnot, -, hfailed⟩ := hattributed.checkerExecutionError.mp hstatus'
  exact ⟨c, hreach, result, hret', hstatus', hnot, hfailed⟩

end Afterglow.Engine
