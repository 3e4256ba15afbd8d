import Afterglow.Execution.CompileOutcome
import Afterglow.Service.Attribution
import Afterglow.Service.Limits

/-!
# What a verdict rests on

A case that is reported as accepted or as a wrong answer rests on two calls of `sandbox.Execute`: one of
the program on the input of the case, and one of the checker on input, output and expected output. The
evidence is put together from the course of the case, the workspaces that its goroutine held and the
cache of checkers, whatever other requests do.
-/

namespace Afterglow.Engine

open Concurrency Execution Service

variable {g : JudgeEngine} {ctx : Ctx} {tr : List (Event Op Op.Ans)}

/-! ## Results of the executor -/

/-- A run that is fine has exited with code 0. -/
theorem run_exitCode (ctx : Ctx) (req : RunRequest) :
    (containerExecutor.run ctx req).Returns fun res =>
      ∀ out, res = .ok out → out.verdict = .ok → out.exitCode = 0 := by
  refine Prog.returns_of_runs fun tr res h out hout hok => ?_
  subst hout
  obtain ⟨t₁, result, t₂, rfl, hexec, hret⟩ := Prog.runs_bind_iff.mp h
  obtain ⟨rfl, heq⟩ := Prog.runs_ret_iff.mp hret
  match result, heq with
  | .ok result, heq =>
    obtain rfl := Except.ok.inj heq
    obtain ⟨ws, t₃, r, t₄, -, ⟨t₀, hrun⟩, -, hrunOut, -⟩ := execute_ok hexec
    have hjudged : Judged req.limits r := hrun.returns (sandboxExecute_judged _ _) r rfl
    rw [hrunOut] at hok ⊢
    exact hjudged.exitCode (sandboxVerdictToModel_ok.mp hok)

/-- An artifact has the name that was asked for. -/
theorem compile_named (ctx : Ctx) {req : CompileRequest} (hname : req.artifactName ≠ "") :
    (containerExecutor.compile ctx req).Returns fun res =>
      ∀ out artifact, res = .ok out → out.artifact = some artifact → artifact.name = req.artifactName := by
  refine Prog.returns_of_runs fun tr res h out artifact hout hartifact => ?_
  subst hout
  obtain ⟨ws, r, compile, t₁, t₂, -, -, hreported⟩ := compile_ok h hname
  rw [hreported.artifact] at hartifact
  by_cases hok : r.verdict = .ok
  · obtain ⟨node, rest, t₃, -, hcollected⟩ := hreported.collected hok
    cases hcollected with
    | irregular hnone | large _ hnone => exact absurd (hartifact.symm.trans hnone) (by simp)
    | taken => exact congrArg Artifact.name (Option.some.inj hartifact).symm
  · rw [hreported.failed hok] at hartifact
    cases hartifact

/-- The operations of a request apart from its calls of the executor. -/
def Op.OfService : Op → Prop
  | .judgeAcquire _ | .judgeRelease | .cacheGet _ | .cacheAdd _ _ | .flightDo _ | .flightWait _
  | .flightDone _ _ _ | .goCases _ | .wgWait | .ask (.readResource _ _) | .ask (.cancel _)
  | .mark (.enterChecker _ _) | .mark (.leaveChecker _ _ _) => True
  | _ => False

theorem Op.ReadsResource.ofService {e : Op} (he : e.ReadsResource) : e.OfService := by
  unfold Op.ReadsResource at he
  split at he <;> trivial

theorem OfFlight.ofService {source : Bytes} {e : Op} (he : OfFlight source e) : e.OfService := by
  unfold OfFlight at he
  split at he <;> trivial

section All

variable {P : Op → Prop} (hcompile : ∀ ctx req, (g.executor.Compile ctx req).All P)
  (hP : ∀ e : Op, e.OfService → P e)

include hcompile hP

theorem executeJudgePlan_all_of (plan : JudgePlan) : (executeJudgePlan g ctx plan).All P := by
  refine Prog.All.bind (Prog.All.bind (hcompile _ _) fun _ => trivial) fun compiled => ?_
  match compiled with
  | .error e => trivial
  | .ok (none, compileResult) => trivial
  | .ok (some program, compileResult) =>
    refine Prog.All.bind (Prog.All.bind (compileChecker_all_of (hcompile _ _)
      fun _ he => hP _ he.ofService) fun _ => trivial) ?_
    intro compilation
    match compilation with
    | .error e => trivial
    | .ok ⟨none, compile⟩ => trivial
    | .ok ⟨some checker, compile⟩ =>
      exact Prog.All.bind (Prog.All.perform (hP _ trivial) fun _ => ⟨hP _ trivial, fun _ => trivial⟩)
        fun _ => trivial

/-- What is true of the operations of a request and of its calls of `Compile` is true of all. -/
theorem judge_all_of (req : JudgeRequest) : (judge g ctx req).All P := by
  unfold judge
  split
  · trivial
  split
  · trivial
  split
  · trivial
  · next choice _ =>
      refine Prog.All.perform (hP _ trivial) fun acquired => ?_
      match acquired with
      | some e => trivial
      | none =>
        refine Prog.All.deferring ⟨hP _ trivial, fun _ => trivial⟩ ?_
        refine Prog.All.bind ((materialize_all _ _ choice).mono fun _ he => hP _ he.ofService) fun plan => ?_
        match plan with
        | .error e => trivial
        | .ok plan => exact Prog.All.bind (executeJudgePlan_all_of hcompile hP plan) fun _ => trivial

end All

theorem Compile_all {P : Op → Prop} {Q : Except Err Execution.CompileResult → Prop} {req : CompileRequest}
    (hx : g.executor.All P) (hQ : (g.executor.compile ctx req).Returns Q)
    (henter : P (.mark (.enterCompile ctx req)))
    (hleave : ∀ res, Q res → P (.mark (.leaveCompile ctx req res))) :
    (g.executor.Compile ctx req).All P :=
  Prog.All.perform henter fun _ => Prog.All.bind_returns (hx.compile _ _) hQ fun _ hres =>
    Prog.All.perform (hleave _ hres) fun _ => trivial

variable (g) in
/-- The artifact of a checker has the name that checkers have. -/
def NamesChecker : Op → Prop
  | .mark (.leaveCompile _ req (.ok ⟨_, some artifact⟩)) =>
    (∃ source, req = checkerCompileRequest g.testlibHeader source) → artifact.name = checkerArtifactName
  | _ => True

theorem Op.OfExecutor.namesChecker {e : Op} (he : e.OfExecutor) : NamesChecker g e := by
  unfold NamesChecker
  split
  · exact absurd he id
  · trivial

theorem Op.OfService.namesChecker {e : Op} (he : e.OfService) : NamesChecker g e := by
  unfold NamesChecker
  split
  · exact absurd he id
  · trivial

theorem judge_namesChecker (hg : g.executor = containerExecutor) (req : JudgeRequest) :
    (judge g ctx req).All (NamesChecker g) := by
  have hx : g.executor.All (NamesChecker g) := by
    rw [hg]
    exact containerExecutor_all.mono fun _ he => he.namesChecker
  refine judge_all_of (fun ctx creq => ?_) (fun _ he => he.namesChecker) req
  have hnamed : (g.executor.compile ctx creq).Returns fun res => ∀ out artifact, res = .ok out →
      out.artifact = some artifact → (∃ source, creq = checkerCompileRequest g.testlibHeader source) →
      artifact.name = checkerArtifactName := by
    by_cases hchecker : ∃ source, creq = checkerCompileRequest g.testlibHeader source
    · obtain ⟨source, rfl⟩ := hchecker
      rw [hg]
      have hname : checkerArtifactName ≠ "" := by decide
      exact (compile_named ctx hname).mono fun res hres out artifact hout hart _ =>
        hres out artifact hout hart
    · exact (Prog.returns_true _).mono fun _ _ _ _ _ _ h => absurd h hchecker
  refine Compile_all hx hnamed trivial fun res hres => ?_
  match res with
  | .error e => trivial
  | .ok ⟨log, none⟩ => trivial
  | .ok ⟨log, some artifact⟩ => exact hres _ artifact rfl rfl

/-! ## The checker of a request -/

/-- Outcomes once known stay known. -/
theorem known_next (i : Tid) (l : CheckerLocal) (e : Op) (r : e.Ans) :
    l.known ⊆ ((checkerDiscipline g).next i l e r).known := by
  by_cases hquiet : e.CheckerQuiet
  · rw [(checkerDiscipline_quiet g hquiet i l).2 r]
  cases e with
  | cacheGet key => cases r <;> first | exact Set.subset_insert _ _ | exact subset_rfl
  | flightDo key => cases r <;> exact subset_rfl
  | flightWait f => exact Set.subset_union_left
  | mark m =>
    cases m with
    | enterCompile ctx req =>
      show l.known ⊆ (l.started (checkerSource? g req)).known
      cases checkerSource? g req <;> exact subset_rfl
    | leaveCompile ctx req res =>
      show l.known ⊆ (l.finished g (setupResult res) (checkerSource? g req)).known
      cases checkerSource? g req with
      | none => exact subset_rfl
      | some source => exact Set.subset_insert _ _
    | _ => exact subset_rfl
  | _ => exact subset_rfl

/-- What a look-up found is known. -/
theorem known_of_hit {i : Tid} {l : CheckerLocal} {events : List (Event Op Op.Ans)} {key : Bytes}
    {v : Execution.CompileResult} (h : ⟨.cacheGet key, some v⟩ ∈ events) :
    (key, .ok v) ∈ ((checkerDiscipline g).replay i l events).known := by
  obtain ⟨t₁, t₂, rfl⟩ := List.append_of_mem h
  have hsub : ∀ (t : List (Event Op Op.Ans)) (l : CheckerLocal),
      l.known ⊆ ((checkerDiscipline g).replay i l t).known := by
    intro t
    induction t with
    | nil => exact fun l => subset_rfl
    | cons ev t ih => exact fun l => (known_next i l ev.op ev.ans).trans (ih _)
  rw [Discipline.replay, List.foldl_append, List.foldl_cons]
  exact hsub t₂ _ (Set.mem_insert _ _)

section Calls

variable (hx : g.executor.All Op.OfExecutor) {requests : ℕ → Ctx × JudgeRequest} {judgeMax execMax : ℕ}
  {cpus : List ℕ} {c : Config Op Op.Ans Tid State JudgeAns}
  (h : Reachable semantics (.start (State.new judgeMax execMax cpus) (judgeCalls g requests)) c)

include hx h

/-- What a goroutine got from `checkerCompiler.compile` is an outcome of compiling a source with the
hash of its own. -/
theorem compileChecker_outcome {i : Tid} {source : Bytes} {t₁ t₂ t₃ : List (Event Op Op.Ans)}
    {res : Except Err Execution.CompileResult} (hown : own i c.trace = t₁ ++ (t₂ ++ t₃))
    (hruns : (compileChecker g ctx source).Runs t₂ res) :
    Asked c.trace source ∧ Outcome g c.trace (g.sha256 source) res := by
  obtain ⟨inv, -⟩ := judgeCalls_checker h (hx.mono fun _ he => he.quiet)
  have hdid : ∀ ev ∈ t₂, Did c.trace i ev.op ev.ans := by
    intro ev hev
    refine mem_own.mp ?_
    rw [hown]
    simp [hev]
  refine ⟨?_, ?_⟩
  · obtain ⟨_, t₄, rfl, -⟩ := Prog.runs_perform_iff.mp hruns
    exact ⟨i, ctx, hdid _ List.mem_cons_self⟩
  · rcases compileChecker_runs hruns with ⟨v, hhit, rfl⟩ | ⟨f, -, hdone⟩ | ⟨f, hjoin, hwait⟩
    · refine (inv.standing i).known _ _ (known_of_hit ?_)
      exact mem_own.mpr (hdid _ hhit)
    · exact (inv.history.done _ _ _ _ (hdid _ hdone)).2.1
    · have hland := inv.history.waited _ _ _ (hdid _ hwait)
      rcases inv.history.joins _ _ _ (hdid _ hjoin) with hf | ⟨res', hres', hland'⟩
      · exact absurd (hland.symm.trans (inv.flight.fresh _ _ hf).2) (by simp)
      · obtain rfl := Option.some.inj (hland.symm.trans hres')
        exact hland'.1

end Calls

/-! ## Cases that were judged -/

/-- The course of a request with cases. -/
theorem PlanCourse.judged_of_cases {plan : JudgePlan} {ms : List Milestone} {result : JudgeResult}
    (h : PlanCourse g ctx plan ms result) (hcases : result.cases ≠ []) :
    ∃ log artifact checkerLog checker ms',
      ms = .compiled ctx (plan.profile.compile.request plan.sourceCode) (.ok ⟨log, some artifact⟩) ::
        (ms' ++ [.started (plan.batch ctx artifact checker), .collected result.cases]) ∧
      CheckerCourse g ctx plan.checker ms' (.ok ⟨checkerLog, some checker⟩) := by
  cases h with
  | failed e | rejected log => exact absurd rfl hcases
  | checkerFailed log artifact e hc | checkerRejected log artifact checkerLog hc => exact absurd rfl hcases
  | judged log artifact checkerLog checker results hc =>
    exact ⟨log, artifact, checkerLog, checker, _, rfl, hc⟩

/-- A request that waited for its slot in vain has no cases. -/
theorem judge_refused {req : JudgeRequest} {e : Err} {result : JudgeResult}
    (h : (judge g ctx req).Runs [⟨.judgeAcquire ctx, some e⟩] (result, none)) : result.cases = [] := by
  unfold judge at h
  split at h
  · cases h
  split at h
  · cases h
  split at h
  · cases h
  · obtain ⟨acquired, t, heq, hrest⟩ := Prog.runs_perform_iff.mp h
    cases heq
    obtain ⟨-, heq⟩ := Prog.runs_ret_iff.mp hrest
    cases heq
    rfl

/-- The call of `checkerCompiler.compile` that a course shows is a part of the run. -/
theorem executeJudgePlan_compileChecker (hx : g.executor.All Op.OfExecutor) {plan : JudgePlan}
    {tr : List (Event Op Op.Ans)} {result : JudgeResult} (h : (executeJudgePlan g ctx plan).Runs tr result)
    {ctx' : Ctx} {source : Bytes} {res : Except Err Execution.CompileResult}
    (hmem : .checker ctx' source res ∈ course tr) :
    ∃ t₁ t₂ t₃, tr = t₁ ++ (t₂ ++ t₃) ∧ (compileChecker g ctx plan.checker).Runs t₂ res := by
  obtain ⟨t₁, compiled, t₂, rfl, hprogram, hrest⟩ := Prog.runs_bind_iff.mp h
  obtain ⟨t₃, compileOut, t₄, rfl, hcompile, hret⟩ := Prog.runs_bind_iff.mp hprogram
  obtain ⟨rfl, rfl⟩ := Prog.runs_ret_iff.mp hret
  rw [List.append_nil, course_append, Compile_course hx hcompile] at hmem
  match compileOut with
  | .error e =>
    obtain ⟨rfl, -⟩ := Prog.runs_ret_iff.mp hrest
    simp at hmem
  | .ok ⟨log, none⟩ =>
    obtain ⟨rfl, -⟩ := Prog.runs_ret_iff.mp hrest
    simp at hmem
  | .ok ⟨log, some artifact⟩ =>
    obtain ⟨t₅, compilation, t₆, rfl, hprepare, hcases⟩ := Prog.runs_bind_iff.mp hrest
    obtain ⟨t₇, checkerOut, t₈, rfl, hchecker, hret⟩ := Prog.runs_bind_iff.mp hprepare
    obtain ⟨rfl, rfl⟩ := Prog.runs_ret_iff.mp hret
    -- what follows starts the cases at most
    have hbehind : .checker ctx' source res ∉ course t₆ := by
      match checkerOut with
      | .error e =>
        obtain ⟨rfl, -⟩ := Prog.runs_ret_iff.mp hcases
        simp
      | .ok ⟨checkerLog, none⟩ =>
        obtain ⟨rfl, -⟩ := Prog.runs_ret_iff.mp hcases
        simp
      | .ok ⟨checkerLog, some checker⟩ =>
        obtain ⟨t₉, results, t₁₀, rfl, hall, hret⟩ := Prog.runs_bind_iff.mp hcases
        obtain ⟨rfl, -⟩ := Prog.runs_ret_iff.mp hret
        obtain ⟨_, t₁₁, rfl, hwait⟩ := Prog.runs_perform_iff.mp hall
        obtain ⟨collected, t₁₂, rfl, hret⟩ := Prog.runs_op_iff.mp hwait
        obtain ⟨rfl, -⟩ := Prog.runs_ret_iff.mp hret
        simp [Milestone.of]
    have hcourse : .checker ctx' source res ∈ course t₇ := by
      simpa [hbehind] using hmem
    obtain rfl := (compileChecker_course hx hchecker).checker_mem.mp ⟨_, _, hcourse⟩
    exact ⟨t₃, t₇, t₆, by simp, hchecker⟩

/-- A request with cases: its plan, its course and the compilation of its checker. -/
theorem judge_judged (hx : g.executor.All Op.OfExecutor) {req : JudgeRequest} {result : JudgeResult}
    (h : (judge g ctx req).Runs tr (result, none)) (hcases : result.cases ≠ []) :
    ∃ profile choice plan, Resolved g req profile choice ∧ PlanOf req profile choice tr plan ∧
      PlanCourse g ctx plan (course tr) result ∧
      ∃ t₁ t₂ t₃ res, tr = t₁ ++ (t₂ ++ t₃) ∧ (compileChecker g ctx plan.checker).Runs t₂ res := by
  rcases judge_runs h with ⟨-, -, e, heq⟩ | ⟨profile, choice, hresolved, ⟨e, rfl⟩ | ⟨t, htr, hadmitted⟩⟩
  · cases heq
  · exact absurd (judge_refused h) hcases
  · obtain ⟨reads, rest, rfl, ⟨e, -, -, heq⟩ | ⟨plan, result', hreads, hplan, heq⟩⟩ :=
      judgeAdmitted_runs hadmitted
    · cases heq
    · obtain rfl := (Prod.mk.inj heq).1
      rw [List.append_assoc] at htr
      obtain ⟨hplanOf, hcourse⟩ := admitted_course hx hreads hplan htr
      obtain ⟨log, artifact, checkerLog, checker, ms, hms, hc⟩ :=
        (executeJudgePlan_course hx hplan).judged_of_cases hcases
      obtain ⟨ctx', source, hleft⟩ := hc.checker_mem.mpr rfl
      obtain ⟨t₁, t₂, t₃, rfl, hchecker⟩ := executeJudgePlan_compileChecker hx hplan (by
        rw [hms]
        exact List.mem_cons_of_mem _ (List.mem_append_left _ hleft))
      exact ⟨profile, choice, plan, hresolved, hplanOf, hcourse,
        ⟨.judgeAcquire ctx, none⟩ :: (reads ++ t₁), t₂, t₃ ++ [⟨.judgeRelease, ()⟩], _,
        by simp [htr], hchecker⟩

theorem normalizeLanguageRunResult_stdout (language : Language) (runOut : RunResult) :
    (normalizeLanguageRunResult language runOut).stdout = runOut.stdout := by
  unfold normalizeLanguageRunResult
  split <;> rfl

theorem normalizeLanguageRunResult_ok {language : Language} {runOut : RunResult}
    (h : (normalizeLanguageRunResult language runOut).verdict = .ok) : runOut.verdict = .ok := by
  unfold normalizeLanguageRunResult at h
  split at h
  · cases h
  · exact h

theorem sandboxVerdictToModel_re {v : Sandbox.Verdict} : sandboxVerdictToModel v = .re ↔ v = .re := by
  cases v <;> simp [sandboxVerdictToModel]

theorem sandboxVerdictToModel_ne_wa (v : Sandbox.Verdict) : sandboxVerdictToModel v ≠ .wa := by
  cases v <;> simp [sandboxVerdictToModel]

theorem checkVerdict_eq_ok {userChecker : Bool} {outcome : CheckerOutcome} :
    checkVerdict userChecker outcome = .ok ↔ outcome = .accepted := by
  cases outcome <;> cases userChecker <;> simp [checkVerdict]

theorem checkVerdict_eq_wa {userChecker : Bool} {outcome : CheckerOutcome} :
    checkVerdict userChecker outcome = .wa ↔ outcome = .rejected := by
  cases outcome <;> cases userChecker <;> simp [checkVerdict]

theorem checkerResultOf_accepted {out : RunResult} :
    (checkerResultOf out).outcome = .accepted ↔ out.verdict = .ok ∧ out.exitCode = 0 := by
  unfold checkerResultOf
  split
  case isTrue h => simp [h]
  case isFalse h => split <;> simp [h]

theorem checkerResultOf_rejected {out : RunResult} :
    (checkerResultOf out).outcome = .rejected ↔
      out.verdict = .re ∧ (out.exitCode = 1 ∨ out.exitCode = 2) := by
  unfold checkerResultOf
  split
  case isTrue h => simp [h]
  case isFalse h => split <;> simp_all

/-- A case that ends in OK or WA has had its program run to its end and its checker decide. -/
theorem CaseCourse.decided {r : CaseRunner} {tc : CaseData} {ms : List Milestone} {res : JudgeCaseResult}
    (h : CaseCourse ctx r tc ms res)
    (hran : ∀ ctx req runOut, .ran ctx req (.ok runOut) ∈ ms → runOut.verdict ≠ .wa)
    (hverdict : res.verdict = .ok ∨ res.verdict = .wa) :
    ∃ runOut out, runOut.verdict = .ok ∧
      ms = [.ran ctx (r.program.request tc.input r.timeLimit r.memLimit) (.ok runOut),
        .ran ctx (checkerRunRequest r.checker tc.input runOut.stdout tc.expectedOutput) (.ok out)] ∧
      (res.verdict = .ok → out.verdict = .ok ∧ out.exitCode = 0) ∧
      (res.verdict = .wa → out.verdict = .re ∧ (out.exitCode = 1 ∨ out.exitCode = 2)) := by
  cases h with
  | failed e => simp [caseOutcome] at hverdict
  | stopped runOut hstopped =>
    change (normalizeLanguageRunResult r.program.language runOut).verdict = .ok ∨
      (normalizeLanguageRunResult r.program.language runOut).verdict = .wa at hverdict
    rcases hverdict with hok | hwa
    · exact absurd hok hstopped
    · unfold normalizeLanguageRunResult at hwa
      split at hwa
      · cases hwa
      · exact absurd hwa (hran _ _ _ List.mem_cons_self)
  | checked runOut checked hok =>
    cases checked with
    | error e => simp [caseOutcome, judgeCaseResultFromExecution] at hverdict
    | ok out =>
      refine ⟨runOut, out, normalizeLanguageRunResult_ok hok, ?_, ?_, ?_⟩
      · rw [normalizeLanguageRunResult_stdout]
      · intro hok'
        exact checkerResultOf_accepted.mp (checkVerdict_eq_ok.mp hok')
      · intro hwa
        exact checkerResultOf_rejected.mp (checkVerdict_eq_wa.mp hwa)

/-! ## Evidence -/

/-- A directory holds exactly these files, which have different names. -/
structure HoldsExactly (files : String → Option Bytes) (entries : List (String × Bytes)) : Prop where
  distinct : (entries.map Prod.fst).Nodup
  exact : ∀ name content, files name = some content ↔ (name, content) ∈ entries

theorem fileTree_snoc (files : List File) (file : File) :
    fileTree (files ++ [file]) = Function.update (fileTree files) file.name (some file.content) := by
  rw [fileTree, List.foldl_append]
  rfl

theorem fileTree_holdsExactly {files : List File} (h : (files.map File.name).Nodup) :
    HoldsExactly (fileTree files) (files.map fun file => (file.name, file.content)) := by
  refine ⟨by rwa [List.map_map], ?_⟩
  induction files using List.reverseRecOn with
  | nil => simp [fileTree]
  | append_singleton files file ih =>
    rw [List.map_append, List.nodup_append] at h
    obtain ⟨hnodup, -, hfresh⟩ := h
    intro name content
    rw [fileTree_snoc, List.map_append, List.mem_append]
    by_cases hname : name = file.name
    · subst hname
      have hnot : (file.name, content) ∉ files.map fun file => (file.name, file.content) := by
        intro hmem
        obtain ⟨file', hfile', heq⟩ := List.mem_map.mp hmem
        exact hfresh _ (List.mem_map_of_mem hfile') _ List.mem_cons_self (Prod.mk.inj heq).1
      simp [hnot, eq_comm]
    · rw [Function.update_of_ne hname, ih hnodup]
      simp [hname]

/-- The program of request `j` ran on case `n` to its end: `sandbox.Execute` was called on a workspace
that held exactly the artifact of the request's source code, with its limits and this input, and returned
`r`. -/
def ProgramRan (req : JudgeRequest) (profile : LanguageProfile) (tr : Trace) (j n : ℕ) (input : Bytes)
    (r : Sandbox.ExecuteResult) : Prop :=
  ∃ artifact log sandboxReq files, ProgramCompile req profile tr j (.ok ⟨log, some artifact⟩) ∧
    Executed (own (.case j n) tr) sandboxReq files (.ok r) ∧
    HoldsExactly files [(artifact.name, artifact.data)] ∧
    sandboxReq.stdin = some input ∧
    sandboxReq.limits.cpuTimeMs = req.timeLimit.toNat ∧
    sandboxReq.limits.wallTimeMs = 3 * req.timeLimit.toNat ∧
    r.verdict = .ok ∧ r.exitCode = 0

/-- The checker of request `j` ran on case `n`: `sandbox.Execute` was called on a workspace that held
exactly the artifact of the chosen checker's source and the three texts, and returned `r`. -/
def CheckerRan (g : JudgeEngine) (req : JudgeRequest) (tr : Trace) (j n : ℕ)
    (input output answer : Bytes) (r : Sandbox.ExecuteResult) : Prop :=
  ∃ choice src k log checker sandboxReq files,
    resolveChecker g req.checker req.checkerSourceCode = .ok choice ∧
    SourceOf choice (own (.judge j) tr) src ∧
    Compiled g tr k src (.ok ⟨log, some checker⟩) ∧
    Executed (own (.case j n) tr) sandboxReq files (.ok r) ∧
    HoldsExactly files [(checker.name, checker.data), ("input.txt", input), ("output.txt", output),
      ("answer.txt", answer)]

/-- Case `n` of request `j` was judged by a program and a checker of the request, and ended with `res`. -/
structure CaseJudged (g : JudgeEngine) (ctx : Ctx) (req : JudgeRequest) (profile : LanguageProfile)
    (choice : CheckerChoice) (plan : JudgePlan) (artifact : Artifact) (log : Bytes) (checker : Artifact)
    (checkerLog : Bytes) (k : Tid) (data : CaseData) (ms : List Milestone) (tr : Trace) (j n : ℕ)
    (res : JudgeCaseResult) : Prop where
  resolved : Resolved g req profile choice
  planOf : PlanOf req profile choice (own (.judge j) tr) plan
  program : ProgramCompile req profile tr j (.ok ⟨log, some artifact⟩)
  compiled : Compiled g tr k plan.checker (.ok ⟨checkerLog, some checker⟩)
  caseData : plan.cases[n]? = some data
  course_eq : course (own (.case j n) tr) =
    .begun ctx (plan.batch ctx artifact checker).runner data :: (ms ++ [.ended res])
  case : CaseCourse ctx (plan.batch ctx artifact checker).runner data ms res

theorem judged_case (hx : g.executor.All Op.OfExecutor) {requests : ℕ → Ctx × JudgeRequest}
    {judgeMax execMax : ℕ} {cpus : List ℕ} {c : Config Op Op.Ans Tid State JudgeAns}
    (h : Reachable semantics (.start (State.new judgeMax execMax cpus) (judgeCalls g requests)) c)
    (hcoll : ∀ src src', Asked c.trace src → Asked c.trace src' → g.sha256 src = g.sha256 src' → src = src')
    {j n : ℕ} {result : JudgeResult} {res : JudgeCaseResult}
    (hret : c.prog (.judge j) = .ret (result, none)) (hres : result.cases[n]? = some res) :
    ∃ profile choice plan artifact log checker checkerLog k data ms,
      CaseJudged g (requests j).1 (requests j).2 profile choice plan artifact log checker checkerLog k data
        ms c.trace j n res := by
  have hcases : result.cases ≠ [] := by
    intro hnil
    rw [hnil] at hres
    cases hres
  have hruns : (judge g (requests j).1 (requests j).2).Runs (own (.judge j) c.trace) (result, none) :=
    h.own_runs hret
  obtain ⟨profile, choice, plan, hresolved, hplanOf, hplan, t₁, t₂, t₃, compiled, hown, hchecker⟩ :=
    judge_judged hx hruns hcases
  obtain ⟨log, artifact, checkerLog, checker, ms, hms, hc⟩ := hplan.judged_of_cases hcases
  -- the checker comes from a compilation of the chosen source
  obtain ⟨hasked, k, source, hkey, hasked', hcompiled⟩ := compileChecker_outcome hx h hown hchecker
  obtain rfl := hcoll _ _ hasked' hasked hkey
  obtain ⟨ctx', source', hleft⟩ := (compileChecker_course hx hchecker).checker_mem.mpr rfl
  have hleft' : .checker ctx' source' compiled ∈ course (own (.judge j) c.trace) := by
    rw [hown, course_append, course_append]
    simp [hleft]
  obtain rfl : compiled = .ok ⟨checkerLog, some checker⟩ := by
    rw [hms] at hleft'
    exact hc.checker_mem.mp ⟨ctx', source', by simpa using hleft'⟩
  have hover : CasesOver c.trace j (plan.batch (requests j).1 artifact checker) result.cases := by
    refine casesOver hx h (by simp [hms]) fun batch' hbatch' => ?_
    rw [hms] at hbatch'
    simpa [hc.not_started] using hbatch'
  obtain ⟨data, ms', hdata, hcourse, hcase⟩ := hover.ended n res hres
  have hfor := hplanOf.planFor hresolved
  refine ⟨profile, choice, plan, artifact, log, checker, checkerLog, k, data, ms', hresolved, hplanOf, ?_,
    hcompiled, hdata, hcourse, hcase⟩
  rw [programCompile_iff, hms, ← hfor.profile, ← hfor.sourceCode]
  exact ⟨_, List.mem_cons_self⟩

theorem forall₂_getElem? {α β : Type} {R : α → β → Prop} {xs : List α} {ys : List β}
    (h : List.Forall₂ R xs ys) {n : ℕ} {y : β} (hy : ys[n]? = some y) : ∃ x, xs[n]? = some x ∧ R x y := by
  obtain ⟨hlt, rfl⟩ := List.getElem?_eq_some_iff.mp hy
  have hlt' : n < xs.length := by rwa [h.length_eq]
  exact ⟨xs[n], List.getElem?_eq_getElem hlt', h.get hlt' hlt⟩

section Verdicts

variable (hg : g.executor = containerExecutor) {requests : ℕ → Ctx × JudgeRequest} {judgeMax execMax : ℕ}
  {affinity : CPUSet} {c : Config Op Op.Ans Tid State JudgeAns}
  (h : Reachable semantics
    (.start (State.new judgeMax execMax (cpuIDsFromAffinity affinity)) (judgeCalls g requests)) c)

include hg h

/-- What `Run` returned to a case was executed. -/
theorem case_ran {j n : ℕ} {ctx : Ctx} {req : RunRequest} {runOut : RunResult}
    (hran : .ran ctx req (.ok runOut) ∈ course (own (.case j n) c.trace)) :
    ∃ ws r, Executed (own (.case j n) c.trace) ((runTaskOf req).request ws)
        (fileTree (runTaskOf req).files) (.ok r) ∧
      runOut = sandboxResultToRunResult r ∧ (r.verdict = .ok → r.exitCode = 0) := by
  obtain ⟨inv, -⟩ := judgeCalls_held h hg (cpuIDsFromAffinity_nodup affinity)
  obtain ⟨ws, r, hexecuted, rfl⟩ := (inv.records (.case j n)).ran ctx req runOut (mem_course.mp hran)
  refine ⟨ws, r, hexecuted, rfl, fun hok => ?_⟩
  have hx : g.executor.All Op.OfExecutor := hg ▸ containerExecutor_all
  have hzero : ∀ ctx req, (g.executor.run ctx req).Returns fun res =>
      ∀ out, res = .ok out → out.verdict = .ok → out.exitCode = 0 := by
    rw [hg]
    exact run_exitCode
  have hleaves := ((h.own_after (.case j n)).all (caseThread_leaves hx hzero)).1 _ (mem_course.mp hran)
  exact hleaves _ rfl (sandboxVerdictToModel_ok.mpr hok)

/-- The artifact of a checker has the name that checkers have. -/
theorem compiled_checker_name {k : Tid} {source : Bytes} {log : Bytes} {checker : Artifact}
    (hcompiled : Compiled g c.trace k source (.ok ⟨log, some checker⟩)) :
    checker.name = checkerArtifactName := by
  obtain ⟨ctx, raw, hdid, hraw⟩ := hcompiled
  obtain rfl := setupResult_eq_ok.mp hraw.symm
  have hx : g.executor.All Op.OfExecutor := hg ▸ containerExecutor_all
  cases k with
  | case j n =>
    have hcase := ((h.own_after (.case j n)).all (caseThread_ofCase hx)).1 _ (mem_own.mpr hdid)
    exact absurd hcase id
  | judge j =>
    have hnames := ((h.own_after (.judge j)).all (judge_namesChecker hg _)).1 _ (mem_own.mpr hdid)
    exact hnames ⟨source, rfl⟩

end Verdicts

/-- The sources that `checkerCompiler.compile` was called on. -/
def askedSources (tr : Trace) : List Bytes :=
  tr.filterMap fun en =>
    match en.op with
    | .mark (.enterChecker _ source) => some source
    | _ => none

theorem mem_askedSources {tr : Trace} {source : Bytes} (h : Asked tr source) : source ∈ askedSources tr := by
  obtain ⟨i, ctx, hdid⟩ := h
  exact List.mem_filterMap.mpr ⟨_, hdid, rfl⟩

/-- Compilers write one byte, programs write `3`, and the checker exits with code 1. -/
def rejectingCheckerWorld : World where
  ask _ := calmAnswer
  watch _ ctx req :=
    ⟨exitScript (if req.enableSeccomp ∧ req.stdin = none then 1 else 0) (utf8 "3"),
      exitScript_ends ctx req.limits _ _⟩
  produce _ _ entries := Function.update (Function.update entries "program" (some (.regular [127] 0o755)))
    "checker" (some (.regular [126] 0o755))

end Afterglow.Engine
