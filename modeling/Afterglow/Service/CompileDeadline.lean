import Afterglow.Engine.World
import Afterglow.Execution.CompileOutcome
import Afterglow.Sandbox.Deadlines
import Afterglow.Service.Progress

/-!
# The time budget of a checker compilation

Reference: `checkerCompiler.compile` and `compileUncached` in `internal/service/checker_compiler.go`,
`executor.Compile` in `internal/execution/execution.go`, and `executeJudgePlan` in `judge_service.go`.

The leader of a flight derives a context with the wall limit as its timeout before it asks for an
executor slot; the wall timer of the sandbox starts with the task. Here everything goes well but for the
time that passes, so that the outcome is a function of how the task is watched.
-/

namespace Afterglow.Engine

open Concurrency Execution Service

/-! ## Compilations in which every call succeeds -/

/-- Every call succeeds, nothing is cached, the task goes as in `w`, and `produced` is what it leaves at
the name of the artifact. -/
def smooth (w : Sandbox.WatchScript) (produced : Node) : (e : Op) → Option e.Ans
  | .execAcquire _ | .removeAll _ | .writeFile _ _ _ _ => some none
  | .execRelease | .cpuPut _ | .mark _ | .cacheAdd _ _ | .flightDone _ _ _ => some ()
  | .cpuTake _ | .mkdirTemp => some (.ok 0)
  | .cacheGet _ => some none
  | .flightDo _ => some (.lead 0)
  | .stat _ _ => some (.ok produced)
  | .readFile _ _ =>
    match produced with
    | .regular data _ => some (.ok data)
    | .irregular => some (.error (.text "not a regular file"))
  | .enterExecute _ _ => some none
  | .watch ctx req =>
    if h : (Sandbox.watchExecution ctx w req.limits).isSome then some ⟨w, h⟩ else none
  | .ask q => some (calmAnswer q)
  | _ => none

variable {w : Sandbox.WatchScript} {produced : Node} {ctx : Ctx}

/-! The calls of a flight, as `eval?` meets them. -/

theorem smooth_mark (m : Mark) : smooth w produced (.mark m) = some () := rfl

theorem smooth_cacheGet (key : Bytes) : smooth w produced (.cacheGet key) = some none := rfl

theorem smooth_cacheAdd (key : Bytes) (value : Execution.CompileResult) :
    smooth w produced (.cacheAdd key value) = some () := rfl

theorem smooth_flightDo (key : Bytes) : smooth w produced (.flightDo key) = some (.lead 0) := rfl

theorem smooth_flightDone (key : Bytes) (f : ℕ) (res : Except Err Execution.CompileResult) :
    smooth w produced (.flightDone key f res) = some () := rfl

theorem smooth_cancel (ctx : Ctx) : smooth w produced (.ask (.cancel ctx)) = some () := rfl

theorem writeFiles_smooth (ws : ℕ) (files : List File) :
    (writeFiles ws files).eval? (smooth w produced) = some none := by
  induction files with
  | nil => rfl
  | cons file rest ih => exact ih

theorem collectArtifact_smooth (ws : ℕ) (name : String) :
    ∃ compile, (collectArtifact ws name).eval? (smooth w produced) = some (.ok compile) := by
  cases produced with
  | irregular => exact ⟨_, rfl⟩
  | regular data perm =>
    show ∃ compile, (ite (data.length > maxCompileArtifactBytes) _ _ : EProg _).eval? _ = _
    split
    · exact ⟨_, rfl⟩
    · exact ⟨_, rfl⟩

/-- The sandbox returns what the watch returns. -/
theorem sandboxExecute_smooth {req : Sandbox.ExecuteRequest} {res : Except Err Sandbox.ExecuteResult}
    {calls : List Sandbox.TaskCall}
    (h : Sandbox.watchExecution (.withValue ctx) w req.limits = some (res, calls)) :
    (containerSandbox.Execute ctx req).eval? (smooth w produced) = some res := by
  have hsome : (Sandbox.watchExecution (.withValue ctx) w req.limits).isSome := by rw [h]; rfl
  have hwatch : smooth w produced (.watch (.withValue ctx) req) = some ⟨w, hsome⟩ := dif_pos hsome
  have hget : ((Sandbox.watchExecution (.withValue ctx) w req.limits).get hsome).1 = res := by simp [h]
  show (smooth w produced (.watch (.withValue ctx) req)).bind _ = some res
  rw [hwatch]
  exact congrArg some hget

/-- The workspace is made and removed around the task. -/
theorem execute_smooth {t : Task} {res : Except Err TaskResult}
    (h : (executeIn containerSandbox ctx t 0).eval? (smooth w produced) = some res) :
    (execute containerSandbox ctx t).eval? (smooth w produced) = some res := by
  have hbody : (executeIn containerSandbox ctx t 0 >>= fun result => cleanup 0 >>= fun cleanupErr =>
      pure (joinResult result cleanupErr)).eval? (smooth w produced) = some res := by
    rw [Prog.eval?_bind, h]
    cases res <;> rfl
  show ((executeIn containerSandbox ctx t 0 >>= fun result => cleanup 0 >>= fun cleanupErr =>
      pure (joinResult result cleanupErr)) >>= fun a => perform .execRelease >>= fun _ =>
        pure a : EProg _).eval? (smooth w produced) = some res
  rw [Prog.eval?_bind, hbody]
  rfl

/-- A failing watch is an error of the executor. -/
theorem compile_smooth_error {req : CompileRequest} {e : Err} {calls : List Sandbox.TaskCall}
    (h : Sandbox.watchExecution (.withValue ctx) w req.limits = some (.error e, calls)) :
    (containerExecutor.compile ctx req).eval? (smooth w produced) =
      some (.error (.wrap "sandbox execute" e)) := by
  have hexec : (containerSandbox.Execute ctx ((compileTask req).request 0)).eval? (smooth w produced) =
      some (.error e) := sandboxExecute_smooth h
  have hin : (executeIn containerSandbox ctx (compileTask req) 0).eval? (smooth w produced) =
      some (.error (.wrap "sandbox execute" e)) := by
    simp only [executeIn, Prog.eval?_bind, writeFiles_smooth, Option.bind_some, hexec]
    rfl
  show (execute containerSandbox ctx (compileTask req) >>= _ : EProg _).eval? _ = _
  rw [Prog.eval?_bind, execute_smooth hin]
  rfl

/-- What `smooth` answers about the artifact. -/
theorem collectArtifact_collected {name : String} {compile : Execution.CompileResult}
    (h : (collectArtifact 0 name).eval? (smooth w produced) = some (.ok compile)) :
    ∃ rest, Collected 0 name produced rest compile ∧
      ∀ data, rest = [⟨.readFile 0 name, .ok data⟩] → produced.data? = some data := by
  obtain ⟨tr, hruns, hanswers⟩ := Prog.runs_of_eval? h
  obtain ⟨node, rest, rfl, hcollected⟩ := collectArtifact_ok hruns
  have hnode := hanswers _ List.mem_cons_self
  cases hnode
  refine ⟨rest, hcollected, ?_⟩
  rintro data rfl
  have hread := hanswers ⟨.readFile 0 name, .ok data⟩ (by simp)
  cases produced with
  | irregular => cases hread
  | regular data' perm =>
    cases hread
    rfl

/-- A compilation that the sandbox judged is reported truthfully. -/
theorem compile_smooth {req : CompileRequest} {r : Sandbox.ExecuteResult} {calls : List Sandbox.TaskCall}
    (h : Sandbox.watchExecution (.withValue ctx) w req.limits = some (.ok r, calls))
    (hjudged : Judged req.limits r) (hknown : r.verdict ≠ .unknown) :
    ∃ out, (containerExecutor.compile ctx req).eval? (smooth w produced) = some (.ok out) ∧
      (req.artifactName ≠ "" → Truthful req.artifactName (some produced) r out) ∧
      (r.verdict ≠ .ok → out.artifact = none ∧ ¬ Blank out.log) := by
  have hexec : (containerSandbox.Execute ctx ((compileTask req).request 0)).eval? (smooth w produced) =
      some (.ok r) := sandboxExecute_smooth h
  have hin : ∃ compile, (executeIn containerSandbox ctx (compileTask req) 0).eval? (smooth w produced) =
        some (.ok { run := sandboxResultToRunResult r, compile := compile }) ∧
      (req.artifactName = "" ∨ r.exitCode ≠ 0 ∨ r.verdict ≠ .ok → compile = {}) ∧
      (req.artifactName ≠ "" → r.verdict = .ok →
        (collectArtifact 0 req.artifactName).eval? (smooth w produced) = some (.ok compile)) := by
    simp only [executeIn, Prog.eval?_bind, writeFiles_smooth, Option.bind_some, hexec, if_neg hknown]
    split
    -- no artifact is looked for, so the executor reports what was printed
    case isTrue hfailed =>
      refine ⟨{}, rfl, fun _ => rfl, fun hname hok => ?_⟩
      have hcode := hjudged.exitCode hok
      rcases hfailed with hname' | hcode' | hverdict
      · exact absurd hname' hname
      · exact absurd hcode hcode'
      · exact absurd (sandboxVerdictToModel_ok.mpr hok) hverdict
    -- the artifact is collected from what the task left
    case isFalse hdone =>
      obtain ⟨compile, hcollect⟩ := @collectArtifact_smooth w produced 0 req.artifactName
      refine ⟨compile, ?_, fun hfailed => ?_, fun _ _ => hcollect⟩
      · show (collectArtifact 0 req.artifactName >>= _ : EProg _).eval? _ = _
        rw [Prog.eval?_bind, hcollect]
        rfl
      · refine absurd (hfailed.imp id (Or.imp id fun hverdict => ?_)) hdone
        exact fun hok => hverdict (sandboxVerdictToModel_ok.mp hok)
  obtain ⟨compile, hin, hfailed, hcollect⟩ := hin
  set out : Execution.CompileResult :=
    { log := compileLog { run := sandboxResultToRunResult r, compile := compile },
      artifact := compile.artifact } with hout
  have hstopped : r.verdict ≠ .ok → Reported 0 req r [] out compile := fun hne =>
    ⟨rfl, rfl, hknown, fun hv => hfailed (.inr (.inr hv)), fun hv => absurd hv hne⟩
  refine ⟨out, ?_, fun hname => ?_, fun hne => ?_⟩
  · show (execute containerSandbox ctx (compileTask req) >>= _ : EProg _).eval? _ = _
    rw [Prog.eval?_bind, execute_smooth hin]
    rfl
  · by_cases hok : r.verdict = .ok
    · obtain ⟨rest, hcollected, hread⟩ := collectArtifact_collected (hcollect hname hok)
      have hreported :
          Reported 0 req r (⟨.stat 0 req.artifactName, .ok produced⟩ :: rest ++ []) out compile :=
        ⟨rfl, rfl, hknown, fun hv => absurd hok hv, fun _ => ⟨produced, rest, [], rfl, hcollected⟩⟩
      exact hreported.truthful_of_ok hjudged hok hcollected hread
    · exact (hstopped hok).truthful_of_failed hjudged hok _
  · have hnone : out.artifact = none := by rw [hout, hfailed (.inr (.inr hne))]
    exact ⟨hnone, (hstopped hne).explained hjudged hnone⟩

/-! ## The outcome of a flight -/

variable {g : JudgeEngine} {profile : CompileConfig} {source : Bytes}

/-- What the leader of a flight returns if its task is watched as in `w`. -/
def flightOutcome (profile : CompileConfig) (g : JudgeEngine) (ctx : Ctx) (source : Bytes)
    (w : Sandbox.WatchScript) (produced : Node) : Option (Except Err Execution.CompileResult) :=
  (compileShared g ctx source profile).eval? (smooth w produced)

/-- The status of a request that leads the flight of its checker. -/
def leaderStatus (profile : CompileConfig) (g : JudgeEngine) (ctx : Ctx) (plan : JudgePlan)
    (program : CompiledLanguageProgram) (compileResult : CompileResult) (w : Sandbox.WatchScript)
    (produced : Node) : Option JudgeStatus :=
  ((judgeWithProgram g ctx plan program compileResult profile).eval? (smooth w produced)).map
    JudgeResult.status

/-- A flight makes an error of a failing compilation, and passes on any other. -/
theorem flightOutcome_of_compile (hg : g.executor = containerExecutor)
    {res : Except Err Execution.CompileResult}
    (h : (containerExecutor.compile (compileCtx ctx profile)
      (checkerCompileRequest g.testlibHeader source profile)).eval? (smooth w produced) = some res) :
    flightOutcome profile g ctx source w produced = some (res.mapError (.wrap "checker setup failed")) := by
  have hcompile : (compileUncached g (compileCtx ctx profile) source profile).eval?
      (smooth w produced) = some (res.mapError (.wrap "checker setup failed")) := by
    simp only [compileUncached, Executor.Compile, hg, note, Prog.perform_bind, Prog.op_bind, Prog.eval?_op,
      Prog.eval?_bind, smooth_mark, h, Option.bind_some, Prog.pure_eq_ret, Prog.eval?_ret]
  simp only [flightOutcome, compileShared, perform, ask, Prog.eval?_deferring, Prog.perform_bind,
    Prog.eval?_op, Prog.eval?_bind, smooth_cacheGet, smooth_cancel, hcompile, Option.bind_some,
    Prog.pure_eq_ret, Prog.eval?_ret]
  cases res with
  | error e => rfl
  | ok compilation =>
    simp only [Except.mapError]
    split
    · simp only [Prog.eval?_op, smooth_cacheAdd, Option.bind_some, Prog.eval?_ret, Option.map_some]
    · rfl

/-- A request that finds nothing in the cache and no flight under way leads one. -/
theorem compileChecker_smooth : (compileChecker g ctx source profile).eval? (smooth w produced) =
    flightOutcome profile g ctx source w produced := by
  simp only [flightOutcome, compileChecker, compileCached, groupDo, perform, note, Prog.perform_bind,
    Prog.op_bind, Prog.eval?_op, Prog.eval?_bind, smooth_mark, smooth_cacheGet, smooth_flightDo,
    smooth_flightDone, Option.bind_some, Prog.pure_eq_ret, Prog.eval?_ret, Option.bind_fun_some]

section Leader

variable {plan : JudgePlan} {program : CompiledLanguageProgram} {compileResult : CompileResult}

/-- An error of a flight is blamed on the system. -/
theorem leaderStatus_error {e : Err}
    (h : flightOutcome profile g ctx plan.checker w produced = some (.error e)) :
    leaderStatus profile g ctx plan program compileResult w produced = some .systemError := by
  simp only [leaderStatus, judgeWithProgram, prepare, Prog.eval?_bind, compileChecker_smooth, h,
    Prog.pure_eq_ret, Prog.eval?_ret, Option.bind_some, Except.map, Option.map_some]

/-- A checker that does not compile is blamed on whoever provided it. -/
theorem leaderStatus_none {out : Execution.CompileResult}
    (h : flightOutcome profile g ctx plan.checker w produced = some (.ok out)) (hnone : out.artifact = none) :
    leaderStatus profile g ctx plan program compileResult w produced =
      some (if plan.checkerProvidedByRequest then .checkerCompileError else .systemError) := by
  simp only [leaderStatus, judgeWithProgram, prepare, Prog.eval?_bind, compileChecker_smooth, h, hnone,
    Prog.pure_eq_ret, Prog.eval?_ret, Option.bind_some, Except.map, Option.map_some]

end Leader

theorem buildVerdict_known (outcome : Sandbox.ExecutionOutcome) (output : Sandbox.ExecutionOutput)
    (limits : Sandbox.ResourceLimits) : (Sandbox.buildVerdict outcome output limits).verdict ≠ .unknown := by
  unfold Sandbox.buildVerdict
  simp only
  split_ifs <;> simp

/-! ## Ended by its own limits -/

/-- How a watch of the compiler's task may go: the context of the flight was derived at `t0`, the task
started at `t1`, and `last` ended the event loop at `t`. -/
def FlightWatched (profile : CompileConfig) (ctx : Ctx) (task : Sandbox.TaskCourse) (t0 t1 t : ℤ)
    (last : Sandbox.SelectCase) (w : Sandbox.WatchScript) : Prop :=
  task.Watched (.withValue (compileCtx ctx profile)) profile.limits t0 t1 t last w

/-- `out` is what the leader of a flight returns for a compilation that `last` ended, with a nil error. An
exit is reported truthfully, with the artifact if the compiler left one. A compiler stopped at one of its
limits has failed, and the log says why. A failure is blamed on whoever provided the checker. -/
structure EndedAs (profile : CompileConfig) (g : JudgeEngine) (ctx : Ctx) (source : Bytes)
    (task : Sandbox.TaskCourse) (produced : Node) (w : Sandbox.WatchScript) (last : Sandbox.SelectCase)
    (out : Execution.CompileResult) : Prop where
  returned : flightOutcome profile g ctx source w produced = some (.ok out)
  exited : ∀ code, last = .exit ⟨code, none⟩ → profile.artifactName ≠ "" →
    Truthful profile.artifactName (some produced) (Sandbox.buildVerdict
      { exitCode := code, metrics := Sandbox.parseCgroupMetrics task.final } task.copied.output
      profile.limits) out
  stopped : (∀ status, last ≠ .exit status) → out.artifact = none ∧ ¬ Blank out.log
  blamed : out.artifact = none → ∀ plan program compileResult, plan.checker = source →
    leaderStatus profile g ctx plan program compileResult w produced =
      some (if plan.checkerProvidedByRequest then .checkerCompileError else .systemError)

/-- The compilation ended as its own exit and limits have it: by the first of them. -/
def EndedByOwnLimits (profile : CompileConfig) (g : JudgeEngine) (ctx : Ctx) (source : Bytes)
    (task : Sandbox.TaskCourse) (produced : Node) (t1 : ℤ) (w : Sandbox.WatchScript) : Prop :=
  ∃ t last out, task.FirstOwnEnd profile.limits t1 t last ∧
    EndedAs profile g ctx source task produced w last out

variable {task : Sandbox.TaskCourse} {t0 t1 t : ℤ} {last : Sandbox.SelectCase}

/-- The context of a flight expires one wall limit after it was derived. -/
theorem compileCtx_cutOff : (Ctx.withValue (compileCtx ctx profile)).CutOff t0 t ↔
    t0 + Sandbox.wallDeadline profile.limits ≤ t := by
  constructor
  · rintro ⟨d, hd, hle⟩
    cases hd
    exact hle
  · intro hle
    exact ⟨_, rfl, hle⟩

section Flight

variable (hg : g.executor = containerExecutor)

include hg

/-- A compiler that has settled before the context expires is judged by its own end. -/
theorem flightOutcome_endedAs (hwatched : FlightWatched profile ctx task t0 t1 t last w)
    (hown : task.OwnEnd profile.limits t1 t last)
    (hbudget : task.settledAt t last < t0 + Sandbox.wallDeadline profile.limits) :
    ∃ out, EndedAs profile g ctx source task produced w last out := by
  obtain ⟨calls, hwatch⟩ := Sandbox.TaskCourse.Watched.judged hwatched hown
    fun hcut => absurd (compileCtx_cutOff.mp hcut) (not_le_of_gt hbudget)
  obtain ⟨out, hcompile, htruthful, hfailed⟩ := @compile_smooth w produced _
    (checkerCompileRequest g.testlibHeader source profile) _ _ hwatch ⟨_, task.copied.output, rfl⟩
    (buildVerdict_known _ _ _)
  have hout : flightOutcome profile g ctx source w produced = some (.ok out) :=
    flightOutcome_of_compile hg hcompile
  refine ⟨out, hout, ?_, fun hstop => hfailed (hown.failed hstop _), ?_⟩
  · rintro code rfl hname
    exact htruthful hname
  · rintro hnone plan program compileResult rfl
    exact leaderStatus_none hout hnone

/-- A watch that fails makes an error of the flight. -/
theorem flightOutcome_error {e : Err} {calls : List Sandbox.TaskCall}
    (hwatch : Sandbox.watchExecution (.withValue (compileCtx ctx profile)) w profile.limits =
      some (.error e, calls)) :
    flightOutcome profile g ctx source w produced =
      some (.error (.wrap "checker setup failed" (.wrap "sandbox execute" e))) :=
  flightOutcome_of_compile hg (compile_smooth_error hwatch)

/-- The budget of a flight is one wall limit, from when its context was derived. -/
theorem endedByOwnLimits_iff :
    (∀ t last w, FlightWatched profile ctx task t0 t1 t last w →
      EndedByOwnLimits profile g ctx source task produced t1 w) ↔
    ∀ t last, task.FirstOwnEnd profile.limits t1 t last →
      task.settledAt t last < t0 + Sandbox.wallDeadline profile.limits := by
  constructor
  -- an end that settles too late can be watched so that the context cuts the drain off
  · intro hmeets t last hown
    by_contra hlate
    obtain ⟨t', last', w, hwatched, e, calls, hwatch⟩ := Sandbox.TaskCourse.exists_watched_fails hown
      (compileCtx_cutOff.mpr (not_lt.mp hlate))
    obtain ⟨_, _, out, -, hended⟩ := hmeets _ _ _ hwatched
    cases (flightOutcome_error hg hwatch).symm.trans hended.returned
  -- an end that settles in time is the one that is observed, and nothing behind it is cut off
  · intro hbudget t last w hwatched
    have hown : task.FirstOwnEnd profile.limits t1 t last :=
      Sandbox.TaskCourse.Observed.firstOwnEnd hwatched.events fun t last hown hcut =>
        absurd (compileCtx_cutOff.mp hcut) (not_le_of_gt (hbudget t last hown))
    obtain ⟨out, hended⟩ := flightOutcome_endedAs hg hwatched hown.own (hbudget t last hown)
    exact ⟨t, last, out, hown, hended⟩

/-- The program of a request is compiled in the context of the request, which has no deadline: a compiler
stopped at one of its limits is blamed on the program. -/
theorem executeJudgePlan_stopped {plan : JudgePlan} (hctx : ctx.deadline t0 = none)
    (hwatched : task.Watched (.withValue ctx) plan.profile.compile.limits t0 t1 t last w) :
    task.FirstOwnEnd plan.profile.compile.limits t1 t last ∧ ((∀ status, last ≠ .exit status) →
      ∃ result, (executeJudgePlan g ctx plan).eval? (smooth w produced) = some result ∧
        result.status = .compileError ∧ ¬ Blank result.compile.log) := by
  have hnever : ∀ t', ¬ (Ctx.withValue ctx).CutOff t0 t' := by
    rintro t' ⟨d, hd, -⟩
    cases hctx.symm.trans hd
  have hown := hwatched.events.firstOwnEnd fun _ _ _ => hnever _
  refine ⟨hown, fun hstop => ?_⟩
  obtain ⟨calls, hwatch⟩ := hwatched.judged hown.own (hnever _)
  obtain ⟨out, hcompile, -, hfailed⟩ := @compile_smooth w produced _
    (plan.profile.compile.request plan.sourceCode) _ _ hwatch ⟨_, task.copied.output, rfl⟩
    (buildVerdict_known _ _ _)
  obtain ⟨hnone, hlog⟩ := hfailed (hown.own.failed hstop _)
  refine ⟨{ status := .compileError, compile := { succeeded := false, log := out.log } }, ?_, rfl, hlog⟩
  simp only [executeJudgePlan, compileProgram, Executor.Compile, hg, note, Prog.perform_bind, Prog.op_bind,
    Prog.eval?_op, Prog.eval?_bind, smooth_mark, hcompile, Option.bind_some, Prog.pure_eq_ret, Prog.eval?_ret,
    Except.map, hnone, Option.map_none, Option.isSome_none]

/-- The time budget of checker compilations. A flight whose context was derived at `t0` and whose task
started at `t1` is ended by its own exit and limits, however it is watched, exactly if the first of these
ends has settled, with the metrics read, the kill and the drain that follow it, before the wall limit
counted from `t0` is over. That end is the exit of a compiler that exits before its limits, and the wall
timer of one that is still running then, which settles too late whenever the context was derived no later
than the task was started. Where a program is compiled, the first own end always decides, and a compiler
stopped by it is blamed on the program. -/
theorem checkerCompile_budget (profile : CompileConfig) (ctx : Ctx) (source : Bytes)
    (task : Sandbox.TaskCourse) (produced : Node) (h : t0 ≤ t1) :
    ((∀ t last w, FlightWatched profile ctx task t0 t1 t last w →
      EndedByOwnLimits profile g ctx source task produced t1 w) ↔
    ∀ t last, task.FirstOwnEnd profile.limits t1 t last →
      task.settledAt t last < t0 + Sandbox.wallDeadline profile.limits) ∧
    (∀ t code, task.ExitsInTime profile.limits t code → ∀ t' last,
      task.FirstOwnEnd profile.limits t1 t' last → t' = t1 + t ∧ last = .exit ⟨code, none⟩) ∧
    (task.StillRunning profile.limits → ∀ t last, task.FirstOwnEnd profile.limits t1 t last →
      last = .wallDeadline ∧ t0 + Sandbox.wallDeadline profile.limits ≤ task.settledAt t last) ∧
    ∀ plan ctx' t last w, plan.profile.compile = profile → ctx'.deadline t0 = none →
      task.Watched (.withValue ctx') profile.limits t0 t1 t last w →
      task.FirstOwnEnd profile.limits t1 t last ∧ ((∀ status, last ≠ .exit status) →
        ∃ result, (executeJudgePlan g ctx' plan).eval? (smooth w produced) = some result ∧
          result.status = .compileError ∧ ¬ Blank result.compile.log) := by
  refine ⟨endedByOwnLimits_iff hg, fun t code hexits t' last hown => hexits.firstOwnEnd hown, ?_, ?_⟩
  · intro hrunning t last hown
    obtain ⟨rfl, rfl⟩ := hrunning.firstOwnEnd hown
    have hlate := task.le_settledAt (t1 + Sandbox.wallDeadline profile.limits) .wallDeadline
    exact ⟨rfl, by omega⟩
  · rintro plan ctx' t last w rfl hctx hwatched
    exact executeJudgePlan_stopped hg hctx hwatched

end Flight

/-- A compiler that exits with code 0 after a second. -/
def quickTask : Sandbox.TaskCourse where
  exit := some (1000000000, 0)
  overflow := none
  stats _ := ⟨none, none, none⟩
  final := ⟨none, none, none⟩
  copied := {}
  metricsTime := 2000000
  killTime := 3000000
  drainTime := 4000000
  metricsTime_lt := by decide
  killTime_lt := by decide
  drainTime_lt := by decide

/-- A compiler that blocks. -/
def blockedTask : Sandbox.TaskCourse := { quickTask with exit := none }

theorem stats_below (n : ℕ) : quickTask.cpuMillis n < checkerCompileProfile.limits.cpuTimeMs := by
  show (Sandbox.parseCgroupMetrics ⟨none, none, none⟩).cpuMillis < _
  decide

theorem blockedTask_stillRunning : blockedTask.StillRunning checkerCompileProfile.limits where
  exit _ _ h := by cases h
  overflow _ h := by cases h
  cpu n _ := stats_below n

/-- A compilation that takes a second can be watched, and is ended by its own exit however it is. -/
theorem checkerCompile_budget_quick :
    (∃ t last w, FlightWatched checkerCompileProfile (.request 0) quickTask 0 1 t last w) ∧
    ∀ t last w, FlightWatched checkerCompileProfile (.request 0) quickTask 0 1 t last w →
      EndedByOwnLimits checkerCompileProfile containerEngine (.request 0) (utf8 "x") quickTask
        (.regular [127] 0o755) 1 w := by
  have hwall : Sandbox.wallDeadline checkerCompileProfile.limits = 90000000000 := by decide
  have hexits : quickTask.ExitsInTime checkerCompileProfile.limits 1000000000 0 :=
    ⟨rfl, by rw [hwall]; decide, fun _ h => (by cases h), fun n _ => stats_below n⟩
  have hexecutor : containerEngine.executor = containerExecutor := rfl
  obtain ⟨hbudget, hfirst, -⟩ := checkerCompile_budget hexecutor checkerCompileProfile (.request 0)
    (utf8 "x") quickTask (.regular [127] 0o755) (show (0 : ℤ) ≤ 1 by decide)
  have hsettled : ∀ t last, quickTask.FirstOwnEnd checkerCompileProfile.limits 1 t last →
      quickTask.settledAt t last < 0 + Sandbox.wallDeadline checkerCompileProfile.limits := by
    intro t last hown
    obtain ⟨rfl, rfl⟩ := hfirst _ _ hexits _ _ hown
    rw [hwall]
    decide
  refine ⟨?_, hbudget.mpr hsettled⟩
  obtain ⟨t, last, hown⟩ := quickTask.exists_firstOwnEnd checkerCompileProfile.limits 1
  have hin := hsettled t last hown
  have hfirst' : ∀ t' last', quickTask.Due (.withValue (compileCtx (.request 0)))
      checkerCompileProfile.limits 0 1 t' last' → t ≤ t' := by
    intro t' last' hdue
    cases hdue with
    | own h => exact hown.first _ _ h
    | expired hd =>
      cases hd
      exact ((quickTask.le_settledAt t last).trans_lt hin).le
  obtain ⟨w, hw, -⟩ := Sandbox.TaskCourse.exists_watched (.own hown.own) hfirst'
  exact ⟨t, last, w, hw⟩

/-- A compiler that blocks, in a task that started a nanosecond after the context was derived, is still
running at its wall limit, but can end in an error of the system, whoever provided the checker. -/
theorem checkerCompile_expires :
    blockedTask.StillRunning checkerCompileProfile.limits ∧
    (¬ ∀ t last w, FlightWatched checkerCompileProfile (.request 0) blockedTask 0 1 t last w →
      EndedByOwnLimits checkerCompileProfile containerEngine (.request 0) (utf8 "x") blockedTask
        (.regular [127] 0o755) 1 w) ∧
    ∃ t last w, FlightWatched checkerCompileProfile (.request 0) blockedTask 0 1 t last w ∧
      ∀ plan program compileResult, leaderStatus checkerCompileProfile containerEngine (.request 0) plan
        program compileResult w (.regular [127] 0o755) = some .systemError := by
  obtain ⟨t, last, hown⟩ := blockedTask.exists_firstOwnEnd checkerCompileProfile.limits 1
  obtain ⟨rfl, rfl⟩ := blockedTask_stillRunning.firstOwnEnd hown
  have hlate := blockedTask.le_settledAt (1 + Sandbox.wallDeadline checkerCompileProfile.limits) .wallDeadline
  have hcut : (Ctx.withValue (compileCtx (.request 0))).CutOff 0
      (blockedTask.settledAt (1 + Sandbox.wallDeadline checkerCompileProfile.limits) .wallDeadline) :=
    compileCtx_cutOff.mpr (by omega)
  obtain ⟨t', last', w, hwatched, e, calls, hwatch⟩ :=
    Sandbox.TaskCourse.exists_watched_fails hown hcut
  refine ⟨blockedTask_stillRunning, fun hmeets => ?_, t', last', w, hwatched, fun plan program result => ?_⟩
  · obtain ⟨_, _, out, -, hended⟩ := hmeets _ _ _ hwatched
    cases (flightOutcome_error rfl hwatch).symm.trans hended.returned
  · exact leaderStatus_error (flightOutcome_error rfl hwatch)

end Afterglow.Engine
