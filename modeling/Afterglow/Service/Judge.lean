import Afterglow.Service.Checker

/-!
# The judge

Reference: `internal/service/judge_service.go`, and the methods of `internal/service/language.go`.
-/

namespace Afterglow.Engine

open Concurrency Execution Service

/-! ## Admission -/

def maxTestCases : ℕ := 64

/-- `validateJudgeTestCase`. -/
def validateJudgeTestCase (index : ℕ) (testCase : JudgeTestCase) : Option Err :=
  let hasInputFile := testCase.inputFile ≠ ""
  let hasExpectedOutputFile := testCase.expectedOutputFile ≠ ""
  let hasText := testCase.inputText ≠ "" ∨ testCase.expectedOutput ≠ ""
  let err (msg : String) : Option Err := some (.text ("testcases[" ++ toString index ++ "]: " ++ msg))
  if hasText ∧ (hasInputFile ∨ hasExpectedOutputFile) then err "cannot mix text and file data"
  else if hasInputFile ≠ hasExpectedOutputFile then
    err "inputFile and expectedOutputFile must be provided together"
  else if hasInputFile ∧ validPath testCase.inputFile.toList = false then
    err "inputFile must be a valid relative path"
  else if hasExpectedOutputFile ∧ validPath testCase.expectedOutputFile.toList = false then
    err "expectedOutputFile must be a valid relative path"
  else none

/-- The loop of `validateJudgeRequest` over the test cases from `index` on. -/
def validateJudgeTestCases (index : ℕ) : List JudgeTestCase → Option Err
  | [] => none
  | testCase :: rest =>
    match validateJudgeTestCase index testCase with
    | some e => some e
    | none => validateJudgeTestCases (index + 1) rest

/-- `validateJudgeRequest`. -/
def validateJudgeRequest (req : JudgeRequest) : Option Err :=
  if trimSpace req.sourceCode.toList = [] then some (.text "sourceCode is required")
  else if req.language = .unknown then some (.text "language is required")
  else if req.timeLimit = 0 then some (.text "timeLimit must be positive")
  else if req.memoryLimit = 0 then some (.text "memoryLimit must be positive")
  else if req.testCases.length = 0 then some (.text "testcases must not be empty")
  else if req.testCases.length > maxTestCases then
    some (.text ("testcases must contain at most " ++ toString maxTestCases ++ " cases"))
  else validateJudgeTestCases 0 req.testCases

/-! ## Materializing a request -/

/-- `judgePlan`; `language` and `profile` are those of the resolved language. -/
structure JudgePlan where
  sourceCode : Bytes
  timeLimit : UInt32
  memoryLimit : UInt32
  cases : List CaseData
  language : Language
  profile : LanguageProfile
  checker : Bytes
  checkerProvidedByRequest : Bool

/-- `materializeCase`. -/
def materializeCase (g : JudgeEngine) (testCase : JudgeTestCase) : EProg (Except Err CaseData) := do
  if testCase.inputFile = "" then
    return .ok { input := utf8 testCase.inputText, expectedOutput := utf8 testCase.expectedOutput }
  else if g.hasExternal = false then
    return .error (.text ("inputFile " ++ quote testCase.inputFile ++ " requires external resources"))
  else
    let input : Except Err Bytes ← ask (.readResource .external testCase.inputFile)
    match input with
    | .error e =>
      return .error (.wrap ("inputFile " ++ quote testCase.inputFile ++ " is not available") e)
    | .ok input =>
      let expectedOutput : Except Err Bytes ←
        ask (.readResource .external testCase.expectedOutputFile)
      match expectedOutput with
      | .error e =>
        return .error (.wrap
          ("expectedOutputFile " ++ quote testCase.expectedOutputFile ++ " is not available") e)
      | .ok expectedOutput => return .ok { input := input, expectedOutput := expectedOutput }

/-- The loop of `materialize` over the test cases from `index` on. -/
def materializeCases (g : JudgeEngine) (index : ℕ) :
    List JudgeTestCase → EProg (Except Err (List CaseData))
  | [] => return .ok []
  | testCase :: rest => do
    let data ← materializeCase g testCase
    match data with
    | .error e => return .error (.wrap ("testcases[" ++ toString index ++ "]") e)
    | .ok data =>
      let others ← materializeCases g (index + 1) rest
      return others.map (data :: ·)

/-- `materialize`. -/
def materialize (g : JudgeEngine) (req : JudgeRequest) (profile : LanguageProfile)
    (choice : CheckerChoice) : EProg (Except Err JudgePlan) := do
  let src ← readSource g choice
  match src with
  | .error e => return .error e
  | .ok src =>
    let cases ← materializeCases g 0 req.testCases
    return cases.map fun cases =>
      { sourceCode := utf8 req.sourceCode
        timeLimit := req.timeLimit
        memoryLimit := req.memoryLimit
        cases := cases
        language := req.language
        profile := profile
        checker := src
        checkerProvidedByRequest := choice.providedByRequest }

/-! ## Cases -/

/-- `judgeCaseResultFromExecution`. -/
def judgeCaseResultFromExecution (runResult : RunResult) (verdict : Verdict) (extraInfo : Bytes) :
    JudgeCaseResult where
  verdict := verdict
  stdout := runResult.stdout
  timeUsed := runResult.cpuTimeMs
  memoryUsed := runResult.memoryMB
  exitCode := runResult.exitCode
  extraInfo := extraInfo

/-- `compiledLanguageProgram.Run`. -/
def runProgram (g : JudgeEngine) (ctx : Ctx) (p : CompiledLanguageProgram) (input : Bytes)
    (timeLimit memoryLimit : UInt32) : EProg (Except Err RunResult) := do
  let runOut ← g.executor.Run ctx (p.request input timeLimit memoryLimit)
  return runOut.map (normalizeLanguageRunResult p.language)

/-- The message that `runCase` reports for a checker result. -/
def checkMessage (checkResult : CheckerResult) : Bytes :=
  if checkResult.message = [] then
    match checkResult.outcome with
    | .rejected => utf8 "checker reported wrong answer"
    | .failed => utf8 "checker execution failed"
    | .accepted => []
  else checkResult.message

/-- The verdict that `runCase` reports for a checker result. -/
def checkVerdict (userChecker : Bool) : CheckerOutcome → Verdict
  | .accepted => .ok
  | .rejected => .wa
  | .failed => if userChecker then .checkerExecutionError else .uke

/-- `caseRunner.runCase`. -/
def runCase (g : JudgeEngine) (ctx : Ctx) (r : CaseRunner) (tc : CaseData) :
    EProg JudgeCaseResult := do
  let ran ← runProgram g ctx r.program tc.input r.timeLimit r.memLimit
  match ran with
  | .error e =>
    return { verdict := .uke, extraInfo := utf8 ("infrastructure error: " ++ e.message) }
  | .ok runResult =>
    if runResult.verdict ≠ .ok then
      return judgeCaseResultFromExecution runResult runResult.verdict runResult.extraInfo
    else
      let checked ← check g ctx r.checker tc.input runResult.stdout tc.expectedOutput
      match checked with
      | .error e =>
        return judgeCaseResultFromExecution runResult .uke
          (utf8 ("checker infrastructure error: " ++ e.message))
      | .ok checkResult =>
        return judgeCaseResultFromExecution runResult
          (checkVerdict r.userChecker checkResult.outcome) (checkMessage checkResult)

/-- The goroutine of one case. -/
def caseThread (g : JudgeEngine) : EProg Unit := do
  let started : Ctx × CaseRunner × CaseData ← perform .caseBegin
  let res ← runCase g started.1 started.2.1 started.2.2
  perform (.caseEnd res)

/-- `runAllCases`. -/
def runAllCases (ctx : Ctx) (r : CaseRunner) (cases : List CaseData) :
    EProg (List JudgeCaseResult) := do
  perform (.goCases { ctx := ctx, runner := r, cases := cases })
  perform .wgWait

/-- The loop of `aggregateStatus`, from `status` on. -/
def aggregateStatusLoop (status : JudgeStatus) : List JudgeCaseResult → JudgeStatus
  | [] => status
  | c :: rest =>
    if c.verdict = .uke then .systemError
    else if c.verdict = .checkerExecutionError then aggregateStatusLoop .checkerExecutionError rest
    else aggregateStatusLoop status rest

/-- `aggregateStatus`. -/
def aggregateStatus (cases : List JudgeCaseResult) : JudgeStatus := aggregateStatusLoop .ok cases

theorem aggregateStatusLoop_eq (status : JudgeStatus) (cases : List JudgeCaseResult) :
    aggregateStatusLoop status cases =
      if ∃ c ∈ cases, c.verdict = .uke then .systemError
      else if ∃ c ∈ cases, c.verdict = .checkerExecutionError then .checkerExecutionError
      else status := by
  induction cases generalizing status with
  | nil => simp [aggregateStatusLoop]
  | cons c rest ih =>
    rw [aggregateStatusLoop]
    split
    case isTrue huke => simp [huke]
    case isFalse huke =>
      split
      case isTrue hfailed => simp [hfailed, ih]
      case isFalse hfailed => simp [huke, hfailed, ih]

/-- An unknown error outweighs a failing checker, and both outweigh everything else. -/
structure AggregatedStatus (cases : List JudgeCaseResult) (status : JudgeStatus) : Prop where
  systemError : status = .systemError ↔ ∃ c ∈ cases, c.verdict = .uke
  checkerExecutionError : status = .checkerExecutionError ↔
    (¬ ∃ c ∈ cases, c.verdict = .uke) ∧ ∃ c ∈ cases, c.verdict = .checkerExecutionError
  compileError : status ≠ .compileError
  checkerCompileError : status ≠ .checkerCompileError
  set : status ≠ .unset

theorem aggregateStatus_spec (cases : List JudgeCaseResult) :
    AggregatedStatus cases (aggregateStatus cases) := by
  rw [aggregateStatus, aggregateStatusLoop_eq]
  split
  case isTrue huke => exact ⟨by simp [huke], by simp [huke], by simp, by simp, by simp⟩
  case isFalse huke =>
    split
    case isTrue hfailed => exact ⟨by simp [huke], by simp [huke, hfailed], by simp, by simp, by simp⟩
    case isFalse hfailed => exact ⟨by simp [huke], by simp [hfailed], by simp, by simp, by simp⟩

/-! ## Judging -/

/-- `failedBeforeRun`. -/
def failedBeforeRun (log : String) : JudgeResult where
  status := .systemError
  compile := { succeeded := false, log := utf8 log }

/-- `resolvedLanguage.Compile`; the program is there exactly when it succeeded. -/
def compileProgram (g : JudgeEngine) (ctx : Ctx) (plan : JudgePlan) :
    EProg (Except Err (Option CompiledLanguageProgram × CompileResult)) := do
  let compileOut ← g.executor.Compile ctx (plan.profile.compile.request plan.sourceCode)
  return compileOut.map fun out =>
    (out.artifact.map fun artifact =>
      { language := plan.language, profile := plan.profile.run, artifact := artifact },
      { succeeded := out.artifact.isSome, log := out.log })

/-- `executeJudgePlan` once the program has been compiled. -/
def judgeWithProgram (g : JudgeEngine) (ctx : Ctx) (plan : JudgePlan)
    (program : CompiledLanguageProgram) (compileResult : CompileResult)
    (profile : CompileConfig := checkerCompileProfile) : EProg JudgeResult := do
  let compilation ← prepare g ctx plan.checker profile
  match compilation with
  | .error _ => return { status := .systemError, compile := compileResult }
  | .ok compilation =>
    match compilation.checker with
    | none =>
      return { status := if plan.checkerProvidedByRequest then .checkerCompileError else .systemError
               compile := compileResult
               checkerCompile := some compilation.compile }
    | some checker =>
      let caseResults ← runAllCases ctx
        { program := program
          checker := checker
          userChecker := plan.checkerProvidedByRequest
          timeLimit := plan.timeLimit
          memLimit := plan.memoryLimit } plan.cases
      return { status := aggregateStatus caseResults
               compile := compileResult
               checkerCompile := some compilation.compile
               cases := caseResults }

/-- `executeJudgePlan`. The tests of `Succeeded` are made on the compiled objects, which exist in the
same cases. -/
def executeJudgePlan (g : JudgeEngine) (ctx : Ctx) (plan : JudgePlan) : EProg JudgeResult := do
  let compiled ← compileProgram g ctx plan
  match compiled with
  | .error e => return failedBeforeRun ("compile infrastructure error: " ++ e.message)
  | .ok (none, compileResult) => return { status := .compileError, compile := compileResult }
  | .ok (some program, compileResult) => judgeWithProgram g ctx plan program compileResult

/-- `Judge` once the request holds a judge slot. -/
def judgeAdmitted (g : JudgeEngine) (ctx : Ctx) (req : JudgeRequest) (profile : LanguageProfile)
    (choice : CheckerChoice) : EProg (JudgeResult × Option Err) := do
  let plan ← materialize g req profile choice
  match plan with
  | .error e => return ({}, some e)
  | .ok plan =>
    let result ← executeJudgePlan g ctx plan
    return (result, none)

/-- `JudgeEngine.Judge`: the result and the error, as the source returns them. -/
def judge (g : JudgeEngine) (ctx : Ctx) (req : JudgeRequest) : EProg (JudgeResult × Option Err) :=
  match validateJudgeRequest req with
  | some e => return ({}, some e)
  | none =>
    match profileForLanguage req.language with
    | .error e => return ({}, some e)
    | .ok profile =>
      match resolveChecker g req.checker req.checkerSourceCode with
      | .error e => return ({}, some e)
      | .ok choice => do
        let acquired : Option Err ← perform (.judgeAcquire ctx)
        match acquired with
        | some _ =>
          return (failedBeforeRun
            "judge request cancelled or timed out while waiting for capacity", none)
        | none => .deferring (perform .judgeRelease) (judgeAdmitted g ctx req profile choice)

end Afterglow.Engine
