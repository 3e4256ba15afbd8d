import Afterglow.Execution.Executor

/-!
# Checkers: choice, shared compilation and checking

Reference: `internal/service/checker.go` and `internal/service/checker_compiler.go`.
-/

namespace Afterglow.Engine

open Concurrency Execution Service

/-- What a `JudgeEngine` and its parts are built from. SHA-256 and the Unicode classes are
parameters; `testlibHeader` was read from the bundled resources, and `hasExternal` says whether there
is an external file system. -/
structure JudgeEngine where
  executor : Executor
  sha256 : Bytes → Bytes
  testlibHeader : Bytes
  hasExternal : Bool
  isLetter : Char → Bool
  isDigit : Char → Bool

/-! ## Choosing a checker -/

inductive CheckerKind
  | builtin
  | external
  | inline
deriving Repr, DecidableEq

/-- `checkerChoice`. -/
structure CheckerChoice where
  kind : CheckerKind
  value : String
deriving Repr, DecidableEq

/-- `checkerChoice.providedByRequest`. -/
def CheckerChoice.providedByRequest (c : CheckerChoice) : Bool := c.kind = .inline

def defaultCheckerName : String := "default"

def externalPrefix : String := "external:"

/-- `builtinCheckerPath`. -/
def builtinCheckerPath (shortName : String) : String := "checkers/" ++ shortName ++ ".cpp"

/-- `validateCheckerShortName`. -/
def validateCheckerShortName (g : JudgeEngine) (name : String) : Option Err :=
  if name.toList.any fun c => c = '/' ∨ c = '\\' ∨ c = '.' then
    some (.text ("checker " ++ quote name ++ " contains invalid path characters (/, \\, .)"))
  else if name.toList.any fun c => !g.isLetter c && !g.isDigit c && c ≠ '_' && c ≠ '-' then
    some (.text ("checker " ++ quote name ++
      " contains invalid characters (only letters, digits, _, - allowed)"))
  else none

/-- `validateExternalCheckerPath`. -/
def validateExternalCheckerPath (checkerPath : List Char) : Except Err String :=
  if trimSpace checkerPath = [] then .error (.text "external checker path is required")
  else
    let normalizedPath := cleanPath checkerPath
    if normalizedPath = ['.'] then .error (.text "external checker path is required")
    else if !isLocalPath normalizedPath then
      .error (.text ("external checker path escapes resource root: " ++
        quote (String.ofList checkerPath)))
    else if !(".cpp".toList.isSuffixOf normalizedPath) then
      .error (.text ("external checker must be a .cpp file: " ++ quote (String.ofList checkerPath)))
    else .ok (String.ofList normalizedPath)

/-- `resolveChecker`. -/
def resolveChecker (g : JudgeEngine) (raw inlineSource : String) : Except Err CheckerChoice :=
  let name := trimSpace raw.toList
  if inlineSource ≠ "" then
    if trimSpace inlineSource.toList = [] then
      .error (.text "checkerSourceCode must not be blank")
    else if name ≠ [] then
      .error (.text "checker and checkerSourceCode cannot be provided together")
    else .ok { kind := .inline, value := inlineSource }
  else if name = [] then .ok { kind := .builtin, value := defaultCheckerName }
  else if externalPrefix.toList.isPrefixOf name then
    (validateExternalCheckerPath (name.drop externalPrefix.length)).map fun normalizedPath =>
      { kind := .external, value := normalizedPath }
  else
    match validateCheckerShortName g (String.ofList name) with
    | some e => .error e
    | none => .ok { kind := .builtin, value := String.ofList name }

/-- `checkerEngine.readSource`, which is all that `Source` does. -/
def readSource (g : JudgeEngine) (choice : CheckerChoice) : EProg (Except Err Bytes) :=
  match choice.kind with
  | .inline => return .ok (utf8 choice.value)
  | .external => do
    if g.hasExternal then
      let read : Except Err Bytes ← ask (.readResource .external choice.value)
      return read.mapError (.wrap ("external checker " ++ quote choice.value ++ " is not available"))
    else
      return .error (.text ("external checker " ++ quote choice.value ++
        " requires external resources"))
  | .builtin => do
    let read : Except Err Bytes ← ask (.readResource .bundled (builtinCheckerPath choice.value))
    return read.mapError (.wrap ("builtin checker " ++ quote choice.value ++ " is not available"))

/-! ## Compiling a checker (`checker_compiler.go`)

The `profile` of a `checkerCompiler` is the one that `newCheckerCompiler` gives it, unless another is
named. -/

/-- `checkerCompiler.compileUncached`. -/
def compileUncached (g : JudgeEngine) (ctx : Ctx) (source : Bytes)
    (profile : CompileConfig := checkerCompileProfile) : EProg (Except Err Execution.CompileResult) := do
  let compileOut ← g.executor.Compile ctx (checkerCompileRequest g.testlibHeader source profile)
  return compileOut.mapError (.wrap "checker setup failed")

/-- The context of a shared compilation. -/
def compileCtx (ctx : Ctx) (profile : CompileConfig := checkerCompileProfile) : Ctx :=
  .withTimeout (.withoutCancel ctx) (toInt64 (profile.timeoutMs * WallTimeMultiplier))

/-- The function that `compile` passes to `group.Do`. -/
def compileShared (g : JudgeEngine) (ctx : Ctx) (source : Bytes)
    (profile : CompileConfig := checkerCompileProfile) : EProg (Except Err Execution.CompileResult) :=
  .deferring (do let _ ← ask (.cancel (compileCtx ctx profile))) do
    let cached : Option Execution.CompileResult ← perform (.cacheGet (g.sha256 source))
    match cached with
    | some compilation => return .ok compilation
    | none =>
      let compiled ← compileUncached g (compileCtx ctx profile) source profile
      match compiled with
      | .error e => return .error e
      | .ok compilation =>
        if compilation.artifact.isSome then
          perform (.cacheAdd (g.sha256 source) compilation)
        return .ok compilation

/-- `group.Do`. -/
def groupDo (key : Bytes) (fn : EProg (Except Err Execution.CompileResult)) :
    EProg (Except Err Execution.CompileResult) := do
  let flight : Flight ← perform (.flightDo key)
  match flight with
  | .join f => perform (.flightWait f)
  | .lead f =>
    let res ← fn
    perform (.flightDone key f res)
    return res

/-- `checkerCompiler.compile`. -/
def compileCached (g : JudgeEngine) (ctx : Ctx) (source : Bytes)
    (profile : CompileConfig := checkerCompileProfile) : EProg (Except Err Execution.CompileResult) := do
  let cached : Option Execution.CompileResult ← perform (.cacheGet (g.sha256 source))
  match cached with
  | some compilation => return .ok compilation
  | none => groupDo (g.sha256 source) (compileShared g ctx source profile)

/-- A call of `checkerCompiler.compile`. -/
def compileChecker (g : JudgeEngine) (ctx : Ctx) (source : Bytes)
    (profile : CompileConfig := checkerCompileProfile) : EProg (Except Err Execution.CompileResult) := do
  note (.enterChecker ctx source)
  let res ← compileCached g ctx source profile
  note (.leaveChecker ctx source res)
  return res

/-- `checkerCompilation`, as `prepare` and `checkerSnapshot.Compile` return it. -/
structure CheckerCompilation where
  checker : Option Artifact
  compile : CompileResult
deriving Repr, DecidableEq

/-- `checkerCompiler.prepare`. -/
def prepare (g : JudgeEngine) (ctx : Ctx) (source : Bytes)
    (profile : CompileConfig := checkerCompileProfile) : EProg (Except Err CheckerCompilation) := do
  let compilation ← compileChecker g ctx source profile
  return compilation.map fun c =>
    { checker := c.artifact, compile := { succeeded := c.artifact.isSome, log := c.log } }

/-! ## Checking an output -/

/-- `checkerOutcome`. -/
inductive CheckerOutcome
  | failed
  | accepted
  | rejected
deriving Repr, DecidableEq

/-- `checkerResult`. -/
structure CheckerResult where
  outcome : CheckerOutcome
  message : Bytes
deriving Repr, DecidableEq

/-- How `Check` reads a run of the checker. -/
def checkerResultOf (runOut : RunResult) : CheckerResult where
  outcome :=
    if runOut.verdict = .ok ∧ runOut.exitCode = 0 then .accepted
    else if runOut.verdict = .re ∧ (runOut.exitCode = 1 ∨ runOut.exitCode = 2) then .rejected
    else .failed
  message := cmpOr [trimSpaceBytes runOut.stderr, trimSpaceBytes runOut.stdout,
    trimSpaceBytes runOut.extraInfo]

/-- `compiledChecker.Check`. -/
def check (g : JudgeEngine) (ctx : Ctx) (artifact : Artifact)
    (input actualOutput expectedOutput : Bytes) : EProg (Except Err CheckerResult) := do
  let runOut ← g.executor.Run ctx (checkerRunRequest artifact input actualOutput expectedOutput)
  return runOut.map checkerResultOf

end Afterglow.Engine
