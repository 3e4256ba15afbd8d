import Afterglow.Sandbox.Execute

/-!
# Compiling and running in temporary workspaces

Reference: `internal/execution/execution.go` and `internal/execution/workspace.go`.

`Executor` and `SandboxExecutor` are the interfaces of the source. The layers above are written
against `Executor`, so that they can be studied with `executor` below them as well as with an executor
that behaves in any way at all (`anyExecutor`).
-/

namespace Afterglow.Engine

open Concurrency Execution

/-- The interface `sandboxExecutor`. -/
structure SandboxExecutor where
  execute : Ctx → Sandbox.ExecuteRequest → EProg (Except Err Sandbox.ExecuteResult)

/-- The interface `execution.Executor`. -/
structure Executor where
  compile : Ctx → CompileRequest → EProg (Except Err Execution.CompileResult)
  run : Ctx → RunRequest → EProg (Except Err RunResult)

/-- A call of `Execute`. -/
def SandboxExecutor.Execute (sb : SandboxExecutor) (ctx : Ctx) (req : Sandbox.ExecuteRequest) :
    EProg (Except Err Sandbox.ExecuteResult) := do
  let _ ← perform (.enterExecute ctx req)
  let res ← sb.execute ctx req
  note (.leaveExecute ctx req res)
  return res

/-- A call of `Compile`. -/
def Executor.Compile (x : Executor) (ctx : Ctx) (req : CompileRequest) :
    EProg (Except Err Execution.CompileResult) := do
  note (.enterCompile ctx req)
  let res ← x.compile ctx req
  note (.leaveCompile ctx req res)
  return res

/-- A call of `Run`. -/
def Executor.Run (x : Executor) (ctx : Ctx) (req : RunRequest) : EProg (Except Err RunResult) := do
  note (.enterRun ctx req)
  let res ← x.run ctx req
  note (.leaveRun ctx req res)
  return res

/-- An executor that may return anything with a verdict of a run. -/
def anyExecutor : Executor where
  compile ctx req := ask (.compile ctx req)
  run ctx req := do
    let res : Except Err { r : RunResult // Verdict.Ran r.verdict } ← ask (.run ctx req)
    return res.map Subtype.val

/-! ## Workspaces (`workspace.go`) -/

/-- `newWorkspace`; a workspace is its directory. -/
def newWorkspace : EProg (Except Err ℕ) := do
  let made : Except Err ℕ ← perform .mkdirTemp
  match made with
  | .error e => return .error (.wrap "create workspace" e)
  | .ok dir =>
    let opened : Option Err ← ask (.openRoot dir)
    match opened with
    | none => return .ok dir
    | some e =>
      let removed : Option Err ← perform (.removeAll dir)
      return .error (.wrap "open workspace root" ((joinErrors (some e) removed).getD e))

/-- `workspace.writeFiles`. -/
def writeFiles (ws : ℕ) : List File → EProg (Option Err)
  | [] => return none
  | file :: rest => do
    let fileMode := if file.mode = 0 then 0o644 else file.mode
    let written : Option Err ← perform (.writeFile ws file.name file.content fileMode)
    match written with
    | some e => return some (.wrap ("write file " ++ quote file.name) e)
    | none => writeFiles ws rest

/-- `workspace.cleanup`. -/
def cleanup (ws : ℕ) : EProg (Option Err) := do
  let closed : Option Err ← ask (.closeRoot ws)
  let removed : Option Err ← perform (.removeAll ws)
  return (joinErrors closed removed).map (.wrap "cleanup workspace")

/-! ## The executor (`execution.go`) -/

/-- `execution.task`. -/
structure Task where
  files : List File
  imageRef : String
  command : List String
  mountPath : String
  readOnlyMount : Bool
  stdin : Option Bytes := none
  limits : Sandbox.ResourceLimits
  enableSeccomp : Bool
  artifactName : String := ""
deriving Repr, DecidableEq

/-- `taskResult`. -/
structure TaskResult where
  run : RunResult
  compile : Execution.CompileResult := {}
deriving Repr, DecidableEq

/-- `sandboxVerdictToModel`. -/
def sandboxVerdictToModel : Sandbox.Verdict → Verdict
  | .ok => .ok
  | .tle => .tle
  | .mle => .mle
  | .ole => .ole
  | .re => .re
  | .unknown => .uke

/-- `sandboxResultToRunResult`. -/
def sandboxResultToRunResult (r : Sandbox.ExecuteResult) : RunResult where
  verdict := sandboxVerdictToModel r.verdict
  exitCode := r.exitCode
  stdout := r.stdout
  stderr := r.stderr
  cpuTimeMs := r.cpuTimeMs
  memoryMB := r.memoryMB
  extraInfo := r.extraInfo

/-- `collectArtifact`. -/
def collectArtifact (ws : ℕ) (name : String) : EProg (Except Err Execution.CompileResult) := do
  let info : Except Err Node ← perform (.stat ws name)
  match info with
  | .error e =>
    return .error (.wrap ("stat artifact " ++ quote name) (.wrap ("stat file " ++ quote name) e))
  | .ok .irregular =>
    return .ok { log := utf8 ("compiled artifact " ++ quote name ++ " is not a regular file") }
  | .ok (.regular entry perm) =>
    if entry.length > maxCompileArtifactBytes then
      return .ok { log := utf8 ("compiled artifact " ++ quote name ++ " exceeds size limit (" ++
        toString entry.length ++ " bytes > " ++ toString maxCompileArtifactBytes ++ " bytes)") }
    else
      let read : Except Err Bytes ← perform (.readFile ws name)
      match read with
      | .error e =>
        return .error (.wrap ("read artifact " ++ quote name) (.wrap ("read file " ++ quote name) e))
      | .ok data => return .ok { artifact := some { name := name, data := data, mode := perm } }

/-- The request that `execute` makes of the sandbox. -/
def Task.request (t : Task) (ws : ℕ) : Sandbox.ExecuteRequest where
  imageRef := t.imageRef
  command := t.command
  mountDir := some { hostPath := ws, containerPath := t.mountPath, readOnly := t.readOnlyMount }
  stdin := t.stdin
  limits := t.limits
  enableSeccomp := t.enableSeccomp

/-- The body of `execute` from the point where its workspace exists. -/
def executeIn (sb : SandboxExecutor) (ctx : Ctx) (t : Task) (ws : ℕ) :
    EProg (Except Err TaskResult) := do
  let written ← writeFiles ws t.files
  match written with
  | some e => return .error (.wrap "write execution files" e)
  | none =>
    let executed ← sb.Execute ctx (t.request ws)
    match executed with
    | .error e => return .error (.wrap "sandbox execute" e)
    | .ok sandboxResult =>
      if sandboxResult.verdict = .unknown then
        return .error (.text "sandbox execute returned unknown verdict")
      else
        let result := sandboxResultToRunResult sandboxResult
        if t.artifactName = "" ∨ result.exitCode ≠ 0 ∨ result.verdict ≠ .ok then
          return .ok { run := result }
        else
          let collected ← collectArtifact ws t.artifactName
          return collected.map fun compile => { run := result, compile := compile }

/-- The deferred `err = errors.Join(err, ws.cleanup())`. -/
def joinResult {α : Type} (result : Except Err α) (cleanupErr : Option Err) : Except Err α :=
  match result, cleanupErr with
  | r, none => r
  | .ok _, some e => .error e
  | .error e, some e' => .error (.join e e')

/-- `executor.execute`. -/
def execute (sb : SandboxExecutor) (ctx : Ctx) (t : Task) : EProg (Except Err TaskResult) := do
  let acquired : Option Err ← perform (.execAcquire ctx)
  match acquired with
  | some e => return .error e
  | none =>
    .deferring (perform .execRelease) do
      let ws ← newWorkspace
      match ws with
      | .error e => return .error (.wrap "create workspace" e)
      | .ok ws =>
        let result ← executeIn sb ctx t ws
        let cleanupErr ← cleanup ws
        return joinResult result cleanupErr

/-- The task of `executor.Compile`. -/
def compileTask (req : CompileRequest) : Task where
  files := req.files
  imageRef := req.imageRef
  command := req.command
  mountPath := "/work"
  readOnlyMount := false
  limits := req.limits
  enableSeccomp := false
  artifactName := req.artifactName

/-- The task of `executor.Run`. -/
def runTaskOf (req : RunRequest) : Task where
  files := { name := req.artifact.name, content := req.artifact.data, mode := req.artifact.mode } ::
    req.files
  imageRef := req.imageRef
  command := req.command
  mountPath := "/sandbox"
  readOnlyMount := true
  stdin := req.stdin
  limits := req.limits
  enableSeccomp := true

/-- The log that `executor.Compile` assembles. -/
def compileLog (result : TaskResult) : Bytes :=
  let diagnostics := [result.run.stdout, result.run.stderr, result.compile.log].filter (· ≠ [])
  let diagnostics := match result.run.verdict with
    | .tle | .mle | .ole => diagnostics ++ [result.run.extraInfo]
    | _ => diagnostics
  let log := joinBytes (utf8 "\n") diagnostics
  if result.run.verdict = .re ∧ trimSpaceBytes log = [] then
    utf8 ("compiler exited with code " ++ toString result.run.exitCode)
  else log

/-- The executor of `NewExecutor`. -/
def executor (sb : SandboxExecutor) : Executor where
  compile ctx req := do
    let result ← execute sb ctx (compileTask req)
    return result.map fun r => { log := compileLog r, artifact := r.compile.artifact }
  run ctx req := do
    let result ← execute sb ctx (runTaskOf req)
    return result.map TaskResult.run

/-- The sandbox of containers. -/
def containerSandbox : SandboxExecutor := ⟨sandboxExecute⟩

/-- The executor backed by containers. -/
def containerExecutor : Executor := executor containerSandbox

end Afterglow.Engine
