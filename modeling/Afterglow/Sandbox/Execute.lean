import Afterglow.Engine.Op
import Afterglow.Sandbox.CpuPool

/-!
# Executing a command in a container

Reference: `internal/sandbox/containerd.go` from `Execute` to `cleanupResource`, and `acquire` of
`internal/sandbox/cpu_pool.go`.

The random container ID and the container options are left out; they decide what runs, which is the
task's business. Cleanup errors are only logged.
-/

namespace Afterglow.Engine

open Concurrency Execution

/-- `cpuPool.acquire`. -/
def cpuAcquire (ctx : Ctx) : EProg (Except Err ℕ) := do
  let done : Option Err ← ask (.ctxErr ctx)
  match done with
  | some e => return .error e
  | none => perform (.cpuTake ctx)

/-- `cleanupResource`, for a cleanup that is one call. -/
def cleanupResource (ctx : Ctx) (cleanup : Ctx → Query) : EProg Unit := do
  let cleanupCtx := Ctx.withTimeout (.withoutCancel ctx) Sandbox.lifecycleOperationTimeout
  let _ ← ask (cleanup cleanupCtx)
  let _ ← ask (.cancel cleanupCtx)

/-- `executeInContainer` once the task exists. -/
def watchTask (ctx : Ctx) (task : ℕ) (req : Sandbox.ExecuteRequest) :
    EProg (Except Err Sandbox.ExecuteResult) :=
  let waitCtx := Ctx.withCancel (.withoutCancel ctx)
  .deferring (do let _ ← ask (.cancel waitCtx)) do
    let waitErr : Option Err ← ask (.waitTask waitCtx task)
    match waitErr with
    | some e => return .error (.wrap "setup wait" e)
    | none =>
      let w : { w : Sandbox.WatchScript // (Sandbox.watchExecution ctx w req.limits).isSome } ←
        perform (.watch ctx req)
      return ((Sandbox.watchExecution ctx w.1 req.limits).get w.2).1

/-- `executeInContainer` once the container exists. -/
def runTask (ctx : Ctx) (container : ℕ) (req : Sandbox.ExecuteRequest) :
    EProg (Except Err Sandbox.ExecuteResult) := do
  let created : Except Err ℕ ← ask (.newTask ctx container (req.stdin.getD []))
  match created with
  | .error e => return .error (.wrap "create task" e)
  | .ok task =>
    .deferring (cleanupResource ctx fun cleanupCtx => .deleteTask cleanupCtx task)
      (watchTask ctx task req)

/-- `executeInContainer` once it has a CPU. -/
def runContainer (ctx : Ctx) (cpuID : ℕ) (req : Sandbox.ExecuteRequest) :
    EProg (Except Err Sandbox.ExecuteResult) := do
  let created : Except Err ℕ ← ask (.newContainer ctx cpuID req)
  match created with
  | .error e => return .error (.wrap "create container" e)
  | .ok container =>
    .deferring (cleanupResource ctx fun cleanupCtx => .deleteContainer cleanupCtx container)
      (runTask ctx container req)

/-- `Sandbox.executeInContainer`. -/
def executeInContainer (ctx : Ctx) (req : Sandbox.ExecuteRequest) :
    EProg (Except Err Sandbox.ExecuteResult) := do
  let leased : Except Err ℕ ← cpuAcquire ctx
  match leased with
  | .error e => return .error (.wrap "acquire CPU" e)
  | .ok cpuID => .deferring (perform (.cpuPut cpuID)) (runContainer ctx cpuID req)

/-- `ensureImage`, without the image. -/
def ensureImage (ctx : Ctx) (imageRef : String) : EProg (Option Err) := do
  let image : ImageLookup ← ask (.getImage ctx imageRef)
  match image with
  | .found => return none
  | .failed e => return some (.wrap ("get image " ++ quote imageRef) e)
  | .notFound _ =>
    let pulled : Option Err ← ask (.pull ctx imageRef)
    return pulled.map (.wrap ("pull image " ++ quote imageRef))

/-- `Sandbox.Execute`. -/
def sandboxExecute (ctx : Ctx) (req : Sandbox.ExecuteRequest) :
    EProg (Except Err Sandbox.ExecuteResult) := do
  let connected : Option Err ← ask .connect
  match connected with
  | some e => return .error (.wrap "connect to containerd" e)
  | none =>
    .deferring (do let _ ← ask .closeClient) do
      let execCtx := Ctx.withValue ctx
      let image ← ensureImage execCtx req.imageRef
      match image with
      | some e => return .error (.wrap ("ensure image " ++ quote req.imageRef) e)
      | none => executeInContainer execCtx req

end Afterglow.Engine
