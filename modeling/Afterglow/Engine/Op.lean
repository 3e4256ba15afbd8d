import Afterglow.Concurrency.System
import Afterglow.Sandbox.Watch
import Afterglow.Service.Profile

/-!
# The operations of the engine and what they do to shared state

Everything that the code of the judge, the checker cache, the executor and the sandbox does to the
world outside one goroutine is an operation here. Operations on shared state follow the
documentation of what implements them: `semaphore.Weighted`, a buffered channel, `lru.Cache`,
`singleflight.Group`, `sync.WaitGroup`, a directory tree. Calls whose effect nothing else in the
engine sees are queries; they may be answered in any way.

A context can be cancelled at any moment, so every wait on a context may be answered by an error in
every state.
-/

namespace Afterglow.Engine

open Concurrency Execution Service

/-! ## Threads -/

/-- Goroutines: one for each request, and those that `runAllCases` starts for its cases. -/
inductive Tid
  | judge (j : ℕ)
  | case (j i : ℕ)
deriving Repr, DecidableEq

/-- The request that a goroutine works for. -/
def Tid.request : Tid → ℕ
  | .judge j => j
  | .case j _ => j

/-- `caseData`. -/
structure CaseData where
  input : Bytes
  expectedOutput : Bytes
deriving Repr, DecidableEq

/-- `caseRunner`; a `preparedChecker` is its artifact. -/
structure CaseRunner where
  program : CompiledLanguageProgram
  checker : Artifact
  userChecker : Bool
  timeLimit : UInt32
  memLimit : UInt32

/-- What `runAllCases` hands to the goroutines of its cases. -/
structure Batch where
  ctx : Ctx
  runner : CaseRunner
  cases : List CaseData

/-! ## Calls without a shared effect -/

/-- The two resource file systems. -/
inductive Resources
  | bundled
  | external
deriving Repr, DecidableEq

/-- The results of `client.GetImage`. -/
inductive ImageLookup
  | found
  | notFound (e : Err)
  | failed (e : Err)
deriving Repr, DecidableEq

/-- The verdicts that an executor returns without an error. -/
def Verdict.Ran (v : Verdict) : Prop :=
  v = .ok ∨ v = .tle ∨ v = .mle ∨ v = .ole ∨ v = .re

/-- Calls out of the engine. Containers and tasks are numbered. -/
inductive Query
  /-- `fs.ReadFile`. -/
  | readResource (fs : Resources) (name : String)
  /-- `os.OpenRoot`. -/
  | openRoot (dir : ℕ)
  /-- `root.Close`. -/
  | closeRoot (dir : ℕ)
  /-- `containerd.New`. -/
  | connect
  /-- `client.Close`. -/
  | closeClient
  | getImage (ctx : Ctx) (ref : String)
  | pull (ctx : Ctx) (ref : String)
  /-- `ctx.Err`. -/
  | ctxErr (ctx : Ctx)
  | newContainer (ctx : Ctx) (cpuID : ℕ) (req : Sandbox.ExecuteRequest)
  /-- `container.Delete`. -/
  | deleteContainer (ctx : Ctx) (container : ℕ)
  | newTask (ctx : Ctx) (container : ℕ) (stdin : Bytes)
  /-- `task.Delete`. -/
  | deleteTask (ctx : Ctx) (task : ℕ)
  /-- `task.Wait`. -/
  | waitTask (ctx : Ctx) (task : ℕ)
  /-- The `cancel` function of a context. -/
  | cancel (ctx : Ctx)
  /-- `Compile` of an executor about which nothing is known. -/
  | compile (ctx : Ctx) (req : CompileRequest)
  /-- `Run` of an executor about which nothing is known but the verdicts it returns. -/
  | run (ctx : Ctx) (req : RunRequest)

/-- The answer to each call. -/
@[reducible] def Query.Ans : Query → Type
  | .readResource _ _ => Except Err Bytes
  | .getImage _ _ => ImageLookup
  | .newContainer _ _ _ => Except Err ℕ
  | .newTask _ _ _ => Except Err ℕ
  | .cancel _ => Unit
  | .compile _ _ => Except Err Execution.CompileResult
  | .run _ _ => Except Err { r : RunResult // Verdict.Ran r.verdict }
  | _ => Option Err

/-! ## Operations -/

/-- An entry of a workspace directory, after following links inside it. -/
inductive Node
  | regular (data : Bytes) (perm : ℕ)
  | irregular
deriving Repr, DecidableEq

/-- The contents of a directory. -/
abbrev Contents := String → Option Node

/-- Which side of a `singleflight` call a goroutine is on. -/
inductive Flight
  | lead (f : ℕ)
  | join (f : ℕ)
deriving Repr, DecidableEq

/-- The number of the call. -/
def Flight.id : Flight → ℕ
  | .lead f | .join f => f

/-- Calls and returns at the interfaces between the layers. -/
inductive Mark
  /-- `checkerCompiler.compile` is called. -/
  | enterChecker (ctx : Ctx) (source : Bytes)
  | leaveChecker (ctx : Ctx) (source : Bytes) (res : Except Err Execution.CompileResult)
  | enterCompile (ctx : Ctx) (req : CompileRequest)
  | leaveCompile (ctx : Ctx) (req : CompileRequest) (res : Except Err Execution.CompileResult)
  | enterRun (ctx : Ctx) (req : RunRequest)
  | leaveRun (ctx : Ctx) (req : RunRequest) (res : Except Err RunResult)
  | leaveExecute (ctx : Ctx) (req : Sandbox.ExecuteRequest) (res : Except Err Sandbox.ExecuteResult)

inductive Op
  /-- `s.concurrencySem.Acquire(ctx, 1)` of the judge. -/
  | judgeAcquire (ctx : Ctx)
  | judgeRelease
  /-- `e.sem.Acquire(ctx, 1)` of the executor. -/
  | execAcquire (ctx : Ctx)
  | execRelease
  /-- The `select` of `cpuPool.acquire`. -/
  | cpuTake (ctx : Ctx)
  /-- The send of `cpuPool.release`. -/
  | cpuPut (cpuID : ℕ)
  | cacheGet (key : Bytes)
  | cacheAdd (key : Bytes) (value : Execution.CompileResult)
  /-- `group.Do` up to the point where it runs its function or waits. -/
  | flightDo (key : Bytes)
  /-- The wait of a caller that joined. -/
  | flightWait (f : ℕ)
  /-- `group.Do` publishes what its function returned and forgets the key. -/
  | flightDone (key : Bytes) (f : ℕ) (res : Except Err Execution.CompileResult)
  /-- The `wg.Go` calls of `runAllCases`. -/
  | goCases (batch : Batch)
  /-- The goroutine of a case has been started. -/
  | caseBegin
  /-- `results[i]` is written and the goroutine ends. -/
  | caseEnd (res : JudgeCaseResult)
  /-- `wg.Wait()`, and the results it waits for. -/
  | wgWait
  | mkdirTemp
  | removeAll (dir : ℕ)
  | writeFile (dir : ℕ) (name : String) (content : Bytes) (mode : ℕ)
  | stat (dir : ℕ) (name : String)
  | readFile (dir : ℕ) (name : String)
  /-- `sandbox.Execute` is called; answered by what the mounted directory holds. -/
  | enterExecute (ctx : Ctx) (req : Sandbox.ExecuteRequest)
  /-- A task from its start to the end of `watchExecution`. -/
  | watch (ctx : Ctx) (req : Sandbox.ExecuteRequest)
  | ask (q : Query)
  | mark (m : Mark)

/-- The answer to each operation. -/
@[reducible] def Op.Ans : Op → Type
  | .judgeAcquire _ | .execAcquire _ | .removeAll _ | .writeFile _ _ _ _ => Option Err
  | .cpuTake _ | .mkdirTemp => Except Err ℕ
  | .cacheGet _ => Option Execution.CompileResult
  | .flightDo _ => Flight
  | .flightWait _ => Except Err Execution.CompileResult
  | .caseBegin => Ctx × CaseRunner × CaseData
  | .wgWait => List JudgeCaseResult
  | .stat _ _ => Except Err Node
  | .readFile _ _ => Except Err Bytes
  | .enterExecute _ _ => Option Contents
  | .watch ctx req => { w : Sandbox.WatchScript // (Sandbox.watchExecution ctx w req.limits).isSome }
  | .ask q => q.Ans
  | _ => Unit

/-- A program of the engine. -/
abbrev EProg := Prog Op Op.Ans

/-- Issue an operation. -/
def perform (e : Op) : EProg e.Ans := Prog.perform e

/-- Make a call out of the engine. -/
def ask (q : Query) : EProg q.Ans := Prog.perform (Op.ask q)

/-- Note a call or a return. -/
def note (m : Mark) : EProg Unit := Prog.perform (Op.mark m)

/-! ## Shared state -/

structure State where
  judgeMax : ℕ
  judgeUsed : ℕ := 0
  execMax : ℕ
  execUsed : ℕ := 0
  /-- The capacity of the pool's channel. -/
  cpuCap : ℕ
  /-- The pool's channel, next to be received first. -/
  freeCpus : List ℕ
  cache : Bytes → Option Execution.CompileResult := fun _ => none
  /-- The calls in progress of the `singleflight.Group`. -/
  flights : Bytes → Option ℕ := fun _ => none
  nextFlight : ℕ := 0
  /-- What finished calls handed to those that joined. -/
  landed : ℕ → Option (Except Err Execution.CompileResult) := fun _ => none
  dirs : ℕ → Option Contents := fun _ => none
  batches : ℕ → Option Batch := fun _ => none
  results : ℕ → ℕ → Option JudgeCaseResult := fun _ _ => none

/-- `semaphore.NewWeighted` for the judge and the executor, and `newCPUPoolFromIDs`. -/
def State.new (judgeMax execMax : ℕ) (cpus : List ℕ) : State where
  judgeMax := judgeMax
  execMax := execMax
  cpuCap := cpus.length
  freeCpus := cpus

/-- The contents of the directory mounted by a request. -/
def State.mounted (s : State) (req : Sandbox.ExecuteRequest) : Option Contents :=
  req.mountDir.bind fun m => s.dirs m.hostPath

/-- Directory `d` is now as given. -/
def State.setDir (s : State) (d : ℕ) (entries : Option Contents) : State :=
  { s with dirs := Function.update s.dirs d entries }

/-- How thread `i` may have operation `e` answered in state `s`, leaving `s'`. -/
def act (i : Tid) (s : State) : (e : Op) → e.Ans → State → Prop
  | .judgeAcquire _, (none : Option Err), s' =>
    s.judgeUsed < s.judgeMax ∧ s' = { s with judgeUsed := s.judgeUsed + 1 }
  | .judgeAcquire _, (some _ : Option Err), s' => s' = s
  | .judgeRelease, _, s' => 0 < s.judgeUsed ∧ s' = { s with judgeUsed := s.judgeUsed - 1 }
  | .execAcquire _, (none : Option Err), s' =>
    s.execUsed < s.execMax ∧ s' = { s with execUsed := s.execUsed + 1 }
  | .execAcquire _, (some _ : Option Err), s' => s' = s
  | .execRelease, _, s' => 0 < s.execUsed ∧ s' = { s with execUsed := s.execUsed - 1 }
  | .cpuTake _, (.ok id : Except Err ℕ), s' =>
    ∃ rest, s.freeCpus = id :: rest ∧ s' = { s with freeCpus := rest }
  | .cpuTake _, (.error _ : Except Err ℕ), s' => s' = s
  | .cpuPut id, _, s' =>
    s.freeCpus.length < s.cpuCap ∧ s' = { s with freeCpus := s.freeCpus ++ [id] }
  | .cacheGet key, r, s' => r = s.cache key ∧ s' = s
  -- `Add` may evict any entries but the new one.
  | .cacheAdd key value, _, s' => ∃ keep : Bytes → Bool, s' = { s with
      cache := Function.update (fun k => if keep k then s.cache k else none) key (some value) }
  | .flightDo key, (.lead f : Flight), s' => s.flights key = none ∧ f = s.nextFlight ∧ s' = { s with
      flights := Function.update s.flights key (some f), nextFlight := f + 1 }
  | .flightDo key, (.join f : Flight), s' => s.flights key = some f ∧ s' = s
  | .flightWait f, r, s' => s.landed f = some r ∧ s' = s
  | .flightDone key f res, _, s' => s' = { s with
      flights := Function.update s.flights key none
      landed := Function.update s.landed f (some res) }
  | .goCases batch, _, s' =>
    s' = { s with batches := Function.update s.batches i.request (some batch) }
  | .caseBegin, (ctx, runner, data), s' => s' = s ∧
    ∃ j n batch, i = .case j n ∧ s.batches j = some batch ∧ batch.ctx = ctx ∧
      batch.runner = runner ∧ batch.cases[n]? = some data
  | .caseEnd res, _, s' => ∃ j n, i = .case j n ∧ s' = { s with
      results := Function.update s.results j (Function.update (s.results j) n (some res)) }
  | .wgWait, (r : List JudgeCaseResult), s' => s' = s ∧ ∃ batch, s.batches i.request = some batch ∧
    r.length = batch.cases.length ∧ ∀ n res, r[n]? = some res → s.results i.request n = some res
  | .mkdirTemp, (.ok d : Except Err ℕ), s' =>
    s.dirs d = none ∧ s' = s.setDir d (some fun _ => none)
  | .mkdirTemp, (.error _ : Except Err ℕ), s' => s' = s
  | .removeAll d, (none : Option Err), s' =>
    s' = s.setDir d none
  -- A failing removal can leave any part of the directory behind.
  | .removeAll d, (some _ : Option Err), s' =>
    ∃ left, s' = s.setDir d left
  | .writeFile d name content _, (none : Option Err), s' => ∃ entries perm,
    s.dirs d = some entries ∧
      s' = s.setDir d (some (Function.update entries name (some (.regular content perm))))
  -- A failing write can leave any part of the file behind.
  | .writeFile d _ _ _, (some _ : Option Err), s' =>
    ∃ left, s' = s.setDir d ((s.dirs d).map fun _ => left)
  | .stat d name, (.ok node : Except Err Node), s' =>
    s' = s ∧ (s.dirs d).bind (· name) = some node
  | .stat _ _, (.error _ : Except Err Node), s' => s' = s
  | .readFile d name, (.ok data : Except Err Bytes), s' =>
    s' = s ∧ ∃ perm, (s.dirs d).bind (· name) = some (.regular data perm)
  | .readFile _ _, (.error _ : Except Err Bytes), s' => s' = s
  | .enterExecute _ req, r, s' => r = s.mounted req ∧ s' = s
  -- A task can do anything to the contents of a directory that is mounted for writing.
  | .watch _ req, _, s' =>
    s' = s ∨ ∃ m left, req.mountDir = some m ∧ m.readOnly = false ∧
      s' = s.setDir m.hostPath ((s.dirs m.hostPath).map fun _ => left)
  | .ask _, _, s' => s' = s
  | .mark _, _, s' => s' = s

/-- The semantics of the engine. -/
def semantics : Semantics Op Op.Ans Tid State := ⟨act⟩

/-- A trace of the engine. -/
abbrev Trace := List (Entry Op Op.Ans Tid)

/-- Thread `i` issued `e` and got the answer `r`. -/
def Did (tr : Trace) (i : Tid) (e : Op) (r : e.Ans) : Prop := (⟨⟨e, r⟩, i⟩ : Entry Op Op.Ans Tid) ∈ tr

theorem Did.append {tr : Trace} {i : Tid} {e : Op} {r : e.Ans} (h : Did tr i e r) (tr' : Trace) :
    Did (tr ++ tr') i e r :=
  List.mem_append_left tr' h

theorem did_last (tr : Trace) (i : Tid) (e : Op) (r : e.Ans) : Did (tr ++ [⟨⟨e, r⟩, i⟩]) i e r :=
  List.mem_append_right tr (List.mem_singleton.mpr rfl)

theorem did_snoc {tr : Trace} {i j : Tid} {e e' : Op} {r : e.Ans} {r' : e'.Ans} :
    Did (tr ++ [⟨⟨e', r'⟩, j⟩]) i e r ↔
      Did tr i e r ∨ (⟨⟨e, r⟩, i⟩ : Entry Op Op.Ans Tid) = ⟨⟨e', r'⟩, j⟩ := by
  rw [Did, List.mem_append, List.mem_singleton]
  rfl

end Afterglow.Engine
