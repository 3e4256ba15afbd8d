import Afterglow.Execution.Executor

/-!
# The operations of the executor

Which operations `Compile` and `Run` can issue at all, whatever is answered.
-/

namespace Afterglow.Engine

open Concurrency Execution

variable {ctx : Ctx}

/-- Every operation of the executor satisfies `P`. -/
structure Executor.All (x : Executor) (P : Op → Prop) : Prop where
  compile : ∀ ctx req, (x.compile ctx req).All P
  run : ∀ ctx req, (x.run ctx req).All P

theorem Executor.All.mono {x : Executor} {P P' : Op → Prop} (h : x.All P) (hP : ∀ e, P e → P' e) :
    x.All P' where
  compile ctx req := (h.compile ctx req).mono hP
  run ctx req := (h.run ctx req).mono hP

theorem anyExecutor_all {P : Op → Prop} (h : ∀ q, P (.ask q)) : anyExecutor.All P where
  compile _ _ := ⟨h _, fun _ => trivial⟩
  run _ _ := ⟨h _, fun _ => trivial⟩

/-- The operations of an executor; it reads no resources. -/
def Op.OfExecutor : Op → Prop
  | .ask (.readResource _ _) => False
  | .execAcquire _ | .execRelease | .cpuTake _ | .cpuPut _ | .mkdirTemp | .removeAll _
  | .writeFile _ _ _ _ | .stat _ _ | .readFile _ _ | .enterExecute _ _ | .watch _ _ | .ask _
  | .mark (.leaveExecute _ _ _) => True
  | _ => False

/-- An executor that may return anything. -/
theorem anyExecutor_ofExecutor : anyExecutor.All Op.OfExecutor where
  compile _ _ := ⟨trivial, fun _ => trivial⟩
  run _ _ := ⟨trivial, fun _ => trivial⟩

theorem cleanupResource_all {cleanup : Ctx → Query} (h : ∀ ctx, (Op.ask (cleanup ctx)).OfExecutor) :
    (cleanupResource ctx cleanup).All Op.OfExecutor :=
  ⟨h _, fun _ => ⟨trivial, fun _ => trivial⟩⟩

theorem executeInContainer_all (req : Sandbox.ExecuteRequest) :
    (executeInContainer ctx req).All Op.OfExecutor := by
  refine Prog.All.bind ⟨trivial, fun done => ?_⟩ fun leased => ?_
  · match done with
    | some e => trivial
    | none => exact ⟨trivial, fun _ => trivial⟩
  match leased with
  | .error e => trivial
  | .ok cpuID =>
    refine Prog.All.deferring ⟨trivial, fun _ => trivial⟩ ⟨trivial, fun created => ?_⟩
    match created with
    | .error e => trivial
    | .ok container =>
      refine Prog.All.deferring (cleanupResource_all fun _ => trivial) ⟨trivial, fun created => ?_⟩
      match created with
      | .error e => trivial
      | .ok task =>
        refine Prog.All.deferring (cleanupResource_all fun _ => trivial) ?_
        refine Prog.All.deferring ⟨trivial, fun _ => trivial⟩ ⟨trivial, fun waitErr => ?_⟩
        match waitErr with
        | some e => trivial
        | none => exact ⟨trivial, fun _ => trivial⟩

theorem sandboxExecute_all (req : Sandbox.ExecuteRequest) :
    (sandboxExecute ctx req).All Op.OfExecutor := by
  refine ⟨trivial, fun connected => ?_⟩
  match connected with
  | some e => trivial
  | none =>
    refine Prog.All.deferring ⟨trivial, fun _ => trivial⟩ (Prog.All.bind ⟨trivial, fun image => ?_⟩
      fun image => ?_)
    · match image with
      | .found => trivial
      | .failed e => trivial
      | .notFound e => exact ⟨trivial, fun _ => trivial⟩
    · match image with
      | some e => trivial
      | none => exact executeInContainer_all req

/-- The operations on the files of a workspace. -/
def Op.FileAccess : Op → Prop
  | .writeFile _ _ _ _ | .stat _ _ | .readFile _ _ => True
  | _ => False

theorem Op.FileAccess.ofExecutor {e : Op} (he : e.FileAccess) : e.OfExecutor := by
  cases e <;> first | exact absurd he id | trivial

theorem writeFiles_all (ws : ℕ) (files : List File) : (writeFiles ws files).All Op.FileAccess := by
  induction files with
  | nil => trivial
  | cons file rest ih =>
    refine ⟨trivial, fun written => ?_⟩
    match written with
    | some e => trivial
    | none => exact ih

theorem collectArtifact_all (ws : ℕ) (name : String) :
    (collectArtifact ws name).All Op.FileAccess := by
  refine ⟨trivial, fun info => ?_⟩
  match info with
  | .error e => trivial
  | .ok .irregular => trivial
  | .ok (.regular entry perm) =>
    show Prog.All _ (ite (entry.length > maxCompileArtifactBytes) _ _)
    split
    · trivial
    · refine ⟨trivial, fun read => ?_⟩
      cases read <;> trivial

theorem Execute_all (req : Sandbox.ExecuteRequest) :
    (containerSandbox.Execute ctx req).All Op.OfExecutor :=
  Prog.All.perform trivial fun _ => Prog.All.bind (sandboxExecute_all req) fun _ =>
    Prog.All.perform trivial fun _ => trivial

theorem execute_all (t : Task) : (execute containerSandbox ctx t).All Op.OfExecutor := by
  refine ⟨trivial, fun acquired => ?_⟩
  match acquired with
  | some e => trivial
  | none =>
    refine Prog.All.deferring ⟨trivial, fun _ => trivial⟩ (Prog.All.bind ⟨trivial, fun made => ?_⟩
      fun made => ?_)
    · match made with
      | .error e => trivial
      | .ok dir =>
        refine ⟨trivial, fun opened => ?_⟩
        match opened with
        | none => trivial
        | some e => exact ⟨trivial, fun _ => trivial⟩
    match made with
    | .error e => trivial
    | .ok ws =>
      have hwrite := (writeFiles_all ws t.files).mono fun _ he => he.ofExecutor
      refine Prog.All.bind (Prog.All.bind hwrite fun written => ?_) fun _ =>
        Prog.All.bind ⟨trivial, fun _ => ⟨trivial, fun _ => trivial⟩⟩ fun _ => trivial
      match written with
      | some e => trivial
      | none =>
        refine Prog.All.bind (Execute_all _) fun executed => ?_
        match executed with
        | .error e => trivial
        | .ok r =>
          show Prog.All _ (ite (r.verdict = .unknown) _ _)
          split
          · trivial
          · show Prog.All _ (ite (_ ∨ _ ∨ _) _ _)
            split
            · trivial
            · refine Prog.All.bind ?_ fun _ => trivial
              exact (collectArtifact_all ws _).mono fun _ he => he.ofExecutor

theorem containerExecutor_all : containerExecutor.All Op.OfExecutor where
  compile _ _ := Prog.All.bind (execute_all _) fun _ => trivial
  run _ _ := Prog.All.bind (execute_all _) fun _ => trivial

end Afterglow.Engine
