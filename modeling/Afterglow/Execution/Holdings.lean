import Afterglow.Engine.Holdings
import Afterglow.Execution.Operations

/-!
# The executor gives back what it takes

`Compile` and `Run` follow `heldDiscipline`: every way through `execute`, `sandboxExecute` and
`executeInContainer` releases what was acquired on it, and a result comes from a sandbox call on a
workspace that held exactly the files of the task.
-/

namespace Afterglow.Engine

open Concurrency Execution

variable {i : Tid} {ctx : Ctx} {l : Held}

/-- Back to the same holdings, possibly with more sandbox calls made. -/
structure Held.Steady (l l' : Held) : Prop where
  judge : l'.judge = l.judge
  leading : l'.leading = l.leading
  started : l'.started = l.started
  permit : l'.permit = l.permit
  cpu : l'.cpu = l.cpu
  dir : l'.dir = l.dir
  executing : l'.executing = l.executing
  executed : l.executed ⊆ l'.executed

theorem Held.Steady.refl (l : Held) : l.Steady l :=
  ⟨rfl, rfl, rfl, rfl, rfl, rfl, rfl, subset_rfl⟩

theorem Held.Steady.trans {l₁ l₂ l₃ : Held} (h : l₁.Steady l₂) (h' : l₂.Steady l₃) : l₁.Steady l₃ where
  judge := h'.judge.trans h.judge
  leading := h'.leading.trans h.leading
  started := h'.started.trans h.started
  permit := h'.permit.trans h.permit
  cpu := h'.cpu.trans h.cpu
  dir := h'.dir.trans h.dir
  executing := h'.executing.trans h.executing
  executed := h.executed.trans h'.executed

theorem Held.dir_eq_none {l : Held} : l.dir = none ↔ l.workspace = none := by
  simp [dir]

theorem Held.spoil_steady (l : Held) : l.Steady l.spoil := by
  refine ⟨rfl, rfl, rfl, rfl, rfl, ?_, rfl, subset_rfl⟩
  simp only [dir, spoil, Option.map_map]
  rfl

theorem Held.watched_steady (l : Held) (req : Sandbox.ExecuteRequest) : l.Steady (l.watched req) := by
  unfold watched
  split
  · exact l.spoil_steady
  · exact .refl l

/-! ## The sandbox -/

/-- A call out of the engine. -/
theorem ask_safe {q : Query} {α : Type} {f : q.Ans → EProg α} {Q : α → Held → Prop}
    (h : ∀ r, (f r).Safe heldDiscipline i Q l) : (ask q >>= f).Safe heldDiscipline i Q l :=
  Prog.Safe.perform trivial h

theorem cleanupResource_safe (cleanup : Ctx → Query) {Q : Held → Prop} (h : Q l) :
    (cleanupResource ctx cleanup).Safe heldDiscipline i (fun _ => Q) l :=
  ask_safe fun _ => ask_safe fun _ => h

section Sandbox

variable {req : Sandbox.ExecuteRequest}

theorem watchTask_safe {task : ℕ} (hpermit : l.permit = true)
    (hdir : ∃ m, req.mountDir = some m ∧ l.dir = some m.hostPath) :
    (watchTask ctx task req).Safe heldDiscipline i (fun _ => l.Steady) l := by
  refine Prog.Safe.deferring (ask_safe fun waitErr => ?_)
  match waitErr with
  | some e => exact ask_safe fun _ => .refl l
  | none =>
    refine Prog.Safe.perform ⟨hpermit, hdir⟩ fun w => ?_
    exact ask_safe fun _ => l.watched_steady req

theorem runTask_safe {container : ℕ} (hpermit : l.permit = true)
    (hdir : ∃ m, req.mountDir = some m ∧ l.dir = some m.hostPath) :
    (runTask ctx container req).Safe heldDiscipline i (fun _ => l.Steady) l := by
  refine ask_safe fun created => ?_
  match created with
  | .error e => exact .refl l
  | .ok task =>
    refine Prog.Safe.deferring ((watchTask_safe hpermit hdir).mono fun _ l' hl' => ?_)
    exact cleanupResource_safe _ hl'

theorem runContainer_safe {cpuID : ℕ} (hpermit : l.permit = true)
    (hdir : ∃ m, req.mountDir = some m ∧ l.dir = some m.hostPath) :
    (runContainer ctx cpuID req).Safe heldDiscipline i (fun _ => l.Steady) l := by
  refine ask_safe fun created => ?_
  match created with
  | .error e => exact .refl l
  | .ok container =>
    refine Prog.Safe.deferring ((runTask_safe hpermit hdir).mono fun _ l' hl' => ?_)
    exact cleanupResource_safe _ hl'

theorem executeInContainer_safe (hpermit : l.permit = true) (hcpu : l.cpu = none)
    (hdir : ∃ m, req.mountDir = some m ∧ l.dir = some m.hostPath) :
    (executeInContainer ctx req).Safe heldDiscipline i (fun _ => l.Steady) l := by
  refine Prog.Safe.bind (ask_safe fun done => ?_)
  match done with
  | some e => exact .refl l
  | none =>
    refine ⟨⟨hpermit, hcpu⟩, fun leased => ?_⟩
    match leased with
    | .error e => exact .refl l
    | .ok cpuID =>
      refine Prog.Safe.deferring ?_
      refine (runContainer_safe (l := { l with cpu := some cpuID }) hpermit hdir).mono ?_
      intro _ l' hl'
      refine ⟨hl'.cpu, fun _ => ?_⟩
      exact ⟨hl'.judge, hl'.leading, hl'.started, hl'.permit, hcpu.symm, hl'.dir, hl'.executing,
        hl'.executed⟩

theorem ensureImage_safe {imageRef : String} :
    (ensureImage ctx imageRef).Safe heldDiscipline i (fun _ l' => l' = l) l := by
  refine ask_safe fun image => ?_
  match image with
  | .found => exact rfl
  | .failed e => exact rfl
  | .notFound e => exact ask_safe fun _ => rfl

theorem sandboxExecute_safe (hpermit : l.permit = true) (hcpu : l.cpu = none)
    (hdir : ∃ m, req.mountDir = some m ∧ l.dir = some m.hostPath) :
    (sandboxExecute ctx req).Safe heldDiscipline i (fun _ => l.Steady) l := by
  refine ask_safe fun connected => ?_
  match connected with
  | some e => exact .refl l
  | none =>
    refine Prog.Safe.deferring (Prog.Safe.bind (ensureImage_safe.mono ?_))
    rintro image l' rfl
    match image with
    | some e => exact ask_safe fun _ => .refl l'
    | none =>
      refine (executeInContainer_safe hpermit hcpu hdir).mono fun _ l'' hl'' => ?_
      exact ask_safe fun _ => hl''

/-- A sandbox call on a workspace with known contents is recorded with them. -/
theorem Execute_safe (hpermit : l.permit = true) (hcpu : l.cpu = none) (hexec : l.executing = none)
    (hdir : ∃ m, req.mountDir = some m ∧ l.dir = some m.hostPath) :
    (containerSandbox.Execute ctx req).Safe heldDiscipline i (fun res l' => l.Steady l' ∧
      ∀ files, l.workspace.bind Workspace.files = some files → (req, files, res) ∈ l'.executed) l := by
  refine Prog.Safe.perform ⟨hpermit, hdir⟩ fun _ => Prog.Safe.bind ?_
  refine (sandboxExecute_safe (l := l.enter req) hpermit hcpu hdir).mono fun res l' hl' => ?_
  refine Prog.Safe.perform trivial fun _ => ⟨?_, ?_⟩
  · refine ⟨hl'.judge, hl'.leading, hl'.started, hl'.permit, hl'.cpu, hl'.dir, hexec.symm, ?_⟩
    exact hl'.executed.trans Set.subset_union_left
  · intro files hfiles
    refine Set.mem_union_right _ ⟨?_, rfl⟩
    rw [hl'.executing, Held.enter, hfiles]
    rfl

end Sandbox

/-! ## The executor -/

theorem newWorkspace_safe (hworkspace : l.workspace = none) :
    newWorkspace.Safe heldDiscipline i (fun made l' => match made with
      | .ok ws => l' = { l with workspace := some ⟨ws, some fun _ => none⟩ }
      | .error _ => l' = l) l := by
  refine Prog.Safe.perform hworkspace fun made => ?_
  match made with
  | .error e => exact rfl
  | .ok dir =>
    refine ask_safe fun opened => ?_
    match opened with
    | none => exact rfl
    | some e =>
      refine Prog.Safe.perform rfl fun _ => ?_
      show { l with workspace := none } = l
      rw [← hworkspace]

theorem writeFiles_safe {ws : ℕ} {tree : String → Option Bytes} (files : List File)
    (hws : l.workspace = some ⟨ws, some tree⟩) :
    (writeFiles ws files).Safe heldDiscipline i (fun written l' => l.Steady l' ∧
      (written = none → l'.workspace = some ⟨ws, some (files.foldl
        (fun tree file => Function.update tree file.name (some file.content)) tree)⟩)) l := by
  induction files generalizing l tree with
  | nil => exact ⟨.refl l, fun _ => hws⟩
  | cons file rest ih =>
    have hdir : l.dir = some ws := by simp [Held.dir, hws]
    refine Prog.Safe.perform hdir fun written => ?_
    cases written with
    | some e => exact ⟨l.spoil_steady, by simp⟩
    | none =>
      have hwrote : l.Steady (l.wrote file.name file.content none) := by
        refine ⟨rfl, rfl, rfl, rfl, rfl, ?_, rfl, subset_rfl⟩
        simp [Held.dir, Held.wrote, hws]
      refine (@ih (l.wrote file.name file.content none)
        (Function.update tree file.name (some file.content)) ?_).mono ?_
      · simp [Held.wrote, hws]
      · rintro written l' ⟨hl', hknown⟩
        exact ⟨hwrote.trans hl', hknown⟩

theorem collectArtifact_safe {ws : ℕ} {name : String} (hdir : l.dir = some ws) :
    (collectArtifact ws name).Safe heldDiscipline i (fun _ l' => l' = l) l := by
  refine Prog.Safe.perform hdir fun info => ?_
  match info with
  | .error e => exact rfl
  | .ok .irregular => exact rfl
  | .ok (.regular entry perm) =>
    show Prog.Safe _ _ _ (ite (entry.length > maxCompileArtifactBytes) _ _) _
    split
    · exact rfl
    · refine Prog.Safe.perform hdir fun read => ?_
      match read with
      | .error e => exact rfl
      | .ok data => exact rfl

theorem executeIn_safe {t : Task} {ws : ℕ} (hpermit : l.permit = true) (hcpu : l.cpu = none)
    (hexec : l.executing = none) (hws : l.workspace = some ⟨ws, some fun _ => none⟩) :
    (executeIn containerSandbox ctx t ws).Safe heldDiscipline i (fun res l' => l.Steady l' ∧
      ∀ out, res = .ok out → l'.Ran t out.run) l := by
  refine Prog.Safe.bind ((writeFiles_safe t.files hws).mono ?_)
  rintro written l₁ ⟨hl₁, hknown⟩
  have hdir : l₁.dir = some ws := by rw [hl₁.dir]; simp [Held.dir, hws]
  cases written with
  | some e => exact ⟨hl₁, by simp⟩
  | none =>
    have hmount : ∃ m, (t.request ws).mountDir = some m ∧ l₁.dir = some m.hostPath := ⟨_, rfl, hdir⟩
    refine Prog.Safe.bind ((Execute_safe (hl₁.permit.trans hpermit) (hl₁.cpu.trans hcpu)
      (hl₁.executing.trans hexec) hmount).mono ?_)
    rintro executed l₂ ⟨hl₂, hrecorded⟩
    have hsteady := hl₁.trans hl₂
    cases executed with
    | error e => exact ⟨hsteady, by simp⟩
    | ok r =>
      have hmem : (t.request ws, fileTree t.files, .ok r) ∈ l₂.executed :=
        hrecorded _ (by rw [hknown rfl]; rfl)
      show Prog.Safe _ _ _ (ite (r.verdict = .unknown) _ _) _
      split
      · exact ⟨hsteady, by simp⟩
      · show Prog.Safe _ _ _ (ite (_ ∨ _ ∨ _) _ _) _
        split
        · refine ⟨hsteady, ?_⟩
          rintro out heq
          obtain rfl := Except.ok.inj heq
          exact ⟨ws, r, hmem, rfl⟩
        · refine Prog.Safe.bind ((collectArtifact_safe (hl₂.dir.trans hdir)).mono ?_)
          rintro collected l' rfl
          refine ⟨hsteady, ?_⟩
          intro out heq
          cases collected with
          | error e => cases heq
          | ok compile =>
            obtain rfl := Except.ok.inj heq
            exact ⟨ws, r, hmem, rfl⟩

theorem joinResult_ok {α : Type} {result : Except Err α} {cleanupErr : Option Err} {a : α}
    (h : joinResult result cleanupErr = .ok a) : result = .ok a := by
  unfold joinResult at h
  split at h
  · exact h
  · cases h
  · cases h

/-- `execute` gives everything back, and a result comes from a sandbox call on exactly the task's
files. -/
theorem execute_safe {t : Task} (hidle : l.Idle) (hexec : l.executing = none) :
    (execute containerSandbox ctx t).Safe heldDiscipline i (fun res l' => l.Steady l' ∧
      ∀ out, res = .ok out → l'.Ran t out.run) l := by
  obtain ⟨hpermit, hcpu, hworkspace⟩ := hidle
  refine Prog.Safe.perform ⟨hpermit, hcpu, hworkspace⟩ fun acquired => ?_
  match acquired with
  | some e => exact ⟨.refl l, by simp⟩
  | none =>
    refine Prog.Safe.deferring (Prog.Safe.bind ?_)
    refine (newWorkspace_safe (l := { l with permit := true }) hworkspace).mono fun made l₁ hl₁ => ?_
    match made with
    | .error e =>
      obtain rfl := hl₁
      refine ⟨⟨rfl, hcpu, hworkspace⟩, fun _ => ⟨?_, by simp⟩⟩
      exact ⟨rfl, rfl, rfl, hpermit.symm, rfl, rfl, rfl, subset_rfl⟩
    | .ok ws =>
      obtain rfl := hl₁
      refine Prog.Safe.bind ((executeIn_safe
        (l := { l with permit := true, workspace := some ⟨ws, some fun _ => none⟩ })
        rfl hcpu hexec rfl).mono ?_)
      rintro result l₂ ⟨hl₂, hran⟩
      refine Prog.Safe.bind (ask_safe fun closed => ?_)
      refine Prog.Safe.perform hl₂.dir fun removed => ?_
      refine ⟨⟨hl₂.permit, hl₂.cpu.trans hcpu, rfl⟩, fun _ => ⟨?_, ?_⟩⟩
      · refine ⟨hl₂.judge, hl₂.leading, hl₂.started, hpermit.symm, hl₂.cpu, ?_, hl₂.executing,
          hl₂.executed⟩
        exact (Held.dir_eq_none.mpr hworkspace).symm
      · intro out heq
        exact hran out (joinResult_ok heq)

/-- A call of `Compile`. -/
theorem Compile_held {req : CompileRequest} (hidle : l.Idle) (hexec : l.executing = none) :
    (containerExecutor.Compile ctx req).Safe heldDiscipline i (fun _ => l.Steady) l := by
  refine Prog.Safe.perform trivial fun _ => Prog.Safe.bind (Prog.Safe.bind ?_)
  refine (execute_safe hidle hexec).mono ?_
  rintro result l' ⟨hl', -⟩
  exact Prog.Safe.perform trivial fun _ => hl'

/-- A call of `Run`. -/
theorem Run_held {req : RunRequest} (hidle : l.Idle) (hexec : l.executing = none) :
    (containerExecutor.Run ctx req).Safe heldDiscipline i (fun _ => l.Steady) l := by
  refine Prog.Safe.perform trivial fun _ => Prog.Safe.bind (Prog.Safe.bind ?_)
  refine (execute_safe hidle hexec).mono ?_
  rintro result l' ⟨hl', hran⟩
  refine Prog.Safe.perform ?_ fun _ => hl'
  cases result with
  | error e => trivial
  | ok result => exact hran result rfl

end Afterglow.Engine
