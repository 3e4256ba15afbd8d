import Afterglow.Sandbox.Spec
import Afterglow.Service.CompileOutcome
import Afterglow.Service.Limits
import Afterglow.Service.Progress

/-!
# Containers are confined and kept apart

Every container is made by `executeInContainer`, on the CPU that its goroutine has leased and on the workspace
that its goroutine has made, and it is deleted before either is given back. `boxDiscipline` says so of one
goroutine; together with the records of `heldDiscipline`, no two containers of any number of concurrent
requests share a CPU or a directory (`containers_isolated`).

What runs in a container is either one of the fixed build commands or something that a request brought. The
latter always runs under the seccomp profile and on a read-only workspace; a compiler runs without the
profile and writes to its workspace.
-/

namespace Afterglow.Engine

open Concurrency Execution Service

/-! ## Containers in a trace -/

/-- A container: its number, its CPU and the request it was made for. -/
structure Container where
  id : ℕ
  cpu : ℕ
  req : Sandbox.ExecuteRequest
deriving DecidableEq

/-- What an event does to the containers of its goroutine. An attempt to delete counts, whatever comes of
it. -/
def containersAfter (boxes : List Container) : Event Op Op.Ans → List Container
  | ⟨.ask (.newContainer _ cpuID req), (.ok id : Except Err ℕ)⟩ => boxes ++ [⟨id, cpuID, req⟩]
  | ⟨.ask (.deleteContainer _ id), _⟩ => boxes.filter fun box => box.id ≠ id
  | _ => boxes

/-- The containers that goroutine `i` has made and not deleted. -/
def containersOf (tr : Trace) (i : Tid) : List Container := (own i tr).foldl containersAfter []

/-- The commands that the profiles fix. -/
def buildCommands : List (List String) :=
  [cProfile, cppProfile, javaProfile, pythonProfile].map (fun p => p.compile.buildCommand) ++
    [checkerCompileProfile.buildCommand]

/-- The memory limit fits into its machine integers. -/
def Measured (limits : Sandbox.ResourceLimits) : Prop := 0 ≤ limits.memoryMB ∧ limits.memoryMB < 2 ^ 43

instance : DecidablePred Measured := fun _ => inferInstanceAs (Decidable (_ ∧ _))

/-- The compilations that the engine asks for. -/
def Trusted (req : CompileRequest) : Prop := req.command ∈ buildCommands ∧ Measured req.limits

/-- The requests to the sandbox that come of these. -/
inductive Permitted : Sandbox.ExecuteRequest → Prop
  | compile (req : CompileRequest) (ws : ℕ) (h : Trusted req) : Permitted ((compileTask req).request ws)
  | run (req : RunRequest) (ws : ℕ) (h : Measured req.limits) : Permitted ((runTaskOf req).request ws)

/-! ## The discipline -/

/-- The CPU, the workspace and the container of a goroutine. -/
structure Boxed where
  cpu : Option ℕ := none
  dir : Option ℕ := none
  container : Option Container := none

/-- A container is made on the CPU and the workspace of its goroutine, which change only while there is
none. -/
def boxDiscipline : Discipline Op Op.Ans Tid Boxed where
  pre _ l
    | .cpuTake _ | .cpuPut _ | .mkdirTemp | .removeAll _ => l.container = none
    | .ask (.newContainer _ cpuID req) => l.container = none ∧ l.cpu = some cpuID ∧
        l.dir = req.mountDir.map Sandbox.Mount.hostPath ∧ Permitted req
    | .ask (.deleteContainer _ id) => ∃ box, l.container = some box ∧ box.id = id
    | _ => True
  next _ l
    | .cpuTake _, (.ok id : Except Err ℕ) => { l with cpu := some id }
    | .cpuPut _, _ => { l with cpu := none }
    | .mkdirTemp, (.ok d : Except Err ℕ) => { l with dir := some d }
    | .removeAll _, _ => { l with dir := none }
    | .ask (.newContainer _ cpuID req), (.ok id : Except Err ℕ) =>
      { l with container := some ⟨id, cpuID, req⟩ }
    | .ask (.deleteContainer _ _), _ => { l with container := none }
    | _, _ => l

/-- The operations that concern neither a CPU, a workspace as a whole nor a container. -/
def Op.BoxQuiet : Op → Prop
  | .cpuTake _ | .cpuPut _ | .mkdirTemp | .removeAll _ | .ask (.newContainer _ _ _)
  | .ask (.deleteContainer _ _) => False
  | _ => True

theorem boxDiscipline_quiet {e : Op} (he : e.BoxQuiet) (i : Tid) (l : Boxed) :
    boxDiscipline.pre i l e ∧ ∀ r, boxDiscipline.next i l e r = l := by
  cases e with
  | ask q => cases q <;> first | exact absurd he id | exact ⟨trivial, fun _ => rfl⟩
  | _ => first | exact absurd he id | exact ⟨trivial, fun _ => rfl⟩

theorem containersAfter_quiet {e : Op} (he : e.BoxQuiet) (boxes : List Container) (r : e.Ans) :
    containersAfter boxes ⟨e, r⟩ = boxes := by
  cases e with
  | ask q => cases q <;> first | exact absurd he id | rfl
  | _ => first | exact absurd he id | rfl

theorem boxed_of_quiet {α : Type} {p : EProg α} (hp : p.All Op.BoxQuiet) (i : Tid) (l : Boxed) :
    p.Safe boxDiscipline i (fun _ l' => l' = l) l :=
  Prog.Safe.of_all (hp.mono fun _ he => boxDiscipline_quiet he i l)

/-- A container is where its goroutine is. -/
def Boxed.Placed (l : Boxed) : Prop :=
  ∀ box, l.container = some box → l.cpu = some box.cpu ∧ l.dir = box.req.mountDir.map Sandbox.Mount.hostPath

/-- The containers of the goroutines are those of their records. -/
structure BoxInv (tr : Trace) (ℓ : Tid → Boxed) : Prop where
  containers : ∀ i, containersOf tr i = (ℓ i).container.toList
  placed : ∀ i, (ℓ i).Placed
  permitted : ∀ i ctx cpuID req r, Did tr i (.ask (.newContainer ctx cpuID req)) r → Permitted req

/-- One operation of one goroutine. -/
theorem box_step {i : Tid} {l : Boxed} {e : Op} {r : e.Ans} (hpre : boxDiscipline.pre i l e)
    (hplaced : l.Placed) :
    containersAfter l.container.toList ⟨e, r⟩ = (boxDiscipline.next i l e r).container.toList ∧
      (boxDiscipline.next i l e r).Placed := by
  by_cases hquiet : e.BoxQuiet
  · rw [(boxDiscipline_quiet hquiet i l).2 r]
    exact ⟨containersAfter_quiet hquiet _ r, hplaced⟩
  -- with no container, there is none to place
  have hnone : ∀ l' : Boxed, l'.container = none → l'.Placed := by
    intro l' hl' box hbox
    cases hl'.symm.trans hbox
  cases e with
  | cpuTake ctx | mkdirTemp =>
    cases r with
    | error e => exact ⟨rfl, hplaced⟩
    | ok id => exact ⟨rfl, hnone _ hpre⟩
  | cpuPut id | removeAll d => exact ⟨rfl, hnone _ hpre⟩
  | ask q =>
    cases q with
    | newContainer ctx cpuID req =>
      obtain ⟨hempty, hcpu, hdir, -⟩ := hpre
      cases r with
      | error e => exact ⟨rfl, hplaced⟩
      | ok id =>
        refine ⟨by rw [hempty]; rfl, ?_⟩
        intro box hbox
        obtain rfl := Option.some.inj hbox
        exact ⟨hcpu, hdir⟩
    | deleteContainer ctx id =>
      obtain ⟨box, hbox, rfl⟩ := hpre
      refine ⟨?_, hnone _ rfl⟩
      rw [hbox]
      simp [containersAfter, boxDiscipline]
    | _ => exact absurd trivial hquiet
  | _ => exact absurd trivial hquiet

theorem box_upholds : Upholds semantics boxDiscipline fun _ => BoxInv := by
  intro s tr ℓ i e r s' inv hpre _
  obtain ⟨hcontainers, hplaced⟩ := box_step (r := r) hpre (inv.placed i)
  refine ⟨?_, ?_, ?_⟩
  · intro j
    by_cases hj : j = i
    · subst hj
      rw [Function.update_self, ← hcontainers, ← inv.containers j, containersOf, own_snoc_self,
        List.foldl_append]
      rfl
    · rw [Function.update_of_ne hj, ← inv.containers j, containersOf, own_snoc_of_ne (Ne.symm hj)]
      rfl
  · intro j
    by_cases hj : j = i
    · subst hj
      rwa [Function.update_self]
    · rw [Function.update_of_ne hj]
      exact inv.placed j
  · intro j ctx cpuID req r' hdid
    rcases did_snoc.mp hdid with hdid | heq
    · exact inv.permitted j ctx cpuID req r' hdid
    · cases heq
      exact hpre.2.2.2

theorem boxInv_new : BoxInv [] fun _ => {} where
  containers _ := rfl
  placed _ _ hbox := by cases hbox
  permitted _ _ _ _ _ hdid := absurd hdid List.not_mem_nil

/-! ## The sandbox and the executor -/

section Sandbox

variable {i : Tid} {ctx : Ctx} {req : Sandbox.ExecuteRequest}

theorem cleanupResource_boxQuiet {cleanup : Ctx → Query} (h : ∀ ctx, (Op.ask (cleanup ctx)).BoxQuiet) :
    (cleanupResource ctx cleanup).All Op.BoxQuiet :=
  ⟨h _, fun _ => ⟨trivial, fun _ => trivial⟩⟩

theorem runTask_boxQuiet {container : ℕ} : (runTask ctx container req).All Op.BoxQuiet := by
  refine ⟨trivial, fun created => ?_⟩
  cases created with
  | error e => trivial
  | ok task =>
    refine Prog.All.deferring (cleanupResource_boxQuiet fun _ => trivial) ?_
    refine Prog.All.deferring ⟨trivial, fun _ => trivial⟩ ⟨trivial, fun waitErr => ?_⟩
    cases waitErr with
    | some e => trivial
    | none => exact ⟨trivial, fun _ => trivial⟩

theorem runContainer_boxed {cpuID : ℕ} {l : Boxed} (hnone : l.container = none) (hcpu : l.cpu = some cpuID)
    (hdir : l.dir = req.mountDir.map Sandbox.Mount.hostPath) (hreq : Permitted req) :
    (runContainer ctx cpuID req).Safe boxDiscipline i (fun _ l' => l' = l) l := by
  refine Prog.Safe.perform ⟨hnone, hcpu, hdir, hreq⟩ fun created => ?_
  cases created with
  | error e => exact rfl
  | ok container =>
    refine Prog.Safe.deferring ((boxed_of_quiet runTask_boxQuiet i _).mono ?_)
    rintro res l' rfl
    refine Prog.Safe.perform ⟨_, rfl, rfl⟩ fun _ => Prog.Safe.perform trivial fun _ => ?_
    show { l with container := none } = l
    rw [← hnone]

theorem executeInContainer_boxed {l : Boxed} (hnone : l.container = none) (hcpu : l.cpu = none)
    (hdir : l.dir = req.mountDir.map Sandbox.Mount.hostPath) (hreq : Permitted req) :
    (executeInContainer ctx req).Safe boxDiscipline i (fun _ l' => l' = l) l := by
  refine Prog.Safe.bind (Prog.Safe.perform trivial fun done => ?_)
  cases done with
  | some e => exact rfl
  | none =>
    refine ⟨hnone, fun leased => ?_⟩
    cases leased with
    | error e => exact rfl
    | ok cpuID =>
      refine Prog.Safe.deferring ((runContainer_boxed (l := { l with cpu := some cpuID })
        hnone rfl hdir hreq).mono ?_)
      rintro res l' rfl
      refine ⟨hnone, fun _ => ?_⟩
      show { l with cpu := none } = l
      rw [← hcpu]

theorem ensureImage_boxQuiet {imageRef : String} : (ensureImage ctx imageRef).All Op.BoxQuiet := by
  refine ⟨trivial, fun image => ?_⟩
  cases image with
  | found | failed e => trivial
  | notFound e => exact ⟨trivial, fun _ => trivial⟩

theorem Execute_boxed {l : Boxed} (hnone : l.container = none) (hcpu : l.cpu = none)
    (hdir : l.dir = req.mountDir.map Sandbox.Mount.hostPath) (hreq : Permitted req) :
    (containerSandbox.Execute ctx req).Safe boxDiscipline i (fun _ l' => l' = l) l := by
  have hleave : ∀ res : Except Err Sandbox.ExecuteResult, Prog.Safe boxDiscipline i (fun _ l' => l' = l)
      (note (.leaveExecute ctx req res) >>= fun _ => pure res) l :=
    fun _ => Prog.Safe.perform trivial fun _ => rfl
  refine Prog.Safe.perform trivial fun _ => Prog.Safe.bind (Prog.Safe.perform trivial fun connected => ?_)
  cases connected with
  | some e => exact hleave _
  | none =>
    refine Prog.Safe.deferring (Prog.Safe.bind ((boxed_of_quiet ensureImage_boxQuiet i l).mono ?_))
    rintro image l' rfl
    cases image with
    | some e => exact Prog.Safe.perform trivial fun _ => hleave _
    | none =>
      refine (executeInContainer_boxed hnone hcpu hdir hreq).mono ?_
      rintro res l' rfl
      exact Prog.Safe.perform trivial fun _ => hleave _

theorem Op.FileAccess.boxQuiet {e : Op} (he : e.FileAccess) : e.BoxQuiet := by
  cases e <;> first | exact absurd he id | trivial

/-- `execute` leaves nothing behind. -/
theorem execute_boxed {t : Task} (ht : ∀ ws, Permitted (t.request ws)) :
    (execute containerSandbox ctx t).Safe boxDiscipline i (fun _ l' => l' = {}) {} := by
  refine Prog.Safe.perform trivial fun acquired => ?_
  cases acquired with
  | some e => exact rfl
  | none =>
    refine Prog.Safe.deferring (Prog.Safe.bind (Prog.Safe.perform rfl fun made => ?_))
    cases made with
    | error e => exact ⟨trivial, fun _ => rfl⟩
    | ok dir =>
      refine Prog.Safe.perform trivial fun opened => ?_
      cases opened with
      | some e => exact Prog.Safe.perform rfl fun _ => ⟨trivial, fun _ => rfl⟩
      | none =>
        have hclean : ∀ result : Except Err TaskResult, Prog.Safe boxDiscipline i
            (fun _ l => (perform .execRelease).Safe boxDiscipline i (fun _ l' => l' = {}) l)
            (cleanup dir >>= fun cleanupErr => pure (joinResult result cleanupErr)) { dir := some dir } :=
          fun _ => Prog.Safe.bind (Prog.Safe.perform trivial fun _ => Prog.Safe.perform rfl fun _ =>
            ⟨trivial, fun _ => rfl⟩)
        have hfiles : ∀ {α : Type} {p : EProg α}, p.All Op.FileAccess →
            p.Safe boxDiscipline i (fun _ l' => l' = { dir := some dir }) { dir := some dir } :=
          fun hp => boxed_of_quiet (hp.mono fun _ he => he.boxQuiet) i _
        refine Prog.Safe.bind (Prog.Safe.bind ((hfiles (writeFiles_all dir t.files)).mono ?_))
        rintro written l' rfl
        cases written with
        | some e => exact hclean _
        | none =>
          refine Prog.Safe.bind ((Execute_boxed rfl rfl rfl (ht dir)).mono ?_)
          rintro executed l' rfl
          cases executed with
          | error e => exact hclean _
          | ok r =>
            show Prog.Safe _ _ _ (ite (r.verdict = .unknown) _ _) _
            split
            · exact hclean _
            · show Prog.Safe _ _ _ (ite (_ ∨ _ ∨ _) _ _) _
              split
              · exact hclean _
              · refine Prog.Safe.bind ((hfiles (collectArtifact_all dir _)).mono ?_)
                rintro collected l' rfl
                exact hclean _

theorem Compile_boxed {req : CompileRequest} (hreq : Trusted req) :
    (containerExecutor.Compile ctx req).Safe boxDiscipline i (fun _ l' => l' = {}) {} := by
  refine Prog.Safe.perform trivial fun _ => Prog.Safe.bind (Prog.Safe.bind ?_)
  refine (execute_boxed fun ws => .compile req ws hreq).mono ?_
  rintro result l' rfl
  exact Prog.Safe.perform trivial fun _ => rfl

theorem Run_boxed {req : RunRequest} (hreq : Measured req.limits) :
    (containerExecutor.Run ctx req).Safe boxDiscipline i (fun _ l' => l' = {}) {} := by
  refine Prog.Safe.perform trivial fun _ => Prog.Safe.bind (Prog.Safe.bind ?_)
  refine (execute_boxed fun ws => .run req ws hreq).mono ?_
  rintro result l' rfl
  exact Prog.Safe.perform trivial fun _ => rfl

end Sandbox

/-! ## Requests -/

theorem profileForLanguage_trusted {lang : Language} {profile : LanguageProfile}
    (h : profileForLanguage lang = .ok profile) (sourceCode : Bytes) :
    Trusted (profile.compile.request sourceCode) := by
  have hmem : profile ∈ [cProfile, cppProfile, javaProfile, pythonProfile] := by
    cases lang <;> cases h <;> simp
  refine ⟨List.mem_append_left _ (List.mem_map_of_mem hmem), ?_⟩
  show Measured profile.compile.limits
  cases lang <;> cases h <;> decide

theorem checkerCompileRequest_trusted (header source : Bytes) :
    Trusted (checkerCompileRequest header source) := by
  refine ⟨List.mem_append_right _ List.mem_cons_self, ?_⟩
  show Measured checkerCompileProfile.limits
  decide

theorem CompiledLanguageProgram.request_measured (p : CompiledLanguageProgram) (input : Bytes)
    (timeLimit memoryLimit : UInt32) : Measured (p.request input timeLimit memoryLimit).limits := by
  have hlt := memoryLimit.toNat_lt
  rw [Measured, p.request_limits, sandboxMemoryLimitMB_eq]
  dsimp only
  split <;> omega

theorem checkerRunRequest_measured (artifact : Artifact) (input actualOutput expectedOutput : Bytes) :
    Measured (checkerRunRequest artifact input actualOutput expectedOutput).limits := by
  show Measured checkerRunLimits
  decide

section Requests

variable {g : JudgeEngine} (hg : g.executor = containerExecutor) {i : Tid} {ctx : Ctx}

include hg

theorem compileChecker_boxed {source : Bytes} :
    (compileChecker g ctx source).Safe boxDiscipline i (fun _ l' => l' = {}) {} := by
  refine Prog.Safe.perform trivial fun _ => Prog.Safe.bind (Prog.Safe.perform trivial fun cached => ?_)
  cases cached with
  | some compilation => exact ⟨trivial, fun _ => rfl⟩
  | none =>
    refine Prog.Safe.perform trivial fun flight => ?_
    cases flight with
    | join f => exact ⟨trivial, fun _ => ⟨trivial, fun _ => rfl⟩⟩
    | lead f =>
      refine Prog.Safe.bind (Prog.Safe.deferring (Prog.Safe.perform trivial fun again => ?_))
      cases again with
      | some compilation => exact ⟨trivial, fun _ => ⟨trivial, fun _ => ⟨trivial, fun _ => rfl⟩⟩⟩
      | none =>
        refine Prog.Safe.bind (Prog.Safe.bind ?_)
        rw [hg]
        refine (Compile_boxed (checkerCompileRequest_trusted _ _)).mono ?_
        rintro compiled l' rfl
        cases compiled with
        | error e => exact ⟨trivial, fun _ => ⟨trivial, fun _ => ⟨trivial, fun _ => rfl⟩⟩⟩
        | ok compilation =>
          show Prog.Safe _ _ _ (ite (compilation.artifact.isSome = true) _ _) _
          split
          · exact ⟨trivial, fun _ => ⟨trivial, fun _ => ⟨trivial, fun _ => ⟨trivial, fun _ => rfl⟩⟩⟩⟩
          · exact ⟨trivial, fun _ => ⟨trivial, fun _ => ⟨trivial, fun _ => rfl⟩⟩⟩

theorem executeJudgePlan_boxed {plan : JudgePlan}
    (hplan : Trusted (plan.profile.compile.request plan.sourceCode)) :
    (executeJudgePlan g ctx plan).Safe boxDiscipline i (fun _ l' => l' = {}) {} := by
  refine Prog.Safe.bind (Prog.Safe.bind ?_)
  rw [hg]
  refine (Compile_boxed hplan).mono ?_
  rintro compiled l' rfl
  match compiled with
  | .error e => exact rfl
  | .ok ⟨log, none⟩ => exact rfl
  | .ok ⟨log, some artifact⟩ =>
    refine Prog.Safe.bind (Prog.Safe.bind ((compileChecker_boxed hg).mono ?_))
    rintro compilation l' rfl
    match compilation with
    | .error e => exact rfl
    | .ok ⟨log, none⟩ => exact rfl
    | .ok ⟨log, some checker⟩ =>
      exact Prog.Safe.bind (Prog.Safe.perform trivial fun _ => ⟨trivial, fun _ => rfl⟩)

theorem judge_boxed {req : JudgeRequest} :
    (judge g ctx req).Safe boxDiscipline i (fun _ l' => l' = {}) {} := by
  unfold judge
  split
  · exact rfl
  split
  · exact rfl
  · next profile hprofile =>
      split
      · exact rfl
      · next choice _ =>
          refine Prog.Safe.perform trivial fun acquired => ?_
          cases acquired with
          | some e => exact rfl
          | none =>
            have hquiet : (materialize g req profile choice).All fun e =>
                boxDiscipline.pre i {} e ∧ ∀ r, boxDiscipline.next i {} e r = {} := by
              refine (materialize_all req profile choice).mono fun e he => boxDiscipline_quiet ?_ i {}
              unfold Op.ReadsResource at he
              split at he
              · trivial
              · exact absurd he id
            refine Prog.Safe.deferring (Prog.Safe.bind ?_)
            refine (Prog.Safe.of_all_returns hquiet materialize_profile).mono ?_
            rintro plan l' ⟨rfl, hplan⟩
            cases plan with
            | error e => exact ⟨trivial, fun _ => rfl⟩
            | ok plan =>
              have htrusted : Trusted (plan.profile.compile.request plan.sourceCode) := by
                rw [hplan plan rfl]
                exact profileForLanguage_trusted hprofile _
              refine Prog.Safe.bind ((executeJudgePlan_boxed hg htrusted).mono ?_)
              rintro result l' rfl
              exact ⟨trivial, fun _ => rfl⟩

theorem caseThread_boxed : (caseThread g).Safe boxDiscipline i (fun _ l' => l' = {}) {} := by
  refine Prog.Safe.perform trivial fun started => Prog.Safe.bind (Prog.Safe.bind (Prog.Safe.bind ?_))
  rw [hg]
  refine (Run_boxed (CompiledLanguageProgram.request_measured _ _ _ _)).mono ?_
  rintro ran l' rfl
  cases ran with
  | error e => exact ⟨trivial, fun _ => rfl⟩
  | ok runOut =>
    show Prog.Safe _ _ _ (ite (_ ≠ Verdict.ok) _ _) _
    split
    · exact ⟨trivial, fun _ => rfl⟩
    · refine Prog.Safe.bind (Prog.Safe.bind ?_)
      rw [hg]
      refine (Run_boxed (checkerRunRequest_measured _ _ _ _)).mono ?_
      rintro checked l' rfl
      cases checked <;> exact ⟨trivial, fun _ => rfl⟩

/-- Every goroutine keeps to the discipline. -/
theorem judgeCalls_boxed {requests : ℕ → Ctx × JudgeRequest} {judgeMax execMax : ℕ} {cpus : List ℕ}
    {c : Config Op Op.Ans Tid State JudgeAns}
    (h : Reachable semantics (.start (State.new judgeMax execMax cpus) (judgeCalls g requests)) c) :
    BoxInv c.trace (boxDiscipline.locals (fun _ => {}) c.trace) := by
  refine (box_upholds.locals (Q := fun _ _ l => l = {}) h boxInv_new fun i => ?_).1
  cases i with
  | judge j => exact judge_boxed hg
  | case j n => exact caseThread_boxed hg

end Requests

/-! ## Isolation -/

/-- Both disciplines see the same CPUs and workspaces. -/
theorem boxed_eq_held (tr : Trace) (i : Tid) :
    (boxDiscipline.locals (fun _ => {}) tr i).cpu = (held tr i).cpu ∧
      (boxDiscipline.locals (fun _ => {}) tr i).dir = (held tr i).dir := by
  unfold held Discipline.locals
  induction own i tr using List.reverseRecOn with
  | nil => exact ⟨rfl, rfl⟩
  | append_singleton events ev ih =>
    rw [Discipline.replay_snoc, Discipline.replay_snoc]
    obtain ⟨e, r⟩ := ev
    cases e with
    | cpuTake ctx | mkdirTemp =>
      cases r with
      | error e => exact ih
      | ok id => first | exact ⟨rfl, ih.2⟩ | exact ⟨ih.1, rfl⟩
    | cpuPut id => exact ⟨rfl, ih.2⟩
    | removeAll d => exact ⟨ih.1, rfl⟩
    | judgeAcquire ctx | execAcquire ctx | flightDo key => cases r <;> exact ih
    | writeFile d name content mode =>
      refine ⟨?_, ih.2.trans ?_⟩
      · cases r <;> exact ih.1
      · cases r with
        | none => simp [heldDiscipline, Held.wrote, Held.dir, Function.comp_def]
        | some e => exact (Held.spoil_steady _).dir.symm
    | watch ctx req =>
      have hsteady := Held.watched_steady (heldDiscipline.replay i {} events) req
      exact ⟨ih.1.trans hsteady.cpu.symm, ih.2.trans hsteady.dir.symm⟩
    | ask q => cases q <;> first | exact ih | (cases r <;> exact ih)
    | mark m => cases m <;> exact ih
    | _ => exact ih

/-- What a container of the engine is allowed; `mounts` are those that the default specification and the
image bring. Nothing is said here of what these are, nor of the network namespace of a compiler. -/
structure Confined (req : Sandbox.ExecuteRequest) (m : Sandbox.Mount) (cpuID : ℕ)
    (mounts : List Sandbox.SpecMount) (spec : Sandbox.Spec) : Prop where
  args : spec.args = req.command
  rootReadonly : spec.rootReadonly = true
  /-- The engine adds the workspace and a `/tmp` of the container's own. -/
  mounted : spec.mounts = mounts ++ [m.spec, Sandbox.tmpMount]
  cpus : spec.cpus = toString cpuID
  /-- No swap beyond the memory limit, which is that of the request. -/
  memory : ∃ limit, spec.memoryLimit = some limit ∧ limit.toNat = req.limits.memoryMB * 2 ^ 20 ∧
    spec.memorySwap = some (limit.toNat : ℤ)
  capabilities : spec.capabilities = []
  noNewPrivileges : spec.noNewPrivileges = true
  pidsLimit : spec.pidsLimit = some 128
  /-- What is not one of the fixed build commands cannot write to the workspace, and the system calls of
  the seccomp profile fail for it: those of sockets, `fork` and `vfork` (not `clone`), and the others. -/
  code : req.command ∈ buildCommands ∨ m.readOnly = true ∧ ∃ profile, spec.seccomp = some profile ∧
    ∀ syscall ∈ Sandbox.blockedSyscalls, profile.action syscall = .errno

theorem Permitted.mountDir {req : Sandbox.ExecuteRequest} (h : Permitted req) :
    ∃ m, req.mountDir = some m := by
  cases h <;> exact ⟨_, rfl⟩

theorem Permitted.measured {req : Sandbox.ExecuteRequest} (h : Permitted req) : Measured req.limits := by
  cases h with
  | compile req ws h => exact h.2
  | run req ws h => exact h

theorem Permitted.code {req : Sandbox.ExecuteRequest} (h : Permitted req) {m : Sandbox.Mount}
    (hm : req.mountDir = some m) :
    req.command ∈ buildCommands ∨ m.readOnly = true ∧ req.enableSeccomp = true := by
  cases h with
  | compile req ws h => exact .inl h.1
  | run req ws h =>
    obtain rfl := Option.some.inj hm
    exact .inr ⟨rfl, rfl⟩

theorem Permitted.confined {req : Sandbox.ExecuteRequest} (h : Permitted req) {oci : Sandbox.Oci}
    {m : Sandbox.Mount} (hm : req.mountDir = some m) {cpuID : ℕ} {base spec : Sandbox.Spec}
    (hspec : Sandbox.newSpec oci req cpuID base = .ok spec) :
    ∃ image, oci.withImageConfig req.imageRef base = .ok image ∧
      Confined req m cpuID image.mounts spec := by
  rw [Sandbox.newSpec_eq oci req hm] at hspec
  cases himage : oci.withImageConfig req.imageRef base with
  | error e =>
    rw [himage] at hspec
    cases hspec
  | ok image =>
    rw [himage] at hspec
    obtain rfl := Except.ok.inj hspec
    have hlimit := Service.memoryLimitOpt_eq h.measured.1 h.measured.2
    have hbytes := Service.memoryBytes_eq h.measured.1 h.measured.2
    refine ⟨image, rfl, rfl, rfl, rfl, rfl, ⟨_, rfl, hlimit, ?_⟩, rfl, rfl, rfl, ?_⟩
    · rw [hlimit, hbytes]
    · rcases h.code hm with hbuild | ⟨hreadOnly, hseccomp⟩
      · exact .inl hbuild
      · refine .inr ⟨hreadOnly, Sandbox.judgeSandboxSeccomp, if_pos hseccomp, ?_⟩
        intro syscall hmem
        exact (Sandbox.judgeSandboxSeccomp_action syscall).mpr hmem

/-- Isolation. In every reachable state of any number of concurrent requests, every container that was ever
asked for is confined, whatever its image makes of the default specification. A goroutine has one container
at most, on a CPU of the pool that is not free; and containers of different goroutines share neither the CPU
nor the workspace. -/
theorem containers_isolated {g : JudgeEngine} (hg : g.executor = containerExecutor)
    {requests : ℕ → Ctx × JudgeRequest} {judgeMax execMax : ℕ} {cpus : List ℕ} (hcpus : cpus.Nodup)
    {c : Config Op Op.Ans Tid State JudgeAns}
    (h : Reachable semantics (.start (State.new judgeMax execMax cpus) (judgeCalls g requests)) c)
    (oci : Sandbox.Oci) :
    (∀ i ctx cpuID req r, Did c.trace i (.ask (.newContainer ctx cpuID req)) r →
      ∃ m, req.mountDir = some m ∧ ∀ base spec, Sandbox.newSpec oci req cpuID base = .ok spec →
        ∃ image, oci.withImageConfig req.imageRef base = .ok image ∧
          Confined req m cpuID image.mounts spec) ∧
    (∀ i, (containersOf c.trace i).length ≤ 1) ∧
    (∀ i, ∀ box ∈ containersOf c.trace i, box.cpu ∈ cpus ∧ box.cpu ∉ c.shared.freeCpus) ∧
    ∀ i i', i ≠ i' → ∀ box ∈ containersOf c.trace i, ∀ box' ∈ containersOf c.trace i',
      box.cpu ≠ box'.cpu ∧ ∀ m m', box.req.mountDir = some m → box'.req.mountDir = some m' →
        m.hostPath ≠ m'.hostPath := by
  have hbox := judgeCalls_boxed hg h
  obtain ⟨inv, -⟩ := judgeCalls_held h hg hcpus
  have hcap := inv.capacity.cpus
  -- a container is where the records of its goroutine are
  have hplaced : ∀ i, ∀ box ∈ containersOf c.trace i, (held c.trace i).cpu = some box.cpu ∧
      (held c.trace i).dir = box.req.mountDir.map Sandbox.Mount.hostPath := by
    intro i box hmem
    rw [hbox.containers i, Option.mem_toList] at hmem
    obtain ⟨hcpu, hdir⟩ := hbox.placed i box hmem
    obtain ⟨heqCpu, heqDir⟩ := boxed_eq_held c.trace i
    exact ⟨heqCpu.symm.trans hcpu, heqDir.symm.trans hdir⟩
  refine ⟨?_, ?_, ?_, ?_⟩
  · intro i ctx cpuID req r hdid
    have hpermitted := hbox.permitted i ctx cpuID req r hdid
    obtain ⟨m, hm⟩ := hpermitted.mountDir
    exact ⟨m, hm, fun base spec hspec => hpermitted.confined hm hspec⟩
  · intro i
    rw [hbox.containers i]
    exact Option.length_toList_le
  · intro i box hmem
    obtain ⟨hcpu, -⟩ := hplaced i box hmem
    exact ⟨(hcap.mem _).mpr (.inr ⟨i, hcpu⟩), hcap.apart i _ hcpu⟩
  · intro i i' hne box hmem box' hmem'
    obtain ⟨hcpu, hdir⟩ := hplaced i box hmem
    obtain ⟨hcpu', hdir'⟩ := hplaced i' box' hmem'
    refine ⟨?_, ?_⟩
    · intro heq
      rw [← heq] at hcpu'
      exact hne (hcap.inj i i' _ hcpu hcpu')
    · intro m m' hm hm' heq
      rw [hm] at hdir
      rw [hm', Option.map_some, ← heq] at hdir'
      exact hne (inv.workspace.inj i i' _ hdir hdir')

/-- The options do what they say and no more, and images configure nothing. -/
def plainOci : Sandbox.Oci where
  withImageConfig _ s := .ok s
  withProcessArgs args s := .ok { s with args := args }
  withProcessCwd cwd s := .ok { s with cwd := cwd }
  withMounts mounts s := .ok { s with mounts := s.mounts ++ mounts }
  withMemoryLimit limit s := .ok { s with memoryLimit := some limit }
  withMemorySwap swap s := .ok { s with memorySwap := some swap }
  withRootFSReadonly s := .ok { s with rootReadonly := true }
  withCPUs cpus s := .ok { s with cpus := cpus }
  withCapabilities caps s := .ok { s with capabilities := caps }
  withNoNewPrivileges s := .ok { s with noNewPrivileges := true }
  withPidsLimit limit s := .ok { s with pidsLimit := some limit }
  compose := Sandbox.applyOpts
  processArgs _ _ := rfl
  processCwd _ _ := rfl
  mounts _ _ := rfl
  memoryLimit _ _ := rfl
  memorySwap _ _ := rfl
  rootFSReadonly _ := rfl
  cpus _ _ := rfl
  capabilities _ _ := rfl
  noNewPrivileges _ := rfl
  pidsLimit _ _ := rfl
  composed _ := rfl

/-- The task of a compiler leaves a program and a checker. -/
def compilingWorld : World where
  ask _ := calmAnswer
  watch := World.calm.watch
  produce _ _ entries := Function.update (Function.update entries "program" (some (.regular [127] 0o755)))
    "checker" (some (.regular [127] 0o755))

/-- The containers that run a program. -/
def runsProgram : Event Op Op.Ans → Bool
  | ⟨.ask (.newContainer _ _ req), _⟩ => req.command = ["./program"]
  | _ => false

/-- A case of request 0 runs its program while request 1 compiles its own. -/
theorem containers_isolated_two_requests :
    ∃ c : Config Op Op.Ans Tid State JudgeAns,
      Reachable semantics (.start (State.new 2 2 [4, 6]) (judgeCalls containerEngine smallRequests)) c ∧
      (∃ box ∈ containersOf c.trace (.case 0 0), ∃ box' ∈ containersOf c.trace (.judge 1),
        box.cpu ≠ box'.cpu) ∧
      ∀ base, ∃ req m cpuID spec, req.command = ["./program"] ∧
        Sandbox.newSpec plainOci req cpuID base = .ok spec ∧ Confined req m cpuID base.mounts spec := by
  let schedule := List.replicate 67 (Tid.judge 0) ++ List.replicate 13 (.case 0 0) ++
    List.replicate 13 (.judge 1)
  have hrun : (drive compilingWorld.answer schedule
      (.start (State.new 2 2 [4, 6]) (judgeCalls containerEngine smallRequests))).map (fun c =>
        ((containersOf c.trace (.case 0 0)).length, (containersOf c.trace (.judge 1)).length,
          (own (.case 0 0) c.trace).any runsProgram)) = some (1, 1, true) := by decide +kernel
  obtain ⟨c, hc, heq⟩ := Option.map_eq_some_iff.mp hrun
  simp only [Prod.mk.injEq] at heq
  obtain ⟨hbox, hbox', hruns⟩ := heq
  have hreach : Reachable semantics
      (.start (State.new 2 2 [4, 6]) (judgeCalls containerEngine smallRequests)) c :=
    drive_reachable compilingWorld.answer_sound Relation.ReflTransGen.refl hc
  obtain ⟨hconfined, -, -, happart⟩ :=
    containers_isolated (g := containerEngine) rfl (by decide) hreach plainOci
  obtain ⟨box, hmem⟩ := List.length_eq_one_iff.mp hbox
  obtain ⟨box', hmem'⟩ := List.length_eq_one_iff.mp hbox'
  refine ⟨c, hreach, ⟨box, by simp [hmem], box', by simp [hmem'], ?_⟩, ?_⟩
  · exact (happart (.case 0 0) (.judge 1) (by simp) box (by simp [hmem]) box' (by simp [hmem'])).1
  · intro base
    obtain ⟨ev, hev, hprogram⟩ := List.any_eq_true.mp hruns
    unfold runsProgram at hprogram
    split at hprogram
    · next ctx cpuID req r =>
        obtain ⟨m, hm, hspec⟩ := hconfined _ ctx cpuID req r (mem_own.mp hev)
        have hnew := Sandbox.newSpec_eq plainOci req hm cpuID base
        obtain ⟨image, himage, hconfined⟩ := hspec base _ hnew
        cases himage
        exact ⟨req, m, cpuID, _, of_decide_eq_true hprogram, hnew, hconfined⟩
    · cases hprogram

end Afterglow.Engine
