import Afterglow.Execution.CompileOutcome
import Afterglow.Service.Requests

/-!
# What the service says about compilations

Reference: `resolvedLanguage.Compile` in `internal/service/language.go`, `checkerCompiler.prepare` in
`checker_compiler.go`, and `executeJudgePlan` in `judge_service.go`.

A checker may have been compiled by another request, so that its log comes out of the cache or of a shared
compilation. `logDiscipline` follows which answers a goroutine relied on; as only explained compilations
are ever shared, all of them were explained.
-/

namespace Afterglow.Engine

open Concurrency Execution Service

/-- A compilation without an artifact comes with a log. -/
def Explained (res : Except Err Execution.CompileResult) : Prop :=
  ∀ out, res = .ok out → out.artifact = none → ¬ Blank out.log

theorem explained_error (e : Err) : Explained (.error e) := fun _ h => nomatch h

theorem compile_explained {ctx : Ctx} {req : CompileRequest} (hname : req.artifactName ≠ "") :
    (containerExecutor.compile ctx req).Returns Explained := by
  refine Prog.returns_of_runs fun tr res hrun => ?_
  rintro out rfl hnone
  obtain ⟨ws, r, compile, t₁, t₂, -, hjudged, hreported⟩ := compile_ok hrun hname
  exact hreported.explained hjudged hnone

/-! ## Sharing -/

/-- The local state says that all shared compilations seen so far were explained. -/
def logDiscipline : Discipline Op Op.Ans Tid Prop where
  pre _ l
    | .cacheAdd _ value => l → Explained (.ok value)
    | .flightDone _ _ res => l → Explained res
    | _ => True
  next _ l
    | .cacheGet _, r => l ∧ ∀ value, r = some value → Explained (.ok value)
    | .flightWait _, r => l ∧ Explained r
    | _, _ => l

/-- Whatever is shared is explained. -/
structure LogInv (s : State) (_ : Trace) (ℓ : Tid → Prop) : Prop where
  seen : ∀ i, ℓ i
  cache : ∀ key value, s.cache key = some value → Explained (.ok value)
  landed : ∀ f res, s.landed f = some res → Explained res

/-- The operations on shared compilations. -/
def Op.LogQuiet : Op → Prop
  | .cacheGet _ | .cacheAdd _ _ | .flightWait _ | .flightDone _ _ _ => False
  | _ => True

theorem act_log_quiet {i : Tid} {s s' : State} {e : Op} {r : e.Ans} (he : e.LogQuiet)
    (h : act i s e r s') : s'.cache = s.cache ∧ s'.landed = s.landed := by
  unfold act at h
  split at h
  all_goals first | exact absurd he id | grind [State.setDir]

theorem log_next_quiet {e : Op} (he : e.LogQuiet) (i : Tid) (l : Prop) (r : e.Ans) :
    logDiscipline.next i l e r = l := by
  cases e <;> first | exact absurd he id | rfl

theorem log_pre_quiet {e : Op} (he : e.LogQuiet) (i : Tid) (l : Prop) : logDiscipline.pre i l e := by
  cases e <;> first | exact absurd he id | trivial

theorem log_upholds : Upholds semantics logDiscipline LogInv := by
  intro s tr ℓ i e r s' inv hpre hact
  have hseen : logDiscipline.next i (ℓ i) e r →
      ∀ j, Function.update ℓ i (logDiscipline.next i (ℓ i) e r) j := by
    intro hi j
    by_cases hj : j = i
    · rw [hj, Function.update_self]
      exact hi
    · rw [Function.update_of_ne hj]
      exact inv.seen j
  by_cases hquiet : e.LogQuiet
  · obtain ⟨hcache, hlanded⟩ := act_log_quiet hquiet hact
    refine ⟨hseen ?_, hcache ▸ inv.cache, hlanded ▸ inv.landed⟩
    rw [log_next_quiet hquiet]
    exact inv.seen i
  cases e with
  | cacheGet key =>
    obtain ⟨rfl, rfl⟩ := hact
    exact ⟨hseen ⟨inv.seen i, inv.cache key⟩, inv.cache, inv.landed⟩
  | flightWait f =>
    obtain ⟨hr, rfl⟩ := hact
    exact ⟨hseen ⟨inv.seen i, inv.landed f r hr⟩, inv.cache, inv.landed⟩
  | cacheAdd key value =>
    obtain ⟨keep, rfl⟩ := hact
    refine ⟨hseen (inv.seen i), ?_, inv.landed⟩
    intro key' value' hcached
    dsimp only at hcached
    by_cases hkey : key' = key
    · subst hkey
      rw [Function.update_self] at hcached
      cases hcached
      exact hpre (inv.seen i)
    · rw [Function.update_of_ne hkey] at hcached
      split at hcached
      · exact inv.cache key' value' hcached
      · cases hcached
  | flightDone key f res =>
    obtain rfl : s' = _ := hact
    refine ⟨hseen (inv.seen i), inv.cache, ?_⟩
    intro f' res' hlanded
    dsimp only at hlanded
    by_cases hf : f' = f
    · subst hf
      rw [Function.update_self] at hlanded
      cases hlanded
      exact hpre (inv.seen i)
    · rw [Function.update_of_ne hf] at hlanded
      exact inv.landed f' res' hlanded
  | _ => exact absurd trivial hquiet

/-! ## The parts of a request -/

section Requests

variable {g : JudgeEngine} {i : Tid} {ctx : Ctx} {l : Prop}

/-- A program without operations on shared compilations. -/
theorem log_of_quiet {α : Type} {p : EProg α} (hp : p.All Op.LogQuiet) {P : α → Prop}
    (hP : p.Returns P) : p.Safe logDiscipline i (fun a l' => l' = l ∧ P a) l :=
  Prog.Safe.of_all_returns
    (hp.mono fun _ he => ⟨log_pre_quiet he i l, fun r => log_next_quiet he i l r⟩) hP

theorem Op.OfExecutor.logQuiet {e : Op} (he : e.OfExecutor) : e.LogQuiet := by
  cases e <;> first | exact absurd he id | trivial

theorem Op.IsAsk.logQuiet {e : Op} (he : e.IsAsk) : e.LogQuiet := by
  cases e <;> first | exact absurd he id | trivial

variable (hg : g.executor = containerExecutor)

include hg

theorem Compile_log {req : CompileRequest} (hname : req.artifactName ≠ "") :
    (g.executor.Compile ctx req).Safe logDiscipline i (fun res l' => l' = l ∧ Explained res) l := by
  refine Prog.Safe.perform trivial fun _ => Prog.Safe.bind ?_
  rw [hg]
  refine (log_of_quiet ((containerExecutor_all.compile ctx req).mono fun _ he => he.logQuiet)
    (compile_explained hname)).mono ?_
  rintro res l' ⟨rfl, hres⟩
  exact ⟨trivial, fun _ => ⟨rfl, hres⟩⟩

theorem Run_log {req : RunRequest} :
    (g.executor.Run ctx req).Safe logDiscipline i (fun _ l' => l' = l) l := by
  refine Prog.Safe.perform trivial fun _ => Prog.Safe.bind ?_
  rw [hg]
  refine (log_of_quiet ((containerExecutor_all.run ctx req).mono fun _ he => he.logQuiet)
    (Prog.returns_true _)).mono ?_
  rintro res l' ⟨rfl, -⟩
  exact ⟨trivial, fun _ => rfl⟩

/-- The result of `checkerCompiler.compile` is explained if everything shared was. -/
theorem compileChecker_log {source : Bytes} :
    (compileChecker g ctx source).Safe logDiscipline i (fun res l' => l' → l ∧ Explained res) l := by
  refine Prog.Safe.perform trivial fun _ => Prog.Safe.bind (Prog.Safe.perform trivial fun cached => ?_)
  match cached with
  | some compilation => exact ⟨trivial, fun _ hl => ⟨hl.1, hl.2 _ rfl⟩⟩
  | none =>
    refine Prog.Safe.perform trivial fun flight => ?_
    match flight with
    | .join f => exact ⟨trivial, fun _ => ⟨trivial, fun _ hl => ⟨hl.1.1, hl.2⟩⟩⟩
    | .lead f =>
      -- what the leader publishes is what it returns
      have hdone : ∀ l' : Prop, ∀ res, (l' → l ∧ Explained res) → Prog.Safe logDiscipline i
            (fun res' l' => Prog.Safe logDiscipline i (fun res l' => l' → l ∧ Explained res)
              (note (.leaveChecker ctx source res') >>= fun _ => pure res') l')
            (perform (.flightDone (g.sha256 source) f res) >>= fun _ => pure res) l' :=
        fun l' res hres => ⟨fun hl => (hres hl).2, fun _ => ⟨trivial, fun _ => hres⟩⟩
      refine Prog.Safe.bind (Prog.Safe.deferring (Prog.Safe.perform trivial fun again => ?_))
      match again with
      | some compilation => exact ⟨trivial, fun _ => hdone _ _ fun hl => ⟨hl.1.1, hl.2 _ rfl⟩⟩
      | none =>
        refine Prog.Safe.bind (Prog.Safe.bind ((Compile_log hg (by simp [checkerCompileRequest,
          checkerCompileProfile, checkerArtifactName])).mono ?_))
        rintro compiled l' ⟨rfl, hcompiled⟩
        cases compiled with
        | error e => exact ⟨trivial, fun _ => hdone _ _ fun hl => ⟨hl.1.1, explained_error _⟩⟩
        | ok compilation =>
          show Prog.Safe _ _ _ (ite (compilation.artifact.isSome = true) _ _) _
          split
          · exact Prog.Safe.perform (fun _ => hcompiled) fun _ =>
              ⟨trivial, fun _ => hdone _ _ fun hl => ⟨hl.1.1, hcompiled⟩⟩
          · exact ⟨trivial, fun _ => hdone _ _ fun hl => ⟨hl.1.1, hcompiled⟩⟩

omit hg in
theorem profileForLanguage_artifactName {lang : Language} {profile : LanguageProfile}
    (h : profileForLanguage lang = .ok profile) : profile.compile.artifactName ≠ "" := by
  cases lang <;> cases h <;> simp [cProfile, cppProfile, javaProfile, pythonProfile]

omit hg in
theorem materialize_profile {req : JudgeRequest} {profile : LanguageProfile} {choice : CheckerChoice} :
    (materialize g req profile choice).Returns fun res => ∀ plan, res = .ok plan →
      plan.profile = profile := by
  refine Prog.Returns.bind ((Prog.returns_true _).mono fun src _ => ?_)
  match src with
  | .error e => exact fun _ h => nomatch h
  | .ok src =>
    refine Prog.Returns.bind ((Prog.returns_true _).mono fun cases _ => ?_)
    match cases with
    | .error e => exact fun _ h => nomatch h
    | .ok cases =>
      rintro plan hplan
      cases hplan
      rfl

/-- A result that blames a compilation carries its log. -/
structure Blames (result : JudgeResult) : Prop where
  program : result.status = .compileError →
    result.compile.succeeded = false ∧ ¬ Blank result.compile.log
  checker : result.status = .checkerCompileError → ∃ compile, result.checkerCompile = some compile ∧
    compile.succeeded = false ∧ ¬ Blank compile.log

omit hg in
/-- A result of the cases blames no compilation. -/
theorem blames_cases (compile : CompileResult) (checkerCompile : Option CompileResult)
    (cases : List JudgeCaseResult) : Blames ⟨aggregateStatus cases, compile, checkerCompile, cases⟩ := by
  have hstatus := aggregateStatus_spec cases
  exact ⟨fun h => absurd h hstatus.compileError, fun h => absurd h hstatus.checkerCompileError⟩

theorem executeJudgePlan_log {plan : JudgePlan} (hname : plan.profile.compile.artifactName ≠ "") :
    (executeJudgePlan g ctx plan).Safe logDiscipline i (fun result l' => l' → Blames result) l := by
  refine Prog.Safe.bind (Prog.Safe.bind ((Compile_log hg hname).mono ?_))
  rintro compiled l' ⟨rfl, hcompiled⟩
  match compiled with
  | .error e => exact fun _ => ⟨fun h => (nomatch h), fun h => nomatch h⟩
  | .ok ⟨log, none⟩ => exact fun _ => ⟨fun _ => ⟨rfl, hcompiled _ rfl rfl⟩, fun h => nomatch h⟩
  | .ok ⟨log, some artifact⟩ =>
    refine Prog.Safe.bind (Prog.Safe.bind ((compileChecker_log hg).mono ?_))
    intro compilation l' hcompilation
    match compilation with
    | .error e => exact fun _ => ⟨fun h => (nomatch h), fun h => nomatch h⟩
    | .ok ⟨log', none⟩ =>
      intro hl
      refine ⟨fun h => ?_, fun _ => ⟨_, rfl, rfl, (hcompilation hl).2 _ rfl rfl⟩⟩
      by_cases hinline : plan.checkerProvidedByRequest = true <;> simp [hinline] at h
    | .ok ⟨log', some checker⟩ =>
      refine Prog.Safe.bind (Prog.Safe.perform trivial fun _ => ⟨trivial, fun results => ?_⟩)
      exact fun _ => blames_cases _ _ _

theorem judge_log {req : JudgeRequest} : (judge g ctx req).Safe logDiscipline i
    (fun res l' => l' → Blames res.1) l := by
  have hzero : Blames {} := ⟨fun h => (nomatch h), fun h => nomatch h⟩
  unfold judge
  split
  · exact fun _ => hzero
  split
  · exact fun _ => hzero
  · next profile hprofile =>
      split
      · exact fun _ => hzero
      · next choice _ =>
          refine Prog.Safe.perform trivial fun acquired => ?_
          match acquired with
          | some e => exact fun _ => ⟨fun h => (nomatch h), fun h => nomatch h⟩
          | none =>
            refine Prog.Safe.deferring (Prog.Safe.bind ?_)
            refine (log_of_quiet ((materialize_all _ _ choice).mono fun _ he => he.isAsk.logQuiet)
              materialize_profile).mono ?_
            rintro plan l' ⟨rfl, hplan⟩
            match plan with
            | .error e => exact ⟨trivial, fun _ _ => hzero⟩
            | .ok plan =>
              have hname : plan.profile.compile.artifactName ≠ "" := by
                rw [hplan plan rfl]
                exact profileForLanguage_artifactName hprofile
              refine Prog.Safe.bind ((executeJudgePlan_log hg hname).mono ?_)
              intro result l' hl'
              exact ⟨trivial, fun _ hl => hl' hl⟩

theorem caseThread_log : (caseThread g).Safe logDiscipline i (fun _ _ => True) l := by
  refine Prog.Safe.perform trivial fun started => Prog.Safe.bind ?_
  refine Prog.Safe.bind (Prog.Safe.bind ((Run_log hg).mono ?_))
  rintro ran l' rfl
  match ran with
  | .error e => exact ⟨trivial, fun _ => trivial⟩
  | .ok runOut =>
    show Prog.Safe _ _ _ (ite (_ ≠ Verdict.ok) _ _) _
    split
    · exact ⟨trivial, fun _ => trivial⟩
    · refine Prog.Safe.bind (Prog.Safe.bind ((Run_log hg).mono ?_))
      rintro checked l' rfl
      cases checked <;> exact ⟨trivial, fun _ => trivial⟩

end Requests

/-! ## Truthful outcomes -/

/-- In every reachable state of concurrent requests, a result that blames a compilation carries its log. -/
theorem judgeCalls_blames {g : JudgeEngine} (hg : g.executor = containerExecutor)
    {requests : ℕ → Ctx × JudgeRequest} {judgeMax execMax : ℕ} {cpus : List ℕ}
    {c : Config Op Op.Ans Tid State JudgeAns}
    (h : Reachable semantics (.start (State.new judgeMax execMax cpus) (judgeCalls g requests)) c)
    {j : ℕ} {result : JudgeResult} (hret : c.prog (.judge j) = .ret (result, none)) : Blames result := by
  let Q : (i : Tid) → JudgeAns i → Prop → Prop
    | .judge _, res, l => l → Blames res.1
    | .case _ _, _, _ => True
  have hinit : Holds logDiscipline LogInv Q
      (.start (State.new judgeMax execMax cpus) (judgeCalls g requests)) := by
    refine ⟨fun _ => True, ⟨fun _ => trivial, fun _ _ h => (nomatch h), fun _ _ h => nomatch h⟩, fun i => ?_⟩
    cases i with
    | judge j => exact judge_log hg
    | case j n => exact caseThread_log hg
  obtain ⟨ℓ, inv, hsafe⟩ := log_upholds.reachable h hinit
  have hj := hsafe (.judge j)
  rw [hret] at hj
  exact hj (inv.seen _)

theorem compileProgram_succeeded {g : JudgeEngine} {ctx : Ctx} {plan : JudgePlan} :
    (compileProgram g ctx plan).Returns fun res => ∀ program compile, res = .ok (program, compile) →
      (compile.succeeded = true ↔ program ≠ none) := by
  refine Prog.Returns.bind ((Prog.returns_true _).mono fun out _ => ?_)
  match out with
  | .error e => exact fun _ _ h => nomatch h
  | .ok out =>
    rintro program compile h
    cases h
    cases out.artifact <;> simp

theorem prepare_succeeded {g : JudgeEngine} {ctx : Ctx} {source : Bytes} :
    (prepare g ctx source).Returns fun res => ∀ compilation, res = .ok compilation →
      (compilation.compile.succeeded = true ↔ compilation.checker ≠ none) := by
  refine Prog.Returns.bind ((Prog.returns_true _).mono fun out _ => ?_)
  match out with
  | .error e => exact fun _ h => nomatch h
  | .ok out =>
    rintro compilation h
    cases h
    exact Option.isSome_iff_ne_none

/-- Compile outcomes are truthful. A call of `executor.Compile` that returned without an error, among any
number of concurrent ones, is truthful about the outcome and output that its verdict was built from and
about the workspace as it was when the sandbox returned. At the service, a compilation succeeded exactly
if there is a program or a checker, and a result that blames one carries its log. -/
theorem compile_truthful {cpus : List ℕ} (hcpus : cpus.Nodup) (judgeMax execMax : ℕ) :
    (∀ calls c, Reachable semantics
        (.start (State.new judgeMax execMax cpus) (executorCalls calls)) c →
      ∀ j ctx req res, req.artifactName ≠ "" → calls j = .compile ctx req →
        c.prog (.judge j) = .ret () →
        Did c.trace (.judge j) (.mark (.leaveCompile ctx req (.ok res))) () →
        ∃ outcome output ws c₁ t, Reachable semantics
            (.start (State.new judgeMax execMax cpus) (executorCalls calls)) c₁ ∧
          Reachable semantics c₁ c ∧
          own (.judge j) c₁.trace = t ++ [⟨.mark (.leaveExecute ctx ((compileTask req).request ws)
            (.ok (Sandbox.buildVerdict outcome output req.limits))), ()⟩] ∧
          Truthful req.artifactName ((c₁.shared.dirs ws).bind (· req.artifactName))
            (Sandbox.buildVerdict outcome output req.limits) res) ∧
    (∀ g ctx plan tr program compile,
      (compileProgram g ctx plan).Runs tr (.ok (program, compile)) →
      (compile.succeeded = true ↔ program ≠ none)) ∧
    (∀ g ctx source tr compilation, (prepare g ctx source).Runs tr (.ok compilation) →
      (compilation.compile.succeeded = true ↔ compilation.checker ≠ none)) ∧
    ∀ g requests c, g.executor = containerExecutor →
      Reachable semantics (.start (State.new judgeMax execMax cpus) (judgeCalls g requests)) c →
      ∀ j result, c.prog (.judge j) = .ret (result, none) → Blames result := by
  refine ⟨?_, ?_, ?_, ?_⟩
  · intro calls c h j ctx req res hname hcall hret hleave
    exact executorCalls_truthful hcpus h hname hcall hret hleave
  · intro g ctx plan tr program compile hrun
    exact hrun.returns compileProgram_succeeded program compile rfl
  · intro g ctx source tr compilation hrun
    exact hrun.returns prepare_succeeded compilation rfl
  · intro g requests c hg h j result hret
    exact judgeCalls_blames hg h hret

/-- What `Compile` returned to goroutine `i`. -/
def compileReturns (i : Tid) (tr : Trace) :
    List (Ctx × CompileRequest × Except Err Execution.CompileResult) :=
  (own i tr).filterMap fun ev =>
    match ev.op with
    | .mark (.leaveCompile ctx req res) => some (ctx, req, res)
    | _ => none

theorem did_of_mem_compileReturns {i : Tid} {tr : Trace} {ctx : Ctx} {req : CompileRequest}
    {res : Except Err Execution.CompileResult} (h : (ctx, req, res) ∈ compileReturns i tr) :
    Did tr i (.mark (.leaveCompile ctx req res)) () := by
  obtain ⟨⟨e, r⟩, hmem, heq⟩ := List.mem_filterMap.mp h
  dsimp only at heq
  split at heq
  · cases heq
    exact mem_own.mp hmem
  · cases heq

/-- A compiler that writes one byte into `program`. -/
def writingWorld : World where
  ask _ := calmAnswer
  watch := World.calm.watch
  produce _ _ entries := Function.update entries "program" (some (.regular [127] 0o755))

/-- Every call compiles a small program. -/
def smallCompileRequest : CompileRequest where
  files := [⟨"main.c", [], 0o644⟩]
  imageRef := "gcc"
  command := ["gcc", "main.c"]
  artifactName := "program"
  limits := ⟨1000, 3000, 256, 1024⟩

/-- A call of `Compile` takes what the compiler wrote. -/
theorem compile_truthful_one_byte :
    ∃ c : Config Op Op.Ans Tid State fun _ => Unit,
      Reachable semantics (.start (State.new 1 1 [0])
        (executorCalls fun j => .compile (.request j) smallCompileRequest)) c ∧
      ∃ c₁ : Config Op Op.Ans Tid State fun _ => Unit, Reachable semantics c₁ c ∧
        ∃ ws, (c₁.shared.dirs ws).bind (· "program") = some (.regular [127] 0o755) := by
  let calls : ℕ → ExecutorCall := fun j => .compile (.request j) smallCompileRequest
  let res : Execution.CompileResult := { artifact := some ⟨"program", [127], 0o755⟩ }
  have hrun : (drive writingWorld.answer (List.replicate 28 (.judge 0))
      (.start (State.new 1 1 [0]) (executorCalls calls))).map (fun c =>
        ((c.prog (.judge 0)).returned?, compileReturns (.judge 0) c.trace)) =
      some (some (), [(.request 0, smallCompileRequest, .ok res)]) := by decide +kernel
  obtain ⟨c, hc, heq⟩ := Option.map_eq_some_iff.mp hrun
  obtain ⟨hret, hreturns⟩ := Prod.mk.inj heq
  have hreach : Reachable semantics (.start (State.new 1 1 [0]) (executorCalls calls)) c :=
    drive_reachable writingWorld.answer_sound Relation.ReflTransGen.refl hc
  have hleave : Did c.trace (.judge 0)
      (.mark (.leaveCompile (.request 0) smallCompileRequest (.ok res))) () := by
    refine did_of_mem_compileReturns ?_
    rw [hreturns]
    exact List.mem_singleton_self _
  obtain ⟨hcalls, -⟩ := compile_truthful (List.nodup_singleton 0) 1 1
  obtain ⟨outcome, output, ws, c₁, t, -, hrest, -, htruthful⟩ :=
    hcalls calls c hreach 0 _ _ res (by decide) rfl (Prog.returned?_eq_some.mp hret) hleave
  exact ⟨c, hreach, c₁, hrest, ws, (htruthful.artifact_eq _ rfl).2.2⟩

end Afterglow.Engine
