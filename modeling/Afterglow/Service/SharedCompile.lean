import Afterglow.Engine.World
import Afterglow.Execution.Operations
import Afterglow.Service.CheckerCache

/-!
# Calls of `checkerCompiler.compile`

The code follows `checkerDiscipline`, whatever the executor does outside the shared state of checker
compilations. Two results follow for any number of concurrent calls: where a returned outcome comes
from, and that no compilation is duplicated.
-/

namespace Afterglow.Engine

open Concurrency Execution Service

variable {g : JudgeEngine} {i : Tid}

/-! ## The discipline of the code -/

theorem Op.OfExecutor.quiet {e : Op} (he : e.OfExecutor) : e.CheckerQuiet := by
  cases e with
  | mark m => cases m <;> first | exact absurd he id | trivial
  | _ => first | exact absurd he id | trivial

theorem safe_of_quiet {α : Type} {p : EProg α} (hp : p.All Op.CheckerQuiet) (l : CheckerLocal) :
    p.Safe (checkerDiscipline g) i (fun _ l' => l' = l) l := by
  refine Prog.Safe.of_all ?_
  induction p with
  | ret a => trivial
  | op e k ih => exact ⟨checkerDiscipline_quiet g hp.1 i l, fun r => ih r (hp.2 r)⟩

section Safe

variable {x : Executor} (hx : x.All Op.CheckerQuiet) {ctx : Ctx} {source : Bytes} {l : CheckerLocal}

include hx

/-- An `executor.Compile` call that compiles no checker. -/
theorem Compile_safe {req : CompileRequest} (hreq : checkerSource? g req = none) :
    (x.Compile ctx req).Safe (checkerDiscipline g) i (fun _ l' => l' = l) l := by
  refine Prog.Safe.perform ?_ fun _ => Prog.Safe.bind ?_
  · intro source hsource
    exact absurd (hsource.symm.trans hreq) (by simp)
  have hl : (checkerDiscipline g).next i l (.mark (.enterCompile ctx req)) () = l := by
    show l.started (checkerSource? g req) = l
    rw [hreq]
    rfl
  rw [hl]
  refine (safe_of_quiet (hx.compile ctx req) l).mono ?_
  rintro res l' rfl
  refine ⟨?_, fun _ => ?_⟩
  · intro source hsource
    exact absurd (hsource.symm.trans hreq) (by simp)
  · show l'.finished g (setupResult res) (checkerSource? g req) = l'
    rw [hreq]
    rfl

theorem Run_safe {req : RunRequest} :
    (x.Run ctx req).Safe (checkerDiscipline g) i (fun _ l' => l' = l) l := by
  refine Prog.Safe.perform trivial fun _ => Prog.Safe.bind ?_
  refine (safe_of_quiet (hx.run ctx req) l).mono ?_
  rintro res l' rfl
  exact ⟨trivial, fun _ => rfl⟩

/-- The `executor.Compile` call of a leader whose look-up missed. -/
theorem Compile_checker_safe (hlead : l.lead.map Prod.fst = some (g.sha256 source))
    (hmissed : l.missed = true) (hrunning : l.running = none) (hasked : source ∈ l.asked) :
    (x.Compile ctx (checkerCompileRequest g.testlibHeader source)).Safe (checkerDiscipline g) i
      (fun res l' => l' = { l with
        running := none
        made := some (setupResult res)
        known := insert (g.sha256 source, setupResult res) l.known }) l := by
  have hsource : checkerSource? g (checkerCompileRequest g.testlibHeader source) = some source :=
    (checkerSource?_eq_some g).mpr rfl
  refine Prog.Safe.perform ?_ fun _ => Prog.Safe.bind ?_
  · intro source' hsource'
    obtain rfl := Option.some.inj (hsource.symm.trans hsource')
    exact ⟨hlead, hmissed, hrunning, hasked⟩
  have hl : (checkerDiscipline g).next i l
      (.mark (.enterCompile ctx (checkerCompileRequest g.testlibHeader source))) ()
        = { l with running := some source } := by
    show l.started (checkerSource? g _) = _
    rw [hsource]
    rfl
  rw [hl]
  refine (safe_of_quiet (hx.compile _ _) _).mono ?_
  rintro res l' rfl
  refine ⟨?_, fun _ => ?_⟩
  · intro source' hsource'
    obtain rfl := Option.some.inj (hsource.symm.trans hsource')
    rfl
  · show CheckerLocal.finished g _ (setupResult res) (checkerSource? g _) = _
    rw [hsource]
    rfl

end Safe

/-- The context of a shared compilation observes nobody. -/
theorem not_observes_compileCtx (ctx : Ctx) (id : ℕ) : ¬ (compileCtx ctx).observes id := by
  simp [compileCtx, Ctx.observes]

/-- The function run by the leader of a flight: it returns an outcome for its key, and a failing one
only if it made it. -/
theorem compileShared_safe (hx : g.executor.All Op.CheckerQuiet) {ctx : Ctx} {source : Bytes} {f : ℕ}
    {l : CheckerLocal} (hlead : l.lead = some (g.sha256 source, f)) (hrunning : l.running = none)
    (hasked : source ∈ l.asked) :
    (compileShared g ctx source).Safe (checkerDiscipline g) i (fun res l' =>
      l'.lead = l.lead ∧ l'.running = none ∧ (g.sha256 source, res) ∈ l'.known ∧
        (¬ Succeeded res → l'.made = some res ∨ ∃ v ∈ l'.hits, res = .ok v)) l := by
  refine Prog.Safe.deferring ?_
  -- the deferred cancel changes nothing
  have hcancel : ∀ (Q : CheckerLocal → Prop) l', Q l' → Prog.Safe (checkerDiscipline g) i
      (fun _ l'' => Q l'') (do let _ ← ask (.cancel (compileCtx ctx))) l' :=
    fun Q l' hQ => Prog.Safe.perform trivial fun _ => hQ
  refine Prog.Safe.perform hrunning fun cached => ?_
  match cached with
  | some compilation =>
    refine hcancel _ _ ⟨rfl, hrunning, Set.mem_insert _ _, fun _ => .inr ⟨compilation, ?_, rfl⟩⟩
    exact Set.mem_insert _ _
  | none =>
    have hkey : l.lead.map Prod.fst = some (g.sha256 source) := by rw [hlead]; rfl
    have hmissed : (l.lookedUp (g.sha256 source) none).missed = true := decide_eq_true hkey
    refine Prog.Safe.bind (Prog.Safe.bind ?_)
    refine (Compile_checker_safe hx (l := l.lookedUp (g.sha256 source) none) hkey hmissed hrunning
      hasked).mono ?_
    rintro raw l' rfl
    have hmem : (g.sha256 source, setupResult raw) ∈
        insert (g.sha256 source, setupResult raw) l.known := Set.mem_insert _ _
    cases raw with
    | error e => exact hcancel _ _ ⟨rfl, rfl, hmem, fun _ => .inl rfl⟩
    | ok compilation =>
      show Prog.Safe _ _ _ (ite (compilation.artifact.isSome = true) _ _) _
      split
      · next hart =>
          refine Prog.Safe.perform ⟨hmem, hart, hkey, rfl⟩ fun _ => ?_
          exact hcancel _ _ ⟨rfl, rfl, hmem, fun _ => .inl rfl⟩
      · exact hcancel _ _ ⟨rfl, rfl, hmem, fun _ => .inl rfl⟩

/-- `checkerCompiler.compile`, called outside any flight: it follows the discipline and returns an
outcome for the key of its source. -/
theorem compileChecker_safe (hx : g.executor.All Op.CheckerQuiet) {ctx : Ctx} {source : Bytes}
    {l : CheckerLocal} (hlead : l.lead = none) (hrunning : l.running = none) :
    (compileChecker g ctx source).Safe (checkerDiscipline g) i (fun res l' =>
      l'.lead = none ∧ l'.running = none ∧ (g.sha256 source, res) ∈ l'.known) l := by
  refine Prog.Safe.perform trivial fun _ => Prog.Safe.bind ?_
  refine Prog.Safe.perform hrunning fun cached => ?_
  match cached with
  | some compilation => exact ⟨trivial, fun _ => ⟨hlead, hrunning, Set.mem_insert _ _⟩⟩
  | none =>
    refine Prog.Safe.perform hlead fun flight => ?_
    match flight with
    | .join f =>
      refine ⟨⟨g.sha256 source, rfl⟩, fun res => ⟨trivial, fun _ => ⟨hlead, hrunning, ?_⟩⟩⟩
      exact Set.mem_union_right _ ⟨rfl, rfl⟩
    | .lead f =>
      refine Prog.Safe.bind ?_
      refine (compileShared_safe hx (f := f) rfl ?_ ?_).mono ?_
      · exact hrunning
      · exact Set.mem_insert _ _
      · rintro res l' ⟨hlead', hrunning', hmem, hmade⟩
        refine Prog.Safe.perform ⟨hlead', hmem, hrunning', hmade⟩ fun _ => ?_
        exact ⟨trivial, fun _ => ⟨rfl, hrunning', hmem⟩⟩

/-! ## The four routes of a result -/

/-- A complete call of `compile`: a look-up hit, a flight led, or a flight joined. -/
theorem compileChecker_runs {ctx : Ctx} {source : Bytes} {tr : List (Event Op Op.Ans)}
    {res : Except Err Execution.CompileResult} (h : (compileChecker g ctx source).Runs tr res) :
    (∃ v, ⟨.cacheGet (g.sha256 source), some v⟩ ∈ tr ∧ res = .ok v) ∨
    (∃ f, ⟨.flightDo (g.sha256 source), .lead f⟩ ∈ tr ∧
      ⟨.flightDone (g.sha256 source) f res, ()⟩ ∈ tr) ∨
    (∃ f, ⟨.flightDo (g.sha256 source), .join f⟩ ∈ tr ∧ ⟨.flightWait f, res⟩ ∈ tr) := by
  obtain ⟨_, tr₀, rfl, h₀⟩ := Prog.runs_perform_iff.mp h
  obtain ⟨tr₁, res', trₑ, rfl, h₁, hleave⟩ := Prog.runs_bind_iff.mp h₀
  obtain ⟨_, _, rfl, hret⟩ := Prog.runs_perform_iff.mp hleave
  obtain ⟨rfl, rfl⟩ := Prog.runs_ret_iff.mp hret
  obtain ⟨cached, tr₂, rfl, h₂⟩ := Prog.runs_perform_iff.mp h₁
  match cached with
  | some v =>
    obtain ⟨rfl, rfl⟩ := Prog.runs_ret_iff.mp h₂
    exact .inl ⟨v, by simp, rfl⟩
  | none =>
    obtain ⟨flight, tr₃, rfl, h₃⟩ := Prog.runs_perform_iff.mp h₂
    match flight with
    | .join f =>
      obtain ⟨res', tr₄, rfl, h₄⟩ := Prog.runs_op_iff.mp h₃
      obtain ⟨rfl, rfl⟩ := Prog.runs_ret_iff.mp h₄
      exact .inr (.inr ⟨f, by simp, by simp⟩)
    | .lead f =>
      obtain ⟨tr₄, res', tr₅, rfl, -, h₄⟩ := Prog.runs_bind_iff.mp h₃
      obtain ⟨_, tr₆, rfl, h₅⟩ := Prog.runs_perform_iff.mp h₄
      obtain ⟨rfl, rfl⟩ := Prog.runs_ret_iff.mp h₅
      exact .inr (.inl ⟨f, by simp, by simp⟩)

variable (g) in
/-- What a call of `compile` may do to the executor: have it compile its own source, in a context that
observes nobody. -/
def OwnSource (ctx : Ctx) (source : Bytes) : Op → Prop
  | .mark (.enterCompile ctx' req) =>
    ctx' = compileCtx ctx ∧ req = checkerCompileRequest g.testlibHeader source
  | .mark (.enterChecker _ source') => source' = source
  | _ => True

theorem Op.CheckerQuiet.ownSource {e : Op} (he : e.CheckerQuiet) (ctx : Ctx) (source : Bytes) :
    OwnSource g ctx source e := by
  unfold OwnSource
  split
  · exact absurd he id
  · exact absurd he id
  · trivial

variable (g) in
/-- The operations of `compile` itself, its executor apart. -/
def OfCompile (ctx : Ctx) (source : Bytes) : Op → Prop
  | .mark (.enterCompile ctx' req) =>
    ctx' = compileCtx ctx ∧ req = checkerCompileRequest g.testlibHeader source
  | .mark (.enterChecker _ source') => source' = source
  | .mark (.leaveCompile _ _ _) | .mark (.leaveChecker _ _ _) | .cacheGet _ | .cacheAdd _ _ | .flightDo _
  | .flightWait _ | .flightDone _ _ _ | .ask (.cancel _) => True
  | _ => False

theorem OfCompile.ownSource {ctx : Ctx} {source : Bytes} {e : Op} (he : OfCompile g ctx source e) :
    OwnSource g ctx source e := by
  unfold OwnSource
  split
  · exact he
  · exact he
  · trivial

/-- The operations of `compile` itself, its call of `Compile` apart. -/
def OfFlight (source : Bytes) : Op → Prop
  | .mark (.enterChecker _ source') => source' = source
  | .mark (.leaveChecker _ _ _) | .cacheGet _ | .cacheAdd _ _ | .flightDo _ | .flightWait _
  | .flightDone _ _ _ | .ask (.cancel _) => True
  | _ => False

theorem OfFlight.ofCompile {ctx : Ctx} {source : Bytes} {e : Op} (he : OfFlight source e) :
    OfCompile g ctx source e := by
  unfold OfFlight at he
  split at he <;> first | exact he | exact absurd he id

/-- What is true of the operations of `compile` itself and of its call of `Compile` is true of all. -/
theorem compileChecker_all_of {P : Op → Prop} {ctx : Ctx} {source : Bytes}
    (hcompile : (g.executor.Compile (compileCtx ctx) (checkerCompileRequest g.testlibHeader source)).All P)
    (hP : ∀ e, OfFlight source e → P e) : (compileChecker g ctx source).All P := by
  refine Prog.All.perform (hP _ rfl) fun _ => Prog.All.bind ?_ fun _ => ⟨hP _ trivial, fun _ => trivial⟩
  refine Prog.All.perform (hP _ trivial) fun cached => ?_
  match cached with
  | some v => trivial
  | none =>
    refine Prog.All.perform (hP _ trivial) fun flight => ?_
    match flight with
    | .join f => exact ⟨hP _ trivial, fun _ => trivial⟩
    | .lead f =>
      refine Prog.All.bind (Prog.All.deferring (Prog.All.perform (hP _ trivial) fun _ => trivial) ?_)
        fun _ => Prog.All.perform (hP _ trivial) fun _ => trivial
      refine Prog.All.perform (hP _ trivial) fun again => ?_
      match again with
      | some v => trivial
      | none =>
        refine Prog.All.bind (Prog.All.bind hcompile fun _ => trivial) fun compiled => ?_
        match compiled with
        | .error e => trivial
        | .ok compilation =>
          show Prog.All _ (ite (compilation.artifact.isSome = true) _ _)
          split
          · exact Prog.All.perform (hP _ trivial) fun _ => trivial
          · trivial

/-- The same where the operations of the executor are known. -/
theorem compileChecker_all {P : Op → Prop} (hx : g.executor.All P) (ctx : Ctx) (source : Bytes)
    (hP : ∀ e, OfCompile g ctx source e → P e) : (compileChecker g ctx source).All P := by
  refine compileChecker_all_of ?_ fun e he => hP e he.ofCompile
  refine Prog.All.perform (hP _ ⟨rfl, rfl⟩) fun _ => Prog.All.bind (hx.compile _ _) fun res => ?_
  exact Prog.All.perform (hP _ trivial) fun _ => trivial

/-! ## Concurrent calls -/

/-- What a thread of `compileCalls` returns. -/
abbrev CompileAns : Tid → Type
  | .judge _ => Except Err Execution.CompileResult
  | .case _ _ => Unit

variable (g) in
/-- Any number of concurrent calls of `compile`, call `j` with its own context and source. -/
def compileCalls (calls : ℕ → Ctx × Bytes) : (i : Tid) → EProg (CompileAns i)
  | .judge j => compileChecker g (calls j).1 (calls j).2
  | .case _ _ => return ()

variable (g) in
/-- What a call knows when it returns `res`: it leads no flight, and `res` is an outcome for the key of
its source. -/
def CompileReturned (calls : ℕ → Ctx × Bytes) : (i : Tid) → CompileAns i → CheckerLocal → Prop
  | .judge j, res, l => l.lead = none ∧ l.running = none ∧ (g.sha256 (calls j).2, res) ∈ l.known
  | .case _ _, _, _ => True

section Calls

variable (hx : g.executor.All Op.CheckerQuiet) {calls : ℕ → Ctx × Bytes} {judgeMax execMax : ℕ}
  {cpus : List ℕ} {c : Config Op Op.Ans Tid State CompileAns}
  (h : Reachable semantics (.start (State.new judgeMax execMax cpus) (compileCalls g calls)) c)

include hx h

/-- The invariant along every run of such calls, with each call on the discipline. -/
theorem compileCalls_inv :
    CheckerInv g c.shared c.trace ((checkerDiscipline g).locals (fun _ => {}) c.trace) ∧
      ∀ i, (c.prog i).Safe (checkerDiscipline g) i (CompileReturned g calls i)
        ((checkerDiscipline g).locals (fun _ => {}) c.trace i) := by
  refine checker_upholds.locals h (checkerInv_new _ _ _) ?_
  intro i
  cases i with
  | judge j => exact compileChecker_safe hx rfl rfl
  | case j n => trivial

/-- What the calls have the executor do. -/
theorem compileCalls_own {i : Tid} {e : Op} {r : e.Ans} (hdid : Did c.trace i e r) :
    ∃ j, i = .judge j ∧ OwnSource g (calls j).1 (calls j).2 e := by
  have hafter := h.own_after i
  have hmem := mem_own.mpr hdid
  cases i with
  | judge j =>
    have hall := compileChecker_all (hx.mono fun e he => he.ownSource (calls j).1 (calls j).2) _ _
      fun e he => he.ownSource
    exact ⟨j, rfl, (hafter.all hall).1 _ hmem⟩
  | case j n =>
    have hnone := (hafter.all (P := fun _ => False) trivial).1 _ hmem
    exact absurd hnone id

theorem compileCalls_asked {source : Bytes} (hasked : Asked c.trace source) :
    ∃ j, source = (calls j).2 := by
  obtain ⟨i, ctx, hdid⟩ := hasked
  obtain ⟨j, -, hown⟩ := compileCalls_own hx h hdid
  exact ⟨j, hown⟩

/-- An outcome for the key of a caller's source is one of compiling that source, as long as the sources
in use do not collide. -/
theorem compileCalls_source
    (hcoll : ∀ j j', g.sha256 (calls j).2 = g.sha256 (calls j').2 → (calls j).2 = (calls j').2)
    {j : ℕ} {source : Bytes} (hkey : g.sha256 source = g.sha256 (calls j).2)
    (hasked : Asked c.trace source) : source = (calls j).2 := by
  obtain ⟨j', rfl⟩ := compileCalls_asked hx h hasked
  exact hcoll j' j hkey

end Calls

/-- A goroutine that entered flight `fl` did so before the flight was forgotten. -/
theorem Landed.entered {s : State} {tr : Trace} {key : Bytes} {fl : Flight}
    {res : Except Err Execution.CompileResult} (hland : Landed g tr key fl.id res)
    (hist : History g s tr) (hentered : Did tr i (.flightDo key) fl) :
    ∃ k t₁ t₂, tr = t₁ ++ ⟨⟨.flightDo key, fl⟩, i⟩ :: t₂ ∧
      (∀ k' key' res', ¬ Did t₁ k' (.flightDone key' fl.id res') ()) ∧
      Did t₂ k (.flightDone key fl.id res) () ∧ Did tr k (.flightDo key) (.lead fl.id) ∧
      (¬ Succeeded res → ∃ source, g.sha256 source = key ∧ Asked tr source ∧
        Compiled g tr k source res) := by
  obtain ⟨-, k, hlead, hdone, hmade⟩ := hland
  obtain ⟨t₁, t₂, htr⟩ := List.append_of_mem hentered
  have hnot := hist.entered t₁ t₂ i key fl htr
  refine ⟨k, t₁, t₂, htr, hnot, ?_, hlead, hmade⟩
  rw [htr] at hdone
  rcases List.mem_append.mp hdone with hdone | hdone
  · exact absurd hdone (hnot k key res)
  · rcases List.mem_cons.mp hdone with heq | hdone
    · cases heq
    · exact hdone

variable (g) in
/-- The outcome `res` was made by flight `fl`, which `i` entered before it was forgotten: no flight of
that number was forgotten up to then, and afterwards its leader, having compiled `source` itself,
published `res` and forgot it. -/
def MadeByEntered (tr : Trace) (i : Tid) (source : Bytes) (res : Except Err Execution.CompileResult) :
    Prop :=
  ∃ fl k t₁ t₂, tr = t₁ ++ ⟨⟨.flightDo (g.sha256 source), fl⟩, i⟩ :: t₂ ∧
    (∀ k' key' res', ¬ Did t₁ k' (.flightDone key' fl.id res') ()) ∧
    Did t₂ k (.flightDone (g.sha256 source) fl.id res) () ∧
    Did tr k (.flightDo (g.sha256 source)) (.lead fl.id) ∧ Compiled g tr k source res

/-- Where the results of concurrent `compile` calls come from. What a call on source `s` returns is the
outcome of an `executor.Compile` call on exactly `checker.cpp = s` and the header; a failure or an error
was made by a flight that had not been forgotten when the call entered it; and the executor is only
called with callers' sources, in contexts that observe no caller's cancellation. The executor may do
anything but reach into the cache and the flights itself. -/
theorem compile_provenance (hx : g.executor.All Op.CheckerQuiet) {calls : ℕ → Ctx × Bytes}
    (hcoll : ∀ j j', g.sha256 (calls j).2 = g.sha256 (calls j').2 → (calls j).2 = (calls j').2)
    {judgeMax execMax : ℕ} {cpus : List ℕ} {c : Config Op Op.Ans Tid State CompileAns}
    (h : Reachable semantics (.start (State.new judgeMax execMax cpus) (compileCalls g calls)) c) :
    (∀ j res, c.prog (.judge j) = .ret res →
      (∃ k, Compiled g c.trace k (calls j).2 res) ∧
      (¬ Succeeded res → MadeByEntered g c.trace (.judge j) (calls j).2 res)) ∧
    (∀ i ctx req, Did c.trace i (.mark (.enterCompile ctx req)) () →
      (∃ j, i = .judge j ∧ req = checkerCompileRequest g.testlibHeader (calls j).2) ∧
      ∀ id, ¬ ctx.observes id) := by
  obtain ⟨inv, hsafe⟩ := compileCalls_inv hx h
  refine ⟨?_, ?_⟩
  · intro j res hret
    have hj := hsafe (.judge j)
    rw [hret] at hj
    obtain ⟨k, source, hkey, hasked, hcomp⟩ := (inv.standing _).known _ _ hj.2.2
    obtain rfl := compileCalls_source hx h hcoll hkey hasked
    refine ⟨⟨k, hcomp⟩, ?_⟩
    intro hfail
    -- whichever flight the call went through, it landed with the result
    have hflight : ∃ fl, Did c.trace (.judge j) (.flightDo (g.sha256 (calls j).2)) fl ∧
        Landed g c.trace (g.sha256 (calls j).2) fl.id res := by
      rcases compileChecker_runs (h.own_runs hret) with ⟨v, hhit, rfl⟩ | ⟨f, hlead, hdone⟩ | ⟨f, hjoin, hwait⟩
      · exact absurd ⟨v, rfl, inv.history.hit _ _ _ (mem_own.mp hhit)⟩ hfail
      · exact ⟨.lead f, mem_own.mp hlead, (inv.history.done _ _ _ _ (mem_own.mp hdone)).2⟩
      · have hland := inv.history.waited _ _ _ (mem_own.mp hwait)
        rcases inv.history.joins _ _ _ (mem_own.mp hjoin) with hf | ⟨res', hres', hland'⟩
        · exact absurd (hland.symm.trans (inv.flight.fresh _ _ hf).2) (by simp)
        · obtain rfl := Option.some.inj (hland.symm.trans hres')
          exact ⟨.join f, mem_own.mp hjoin, hland'⟩
    obtain ⟨fl, hentered, hland⟩ := hflight
    obtain ⟨k', t₁, t₂, htr, hnot, hdone, hlead, hmade⟩ := hland.entered inv.history hentered
    obtain ⟨source, hkey', hasked', hcomp'⟩ := hmade hfail
    obtain rfl := compileCalls_source hx h hcoll hkey' hasked'
    exact ⟨fl, k', t₁, t₂, htr, hnot, hdone, hlead, hcomp'⟩
  · intro i ctx req hdid
    obtain ⟨j, rfl, rfl, rfl⟩ := compileCalls_own hx h hdid
    exact ⟨⟨j, rfl, rfl⟩, not_observes_compileCtx _⟩

/-- An engine over an executor that may do anything; `x` is the only checker source in use, and
`2d71…4881` its hash. -/
def oneCheckerEngine : JudgeEngine where
  executor := anyExecutor
  sha256 source := if source = utf8 "x" then
      [0x2d, 0x71, 0x16, 0x42, 0xb7, 0x26, 0xb0, 0x44, 0x01, 0x62, 0x7c, 0xa9, 0xfb, 0xac, 0x32, 0xf5,
        0xc8, 0x53, 0x0f, 0xb1, 0x90, 0x3c, 0xc4, 0xdb, 0x02, 0x25, 0x87, 0x17, 0x92, 0x1a, 0x48, 0x81]
    else []
  testlibHeader := utf8 "#pragma once"
  hasExternal := false
  isLetter := Char.isAlpha
  isDigit := Char.isDigit

/-- The same over containers. -/
def containerEngine : JudgeEngine := { oneCheckerEngine with executor := containerExecutor }

theorem oneCheckerEngine_quiet : oneCheckerEngine.executor.All Op.CheckerQuiet :=
  anyExecutor_all fun _ => trivial

/-- Every call compiles the checker `x`. -/
def oneCheckerCalls (j : ℕ) : Ctx × Bytes := (.request j, utf8 "x")

/-- A compiler that rejects everything. -/
def rejectingWorld : World where
  ask _
    | .compile _ _ => .ok { log := utf8 "error: expected declaration" }
    | q => calmAnswer q
  watch := World.calm.watch
  produce := World.calm.produce

/-- Call 1 joins the flight of call 0, whose compilation fails. -/
theorem compile_provenance_joined_failure :
    ∃ c : Config Op Op.Ans Tid State CompileAns,
      Reachable semantics (.start (State.new 1 1 [0]) (compileCalls oneCheckerEngine oneCheckerCalls)) c ∧
      MadeByEntered oneCheckerEngine c.trace (.judge 1) (utf8 "x")
        (.ok { log := utf8 "error: expected declaration" }) := by
  let c₀ : Config Op Op.Ans Tid State CompileAns :=
    .start (State.new 1 1 [0]) (compileCalls oneCheckerEngine oneCheckerCalls)
  let schedule := List.replicate 5 (Tid.judge 0) ++ List.replicate 3 (.judge 1) ++
    List.replicate 5 (.judge 0) ++ List.replicate 2 (.judge 1)
  obtain ⟨c, hc, hret⟩ : ∃ c, drive rejectingWorld.answer schedule c₀ = some c ∧
      c.prog (.judge 1) = .ret (.ok { log := utf8 "error: expected declaration" }) :=
    ⟨_, rfl, rfl⟩
  have hreach : Reachable semantics c₀ c :=
    drive_reachable rejectingWorld.answer_sound Relation.ReflTransGen.refl hc
  have hprov := compile_provenance oneCheckerEngine_quiet (fun _ _ _ => rfl) hreach
  refine ⟨c, hreach, (hprov.1 1 _ hret).2 ?_⟩
  rintro ⟨out, hout, hart⟩
  cases hout
  exact absurd hart (by decide)

/-! ## No duplicate compilation -/

variable (g) in
/-- Goroutine `i` has called `executor.Compile` on the checker `source`, and the call has not
returned. -/
def InFlight (tr : Trace) (i : Tid) (source : Bytes) : Prop :=
  ∃ t₁ ctx t₂, own i tr =
      t₁ ++ ⟨.mark (.enterCompile ctx (checkerCompileRequest g.testlibHeader source)), ()⟩ :: t₂ ∧
    ∀ ctx' req res, (⟨.mark (.leaveCompile ctx' req res), ()⟩ : Event Op Op.Ans) ∉ t₂

theorem inFlight_snoc_self {tr : Trace} {source : Bytes} {e : Op} {r : e.Ans}
    (h : InFlight g (tr ++ [⟨⟨e, r⟩, i⟩]) i source) :
    (∃ ctx, e = .mark (.enterCompile ctx (checkerCompileRequest g.testlibHeader source))) ∨
      InFlight g tr i source ∧ ∀ ctx req res, e ≠ .mark (.leaveCompile ctx req res) := by
  obtain ⟨t₁, ctx, t₂, hown, hopen⟩ := h
  rw [own_snoc_self] at hown
  rcases List.eq_nil_or_concat t₂ with rfl | ⟨t₃, last, rfl⟩
  · obtain ⟨-, hlast⟩ := List.append_inj' hown rfl
    exact .inl ⟨ctx, congrArg Event.op (List.cons.inj hlast).1⟩
  · rw [List.concat_eq_append, ← List.cons_append, ← List.append_assoc] at hown
    obtain ⟨hown', hlast⟩ := List.append_inj' hown rfl
    obtain rfl := (List.cons.inj hlast).1
    rw [List.concat_eq_append] at hopen
    refine .inr ⟨⟨t₁, ctx, t₃, hown', ?_⟩, ?_⟩
    · intro ctx' req res hmem
      exact hopen ctx' req res (List.mem_append_left _ hmem)
    · rintro ctx' req res rfl
      exact hopen ctx' req res (List.mem_append_right _ (List.mem_singleton.mpr rfl))

/-- An allowed operation other than a return of the executor leaves a running compilation running. -/
theorem running_next {l : CheckerLocal} {source : Bytes} {e : Op} {r : e.Ans}
    (hrun : l.running = some source) (hpre : (checkerDiscipline g).pre i l e)
    (hleave : ∀ ctx req res, e ≠ .mark (.leaveCompile ctx req res)) :
    ((checkerDiscipline g).next i l e r).running = some source := by
  by_cases hquiet : e.CheckerQuiet
  · rw [(checkerDiscipline_quiet g hquiet i l).2 r]
    exact hrun
  cases e with
  | cacheGet key => exact absurd (hrun.symm.trans hpre) (by simp)
  | flightDo key => cases r <;> exact hrun
  | mark m =>
    cases m with
    | enterCompile ctx req =>
      show (l.started (checkerSource? g req)).running = some source
      cases hsource : checkerSource? g req with
      | none => exact hrun
      | some source' => exact absurd (hrun.symm.trans (hpre source' hsource).2.2.1) (by simp)
    | leaveCompile ctx req res => exact absurd rfl (hleave ctx req res)
    | _ => exact hrun
  | _ => exact hrun

section Calls

variable (hx : g.executor.All Op.CheckerQuiet) {calls : ℕ → Ctx × Bytes} {judgeMax execMax : ℕ}
  {cpus : List ℕ} {c : Config Op Op.Ans Tid State CompileAns}
  (h : Reachable semantics (.start (State.new judgeMax execMax cpus) (compileCalls g calls)) c)

include hx h

/-- A compilation in flight is the running one of its goroutine. -/
theorem compileCalls_running {i : Tid} {source : Bytes} (hfl : InFlight g c.trace i source) :
    ((checkerDiscipline g).locals (fun _ => {}) c.trace i).running = some source := by
  suffices hall : ∀ i source, InFlight g c.trace i source →
      ((checkerDiscipline g).locals (fun _ => {}) c.trace i).running = some source from
    hall i source hfl
  refine h.induct (P := fun c => ∀ i source, InFlight g c.trace i source →
    ((checkerDiscipline g).locals (fun _ => {}) c.trace i).running = some source) ?_ ?_
  · rintro i source ⟨t₁, ctx, t₂, hown, -⟩
    exact absurd hown.symm (by simp [Config.start])
  · intro c j e k r s hc ih hprog hact i source hfl
    have hpre := (compileCalls_inv hx hc).2 j
    rw [hprog] at hpre
    simp only [Config.advance] at hfl ⊢
    rw [Discipline.locals_snoc]
    by_cases hij : i = j
    · subst hij
      rw [Function.update_self]
      rcases inFlight_snoc_self hfl with ⟨ctx, rfl⟩ | ⟨hfl', hleave⟩
      · show (CheckerLocal.started _ (checkerSource? g _)).running = some source
        rw [(checkerSource?_eq_some g).mpr rfl]
        rfl
      · exact running_next (ih i source hfl') hpre.1 hleave
    · rw [Function.update_of_ne hij]
      obtain ⟨t₁, ctx, t₂, hown, hopen⟩ := hfl
      rw [own_snoc_of_ne (Ne.symm hij)] at hown
      exact ih i source ⟨t₁, ctx, t₂, hown, hopen⟩

/-- While a source is cached, its compilation is not started. -/
theorem compileCalls_not_started {source : Bytes} {c' : Config Op Op.Ans Tid State CompileAns}
    (hrun : Relation.ReflTransGen
      (fun a b => Step semantics a b ∧ a.shared.cache (g.sha256 source) ≠ none) c c') :
    Reachable semantics (.start (State.new judgeMax execMax cpus) (compileCalls g calls)) c' ∧
      ∃ t, c'.trace = c.trace ++ t ∧ ∀ i ctx,
        ¬ Did t i (.mark (.enterCompile ctx (checkerCompileRequest g.testlibHeader source))) () := by
  induction hrun with
  | refl => exact ⟨h, [], by simp, by simp [Did]⟩
  | @tail a b _ hstep ih =>
    obtain ⟨⟨hprog, hact⟩, hcached⟩ := hstep
    rename_i j e k r s
    obtain ⟨ha, t, htr, hnot⟩ := ih
    refine ⟨ha.step hprog hact, t ++ [⟨⟨e, r⟩, j⟩], ?_, ?_⟩
    · simp only [Config.advance, htr, List.append_assoc]
    · intro i ctx hdid
      rcases did_snoc.mp hdid with hdid | heq
      · exact hnot i ctx hdid
      · cases heq
        -- only a leader that missed may start a compilation
        obtain ⟨inv, hsafe⟩ := compileCalls_inv hx ha
        have hpre := hsafe j
        rw [hprog] at hpre
        obtain ⟨hlead, hmissed, -⟩ := hpre.1 source ((checkerSource?_eq_some g).mpr rfl)
        obtain ⟨f, hlead⟩ := map_fst_eq_some.mp hlead
        obtain ⟨key, f', hlead', hnone⟩ := inv.flight.missed j hmissed
        obtain ⟨rfl, -⟩ := Prod.mk.inj (Option.some.inj (hlead.symm.trans hlead'))
        exact hcached hnone

end Calls

/-- No checker is compiled twice at a time or while its artifact is cached. In every reachable state of
any concurrent `compile` calls: compilations in flight have different hashes; the hash of one in flight
is not cached; a cache entry is an artifact that a compilation of the source with that hash returned;
and along any run in which a source stays cached its compilation is not started. -/
theorem compile_not_duplicated (hx : g.executor.All Op.CheckerQuiet) {calls : ℕ → Ctx × Bytes}
    (hcoll : ∀ j j', g.sha256 (calls j).2 = g.sha256 (calls j').2 → (calls j).2 = (calls j').2)
    {judgeMax execMax : ℕ} {cpus : List ℕ} {c : Config Op Op.Ans Tid State CompileAns}
    (h : Reachable semantics (.start (State.new judgeMax execMax cpus) (compileCalls g calls)) c) :
    (∀ i i' source source', InFlight g c.trace i source → InFlight g c.trace i' source' →
      g.sha256 source = g.sha256 source' → i = i' ∧ source = source') ∧
    (∀ i source, InFlight g c.trace i source → c.shared.cache (g.sha256 source) = none) ∧
    (∀ key v, c.shared.cache key = some v → ∃ j, key = g.sha256 (calls j).2) ∧
    (∀ j v, c.shared.cache (g.sha256 (calls j).2) = some v →
      v.artifact.isSome ∧ ∃ k, Compiled g c.trace k (calls j).2 (.ok v)) ∧
    (∀ source c', Relation.ReflTransGen
        (fun a b => Step semantics a b ∧ a.shared.cache (g.sha256 source) ≠ none) c c' →
      ∃ t, c'.trace = c.trace ++ t ∧ ∀ i ctx,
        ¬ Did t i (.mark (.enterCompile ctx (checkerCompileRequest g.testlibHeader source))) ()) := by
  obtain ⟨inv, -⟩ := compileCalls_inv hx h
  refine ⟨?_, ?_, ?_, ?_, fun source c' hrun => (compileCalls_not_started hx h hrun).2⟩
  · intro i i' source source' hfl hfl' hkey
    have hrun := compileCalls_running hx h hfl
    have hrun' := compileCalls_running hx h hfl'
    obtain ⟨f, hlead⟩ := (inv.flight.running i source hrun).2
    obtain ⟨f', hlead'⟩ := (inv.flight.running i' source' hrun').2
    rw [← hkey] at hlead'
    obtain rfl := inv.flight.lead_inj i i' _ f f' hlead hlead'
    exact ⟨rfl, Option.some.inj (hrun.symm.trans hrun')⟩
  · intro i source hfl
    obtain ⟨hmissed, f, hlead⟩ := inv.flight.running i source (compileCalls_running hx h hfl)
    obtain ⟨key, f', hlead', hnone⟩ := inv.flight.missed i hmissed
    obtain ⟨rfl, -⟩ := Prod.mk.inj (Option.some.inj (hlead.symm.trans hlead'))
    exact hnone
  · intro key v hv
    obtain ⟨-, k, source, rfl, hasked, -⟩ := inv.history.cached key v hv
    obtain ⟨j, rfl⟩ := compileCalls_asked hx h hasked
    exact ⟨j, rfl⟩
  · intro j v hv
    obtain ⟨hart, k, source, hkey, hasked, hcomp⟩ := inv.history.cached _ v hv
    obtain rfl := compileCalls_source hx h hcoll hkey hasked
    exact ⟨hart, k, hcomp⟩

theorem act_cache {s s' : State} {e : Op} {r : e.Ans} (h : act i s e r s')
    (he : ∀ key v, e ≠ .cacheAdd key v) : s'.cache = s.cache := by
  unfold act at h
  split at h
  all_goals first | exact absurd rfl (he _ _) | grind [State.setDir]

/-- An executable world evicts nothing. -/
theorem World.answer_cached {w : World} {key : Bytes} (i : Tid) (s : State) (e : Op) (r : e.Ans)
    (s' : State) (hkey : s.cache key ≠ none) (h : w.answer i s e = some (r, s')) :
    s'.cache key ≠ none := by
  cases e with
  | cacheAdd key' value =>
    cases h
    by_cases hne : key = key'
    · simp [hne]
    · simpa [Function.update_of_ne hne] using hkey
  | _ =>
    rw [act_cache (w.answer_sound _ _ _ _ _ h) (by simp)]
    exact hkey

/-- Call 1 misses before call 0 inserts its artifact, and then leads a flight of its own in which it
does not compile again. -/
theorem compile_not_duplicated_late_caller :
    ∃ c c' : Config Op Op.Ans Tid State CompileAns,
      Reachable semantics (.start (State.new 1 1 [0]) (compileCalls oneCheckerEngine oneCheckerCalls)) c ∧
      c.shared.cache (oneCheckerEngine.sha256 (utf8 "x")) ≠ none ∧
      Did c.trace (.judge 1) (.cacheGet (oneCheckerEngine.sha256 (utf8 "x"))) none ∧
      (∃ out, c'.prog (.judge 1) = .ret (.ok out)) ∧
      ∃ t, c'.trace = c.trace ++ t ∧ ∀ i ctx, ¬ Did t i (.mark (.enterCompile ctx
        (checkerCompileRequest oneCheckerEngine.testlibHeader (utf8 "x")))) () := by
  let c₀ : Config Op Op.Ans Tid State CompileAns :=
    .start (State.new 1 1 [0]) (compileCalls oneCheckerEngine oneCheckerCalls)
  let miss := List.replicate 2 (Tid.judge 1) ++ List.replicate 8 (.judge 0)
  let resume := List.replicate 3 (Tid.judge 0) ++ List.replicate 5 (.judge 1)
  obtain ⟨c, hc, hcached, hmiss⟩ : ∃ c, drive World.calm.answer miss c₀ = some c ∧
      (c.shared.cache (oneCheckerEngine.sha256 (utf8 "x"))).isSome = true ∧
      c.trace[1]? = some ⟨⟨.cacheGet (oneCheckerEngine.sha256 (utf8 "x")), none⟩, .judge 1⟩ ∧
      ∃ c', drive World.calm.answer resume c = some c' ∧ ∃ out, c'.prog (.judge 1) = .ret (.ok out) :=
    ⟨_, rfl, rfl, rfl, _, rfl, _, rfl⟩
  obtain ⟨hmiss, c', hc', hret⟩ := hmiss
  have hcached' := Option.isSome_iff_ne_none.mp hcached
  have hreach : Reachable semantics c₀ c :=
    drive_reachable World.calm.answer_sound Relation.ReflTransGen.refl hc
  have hnodup := compile_not_duplicated oneCheckerEngine_quiet (fun _ _ _ => rfl) hreach
  refine ⟨c, c', hreach, hcached', List.mem_of_getElem? hmiss, hret, ?_⟩
  refine hnodup.2.2.2.2 (utf8 "x") c' ?_
  exact drive_keeping World.calm.answer_sound World.answer_cached hcached' hc'

end Afterglow.Engine
