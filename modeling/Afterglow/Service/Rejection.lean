import Afterglow.Service.Attribution

/-!
# Rejection is exact

Reference: `Judge`, `materialize` and `executeJudgePlan` in `internal/service/judge_service.go`.

The reasons to reject a request are those of `Rejected`. A request that is rejected leaves no trace but
its reads; one that is not is judged to its end, case by case, on what it read beforehand.
-/

namespace Afterglow.Engine

open Concurrency Execution Service

variable {g : JudgeEngine} {ctx : Ctx} {fsys : FileSystem}

/-- Request `j` called no executor, left the checker cache as it was, and gave its judge slot back. -/
structure NoEffects (tr : Trace) (j : ℕ) : Prop where
  compile : ∀ i ctx req, i.request = j → ¬ Did tr i (.mark (.enterCompile ctx req)) ()
  run : ∀ i ctx req, i.request = j → ¬ Did tr i (.mark (.enterRun ctx req)) ()
  cache : ∀ i e r s s', i.request = j → Did tr i e r → act i s e r s' → s'.cache = s.cache
  slot : own (.judge j) tr = [] ∨ ∃ ctx reads, (∀ ev ∈ reads, ev.op.ReadsResource) ∧
    own (.judge j) tr = ⟨.judgeAcquire ctx, none⟩ :: (reads ++ [⟨.judgeRelease, ()⟩])

/-- A case is judged with both its texts or with the contents of both its files. -/
def JudgedWith (g : JudgeEngine) (fsys : FileSystem) (testCase : JudgeTestCase) (data : CaseData) : Prop :=
  testCase.inputFile = "" ∧ testCase.expectedOutputFile = "" ∧
      data = { input := utf8 testCase.inputText, expectedOutput := utf8 testCase.expectedOutput } ∨
    testCase.inputFile ≠ "" ∧ testCase.expectedOutputFile ≠ "" ∧
      externalFile g fsys testCase.inputFile = some data.input ∧
      externalFile g fsys testCase.expectedOutputFile = some data.expectedOutput

/-- Request `j` read all it names before it called the executor. -/
structure ReadFirst (tr : Trace) (j : ℕ) : Prop where
  order : ∃ ctx reads rest, own (.judge j) tr = ⟨.judgeAcquire ctx, none⟩ :: (reads ++ rest) ∧
    (∀ ev ∈ reads, ev.op.ReadsResource) ∧ ∀ ev ∈ rest, ¬ ev.op.ReadsResource
  cases : ∀ n, ∀ ev ∈ own (.case j n) tr, ¬ ev.op.ReadsResource

/-- The program of request `j` or its checker was compiled and there is no artifact. -/
def NotCompiled (req : JudgeRequest) (tr : Trace) (j : ℕ) : Prop :=
  ∃ res : Except Err Execution.CompileResult, (∀ out, res = .ok out → out.artifact = none) ∧
    ((∃ profile, profileForLanguage req.language = .ok profile ∧ ProgramCompile req profile tr j res) ∨
      CheckerCompile tr j res)

/-- The cases of request `j` are judged: all of them, unless its program or its checker did not compile, and
each of them from its beginning to the entry of the result, with its own data. No other case is begun. -/
structure CasesJudged (g : JudgeEngine) (fsys : FileSystem) (req : JudgeRequest) (tr : Trace) (j : ℕ)
    (result : JudgeResult) : Prop where
  all : result.cases.length = req.testCases.length ∨ result.cases = [] ∧ NotCompiled req tr j
  each : ∀ n entry, result.cases[n]? = some entry →
    ∃ testCase data ctx runner ms, req.testCases[n]? = some testCase ∧ JudgedWith g fsys testCase data ∧
      course (own (.case j n) tr) = .begun ctx runner data :: (ms ++ [.ended entry]) ∧
      CaseCourse ctx runner data ms entry
  others : ∀ n, result.cases[n]? = none → own (.case j n) tr = []

theorem caseContents_judgedWith {testCase : JudgeTestCase} {data : CaseData}
    (hw : WellFormedCase testCase) (h : caseContents g fsys testCase = some data) :
    JudgedWith g fsys testCase data := by
  unfold caseContents at h
  split at h
  case isTrue htext =>
    obtain rfl := Option.some.inj h
    exact .inl ⟨htext, hw.paired.mp htext, rfl⟩
  case isFalse hfile =>
    obtain ⟨input, hinput, h'⟩ := Option.bind_eq_some_iff.mp h
    obtain ⟨expectedOutput, hexpected, rfl⟩ := Option.map_eq_some_iff.mp h'
    exact .inr ⟨hfile, fun h => hfile (hw.paired.mpr h), hinput, hexpected⟩

/-- The data of a case of a plan. -/
theorem planCase_judgedWith {req : JudgeRequest} {profile : LanguageProfile} {choice : CheckerChoice}
    {plan : JudgePlan} (hw : WellFormed req) (hplan : materialized g fsys req profile choice = some plan)
    {n : ℕ} {data : CaseData} (hdata : plan.cases[n]? = some data) :
    ∃ testCase, req.testCases[n]? = some testCase ∧ JudgedWith g fsys testCase data := by
  obtain ⟨src, -, hplan'⟩ := Option.bind_eq_some_iff.mp hplan
  obtain ⟨cases, hall, rfl⟩ := Option.map_eq_some_iff.mp hplan'
  have hforall := allContents_eq_some.mp hall
  obtain ⟨hlt, hget⟩ := List.getElem?_eq_some_iff.mp hdata
  have hlt' : n < req.testCases.length := by
    rw [hforall.length_eq]
    exact hlt
  refine ⟨req.testCases[n], List.getElem?_eq_getElem hlt', ?_⟩
  refine caseContents_judgedWith (hw.cases _ (List.getElem_mem hlt')) ?_
  rw [← hget]
  exact hforall.get hlt' hlt

theorem not_reads_of_ofPlan {e : Op} {cases : List CaseData} (he : OfPlan cases e) : ¬ e.ReadsResource := by
  unfold OfPlan at he
  unfold Op.ReadsResource
  split at he <;> simp_all

theorem not_reads_of_ofCase {e : Op} (he : e.OfCase) : ¬ e.ReadsResource := by
  unfold Op.OfCase at he
  unfold Op.ReadsResource
  split at he <;> simp_all

/-- The operations of a request that is not judged. -/
def Op.OfAdmission : Op → Prop
  | .judgeAcquire _ | .judgeRelease | .ask (.readResource _ _) => True
  | _ => False

theorem Op.ReadsResource.ofAdmission {e : Op} (he : e.ReadsResource) : e.OfAdmission := by
  unfold Op.ReadsResource at he
  split at he <;> trivial

theorem Op.OfAdmission.quiet {e : Op} (he : e.OfAdmission) : e.CheckerQuiet := by
  unfold Op.OfAdmission at he
  split at he <;> trivial

section Exact

variable (hx : g.executor.All Op.OfExecutor) {requests : ℕ → Ctx × JudgeRequest} {judgeMax execMax : ℕ}
  {cpus : List ℕ} {c : Config Op Op.Ans Tid State JudgeAns}
  (h : Reachable semantics (.start (State.new judgeMax execMax cpus) (judgeCalls g requests)) c)

include hx h

/-- A request that has only read has no effects. -/
theorem noEffects_of_slot {j : ℕ}
    (hslot : own (.judge j) c.trace = [] ∨ ∃ ctx reads, (∀ ev ∈ reads, ev.op.ReadsResource) ∧
      own (.judge j) c.trace = ⟨.judgeAcquire ctx, none⟩ :: (reads ++ [⟨.judgeRelease, ()⟩])) :
    NoEffects c.trace j := by
  have hjudge : ∀ ev ∈ own (.judge j) c.trace, ev.op.OfAdmission := by
    intro ev hev
    rcases hslot with hown | ⟨ctx, reads, hreads, hown⟩
    · rw [hown] at hev
      cases hev
    · rw [hown, List.mem_cons, List.mem_append, List.mem_singleton] at hev
      rcases hev with rfl | hev | rfl
      · trivial
      · exact (hreads ev hev).ofAdmission
      · trivial
  -- no batch was handed over, so no goroutine of a case has begun
  have hidle : ∀ n, own (.case j n) c.trace = [] := fun n =>
    case_idle hx h fun batch hgo => absurd (hjudge _ (mem_own.mpr hgo)) id
  have hall : ∀ i e (r : e.Ans), i.request = j → Did c.trace i e r → e.OfAdmission := by
    intro i e r hi hdid
    have hmem := mem_own.mpr hdid
    cases i with
    | judge j' =>
      obtain rfl : j' = j := hi
      exact hjudge _ hmem
    | case j' n =>
      obtain rfl : j' = j := hi
      rw [hidle n] at hmem
      cases hmem
  exact {
    compile := fun i ctx req hi hdid => hall i _ _ hi hdid
    run := fun i ctx req hi hdid => hall i _ _ hi hdid
    cache := fun i e r s s' hi hdid hact => (act_quiet (hall i e r hi hdid).quiet hact).1
    slot := hslot }

/-- The cases of a request that was carried out. -/
theorem casesJudged {j : ℕ} {profile : LanguageProfile} {choice : CheckerChoice} {plan : JudgePlan}
    {result : JudgeResult} (hresolved : Resolved g (requests j).2 profile choice)
    (hplanOf : PlanOf (requests j).2 profile choice (own (.judge j) c.trace) plan)
    (hplan : materialized g fsys (requests j).2 profile choice = some plan)
    (hcourse : PlanCourse g ctx plan (course (own (.judge j) c.trace)) result) :
    CasesJudged g fsys (requests j).2 c.trace j result := by
  have hfor := hplanOf.planFor hresolved
  -- without an artifact there are no cases
  have hnone : ∀ result : JudgeResult, result.cases = [] → NotCompiled (requests j).2 c.trace j →
      (∀ batch, .started batch ∉ course (own (.judge j) c.trace)) →
      CasesJudged g fsys (requests j).2 c.trace j result := by
    intro result hnil hnot hstarted
    refine ⟨.inr ⟨hnil, hnot⟩, fun n entry hentry => ?_, fun n _ => cases_idle hx h hstarted n⟩
    rw [hnil] at hentry
    cases hentry
  have hprogram : ∀ res, .compiled ctx (plan.profile.compile.request plan.sourceCode) res ∈
      course (own (.judge j) c.trace) → ProgramCompile (requests j).2 profile c.trace j res := by
    intro res hmem
    rw [hfor.profile, hfor.sourceCode] at hmem
    exact programCompile_iff.mpr ⟨ctx, hmem⟩
  have hchecker : ∀ {ms res}, CheckerCourse g ctx plan.checker ms res →
      ms ⊆ course (own (.judge j) c.trace) → CheckerCompile c.trace j res := by
    intro ms res hc hsub
    obtain ⟨ctx', source, hmem⟩ := hc.checker_mem.mpr rfl
    exact checkerCompile_iff.mpr ⟨ctx', source, hsub hmem⟩
  generalize hms : course (own (.judge j) c.trace) = ms at hcourse hprogram hchecker hnone
  cases hcourse with
  | failed e =>
    exact hnone _ rfl ⟨_, by simp, .inl ⟨profile, hresolved.profile, hprogram _ List.mem_cons_self⟩⟩
      (by simp)
  | rejected log =>
    exact hnone _ rfl ⟨_, by simp, .inl ⟨profile, hresolved.profile, hprogram _ List.mem_cons_self⟩⟩
      (by simp)
  | checkerFailed log artifact e hc =>
    exact hnone _ rfl ⟨_, by simp, .inr (hchecker hc (List.subset_cons_self _ _))⟩
      (by simp [hc.not_started])
  | checkerRejected log artifact checkerLog hc =>
    exact hnone _ rfl ⟨_, by simp, .inr (hchecker hc (List.subset_cons_self _ _))⟩
      (by simp [hc.not_started])
  | judged log artifact checkerLog checker results hc =>
    have hover : CasesOver c.trace j (plan.batch ctx artifact checker) results := by
      refine casesOver hx h (by simp [hms]) fun batch hbatch => ?_
      rw [hms] at hbatch
      simpa [hc.not_started] using hbatch
    refine ⟨.inl (hover.length.trans hfor.cases), fun n entry hentry => ?_, hover.idle⟩
    obtain ⟨data, ms, hdata, hcase, hrun⟩ := hover.ended n entry hentry
    obtain ⟨testCase, htestCase, hwith⟩ := planCase_judgedWith hresolved.wellFormed hplan hdata
    exact ⟨testCase, data, _, _, ms, htestCase, hwith, hcase, hrun⟩

/-- **Rejection is exact and free of effects.** A request that got its judge slot when it asked for one,
and whose reads were answered by `fsys`, returned an error exactly if there is a reason to reject it. Then
the result beside the error is zero, and the request has called no executor, left the cache alone and
given its slot back. Otherwise the error is nil whatever the executor did; all that the request names was
read first, and its cases were judged on that. -/
theorem judge_rejects_exactly {j : ℕ} {res : JudgeResult × Option Err}
    (hret : c.prog (.judge j) = .ret res)
    (hslot : ∀ ctx e, ¬ Did c.trace (.judge j) (.judgeAcquire ctx) (some e))
    (hreads : ReadsFrom fsys (own (.judge j) c.trace)) :
    ((∃ e, res.2 = some e) ↔ Rejected g fsys (requests j).2) ∧
    (Rejected g fsys (requests j).2 → res.1 = {} ∧ NoEffects c.trace j) ∧
    (¬ Rejected g fsys (requests j).2 → ReadFirst c.trace j ∧
      CasesJudged g fsys (requests j).2 c.trace j res.1) := by
  have hruns : (judge g (requests j).1 (requests j).2).Runs (own (.judge j) c.trace) res :=
    h.own_runs hret
  have hslot' : ∀ e, ⟨.judgeAcquire (requests j).1, some e⟩ ∉ own (.judge j) c.trace :=
    fun e hmem => hslot _ e (mem_own.mp hmem)
  obtain ⟨result, _ | e⟩ := res
  -- without an error the request was resolved and materialized, and then carried out
  · obtain ⟨profile, choice, plan, reads, rest, hresolved, hown, hmaterialize, hplan⟩ :=
      judge_runs_ok hruns hslot'
    have hmaterialized : materialized g fsys (requests j).2 profile choice = some plan := by
      rw [hown] at hreads
      exact (materialize_runs hmaterialize hreads.tail.left).symm
    have haccepted : ¬ Rejected g fsys (requests j).2 := not_rejected_iff.mpr
      ⟨hresolved.wellFormed, profile, choice, plan, hresolved.profile, hresolved.choice, hmaterialized⟩
    obtain ⟨hplanOf, hcourse⟩ := admitted_course hx hmaterialize hplan hown
    have hrest : ∀ ev ∈ rest ++ [⟨.judgeRelease, ()⟩], ¬ ev.op.ReadsResource := by
      intro ev hev
      rcases List.mem_append.mp hev with hev | hev
      · exact not_reads_of_ofPlan (hplan.all (executeJudgePlan_all hx plan) ev hev)
      · rw [List.mem_singleton.mp hev]
        exact id
    refine ⟨iff_of_false (by simp) haccepted, fun hr => absurd hr haccepted, fun _ => ⟨?_, ?_⟩⟩
    · exact {
        order := ⟨_, reads, _, hown, hmaterialize.all (materialize_all _ _ _), hrest⟩
        cases := fun n ev hev =>
          not_reads_of_ofCase (((h.own_after (.case j n)).all (caseThread_ofCase hx)).1 ev hev) }
    · exact casesJudged hx h hresolved hplanOf hmaterialized hcourse
  -- an error is one of the checks, without the slot, or of the reads, within it
  · obtain ⟨rfl, ⟨hunresolved, hown⟩ | ⟨profile, choice, reads, hresolved, hown, hmaterialize⟩⟩ :=
      judge_runs_error hruns hslot'
    · have hrejected : Rejected g fsys (requests j).2 := by
        by_contra haccepted
        obtain ⟨hw, profile, choice, plan, hprofile, hchoice, -⟩ := not_rejected_iff.mp haccepted
        exact hunresolved profile choice ⟨hw, hprofile, hchoice⟩
      exact ⟨iff_of_true ⟨e, rfl⟩ hrejected, fun _ => ⟨rfl, noEffects_of_slot hx h (.inl hown)⟩,
        fun hn => absurd hrejected hn⟩
    · have hrejected : Rejected g fsys (requests j).2 := by
        by_contra haccepted
        obtain ⟨hw, profile', choice', plan, hprofile, hchoice, hplan⟩ := not_rejected_iff.mp haccepted
        obtain rfl := Except.ok.inj (hprofile.symm.trans hresolved.profile)
        obtain rfl := Except.ok.inj (hchoice.symm.trans hresolved.choice)
        rw [hown] at hreads
        rw [← materialize_runs hmaterialize hreads.tail.left] at hplan
        cases hplan
      have hall := hmaterialize.all (materialize_all _ _ _)
      exact ⟨iff_of_true ⟨e, rfl⟩ hrejected,
        fun _ => ⟨rfl, noEffects_of_slot hx h (.inr ⟨_, reads, hall, hown⟩)⟩,
        fun hn => absurd hrejected hn⟩

end Exact

/-- A read of a resource and its answer. -/
structure Read where
  fs : Resources
  name : String
  answer : Except Err Bytes
deriving DecidableEq

/-- The reads among some events. -/
def readsOf (events : List (Event Op Op.Ans)) : List Read :=
  events.filterMap fun ev =>
    match ev with
    | ⟨.ask (.readResource fs name), r⟩ => some ⟨fs, name, r⟩
    | _ => none

/-- The built-in checkers are empty, and there are two external files. -/
def smallDisk : FileSystem
  | .bundled, _ => .ok []
  | .external, name =>
    if name = "1.in" then .ok (utf8 "1 2\n") else if name = "1.ans" then .ok (utf8 "3\n")
    else .error (.text "file does not exist")

/-- Resources are read from `smallDisk`. -/
def diskWorld : World where
  ask _
    | .readResource fs name => smallDisk fs name
    | q => calmAnswer q
  watch := World.calm.watch
  produce := World.calm.produce

def diskEngine : JudgeEngine := { oneCheckerEngine with hasExternal := true }

/-- Request 0 names an expected output that is not there, the others one that is. -/
def diskRequests (j : ℕ) : Ctx × JudgeRequest := (.request j,
  { sourceCode := "int main() {}"
    language := .c
    timeLimit := 1000
    memoryLimit := 256
    testCases := [{ inputFile := "1.in", expectedOutputFile := if j = 0 then "1.out" else "1.ans" }] })

/-- The reads of a goroutine were answered by `smallDisk`, and its slot was not refused. -/
def onSmallDisk (events : List (Event Op Op.Ans)) : Bool :=
  (readsOf events).all (fun read => read.answer = smallDisk read.fs read.name) && refusals events == 0

theorem readsFrom_smallDisk {events : List (Event Op Op.Ans)} (h : onSmallDisk events = true) :
    ReadsFrom smallDisk events := by
  rw [onSmallDisk, Bool.and_eq_true, List.all_eq_true] at h
  intro fs name r hmem
  exact of_decide_eq_true (h.1 ⟨fs, name, r⟩ (List.mem_filterMap.mpr ⟨_, hmem, rfl⟩))

theorem not_refused_of_smallDisk {i : Tid} {tr : Trace} (h : onSmallDisk (own i tr) = true) (ctx : Ctx)
    (e : Err) : ¬ Did tr i (.judgeAcquire ctx) (some e) := by
  rw [onSmallDisk, Bool.and_eq_true, beq_iff_eq] at h
  exact fun hdid => List.countP_eq_zero.mp h.2 _ (mem_own.mpr hdid) rfl

/-- Request 0 is rejected after its input was read; request 1 has its case judged on both its files. -/
theorem judge_rejects_exactly_missing_file :
    ∃ c : Config Op Op.Ans Tid State JudgeAns,
      Reachable semantics (.start (State.new 1 1 [0]) (judgeCalls diskEngine diskRequests)) c ∧
      Rejected diskEngine smallDisk (diskRequests 0).2 ∧
      (∃ e, c.prog (.judge 0) = .ret ({}, some e)) ∧ NoEffects c.trace 0 ∧
      ∃ result, c.prog (.judge 1) = .ret (result, none) ∧ result.cases.length = 1 ∧
        CasesJudged diskEngine smallDisk (diskRequests 1).2 c.trace 1 result := by
  let schedule := List.replicate 5 (Tid.judge 0) ++ List.replicate 19 (.judge 1) ++
    List.replicate 8 (.case 1 0) ++ List.replicate 2 (.judge 1)
  have hrun : (drive diskWorld.answer schedule
      (.start (State.new 1 1 [0]) (judgeCalls diskEngine diskRequests))).map (fun c =>
        ((c.prog (.judge 0)).returned?.isSome,
          (c.prog (.judge 1)).returned?.map fun res => (res.1.cases.length, res.2),
          onSmallDisk (own (.judge 0) c.trace), onSmallDisk (own (.judge 1) c.trace))) =
      some (true, some (1, none), true, true) := by decide +kernel
  obtain ⟨c, hc, heq⟩ := Option.map_eq_some_iff.mp hrun
  simp only [Prod.mk.injEq, Option.isSome_iff_exists] at heq
  obtain ⟨⟨⟨result₀, err⟩, hret₀⟩, hret₁, hdisk₀, hdisk₁⟩ := heq
  obtain ⟨⟨result, err'⟩, hret₁, hlen⟩ := Option.map_eq_some_iff.mp hret₁
  obtain ⟨hlen, rfl⟩ := Prod.mk.inj hlen
  have hreach : Reachable semantics (.start (State.new 1 1 [0]) (judgeCalls diskEngine diskRequests)) c :=
    drive_reachable diskWorld.answer_sound Relation.ReflTransGen.refl hc
  have hrejected : Rejected diskEngine smallDisk (diskRequests 0).2 :=
    .file _ (List.mem_singleton_self _) "1.out" (by simp) (by simp) rfl
  obtain ⟨herror, heffects, -⟩ := judge_rejects_exactly anyExecutor_ofExecutor hreach
    (Prog.returned?_eq_some.mp hret₀) (not_refused_of_smallDisk hdisk₀) (readsFrom_smallDisk hdisk₀)
  obtain ⟨haccepted, -, hjudged⟩ := judge_rejects_exactly anyExecutor_ofExecutor hreach
    (Prog.returned?_eq_some.mp hret₁) (not_refused_of_smallDisk hdisk₁) (readsFrom_smallDisk hdisk₁)
  obtain ⟨e, rfl⟩ : ∃ e, err = some e := herror.mpr hrejected
  obtain ⟨rfl, hnone⟩ : result₀ = {} ∧ NoEffects c.trace 0 := heffects hrejected
  have hfine : ¬ Rejected diskEngine smallDisk (diskRequests 1).2 := by
    intro hr
    obtain ⟨e', he'⟩ := haccepted.mpr hr
    cases he'
  exact ⟨c, hreach, hrejected, ⟨e, Prog.returned?_eq_some.mp hret₀⟩, hnone, result,
    Prog.returned?_eq_some.mp hret₁, hlen, (hjudged hfine).2⟩

end Afterglow.Engine
