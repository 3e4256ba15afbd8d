import Afterglow.Service.Evidence
import Afterglow.Testlib.Bundle

/-!
# What a verdict says about an output

Reference: `internal/service/checker.go`, `internal/service/judge_service.go` and `support/checkers`.

A checker is compiled and run like any other program, and the service only sees its exit code. For the
checkers of the bundle it is known what the exit code says about the files that they are given. So if the
runs of the checker go as its source says and no limit stops them, the verdict on a case can be read as a
statement about the output of the program and the expected output.
-/

namespace Afterglow.Engine

open Concurrency Execution Service

/-- A run that ended by itself the way a checker stopped. -/
structure RunsTo (stop : Testlib.Stop) (out : RunResult) : Prop where
  exitCode : ∃ code : ℕ, stop = .exit code ∧ out.exitCode = code
  verdict : out.verdict = if out.exitCode = 0 then .ok else .re

/-- The runs of checkers in a trace are runs of the checker `b`. -/
def ChecksBy (b : Testlib.Bundled) (tr : Trace) : Prop :=
  ∀ i ctx artifact input ouf ans out,
    Did tr i (.mark (.leaveRun ctx (checkerRunRequest artifact input ouf ans) (.ok out))) () →
      RunsTo (b.main input ouf ans) out

theorem checkerRunRequest_inj {artifact artifact' : Artifact} {input ouf ans input' ouf' ans' : Bytes}
    (h : checkerRunRequest artifact input ouf ans = checkerRunRequest artifact' input' ouf' ans') :
    input = input' ∧ ouf = ouf' ∧ ans = ans' := by
  have hfiles := congrArg RunRequest.files h
  simp only [checkerRunRequest, List.cons.injEq, File.mk.injEq] at hfiles
  exact ⟨hfiles.1.2.1, hfiles.2.1.2.1, hfiles.2.2.1.2.1⟩

theorem program_request_ne_checker (p : CompiledLanguageProgram) (stdin : Bytes) (timeLimit memoryLimit : UInt32)
    (artifact : Artifact) (input ouf ans : Bytes) :
    p.request stdin timeLimit memoryLimit ≠ checkerRunRequest artifact input ouf ans := by
  intro h
  have hfiles := congrArg RunRequest.files h
  simp [CompiledLanguageProgram.request, checkerRunRequest] at hfiles

/-- The program of request `j` ran to its end on case `n`, which is `data`, and returned `runOut`. -/
def RanOn (tr : Trace) (j n : ℕ) (data : CaseData) (runOut : RunResult) : Prop :=
  ∃ batch : Batch, Did tr (.judge j) (.goCases batch) () ∧ batch.cases[n]? = some data ∧
    Did tr (.case j n) (.mark (.leaveRun batch.ctx (batch.runner.program.request data.input
      batch.runner.timeLimit batch.runner.memLimit) (.ok runOut))) () ∧ runOut.verdict = .ok

/-- How `Check` reads the exit code of a bundled checker. -/
theorem RunsTo.outcome {b : Testlib.Bundled} {inf ouf ans : Bytes} {out : RunResult}
    (h : RunsTo (b.main inf ouf ans) out) :
    ((checkerResultOf out).outcome = .accepted ↔ Testlib.Sized inf ouf ans ∧ b.Accepts ouf ans) ∧
      ((checkerResultOf out).outcome = .failed →
        Testlib.maxFileSize < inf.length ∨ Testlib.maxFileSize < ans.length ∨ ¬ b.Usable ans) := by
  obtain ⟨⟨code, hstop, hcode⟩, hverdict⟩ := h
  have hmain := b.main_verdict inf ouf ans
  rw [hstop] at hmain
  rw [hcode] at hverdict
  refine ⟨?_, ?_⟩
  · rw [checkerResultOf_accepted, ← hmain.accepts, hverdict, hcode]
    by_cases hzero : code = 0
    · simp [hzero]
    · simp [hzero]
  · intro hfailed
    apply hmain.fails
    obtain ⟨n, hn, heq⟩ := hmain.code
    obtain rfl : code = n := by simpa using heq
    by_contra hthree
    have hne : code ≠ 3 := by
      rintro rfl
      exact hthree rfl
    by_cases hzero : code = 0
    · have haccepted : (checkerResultOf out).outcome = .accepted :=
        checkerResultOf_accepted.mpr ⟨by simpa [hzero] using hverdict, by simp [hcode, hzero]⟩
      exact absurd (haccepted.symm.trans hfailed) (by simp)
    · have hrejected : (checkerResultOf out).outcome = .rejected := by
        refine checkerResultOf_rejected.mpr ⟨by simpa [hzero] using hverdict, ?_⟩
        rw [hcode]
        omega
      exact absurd (hrejected.symm.trans hfailed) (by simp)

section Calls

variable {g : JudgeEngine} (hx : g.executor.All Op.OfExecutor) {requests : ℕ → Ctx × JudgeRequest}
  {judgeMax execMax : ℕ} {cpus : List ℕ} {c : Config Op Op.Ans Tid State JudgeAns}
  (h : Reachable semantics (.start (State.new judgeMax execMax cpus) (judgeCalls g requests)) c)

include hx h

/-- A case on which the checker ran: its program had run to its end, and the checker decides. -/
theorem checked_case {j n : ℕ} {res : JudgeCaseResult} (hend : Did c.trace (.case j n) (.caseEnd res) ())
    {ctx : Ctx} {artifact : Artifact} {input ouf ans : Bytes} {out : RunResult}
    (hchecked : Did c.trace (.case j n)
      (.mark (.leaveRun ctx (checkerRunRequest artifact input ouf ans) (.ok out))) ()) :
    ∃ data runOut, RanOn c.trace j n data runOut ∧ input = data.input ∧ ouf = runOut.stdout ∧
      ans = data.expectedOutput ∧
      ∃ userChecker, res.verdict = checkVerdict userChecker (checkerResultOf out).outcome := by
  obtain ⟨batch, data, ms, hgo, hdata, hcourse, hcase⟩ := case_course hx h hend
  have hdid : ∀ ctx' req res', .ran ctx' req res' ∈ ms →
      Did c.trace (.case j n) (.mark (.leaveRun ctx' req res')) () := by
    intro ctx' req res' hmem
    have hown : .ran ctx' req res' ∈ course (own (.case j n) c.trace) := by
      rw [hcourse]
      simp [hmem]
    exact mem_own.mp (mem_course.mp hown)
  have hmem : .ran ctx (checkerRunRequest artifact input ouf ans) (.ok out) ∈ ms := by
    have hown : .ran ctx (checkerRunRequest artifact input ouf ans) (.ok out) ∈
        course (own (.case j n) c.trace) := mem_course.mpr (mem_own.mpr hchecked)
    rw [hcourse] at hown
    simpa using hown
  cases hcase with
  | failed e | stopped runOut hstopped =>
    simp only [List.mem_singleton, Milestone.ran.injEq] at hmem
    exact absurd hmem.2.1.symm (program_request_ne_checker _ _ _ _ _ _ _ _)
  | checked runOut checked hok =>
    have hran := hdid _ _ _ List.mem_cons_self
    simp only [List.mem_cons, Milestone.ran.injEq, List.not_mem_nil, or_false] at hmem
    rcases hmem with ⟨-, hreq, -⟩ | ⟨-, hreq, rfl⟩
    · exact absurd hreq.symm (program_request_ne_checker _ _ _ _ _ _ _ _)
    · obtain ⟨rfl, rfl, rfl⟩ := checkerRunRequest_inj hreq
      rw [normalizeLanguageRunResult_stdout]
      exact ⟨data, runOut, ⟨batch, hgo, hdata, hran, normalizeLanguageRunResult_ok hok⟩, rfl, rfl, rfl,
        batch.runner.userChecker, rfl⟩

end Calls

/-- What a verdict says about an output. If the runs of the checker are runs of the bundled checker `b`,
then a case on which it ran is OK exactly if the checker accepts what the program wrote for the expected
output; and if any output at all would be accepted, the verdict is OK or WA, and not a failure of the
checker. -/
theorem bundled_verdict {g : JudgeEngine} (hx : g.executor.All Op.OfExecutor)
    {requests : ℕ → Ctx × JudgeRequest} {judgeMax execMax : ℕ} {cpus : List ℕ}
    {c : Config Op Op.Ans Tid State JudgeAns}
    (h : Reachable semantics (.start (State.new judgeMax execMax cpus) (judgeCalls g requests)) c)
    {b : Testlib.Bundled} (hb : ChecksBy b c.trace) {j n : ℕ} {res : JudgeCaseResult}
    (hend : Did c.trace (.case j n) (.caseEnd res) ())
    (hchecked : ∃ ctx artifact input ouf ans out, Did c.trace (.case j n)
      (.mark (.leaveRun ctx (checkerRunRequest artifact input ouf ans) (.ok out))) ()) :
    ∃ data runOut, RanOn c.trace j n data runOut ∧
      (res.verdict = .ok ↔ Testlib.Sized data.input runOut.stdout data.expectedOutput ∧
        b.Accepts runOut.stdout data.expectedOutput) ∧
      ∀ ouf, Testlib.Sized data.input ouf data.expectedOutput → b.Accepts ouf data.expectedOutput →
        res.verdict = .ok ∨ res.verdict = .wa := by
  obtain ⟨ctx, artifact, input, ouf, ans, out, hdid⟩ := hchecked
  obtain ⟨data, runOut, hran, rfl, rfl, rfl, userChecker, hverdict⟩ := checked_case hx h hend hdid
  obtain ⟨haccepted, hfailed⟩ := (hb _ _ _ _ _ _ _ hdid).outcome
  refine ⟨data, runOut, hran, ?_, ?_⟩
  · rw [hverdict, checkVerdict_eq_ok, haccepted]
  · intro ouf' hsized haccepts
    rw [hverdict, checkVerdict_eq_ok, checkVerdict_eq_wa]
    cases houtcome : (checkerResultOf out).outcome with
    | accepted => exact .inl rfl
    | rejected => exact .inr rfl
    | failed =>
      exfalso
      rcases hfailed houtcome with hlarge | hlarge | hbad
      · exact absurd hsized.inf (by omega)
      · exact absurd hsized.ans (by omega)
      · exact hbad haccepts.usable

theorem ran_ok : Verdict.Ran .ok := .inl rfl

/-- A program that writes `7` and a line feed, and a checker that accepts it. -/
def sevenWorld : World where
  ask _
    | .run ctx req => if req.files = [] then .ok ⟨⟨.ok, 0, [55, 10], [], 0, 0, []⟩, ran_ok⟩
        else calmAnswer (.run ctx req)
    | q => calmAnswer q
  watch := World.calm.watch
  produce := World.calm.produce

/-- All requests expect `7`. -/
def sevenRequests (j : ℕ) : Ctx × JudgeRequest :=
  (.request j, { (inlineRequests j).2 with testCases := [{ inputText := "", expectedOutput := "7" }] })

/-- A run of the checker on these files. -/
def sevenEvent : Event Op Op.Ans → Bool
  | ⟨.mark (.leaveRun _ req (.ok out)), _⟩ => req.files = [] ∨
      req.files.map File.content = [[], [55, 10], [55]] ∧ out.exitCode = 0 ∧ out.verdict = .ok
  | _ => true

def isChecked : Event Op Op.Ans → Bool
  | ⟨.mark (.leaveRun _ req (.ok _)), _⟩ => req = checkerRunRequest req.artifact [] [55, 10] [55]
  | _ => false

theorem sevenEvent_checksBy {tr : Trace} (h : ∀ en ∈ tr, sevenEvent en.toEvent = true) :
    ChecksBy .fcmp tr := by
  intro i ctx artifact input ouf ans out hdid
  have hevent := of_decide_eq_true (h _ hdid)
  simp only [checkerRunRequest, reduceCtorEq, List.map_cons, List.map_nil, false_or, List.cons.injEq] at hevent
  obtain ⟨⟨rfl, rfl, rfl, -⟩, hcode, hverdict⟩ := hevent
  exact ⟨⟨0, Testlib.fcmp_accepts_seven, hcode⟩, by rw [hverdict, if_pos hcode]⟩

/-- What was stored for a case. -/
def endedWith : Event Op Op.Ans → Option JudgeCaseResult
  | ⟨.caseEnd res, _⟩ => some res
  | _ => none

theorem bundled_verdict_seven :
    ∃ c : Config Op Op.Ans Tid State JudgeAns,
      Reachable semantics (.start (State.new 1 1 [0]) (judgeCalls oneCheckerEngine sevenRequests)) c ∧
      ∃ res data runOut, Did c.trace (.case 0 0) (.caseEnd res) () ∧ RanOn c.trace 0 0 data runOut ∧
        (res.verdict = .ok ↔ Testlib.Sized data.input runOut.stdout data.expectedOutput ∧
          Testlib.Bundled.fcmp.Accepts runOut.stdout data.expectedOutput) := by
  let schedule := List.replicate 16 (Tid.judge 0) ++ List.replicate 8 (.case 0 0)
  have hrun : (drive sevenWorld.answer schedule
      (.start (State.new 1 1 [0]) (judgeCalls oneCheckerEngine sevenRequests))).map (fun c =>
        (c.trace.all fun en => sevenEvent en.toEvent, (own (.case 0 0) c.trace).any isChecked,
          ((own (.case 0 0) c.trace).any fun ev => (endedWith ev).isSome))) =
      some (true, true, true) := by decide +kernel
  obtain ⟨c, hc, heq⟩ := Option.map_eq_some_iff.mp hrun
  simp only [Prod.mk.injEq] at heq
  obtain ⟨hseven, hchecked, hended⟩ := heq
  have hreach : Reachable semantics
      (.start (State.new 1 1 [0]) (judgeCalls oneCheckerEngine sevenRequests)) c :=
    drive_reachable sevenWorld.answer_sound Relation.ReflTransGen.refl hc
  obtain ⟨ev, hev, hsome⟩ := List.any_eq_true.mp hended
  obtain ⟨res, hres⟩ := Option.isSome_iff_exists.mp hsome
  have hend : Did c.trace (.case 0 0) (.caseEnd res) () := by
    unfold endedWith at hres
    split at hres
    · obtain rfl := Option.some.inj hres
      exact mem_own.mp hev
    · cases hres
  obtain ⟨ev', hev', hrun'⟩ := List.any_eq_true.mp hchecked
  have hran : ∃ ctx artifact input ouf ans out, Did c.trace (.case 0 0)
      (.mark (.leaveRun ctx (checkerRunRequest artifact input ouf ans) (.ok out))) () := by
    unfold isChecked at hrun'
    split at hrun'
    · next ctx req out u =>
        have hreq := of_decide_eq_true hrun'
        rw [hreq] at hev'
        exact ⟨ctx, req.artifact, [], [55, 10], [55], out, mem_own.mp hev'⟩
    · cases hrun'
  obtain ⟨data, runOut, hdata, hiff, -⟩ := bundled_verdict anyExecutor_ofExecutor hreach
    (sevenEvent_checksBy (List.all_eq_true.mp hseven)) hend hran
  exact ⟨c, hreach, res, data, runOut, hend, hdata, hiff⟩

end Afterglow.Engine
