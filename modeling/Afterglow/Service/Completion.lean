import Afterglow.Concurrency.Termination
import Afterglow.Service.Course
import Afterglow.Service.Progress

/-!
# Every run completes

That no reachable state is stuck does not mean that requests are ever finished: goroutines could go on
forever. They cannot. A request is judged by at most one goroutine and one for each of its at most 64
cases, and each of them is a finite program. So any run of finitely many requests is finite, and the state
that it ends in is one in which every call has returned and everything shared has been given back.

Requests are numbered without end here. That there are `n` of them is said by letting the others be
refused at once.
-/

namespace Afterglow.Engine

open Concurrency Execution Service

variable {g : JudgeEngine} {ctx : Ctx}

/-! ## The goroutines that take part -/

/-- An invalid request returns at once. -/
theorem judge_invalid {req : JudgeRequest} (h : validateJudgeRequest req ≠ none) :
    ∃ e, judge g ctx req = .ret ({}, some e) := by
  obtain ⟨e, he⟩ := Option.ne_none_iff_exists'.mp h
  exact ⟨e, by rw [judge, he]; rfl⟩

/-- A request starts at most as many cases as it may have. -/
def FewCases : Op → Prop
  | .goCases batch => batch.cases.length ≤ maxTestCases
  | _ => True

theorem OfPlan.fewCases {cases : List CaseData} (hlen : cases.length ≤ maxTestCases) {e : Op}
    (he : OfPlan cases e) : FewCases e := by
  unfold FewCases
  split
  · rw [show _ = cases from he]
    exact hlen
  · trivial

theorem Op.ReadsResource.fewCases {e : Op} (he : e.ReadsResource) : FewCases e := by
  unfold FewCases
  split
  · exact absurd he id
  · trivial

theorem materialize_length (req : JudgeRequest) (profile : LanguageProfile) (choice : CheckerChoice) :
    (materialize g req profile choice).Returns fun res =>
      ∀ plan, res = .ok plan → plan.cases.length = req.testCases.length := by
  refine Prog.returns_of_runs fun tr res hruns plan hres => ?_
  subst hres
  exact (materialize_planOf hruns).cases.length_eq.symm

theorem judge_fewCases (hx : g.executor.All Op.OfExecutor) (req : JudgeRequest) :
    (judge g ctx req).All FewCases := by
  unfold judge
  split
  · trivial
  case h_2 hvalid =>
    have hlen : req.testCases.length ≤ maxTestCases := (validateJudgeRequest_eq_none.mp hvalid).cases_le
    split
    · trivial
    split
    · trivial
    · next choice _ =>
        refine Prog.All.perform trivial fun acquired => ?_
        match acquired with
        | some e => trivial
        | none =>
          refine Prog.All.deferring ⟨trivial, fun _ => trivial⟩ ?_
          refine Prog.All.bind_returns ((materialize_all _ _ choice).mono fun _ he => he.fewCases)
            (materialize_length _ _ choice) fun plan hplan => ?_
          match plan with
          | .error e => trivial
          | .ok plan =>
            have hfew : plan.cases.length ≤ maxTestCases := (hplan plan rfl).trans_le hlen
            exact Prog.All.bind ((executeJudgePlan_all hx plan).mono fun _ he => he.fewCases hfew)
              fun _ => trivial

/-- The goroutines of the first `n` requests. -/
def goroutines (n : ℕ) : List Tid :=
  (List.range n).flatMap fun j => .judge j :: (List.range maxTestCases).map (.case j)

theorem judge_mem_goroutines {n j : ℕ} : .judge j ∈ goroutines n ↔ j < n := by
  simp [goroutines]

theorem case_mem_goroutines {n j i : ℕ} : .case j i ∈ goroutines n ↔ j < n ∧ i < maxTestCases := by
  simp [goroutines]

section Calls

variable {requests : ℕ → Ctx × JudgeRequest} {judgeMax execMax : ℕ} {cpus : List ℕ}
  {c : Config Op Op.Ans Tid State JudgeAns} {n : ℕ}
  (hlast : ∀ j, n ≤ j → validateJudgeRequest (requests j).2 ≠ none)
  (h : Reachable semantics (.start (State.new judgeMax execMax cpus) (judgeCalls g requests)) c)

include hlast h

/-- The requests that are refused do nothing. -/
theorem judge_acts {j : ℕ} {e : Op} {r : e.Ans} (hdid : Did c.trace (.judge j) e r) : j < n := by
  by_contra hj
  obtain ⟨e', he'⟩ : ∃ e, judge g (requests j).1 (requests j).2 = .ret ({}, some e) :=
    judge_invalid (hlast j (by omega))
  have hafter : (judge g (requests j).1 (requests j).2).After (own (.judge j) c.trace) (c.prog (.judge j)) :=
    h.own_after (.judge j)
  rw [he'] at hafter
  have hmem := mem_own.mpr hdid
  rw [hafter.of_ret.1] at hmem
  cases hmem

/-- The goroutine of a case that moves belongs to a case that its request started. -/
theorem moves_mem_goroutines (hx : g.executor.All Op.OfExecutor) {i : Tid} {e : Op}
    {k : e.Ans → EProg (JudgeAns i)} {r : e.Ans} {s : State} (hprog : c.prog i = .op e k)
    (hact : act i c.shared e r s) : i ∈ goroutines n := by
  have h' := h.step hprog hact
  have hdid : Did (c.advance i e r s (k r)).trace i e r := did_last _ _ _ _
  cases i with
  | judge j => exact judge_mem_goroutines.mpr (judge_acts hlast h' hdid)
  | case j m =>
    by_contra hnot
    have hnone : ∀ batch, Did (c.advance (.case j m) e r s (k r)).trace (.judge j) (.goCases batch) () →
        batch.cases[m]? = none := by
      intro batch hgo
      have hj := judge_acts hlast h' hgo
      have hfew := ((h'.own_after (.judge j)).all (judge_fewCases hx (requests j).2)).1 _ (mem_own.mpr hgo)
      rw [List.getElem?_eq_none_iff]
      by_contra hm
      refine hnot (case_mem_goroutines.mpr ⟨hj, ?_⟩)
      have : batch.cases.length ≤ maxTestCases := hfew
      omega
    have hidle := case_idle hx h' hnone
    rw [Config.advance, own_snoc_self] at hidle
    exact absurd hidle (by simp)

end Calls

/-! ## The state at the end -/

/-- Nothing can happen any more but that waits are cancelled. -/
def Final {α : Tid → Type} (c : Config Op Op.Ans Tid State α) : Prop := ¬ ∃ i, CanMove c i

/-- Everything that is shared has been given back. -/
structure Quiescent (cpus : List ℕ) (s : State) : Prop where
  judges : s.judgeUsed = 0
  permits : s.execUsed = 0
  cpus : s.freeCpus.Perm cpus
  flights : ∀ key, s.flights key = none

section Final

variable {judgeMax execMax : ℕ} {cpus : List ℕ} {c : Config Op Op.Ans Tid State JudgeAns}
  (live : Live g judgeMax execMax cpus c) (hne : cpus ≠ []) (hexec : 0 < execMax) (hfinal : Final c)

include live hne hexec hfinal

/-- Nobody waits but for a judge slot or for a case to be started. -/
theorem Live.final_op {i : Tid} {e : Op} {k : e.Ans → EProg (JudgeAns i)} (hprog : c.prog i = .op e k) :
    (∃ ctx, e = .judgeAcquire ctx) ∨ e = .caseBegin := by
  by_contra hnot
  rw [not_or] at hnot
  exact hfinal
    (live.request_moves hne hexec hprog (fun ctx heq => hnot.1 ⟨ctx, heq⟩) hnot.2)

/-- Nobody holds anything. -/
theorem Live.final_atRest (i : Tid) : (held c.trace i).judge = false ∧ (held c.trace i).Clear := by
  have hsafe := live.heldSafe i
  cases hprog : c.prog i with
  | ret a =>
    rw [hprog] at hsafe
    exact ⟨hsafe.judge, hsafe.clear⟩
  | op e k =>
    rw [hprog] at hsafe
    rcases live.final_op hne hexec hfinal hprog with ⟨ctx, rfl⟩ | rfl
    · exact hsafe.1.2
    · exact hsafe.1.2

theorem Live.final_quiescent (hcpus : cpus.Nodup) : Quiescent cpus c.shared := by
  have hrest := live.final_atRest hne hexec hfinal
  have hcap := live.holdings.capacity
  refine ⟨?_, ?_, ?_, ?_⟩
  · by_contra hused
    obtain ⟨i, hi⟩ := hcap.judges.exists_holder (Nat.pos_of_ne_zero hused)
    exact absurd (hi.symm.trans (hrest i).1) (by simp)
  · by_contra hused
    obtain ⟨i, hi⟩ := hcap.permits.exists_holder (Nat.pos_of_ne_zero hused)
    exact absurd (hi.symm.trans (hrest i).2.1.1) (by simp)
  · refine (List.perm_ext_iff_of_nodup hcap.cpus.nodup hcpus).mpr fun id => ?_
    rw [hcap.cpus.mem]
    constructor
    · exact .inl
    · rintro (hfree | ⟨i, hi⟩)
      · exact hfree
      · exact absurd (hi.symm.trans (hrest i).2.1.2.1) (by simp)
  · intro key
    by_contra hflight
    obtain ⟨f, hf⟩ := Option.ne_none_iff_exists'.mp hflight
    obtain ⟨i, hlead⟩ := live.checker.flight.flight_lead key f hf
    have hleading : (held c.trace i).leading = true := by
      rw [leading_iff, hlead]
      rfl
    exact absurd (hleading.symm.trans (hrest i).2.2) (by simp)

theorem Live.final_returned (hjudge : 0 < judgeMax) (hcpus : cpus.Nodup) (j : ℕ) :
    ∃ res, c.prog (.judge j) = .ret res := by
  cases hprog : c.prog (.judge j) with
  | ret res => exact ⟨res, rfl⟩
  | op e k =>
    exfalso
    rcases live.final_op hne hexec hfinal hprog with ⟨ctx, rfl⟩ | rfl
    · -- all slots are free
      have hused := (live.final_quiescent hne hexec hfinal hcpus).judges
      have hmax := live.holdings.capacity.judgeMax_eq
      exact hfinal ⟨_, _, k, none, _, hprog, ⟨by omega, rfl⟩, fun h => h⟩
    · have hsafe := live.heldSafe (.judge j)
      rw [hprog] at hsafe
      obtain ⟨⟨_, _, heq⟩, -⟩ := hsafe.1
      cases heq

end Final

/-- Every run of finitely many requests completes: there is no infinite one, and where no goroutine has a
step left that is no cancellation every call of `Judge` has returned, all judge slots, executor permits and
CPUs are free again, and no compilation is in flight. Cancellations and failures may happen anywhere. -/
theorem judge_completes (hg : g.executor = containerExecutor) {requests : ℕ → Ctx × JudgeRequest}
    {judgeMax execMax n : ℕ} {cpus : List ℕ} (hjudge : 0 < judgeMax) (hexec : 0 < execMax)
    (hne : cpus ≠ []) (hcpus : cpus.Nodup)
    (hlast : ∀ j, n ≤ j → validateJudgeRequest (requests j).2 ≠ none) :
    (¬ ∃ run : ℕ → Config Op Op.Ans Tid State JudgeAns,
      run 0 = .start (State.new judgeMax execMax cpus) (judgeCalls g requests) ∧
        ∀ t, Step semantics (run t) (run (t + 1))) ∧
    ∀ c, Reachable semantics (.start (State.new judgeMax execMax cpus) (judgeCalls g requests)) c →
      Final c → (∀ j, ∃ res, c.prog (.judge j) = .ret res) ∧ Quiescent cpus c.shared := by
  have hx : g.executor.All Op.OfExecutor := by
    rw [hg]
    exact containerExecutor_all
  refine ⟨no_infinite_run (goroutines n) ?_, ?_⟩
  · intro c i e k r s h hprog hact
    exact moves_mem_goroutines hlast h hx hprog hact
  · intro c h hfinal
    have live := live_reachable hg hcpus h
    exact ⟨live.final_returned hne hexec hfinal hjudge hcpus, live.final_quiescent hne hexec hfinal hcpus⟩

/-- Two requests of the small program; the others are empty. -/
def twoRequests (j : ℕ) : Ctx × JudgeRequest :=
  if j < 2 then smallRequests j else (.request j, { (smallRequests j).2 with sourceCode := "" })

theorem judge_completes_two_requests :
    (¬ ∃ run : ℕ → Config Op Op.Ans Tid State JudgeAns,
      run 0 = .start (State.new 1 1 [0]) (judgeCalls containerEngine twoRequests) ∧
        ∀ t, Step semantics (run t) (run (t + 1))) ∧
    ∀ c, Reachable semantics (.start (State.new 1 1 [0]) (judgeCalls containerEngine twoRequests)) c →
      Final c → (∀ j, ∃ res, c.prog (.judge j) = .ret res) ∧ Quiescent [0] c.shared := by
  refine judge_completes rfl (n := 2) (by decide) (by decide) (by decide) (by decide) ?_
  intro j hj
  rw [twoRequests, if_neg (by omega)]
  simp only [smallRequests]
  decide

end Afterglow.Engine
