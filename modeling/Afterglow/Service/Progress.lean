import Afterglow.Engine.Slots
import Afterglow.Engine.World
import Afterglow.Service.Requests

/-!
# No request gets stuck

The waits of the engine are ordered: a judge slot, a flight, the cases of a request, an executor permit,
a CPU. By `heldDiscipline` a goroutine that holds one of these waits at most for a later one, so a waiting
goroutine leads to another that can move: whoever holds what it waits for, whoever that one waits for, and
so on. What is left after five such steps is a goroutine with a CPU, which waits for nothing.

The cancellation of a context would also end a wait; no such answer is used.
-/

namespace Afterglow.Engine

open Concurrency Execution Service

/-! ## Moves -/

/-- The answer says that a wait was cancelled. -/
def Op.Cancelled : (e : Op) → e.Ans → Prop
  | .judgeAcquire _, (some _ : Option Err) | .execAcquire _, (some _ : Option Err) => True
  | .cpuTake _, (.error _ : Except Err ℕ) => True
  | _, _ => False

/-- Goroutine `i` has a next step that is no cancellation. -/
def CanMove {α : Tid → Type} (c : Config Op Op.Ans Tid State α) (i : Tid) : Prop :=
  ∃ e k r s, c.prog i = .op e k ∧ act i c.shared e r s ∧ ¬ e.Cancelled r

/-- The operations that may have to wait. -/
def Op.Waits : Op → Prop
  | .judgeAcquire _ | .flightWait _ | .wgWait | .caseBegin | .execAcquire _ | .cpuTake _ => True
  | _ => False

/-- Every other operation can be answered. -/
theorem act_enabled {judgeMax execMax : ℕ} {cpus : List ℕ} {s : State} {ℓ : Tid → Held} {i : Tid}
    (hcap : CapacityInv judgeMax execMax cpus s ℓ) (hws : WorkspaceInv s ℓ)
    (hdirs : ∃ d, s.dirs d = none) {e : Op} (hpre : heldDiscipline.pre i (ℓ i) e) (he : ¬ e.Waits) :
    ∃ r s', act i s e r s' ∧ ¬ e.Cancelled r := by
  cases e with
  | judgeRelease =>
    have hused := (hcap.judges.release (i := i) (l := { ℓ i with judge := false }) hpre.1 (by simp)).1
    exact ⟨(), _, ⟨hused, rfl⟩, id⟩
  | execRelease =>
    have hused := (hcap.permits.release (i := i) (l := { ℓ i with permit := false }) hpre.1 (by simp)).1
    exact ⟨(), _, ⟨hused, rfl⟩, id⟩
  | cpuPut id' => exact ⟨(), _, ⟨hcap.room hpre, rfl⟩, id⟩
  | cacheGet key => exact ⟨s.cache key, s, ⟨rfl, rfl⟩, id⟩
  | cacheAdd key value => exact ⟨(), _, ⟨fun _ => true, rfl⟩, id⟩
  | flightDo key =>
    cases hf : s.flights key with
    | none => exact ⟨.lead s.nextFlight, _, ⟨hf, rfl, rfl⟩, id⟩
    | some f => exact ⟨.join f, s, ⟨hf, rfl⟩, id⟩
  | flightDone key f res => exact ⟨(), _, rfl, id⟩
  | goCases batch => exact ⟨(), _, rfl, id⟩
  | caseEnd res =>
    obtain ⟨⟨j, n, rfl⟩, -⟩ := hpre
    exact ⟨(), _, ⟨j, n, rfl, rfl⟩, id⟩
  | mkdirTemp =>
    obtain ⟨d, hd⟩ := hdirs
    exact ⟨.ok d, _, ⟨hd, rfl⟩, id⟩
  | removeAll d => exact ⟨none, _, rfl, id⟩
  | writeFile d name content mode =>
    obtain ⟨w, hw, rfl⟩ := Option.map_eq_some_iff.mp hpre
    obtain ⟨entries, hentries, -⟩ := hws.contents i w hw
    exact ⟨none, _, ⟨entries, mode, hentries, rfl⟩, id⟩
  | stat d name => exact ⟨.error (.text "file does not exist"), s, rfl, id⟩
  | readFile d name => exact ⟨.error (.text "file does not exist"), s, rfl, id⟩
  | enterExecute ctx req => exact ⟨s.mounted req, s, ⟨rfl, rfl⟩, id⟩
  | watch ctx req =>
    exact ⟨⟨exitScript 0 [], exitScript_ends ctx req.limits 0 []⟩, s, .inl rfl, id⟩
  | ask q => exact ⟨calmAnswer q, s, rfl, id⟩
  | mark m => exact ⟨(), s, rfl, id⟩
  | _ => exact absurd trivial he

/-- An operation changes at most one directory. -/
theorem act_dirs {i : Tid} {s s' : State} {e : Op} {r : e.Ans} (h : act i s e r s') :
    ∃ d entries, s'.dirs = Function.update s.dirs d entries := by
  have hsame : s'.dirs = s.dirs → ∃ d entries, s'.dirs = Function.update s.dirs d entries :=
    fun hdirs => ⟨0, s.dirs 0, by rw [Function.update_eq_self, hdirs]⟩
  by_cases hquiet : e.WorkspaceQuiet
  · exact hsame (act_workspace_quiet hquiet h)
  cases e with
  | mkdirTemp =>
    match r, h with
    | .error e, hs => exact hsame (by rw [show s' = s from hs])
    | .ok d, ⟨_, hs⟩ => exact ⟨d, _, by rw [hs]; rfl⟩
  | removeAll d =>
    match r, h with
    | none, hs => exact ⟨d, none, by rw [show s' = _ from hs]; rfl⟩
    | some e, ⟨left, hs⟩ => exact ⟨d, left, by rw [hs]; rfl⟩
  | writeFile d name content mode =>
    match r, h with
    | none, ⟨entries, perm, _, hs⟩ => exact ⟨d, _, by rw [hs]; rfl⟩
    | some e, ⟨left, hs⟩ => exact ⟨d, _, by rw [hs]; rfl⟩
  | watch ctx req =>
    obtain rfl | ⟨m, left, -, -, rfl⟩ := h
    · exact hsame rfl
    · exact ⟨m.hostPath, _, rfl⟩
  | _ => exact absurd trivial hquiet

/-- There is always room for another directory. -/
theorem exists_free_dir {α : Tid → Type} {p : (i : Tid) → EProg (α i)} {judgeMax execMax : ℕ}
    {cpus : List ℕ} {c : Config Op Op.Ans Tid State α}
    (h : Reachable semantics (.start (State.new judgeMax execMax cpus) p) c) :
    ∃ d, c.shared.dirs d = none := by
  have hfin : {d | c.shared.dirs d ≠ none}.Finite := by
    refine h.induct (P := fun c => {d | c.shared.dirs d ≠ none}.Finite) ?_ ?_
    · simp [Config.start, State.new]
    · intro c i e k r s _ hfin _ hact
      obtain ⟨d, entries, hdirs⟩ := act_dirs hact
      refine (hfin.insert d).subset ?_
      intro d' hd'
      by_cases hne : d' = d
      · exact .inl hne
      · simp only [Config.advance, hdirs, Set.mem_ofPred_eq, Function.update_of_ne hne] at hd'
        exact .inr hd'
  obtain ⟨d, hd⟩ := hfin.exists_notMem
  exact ⟨d, not_not.mp hd⟩

/-! ## One level after the other -/

/-- What is known of a state of concurrent requests. -/
structure Live (g : JudgeEngine) (judgeMax execMax : ℕ) (cpus : List ℕ)
    (c : Config Op Op.Ans Tid State JudgeAns) : Prop where
  holdings : HeldInv judgeMax execMax cpus c.shared c.trace (held c.trace)
  heldSafe : ∀ i, (c.prog i).Safe heldDiscipline i (fun _ => Held.AtRest false) (held c.trace i)
  checker : CheckerInv g c.shared c.trace ((checkerDiscipline g).locals (fun _ => {}) c.trace)
  checkerSafe : ∀ i, (c.prog i).Safe (checkerDiscipline g) i
    (fun _ l => l.lead = none ∧ l.running = none)
    ((checkerDiscipline g).locals (fun _ => {}) c.trace i)
  slots : SlotInv c.shared c.trace
  caseDone : ∀ j n, c.prog (.case j n) = .ret () →
    ∃ res, Did c.trace (.case j n) (.caseEnd res) ()
  freeDir : ∃ d, c.shared.dirs d = none

theorem live_reachable {g : JudgeEngine} (hg : g.executor = containerExecutor)
    {requests : ℕ → Ctx × JudgeRequest} {judgeMax execMax : ℕ} {cpus : List ℕ} (hcpus : cpus.Nodup)
    {c : Config Op Op.Ans Tid State JudgeAns}
    (h : Reachable semantics (.start (State.new judgeMax execMax cpus) (judgeCalls g requests)) c) :
    Live g judgeMax execMax cpus c := by
  obtain ⟨hheld, hheldSafe⟩ := judgeCalls_held h hg hcpus
  have hquiet : g.executor.All Op.CheckerQuiet := by
    rw [hg]
    exact containerExecutor_all.mono fun _ he => he.quiet
  obtain ⟨hchecker, hcheckerSafe⟩ := judgeCalls_checker h hquiet
  refine ⟨hheld, hheldSafe, hchecker, hcheckerSafe, slotInv_reachable h, ?_, exists_free_dir h⟩
  intro j n hret
  -- a complete run of a case ends with its result
  obtain ⟨begun, tr₁, htr, h₁⟩ := Prog.runs_perform_iff.mp (h.own_runs hret)
  obtain ⟨t₁, res, t₂, rfl, -, h₂⟩ := Prog.runs_bind_iff.mp h₁
  obtain ⟨_, tr₂, rfl, -⟩ := Prog.runs_op_iff.mp h₂
  exact ⟨res, mem_own.mp (by rw [htr]; simp)⟩

theorem next_leading {e : Op} (he : e.CheckerQuiet) {i : Tid} {l : Held} {r : e.Ans} :
    (heldDiscipline.next i l e r).leading = l.leading := by
  cases e with
  | flightDo key => exact absurd he id
  | flightDone key f res => exact absurd he id
  | judgeAcquire ctx | execAcquire ctx | cpuTake ctx | mkdirTemp | writeFile d name content mode =>
    cases r <;> rfl
  | watch ctx req => exact (l.watched_steady req).leading
  | mark m => cases m <;> rfl
  | _ => rfl

/-- Both disciplines see the same leaders. -/
theorem leading_iff {g : JudgeEngine} (tr : Trace) (i : Tid) :
    (held tr i).leading = ((checkerDiscipline g).locals (fun _ => {}) tr i).lead.isSome := by
  unfold held Discipline.locals
  induction own i tr using List.reverseRecOn with
  | nil => rfl
  | append_singleton events ev ih =>
    rw [Discipline.replay_snoc, Discipline.replay_snoc]
    obtain ⟨e, r⟩ := ev
    by_cases hquiet : e.CheckerQuiet
    · rw [(checkerDiscipline_quiet g hquiet i _).2 r, next_leading hquiet]
      exact ih
    cases e with
    | cacheGet key => cases r <;> exact ih
    | flightDo key =>
      cases r with
      | lead f => rfl
      | join f => exact ih
    | flightDone key f res => rfl
    | mark m =>
      cases m with
      | enterCompile ctx req =>
        show _ = (CheckerLocal.started _ (checkerSource? g req)).lead.isSome
        cases checkerSource? g req <;> exact ih
      | leaveCompile ctx req res =>
        show _ = (CheckerLocal.finished g _ _ (checkerSource? g req)).lead.isSome
        cases checkerSource? g req <;> exact ih
      | _ => exact ih
    | _ => first | exact absurd trivial hquiet | exact ih

section Levels

variable {g : JudgeEngine} {judgeMax execMax : ℕ} {cpus : List ℕ}
  {c : Config Op Op.Ans Tid State JudgeAns} (live : Live g judgeMax execMax cpus c) {i : Tid}

include live

/-- A goroutine in front of an operation that does not wait can move. -/
theorem Live.moves {e : Op} {k : e.Ans → EProg (JudgeAns i)} (hprog : c.prog i = .op e k)
    (he : ¬ e.Waits) : CanMove c i := by
  have hpre := live.heldSafe i
  rw [hprog] at hpre
  obtain ⟨r, s, hact, hr⟩ :=
    act_enabled live.holdings.capacity live.holdings.workspace live.freeDir hpre.1 he
  exact ⟨e, k, r, s, hprog, hact, hr⟩

/-- A goroutine that is not at rest is in front of an operation allowed to it. -/
theorem Live.next_op (hi : ¬ (held c.trace i).AtRest false) :
    ∃ e k, c.prog i = .op e k ∧ heldDiscipline.pre i (held c.trace i) e := by
  have hsafe := live.heldSafe i
  cases hprog : c.prog i with
  | ret a =>
    rw [hprog] at hsafe
    exact absurd hsafe hi
  | op e k =>
    rw [hprog] at hsafe
    exact ⟨e, k, rfl, hsafe.1⟩

/-- Whoever has a CPU can move. -/
theorem Live.cpu_moves {cpuID : ℕ} (hcpu : (held c.trace i).cpu = some cpuID) : CanMove c i := by
  have hbusy : ¬ (held c.trace i).Idle := fun hidle => absurd (hidle.2.1.symm.trans hcpu) (by simp)
  obtain ⟨e, k, hprog, hpre⟩ := live.next_op fun hrest => hbusy hrest.clear.1
  refine live.moves hprog fun he => ?_
  cases e with
  | judgeAcquire ctx => exact hbusy hpre.2.2.1
  | flightWait f => exact hbusy hpre.2.1
  | wgWait => exact hbusy hpre.2.2.1
  | caseBegin => exact hbusy hpre.2.2.1
  | execAcquire ctx => exact hbusy hpre
  | cpuTake ctx => exact absurd (hpre.2.symm.trans hcpu) (by simp)
  | _ => exact absurd he id

/-- Waiting for a CPU: one is free, or whoever has one can move. -/
theorem Live.cpuTake_moves (hne : cpus ≠ []) {ctx : Ctx}
    {k : (Op.cpuTake ctx).Ans → EProg (JudgeAns i)} (hprog : c.prog i = .op (.cpuTake ctx) k) :
    ∃ i', CanMove c i' := by
  cases hfree : c.shared.freeCpus with
  | cons id rest => exact ⟨i, _, k, .ok id, _, hprog, ⟨rest, hfree, rfl⟩, fun h => h⟩
  | nil =>
    have hdealt := live.holdings.capacity.cpus
    rw [hfree] at hdealt
    obtain ⟨i', id, hi'⟩ := hdealt.exists_holder hne
    exact ⟨i', live.cpu_moves hi'⟩

/-- Whoever has a permit can move, or leads to someone who can. -/
theorem Live.permit_moves (hne : cpus ≠ []) (hpermit : (held c.trace i).permit = true) :
    ∃ i', CanMove c i' := by
  have hbusy : ¬ (held c.trace i).Idle := fun hidle => absurd (hidle.1.symm.trans hpermit) (by simp)
  obtain ⟨e, k, hprog, hpre⟩ := live.next_op fun hrest => hbusy hrest.clear.1
  by_cases he : e.Waits
  · cases e with
    | judgeAcquire ctx => exact absurd hpre.2.2.1 hbusy
    | flightWait f => exact absurd hpre.2.1 hbusy
    | wgWait => exact absurd hpre.2.2.1 hbusy
    | caseBegin => exact absurd hpre.2.2.1 hbusy
    | execAcquire ctx => exact absurd hpre hbusy
    | cpuTake ctx => exact live.cpuTake_moves hne hprog
    | _ => exact absurd he id
  · exact ⟨i, live.moves hprog he⟩

/-- Waiting for a permit: one is free, or whoever has one leads on. -/
theorem Live.execAcquire_moves (hne : cpus ≠ []) (hexec : 0 < execMax) {ctx : Ctx}
    {k : (Op.execAcquire ctx).Ans → EProg (JudgeAns i)} (hprog : c.prog i = .op (.execAcquire ctx) k) :
    ∃ i', CanMove c i' := by
  by_cases hfree : c.shared.execUsed < c.shared.execMax
  · exact ⟨i, _, k, none, _, hprog, ⟨hfree, rfl⟩, fun h => h⟩
  · have hmax := live.holdings.capacity.execMax_eq
    obtain ⟨i', hi'⟩ := live.holdings.capacity.permits.exists_holder (by omega)
    exact live.permit_moves hne hi'

/-- Whoever neither waits for a slot, a flight nor cases can move, or leads on. -/
theorem Live.worker_moves (hne : cpus ≠ []) (hexec : 0 < execMax) {e : Op}
    {k : e.Ans → EProg (JudgeAns i)} (hprog : c.prog i = .op e k)
    (he : e.Waits → (∃ ctx, e = .execAcquire ctx) ∨ ∃ ctx, e = .cpuTake ctx) :
    ∃ i', CanMove c i' := by
  by_cases hwaits : e.Waits
  · obtain ⟨ctx, rfl⟩ | ⟨ctx, rfl⟩ := he hwaits
    · exact live.execAcquire_moves hne hexec hprog
    · exact live.cpuTake_moves hne hprog
  · exact ⟨i, live.moves hprog hwaits⟩

/-- A case that has been started and has no result yet moves, or leads on. -/
theorem Live.case_moves (hne : cpus ≠ []) (hexec : 0 < execMax) {j n : ℕ} {batch : Batch}
    (hbatch : c.shared.batches j = some batch) (hn : n < batch.cases.length)
    (hres : c.shared.results j n = none) : ∃ i', CanMove c i' := by
  have hsafe := live.heldSafe (.case j n)
  cases hprog : c.prog (.case j n) with
  | ret a =>
    obtain ⟨res, hdid⟩ := live.caseDone j n hprog
    have hsome := live.slots.ended j n res hdid
    rw [hres] at hsome
    cases hsome
  | op e k =>
    rw [hprog] at hsafe
    have hpre := hsafe.1
    by_cases hbegin : e = .caseBegin
    · subst hbegin
      refine ⟨_, _, k, (batch.ctx, batch.runner, batch.cases[n]), _, hprog, ⟨rfl, ?_⟩, fun h => h⟩
      exact ⟨j, n, batch, rfl, hbatch, rfl, rfl, List.getElem?_eq_getElem hn⟩
    · refine live.worker_moves hne hexec hprog fun he => ?_
      cases e with
      | judgeAcquire ctx => obtain ⟨⟨_, hj⟩, -⟩ := hpre; cases hj
      | flightWait f => obtain ⟨⟨_, hj⟩, -⟩ := hpre; cases hj
      | wgWait => obtain ⟨⟨_, hj⟩, -⟩ := hpre; cases hj
      | caseBegin => exact absurd rfl hbegin
      | execAcquire ctx => exact .inl ⟨ctx, rfl⟩
      | cpuTake ctx => exact .inr ⟨ctx, rfl⟩
      | _ => exact absurd he id

/-- Waiting for cases: all are done, or one that is not leads on. -/
theorem Live.wgWait_moves (hne : cpus ≠ []) (hexec : 0 < execMax)
    {k : Op.wgWait.Ans → EProg (JudgeAns i)} (hprog : c.prog i = .op .wgWait k) :
    ∃ i', CanMove c i' := by
  have hpre := live.heldSafe i
  rw [hprog] at hpre
  obtain ⟨⟨⟨j, rfl⟩, hstarted, -⟩, -⟩ := hpre
  obtain ⟨batch, hbatch⟩ := Option.isSome_iff_exists.mp (live.holdings.started _ hstarted)
  by_cases hall : ∃ n, n < batch.cases.length ∧ c.shared.results j n = none
  · obtain ⟨n, hn, hres⟩ := hall
    exact live.case_moves hne hexec hbatch hn hres
  · have hdone : ∀ n, n < batch.cases.length → (c.shared.results j n).isSome := by
      intro n hn
      by_contra hnone
      exact hall ⟨n, hn, by simpa using hnone⟩
    have hlist : ∃ rs : List JudgeCaseResult, rs.length = batch.cases.length ∧
        ∀ n res, rs[n]? = some res → c.shared.results j n = some res := by
      refine ⟨List.ofFn fun n : Fin batch.cases.length => (c.shared.results j n).get (hdone n n.2),
        by simp, ?_⟩
      intro n res hn
      obtain ⟨hlt, rfl⟩ := List.getElem?_eq_some_iff.mp hn
      simp
    obtain ⟨rs, hlen, hget⟩ := hlist
    exact ⟨_, _, k, rs, _, hprog, ⟨rfl, batch, hbatch, hlen, hget⟩, fun h => h⟩

/-- Whoever leads a flight can move, or leads on. -/
theorem Live.leader_moves (hne : cpus ≠ []) (hexec : 0 < execMax)
    (hlead : (held c.trace i).leading = true) : ∃ i', CanMove c i' := by
  have hbusy : ¬ (held c.trace i).Clear := fun hclear => absurd (hclear.2.symm.trans hlead) (by simp)
  obtain ⟨e, k, hprog, hpre⟩ := live.next_op fun hrest => hbusy hrest.clear
  refine live.worker_moves hne hexec hprog fun he => ?_
  cases e with
  | judgeAcquire ctx => exact absurd hpre.2.2 hbusy
  | flightWait f => exact absurd hpre.2 hbusy
  | wgWait => exact absurd hpre.2.2 hbusy
  | caseBegin => exact absurd hpre.2.2 hbusy
  | execAcquire ctx => exact .inl ⟨ctx, rfl⟩
  | cpuTake ctx => exact .inr ⟨ctx, rfl⟩
  | _ => exact absurd he id

/-- Waiting for a flight: it has landed, or its leader leads on. -/
theorem Live.flightWait_moves (hne : cpus ≠ []) (hexec : 0 < execMax) {f : ℕ}
    {k : (Op.flightWait f).Ans → EProg (JudgeAns i)} (hprog : c.prog i = .op (.flightWait f) k) :
    ∃ i', CanMove c i' := by
  have hpre := live.checkerSafe i
  rw [hprog] at hpre
  obtain ⟨⟨key, hjoined⟩, -⟩ := hpre
  rcases (live.checker.standing i).joined key f hjoined with hflight | ⟨res, hland, -⟩
  · obtain ⟨i', hlead⟩ := live.checker.flight.flight_lead key f hflight
    refine live.leader_moves hne hexec (i := i') ?_
    rw [leading_iff, hlead]
    rfl
  · exact ⟨i, _, k, res, _, hprog, ⟨hland, rfl⟩, fun h => h⟩

/-- Every goroutine of a request that has not returned can move, or leads on, unless it waits for a
slot. -/
theorem Live.request_moves (hne : cpus ≠ []) (hexec : 0 < execMax) {e : Op}
    {k : e.Ans → EProg (JudgeAns i)} (hprog : c.prog i = .op e k) (hslot : ∀ ctx, e ≠ .judgeAcquire ctx)
    (hbegin : e ≠ .caseBegin) : ∃ i', CanMove c i' := by
  cases e with
  | judgeAcquire ctx => exact absurd rfl (hslot ctx)
  | caseBegin => exact absurd rfl hbegin
  | flightWait f => exact live.flightWait_moves hne hexec hprog
  | wgWait => exact live.wgWait_moves hne hexec hprog
  | execAcquire ctx => exact live.execAcquire_moves hne hexec hprog
  | cpuTake ctx => exact live.cpuTake_moves hne hprog
  | _ => exact ⟨i, live.moves hprog fun h => h⟩

/-- Whoever has a judge slot can move, or leads on. -/
theorem Live.slot_moves (hne : cpus ≠ []) (hexec : 0 < execMax)
    (hjudge : (held c.trace i).judge = true) : ∃ i', CanMove c i' := by
  obtain ⟨e, k, hprog, hpre⟩ := live.next_op fun hrest =>
    absurd (hrest.judge.symm.trans hjudge) (by simp)
  refine live.request_moves hne hexec hprog ?_ ?_
  · rintro ctx rfl
    exact absurd (hpre.2.1.symm.trans hjudge) (by simp)
  · rintro rfl
    exact absurd (hpre.2.1.symm.trans hjudge) (by simp)

end Levels

/-- No reachable state of concurrent requests is stuck: as long as some `Judge` call has not returned,
some goroutine has a step that is no cancellation. -/
theorem judge_not_stuck {g : JudgeEngine} (hg : g.executor = containerExecutor)
    {requests : ℕ → Ctx × JudgeRequest} {judgeMax execMax : ℕ} {cpus : List ℕ} (hjudge : 0 < judgeMax)
    (hexec : 0 < execMax) (hne : cpus ≠ []) (hcpus : cpus.Nodup)
    {c : Config Op Op.Ans Tid State JudgeAns}
    (h : Reachable semantics (.start (State.new judgeMax execMax cpus) (judgeCalls g requests)) c)
    {j : ℕ} (hj : ∀ res, c.prog (.judge j) ≠ .ret res) : ∃ i, CanMove c i := by
  have live := live_reachable hg hcpus h
  have hpre := live.heldSafe (.judge j)
  cases hprog : c.prog (.judge j) with
  | ret res => exact absurd hprog (hj res)
  | op e k =>
    rw [hprog] at hpre
    by_cases hslot : ∃ ctx, e = .judgeAcquire ctx
    · obtain ⟨ctx, rfl⟩ := hslot
      by_cases hfree : c.shared.judgeUsed < c.shared.judgeMax
      · exact ⟨_, _, k, none, _, hprog, ⟨hfree, rfl⟩, fun h => h⟩
      · have hmax := live.holdings.capacity.judgeMax_eq
        obtain ⟨i, hi⟩ := live.holdings.capacity.judges.exists_holder (by omega)
        exact live.slot_moves hne hexec hi
    · refine live.request_moves hne hexec hprog (fun ctx heq => hslot ⟨ctx, heq⟩) ?_
      rintro rfl
      obtain ⟨⟨_, _, heq⟩, -⟩ := hpre.1
      cases heq

/-- Every request is the same small program with the checker `x` and one case. -/
def smallRequests (j : ℕ) : Ctx × JudgeRequest := (.request j,
  { sourceCode := "int main(){}"
    checkerSourceCode := "x"
    language := .cpp
    timeLimit := 1000
    memoryLimit := 256
    testCases := [{ inputText := "1", expectedOutput := "2" }] })

/-- Request 0 has the only slot and the only permit; request 1 is not stuck behind it. -/
theorem judge_not_stuck_one_slot :
    ∃ c : Config Op Op.Ans Tid State JudgeAns,
      Reachable semantics (.start (State.new 1 1 [0]) (judgeCalls containerEngine smallRequests)) c ∧
      c.shared.judgeUsed = c.shared.judgeMax ∧ c.shared.execUsed = c.shared.execMax ∧
      ∃ i, CanMove c i := by
  let c₀ : Config Op Op.Ans Tid State JudgeAns :=
    .start (State.new 1 1 [0]) (judgeCalls containerEngine smallRequests)
  have hrun : (drive World.calm.answer (List.replicate 3 (Tid.judge 0)) c₀).map (fun c =>
      (c.shared.judgeUsed, c.shared.judgeMax, c.shared.execUsed, c.shared.execMax,
        (c.prog (.judge 1)).returned?.isNone)) = some (1, 1, 1, 1, true) := by decide +kernel
  obtain ⟨c, hc, heq⟩ := Option.map_eq_some_iff.mp hrun
  simp only [Prod.mk.injEq] at heq
  obtain ⟨hju, hjm, heu, hem, hnot⟩ := heq
  have hreach : Reachable semantics c₀ c :=
    drive_reachable World.calm.answer_sound Relation.ReflTransGen.refl hc
  refine ⟨c, hreach, hju.trans hjm.symm, heu.trans hem.symm, ?_⟩
  refine judge_not_stuck rfl (by decide) (by decide) (by decide) (by decide) hreach (j := 1) ?_
  intro res hret
  rw [hret] at hnot
  cases hnot

end Afterglow.Engine
