import Afterglow.Service.Attribution
import Afterglow.Service.Isolation

/-!
# Judge slots bound the work

A judge slot is held by the goroutine of a request, but most of the work is done by the goroutines of its
cases. That the slots bound the work of the whole engine rests on `wg.Wait`: a request gives its slot back
only when its cases have ended, so whatever works for a request works while the request holds its slot
(`slots_bound_work`).
-/

namespace Afterglow.Engine

open Concurrency Execution Service

/-! ## The duties of a request -/

/-- The slot of a goroutine, the cases it has started, and whether it has yet to wait for them. -/
structure Duty where
  slot : Bool := false
  batch : Option Batch := none
  running : Bool := false

/-- A request works and starts cases in its slot, once, and waits for them before it gives the slot back. -/
def dutyDiscipline : Discipline Op Op.Ans Tid Duty where
  pre i l
    | .judgeRelease => l.running = false
    | .goCases _ => l.slot = true ∧ l.batch = none
    | .flightDo _ | .execAcquire _ | .cpuTake _ | .mkdirTemp => (∃ j, i = .judge j) → l.slot = true
    | _ => True
  next _ l
    | .judgeAcquire _, (none : Option Err) => { l with slot := true }
    | .judgeRelease, _ => { l with slot := false }
    | .goCases batch, _ => { l with batch := some batch, running := true }
    | .wgWait, _ => { l with running := false }
    | _, _ => l

/-- The operations that change no duty. -/
def Op.DutyQuiet : Op → Prop
  | .judgeAcquire _ | .judgeRelease | .goCases _ | .wgWait => False
  | _ => True

theorem dutyDiscipline_quiet {e : Op} (he : e.DutyQuiet) {i : Tid} {l : Duty}
    (hslot : (∃ j, i = .judge j) → l.slot = true) :
    dutyDiscipline.pre i l e ∧ ∀ r, dutyDiscipline.next i l e r = l := by
  cases e <;> first | exact absurd he id | exact ⟨hslot, fun _ => rfl⟩ | exact ⟨trivial, fun _ => rfl⟩

theorem duty_of_quiet {α : Type} {p : EProg α} (hp : p.All Op.DutyQuiet) {i : Tid} {l : Duty}
    (hslot : (∃ j, i = .judge j) → l.slot = true) : p.Safe dutyDiscipline i (fun _ l' => l' = l) l :=
  Prog.Safe.of_all (hp.mono fun _ he => dutyDiscipline_quiet he hslot)

/-- What the duties say of the trace. -/
structure DutyInv (tr : Trace) (ℓ : Tid → Duty) : Prop where
  started : ∀ i batch, Did tr i (.goCases batch) () → (ℓ i).batch = some batch
  waited : ∀ i, (ℓ i).batch.isSome → (ℓ i).running = false → ∃ r, Did tr i .wgWait r
  slot : ∀ i, (ℓ i).running = true → (ℓ i).slot = true

theorem DutyInv.step {tr : Trace} {ℓ : Tid → Duty} (inv : DutyInv tr ℓ) {i : Tid} {e : Op} {r : e.Ans}
    (hpre : dutyDiscipline.pre i (ℓ i) e) :
    DutyInv (tr ++ [⟨⟨e, r⟩, i⟩]) (Function.update ℓ i (dutyDiscipline.next i (ℓ i) e r)) := by
  -- the other goroutines are as before, and what they did is not in the last entry
  suffices hself : (∀ batch, Did (tr ++ [⟨⟨e, r⟩, i⟩]) i (.goCases batch) () →
        (dutyDiscipline.next i (ℓ i) e r).batch = some batch) ∧
      ((dutyDiscipline.next i (ℓ i) e r).batch.isSome → (dutyDiscipline.next i (ℓ i) e r).running = false →
        ∃ r', Did (tr ++ [⟨⟨e, r⟩, i⟩]) i .wgWait r') ∧
      ((dutyDiscipline.next i (ℓ i) e r).running = true → (dutyDiscipline.next i (ℓ i) e r).slot = true) by
    refine ⟨?_, ?_, ?_⟩ <;> intro i' <;> by_cases hi : i' = i
    · subst hi
      rw [Function.update_self]
      exact hself.1
    · intro batch hdid
      rw [Function.update_of_ne hi]
      rcases did_snoc.mp hdid with hdid | heq
      · exact inv.started i' batch hdid
      · exact absurd (congrArg Entry.who heq) hi
    · subst hi
      rw [Function.update_self]
      exact hself.2.1
    · rw [Function.update_of_ne hi]
      intro hbatch hrunning
      obtain ⟨r', hdid⟩ := inv.waited i' hbatch hrunning
      exact ⟨r', hdid.append _⟩
    · subst hi
      rw [Function.update_self]
      exact hself.2.2
    · rw [Function.update_of_ne hi]
      exact inv.slot i'
  have hwaited : (ℓ i).batch.isSome → (ℓ i).running = false → ∃ r', Did (tr ++ [⟨⟨e, r⟩, i⟩]) i .wgWait r' := by
    intro hbatch hrunning
    obtain ⟨r', hdid⟩ := inv.waited i hbatch hrunning
    exact ⟨r', hdid.append _⟩
  have hstarted : (∀ batch, e ≠ .goCases batch) → ∀ batch,
      Did (tr ++ [⟨⟨e, r⟩, i⟩]) i (.goCases batch) () → (ℓ i).batch = some batch := by
    intro hne batch hdid
    rcases did_snoc.mp hdid with hdid | heq
    · exact inv.started i batch hdid
    · exact absurd (congrArg (fun en : Entry Op Op.Ans Tid => en.op) heq).symm (hne batch)
  by_cases hquiet : e.DutyQuiet
  · have hnext : dutyDiscipline.next i (ℓ i) e r = ℓ i := by
      cases e <;> first | exact absurd hquiet id | rfl
    rw [hnext]
    refine ⟨hstarted ?_, hwaited, inv.slot i⟩
    rintro batch rfl
    exact hquiet
  cases e with
  | judgeAcquire ctx =>
    cases r with
    | none => exact ⟨hstarted (by simp), hwaited, fun _ => rfl⟩
    | some e => exact ⟨hstarted (by simp), hwaited, inv.slot i⟩
  | judgeRelease =>
    refine ⟨hstarted (by simp), hwaited, ?_⟩
    intro hrunning
    exact absurd (hrunning.symm.trans hpre) (by simp)
  | goCases batch =>
    refine ⟨?_, fun _ hrunning => (by cases hrunning), fun _ => hpre.1⟩
    intro batch' hdid
    rcases did_snoc.mp hdid with hdid | heq
    · exact absurd ((inv.started i batch' hdid).symm.trans hpre.2) (by simp)
    · cases heq
      rfl
  | wgWait =>
    exact ⟨hstarted (by simp), fun _ _ => ⟨r, did_last _ _ _ _⟩, fun hrunning => (by cases hrunning)⟩
  | _ => exact absurd trivial hquiet

theorem duty_upholds : Upholds semantics dutyDiscipline fun _ => DutyInv := by
  intro s tr ℓ i e r s' inv hpre _
  exact inv.step hpre

theorem dutyInv_new : DutyInv [] fun _ => {} where
  started _ _ hdid := absurd hdid List.not_mem_nil
  waited _ hbatch := by cases hbatch
  slot _ hrunning := by cases hrunning

theorem Op.OfExecutor.dutyQuiet {e : Op} (he : e.OfExecutor) : e.DutyQuiet := by
  cases e <;> first | exact absurd he id | trivial

theorem OfCompile.dutyQuiet {g : JudgeEngine} {ctx : Ctx} {source : Bytes} {e : Op}
    (he : OfCompile g ctx source e) : e.DutyQuiet := by
  cases e <;> first | exact absurd he id | trivial

theorem Op.ReadsResource.dutyQuiet {e : Op} (he : e.ReadsResource) : e.DutyQuiet := by
  cases e <;> first | exact absurd he id | trivial

section Requests

variable {g : JudgeEngine} (hx : g.executor.All Op.OfExecutor) {i : Tid} {ctx : Ctx}

include hx

theorem executeJudgePlan_duty {plan : JudgePlan} {l : Duty} (hslot : l.slot = true) (hbatch : l.batch = none)
    (hrunning : l.running = false) :
    (executeJudgePlan g ctx plan).Safe dutyDiscipline i (fun _ l' => l'.running = false) l := by
  have hcompile : (g.executor.Compile ctx (plan.profile.compile.request plan.sourceCode)).All Op.DutyQuiet :=
    Prog.All.perform trivial fun _ => Prog.All.bind ((hx.compile _ _).mono fun _ he => he.dutyQuiet) fun _ =>
      Prog.All.perform trivial fun _ => trivial
  have hchecker : (compileChecker g ctx plan.checker).All Op.DutyQuiet :=
    compileChecker_all (hx.mono fun _ he => he.dutyQuiet) _ _ fun _ he => he.dutyQuiet
  refine Prog.Safe.bind (Prog.Safe.bind ((duty_of_quiet hcompile fun _ => hslot).mono ?_))
  rintro compiled l' rfl
  match compiled with
  | .error e => exact hrunning
  | .ok ⟨log, none⟩ => exact hrunning
  | .ok ⟨log, some artifact⟩ =>
    refine Prog.Safe.bind (Prog.Safe.bind ((duty_of_quiet hchecker fun _ => hslot).mono ?_))
    rintro compilation l' rfl
    match compilation with
    | .error e => exact hrunning
    | .ok ⟨log, none⟩ => exact hrunning
    | .ok ⟨log, some checker⟩ =>
      exact Prog.Safe.bind (Prog.Safe.perform ⟨hslot, hbatch⟩ fun _ => ⟨trivial, fun _ => rfl⟩)

theorem judge_duty {req : JudgeRequest} :
    (judge g ctx req).Safe dutyDiscipline i (fun _ _ => True) {} := by
  unfold judge
  split
  · trivial
  split
  · trivial
  split
  · trivial
  · next choice _ =>
      refine Prog.Safe.perform trivial fun acquired => ?_
      cases acquired with
      | some e => trivial
      | none =>
        refine Prog.Safe.deferring (Prog.Safe.bind ((duty_of_quiet
          ((materialize_all _ _ choice).mono fun _ he => he.dutyQuiet) fun _ => rfl).mono ?_))
        rintro plan l' rfl
        cases plan with
        | error e => exact ⟨rfl, fun _ => trivial⟩
        | ok plan =>
          refine Prog.Safe.bind ((executeJudgePlan_duty hx rfl rfl rfl).mono ?_)
          intro result l' hl'
          exact ⟨hl', fun _ => trivial⟩

theorem caseThread_duty {j n : ℕ} : (caseThread g).Safe dutyDiscipline (.case j n) (fun _ _ => True) {} := by
  have hrun : ∀ ctx req, (g.executor.Run ctx req).All Op.DutyQuiet := fun _ _ =>
    Run_all hx (fun _ he => he.dutyQuiet) (Prog.returns_true _) trivial fun _ _ => trivial
  have hall : (caseThread g).All Op.DutyQuiet := caseThread_all hrun trivial fun _ => trivial
  refine (duty_of_quiet hall ?_).mono fun _ _ _ => trivial
  rintro ⟨j', hj'⟩
  cases hj'

/-- The duties of a goroutine after a trace. -/
def duty (tr : Trace) (i : Tid) : Duty := dutyDiscipline.locals (fun _ => {}) tr i

theorem judgeCalls_duty {requests : ℕ → Ctx × JudgeRequest} {judgeMax execMax : ℕ} {cpus : List ℕ}
    {c : Config Op Op.Ans Tid State JudgeAns}
    (h : Reachable semantics (.start (State.new judgeMax execMax cpus) (judgeCalls g requests)) c) :
    DutyInv c.trace (duty c.trace) ∧
      ∀ i, (c.prog i).Safe dutyDiscipline i (fun _ _ => True) (duty c.trace i) := by
  refine duty_upholds.locals (Q := fun _ _ _ => True) h dutyInv_new fun i => ?_
  cases i with
  | judge j => exact judge_duty hx
  | case j n => exact caseThread_duty hx

end Requests

/-! ## Work happens in slots -/

/-- Both disciplines see the same slots. -/
theorem duty_slot (tr : Trace) (i : Tid) : (duty tr i).slot = (held tr i).judge := by
  unfold duty held Discipline.locals
  induction own i tr using List.reverseRecOn with
  | nil => rfl
  | append_singleton events ev ih =>
    rw [Discipline.replay_snoc, Discipline.replay_snoc]
    obtain ⟨e, r⟩ := ev
    cases e with
    | judgeAcquire ctx =>
      cases r with
      | none => rfl
      | some e => exact ih
    | judgeRelease => rfl
    | execAcquire ctx | cpuTake ctx | flightDo key | mkdirTemp | writeFile d name content mode =>
      cases r <;> exact ih
    | watch ctx req => exact ih.trans (Held.watched_steady _ req).judge.symm
    | mark m => cases m <;> exact ih
    | _ => exact ih

/-- The operations after which something more may be held. -/
def Op.Takes : Op → Prop
  | .flightDo _ | .execAcquire _ | .cpuTake _ | .mkdirTemp => True
  | _ => False

/-- After any other operation that leaves the slot alone, nothing is held that was not. -/
theorem next_clear {e : Op} (htakes : ¬ e.Takes) (hacquire : ∀ ctx, e ≠ .judgeAcquire ctx)
    (hrelease : e ≠ .judgeRelease) (i : Tid) (l : Held) (r : e.Ans) :
    (l.Clear → (heldDiscipline.next i l e r).Clear) ∧ (heldDiscipline.next i l e r).judge = l.judge := by
  cases e with
  | judgeAcquire ctx => exact absurd rfl (hacquire ctx)
  | judgeRelease => exact absurd rfl hrelease
  | flightDo key | execAcquire ctx | cpuTake ctx | mkdirTemp => exact absurd trivial htakes
  | execRelease => exact ⟨fun h => ⟨⟨rfl, h.1.2⟩, h.2⟩, rfl⟩
  | cpuPut id => exact ⟨fun h => ⟨⟨h.1.1, rfl, h.1.2.2⟩, h.2⟩, rfl⟩
  | removeAll d => exact ⟨fun h => ⟨⟨h.1.1, h.1.2.1, rfl⟩, h.2⟩, rfl⟩
  | flightDone key f res => exact ⟨fun h => ⟨h.1, rfl⟩, rfl⟩
  | writeFile d name content mode =>
    have hnone : ∀ f : Workspace → Workspace, l.Clear → l.workspace.map f = none := by
      intro f h
      rw [h.1.2.2]
      rfl
    cases r with
    | none => exact ⟨fun h => ⟨⟨h.1.1, h.1.2.1, hnone _ h⟩, h.2⟩, rfl⟩
    | some e => exact ⟨fun h => ⟨⟨h.1.1, h.1.2.1, hnone _ h⟩, h.2⟩, rfl⟩
  | watch ctx req =>
    have hsteady := l.watched_steady req
    exact ⟨fun h => ⟨hsteady.idle h.1, hsteady.leading.trans h.2⟩, hsteady.judge⟩
  | mark m => cases m <;> exact ⟨id, rfl⟩
  | _ => exact ⟨id, rfl⟩

section Slots

variable {g : JudgeEngine} (hg : g.executor = containerExecutor) {requests : ℕ → Ctx × JudgeRequest}
  {judgeMax execMax : ℕ} {cpus : List ℕ} (hcpus : cpus.Nodup) {c : Config Op Op.Ans Tid State JudgeAns}
  (h : Reachable semantics (.start (State.new judgeMax execMax cpus) (judgeCalls g requests)) c)

include hg

theorem executor_ofExecutor : g.executor.All Op.OfExecutor := by
  rw [hg]
  exact containerExecutor_all

include hcpus h

/-- What the goroutine of a request holds, it holds in its slot. -/
theorem judge_clear (j : ℕ) (hheld : ¬ (held c.trace (.judge j)).Clear) :
    (held c.trace (.judge j)).judge = true := by
  refine h.induct (P := fun c => ¬ (held c.trace (.judge j)).Clear → (held c.trace (.judge j)).judge = true)
    ?_ ?_ hheld
  · intro hnot
    exact absurd ⟨⟨rfl, rfl, rfl⟩, rfl⟩ hnot
  · intro c i e k r s hc ih hprog _ hnot
    have hsafe := (judgeCalls_held hc hg hcpus).2 i
    have hduty := (judgeCalls_duty (executor_ofExecutor hg) hc).2 i
    rw [hprog] at hsafe hduty
    simp only [Config.advance, held] at hnot ⊢
    rw [Discipline.locals_snoc] at hnot ⊢
    -- only its own steps change what it holds; those that take something need the slot
    by_cases hi : i = .judge j
    · subst hi
      rw [Function.update_self] at hnot ⊢
      change ¬ (heldDiscipline.next _ (held c.trace (.judge j)) e r).Clear at hnot
      change (heldDiscipline.next _ (held c.trace (.judge j)) e r).judge = true
      have hpre := hsafe.1
      have hslot := duty_slot c.trace (.judge j)
      have hdutyPre := hduty.1
      cases e with
      | judgeAcquire ctx =>
        cases r with
        | none => rfl
        | some e => exact ih hnot
      | judgeRelease => exact absurd hpre.2 hnot
      | flightDo key | execAcquire ctx | cpuTake ctx | mkdirTemp =>
        have hjudge := hslot.symm.trans (hdutyPre ⟨j, rfl⟩)
        cases r <;> exact hjudge
      | _ =>
        obtain ⟨hclear, hjudge⟩ := next_clear (by exact id) (by simp) (by simp) (.judge j)
          (held c.trace (.judge j)) r
        rw [hjudge]
        exact ih fun hc => hnot (hclear hc)
    · rw [Function.update_of_ne (Ne.symm hi)] at hnot ⊢
      exact ih hnot

omit hcpus in
/-- The goroutine of a case works in the slot of its request: the request waits for it. -/
theorem case_slot {j n : ℕ} (hbegun : own (.case j n) c.trace ≠ [])
    (hworks : ∀ u, c.prog (.case j n) ≠ .ret u) : (held c.trace (.judge j)).judge = true := by
  have hx := executor_ofExecutor hg
  obtain ⟨inv, -⟩ := judgeCalls_duty hx h
  obtain ⟨batch, hgo, hcase⟩ : ∃ batch, Did c.trace (.judge j) (.goCases batch) () ∧
      batch.cases[n]? ≠ none := by
    by_contra hnone
    refine hbegun (case_idle hx h ?_)
    intro batch hgo
    by_contra hcase
    exact hnone ⟨batch, hgo, hcase⟩
  rw [← duty_slot]
  refine inv.slot _ ?_
  by_contra hrunning
  have hbatch := inv.started _ batch hgo
  obtain ⟨r, hwait⟩ := inv.waited (.judge j) (by rw [hbatch]; rfl) (by simpa using hrunning)
  -- what was waited for is what was started, so the case is among it
  obtain ⟨i', batch', hi', hgo', hlen, hended⟩ := (slotInv_reachable h).waited (.judge j) r hwait
  obtain rfl : i' = .judge j := (goCases_by_judge hx h hgo').trans (by rw [hi']; rfl)
  obtain rfl : batch = batch' := Option.some.inj (hbatch.symm.trans (inv.started _ batch' hgo'))
  have hn : n < r.length := by
    rw [hlen]
    by_contra hge
    exact hcase (List.getElem?_eq_none (by omega))
  have hend := hended n r[n] (List.getElem?_eq_getElem hn)
  obtain ⟨u, hret⟩ := (h.own_after (.case j n)).ret_of_last (caseThread_last hx) (mem_own.mpr hend) trivial
  exact hworks u hret

end Slots

/-- Something is held or done for a request. -/
def Occupied (c : Config Op Op.Ans Tid State JudgeAns) (j : ℕ) : Prop :=
  ¬ (held c.trace (.judge j)).Clear ∨
    ∃ n, own (.case j n) c.trace ≠ [] ∧ ∀ u, c.prog (.case j n) ≠ .ret u

/-- Judge slots bound the work. In every reachable state, whatever flight, permit, CPU or workspace any
goroutine holds is held for an occupied request, every occupied request has a judge slot, even if all the work
is done by its cases, and so at most `judgeMax` requests are occupied. -/
theorem slots_bound_work {g : JudgeEngine} (hg : g.executor = containerExecutor)
    {requests : ℕ → Ctx × JudgeRequest} {judgeMax execMax : ℕ} {cpus : List ℕ} (hcpus : cpus.Nodup)
    {c : Config Op Op.Ans Tid State JudgeAns}
    (h : Reachable semantics (.start (State.new judgeMax execMax cpus) (judgeCalls g requests)) c) :
    (∀ i, ¬ (held c.trace i).Clear → Occupied c i.request) ∧
    (∀ j, Occupied c j → (held c.trace (.judge j)).judge = true) ∧
    {j | Occupied c j}.encard ≤ judgeMax := by
  obtain ⟨inv, hsafe⟩ := judgeCalls_held h hg hcpus
  have hslot : ∀ j, Occupied c j → (held c.trace (.judge j)).judge = true := by
    rintro j (hheld | ⟨n, hbegun, hworks⟩)
    · exact judge_clear hg hcpus h j hheld
    · exact case_slot hg h hbegun hworks
  refine ⟨?_, hslot, ?_⟩
  · intro i hheld
    cases i with
    | judge j => exact .inl hheld
    | case j n =>
      show Occupied c j
      refine .inr ⟨n, ?_, ?_⟩
      · intro hown
        rw [held, Discipline.locals, hown] at hheld
        exact hheld ⟨⟨rfl, rfl, rfl⟩, rfl⟩
      · intro u hret
        have hrest := hsafe (.case j n)
        rw [hret] at hrest
        exact hheld hrest.clear
  · have himage : Tid.judge '' {j | Occupied c j} ⊆ {i | (held c.trace i).judge = true} := by
      rintro i ⟨j, hj, rfl⟩
      exact hslot j hj
    calc {j | Occupied c j}.encard
        = (Tid.judge '' {j | Occupied c j}).encard :=
          (Function.Injective.encard_image (fun _ _ heq => Tid.judge.inj heq) _).symm
      _ ≤ {i | (held c.trace i).judge = true}.encard := Set.encard_le_encard himage
      _ = c.shared.judgeUsed := inv.capacity.judges
      _ ≤ judgeMax := by exact_mod_cast inv.capacity.judges_le

/-- With one slot, a case of request 0 works while request 1 waits, although there are permits and CPUs for
both. -/
theorem slots_bound_work_one_slot :
    ∃ c : Config Op Op.Ans Tid State JudgeAns,
      Reachable semantics (.start (State.new 1 2 [4, 6]) (judgeCalls containerEngine smallRequests)) c ∧
      (held c.trace (.case 0 0)).permit = true ∧ Occupied c 0 ∧ {j | Occupied c j}.encard ≤ (1 : ℕ) := by
  let schedule := List.replicate 67 (Tid.judge 0) ++ List.replicate 3 (.case 0 0)
  have hrun : (drive compilingWorld.answer schedule
      (.start (State.new 1 2 [4, 6]) (judgeCalls containerEngine smallRequests))).map (fun c =>
        (held c.trace (.case 0 0)).permit) = some true := by decide +kernel
  obtain ⟨c, hc, hpermit⟩ := Option.map_eq_some_iff.mp hrun
  have hreach : Reachable semantics
      (.start (State.new 1 2 [4, 6]) (judgeCalls containerEngine smallRequests)) c :=
    drive_reachable compilingWorld.answer_sound Relation.ReflTransGen.refl hc
  obtain ⟨hoccupied, -, hbound⟩ := slots_bound_work (g := containerEngine) rfl (by decide) hreach
  refine ⟨c, hreach, hpermit, hoccupied (.case 0 0) ?_, hbound⟩
  intro hclear
  exact absurd (hpermit.symm.trans hclear.1.1) (by simp)

end Afterglow.Engine
