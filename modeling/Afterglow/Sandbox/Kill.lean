import Afterglow.Sandbox.Watch

/-!
# When a task is killed

Reference: `internal/sandbox/containerd.go`, from `watchExecution` to `stopTask`.

Once a task was started, `watchExecution` either sees it exit or kills it. The event loop makes no call
but metrics reads, and receives a status only if that ends it; everything after a loop that ended some
other way goes through `stopTask`, also when the metrics read in between fails.
-/

namespace Afterglow.Sandbox

/-- The `Kill` calls. -/
def TaskCall.isKill : TaskCall → Bool
  | .kill _ _ _ => true
  | _ => false

/-- The statuses received from the exit channel. -/
def TaskCall.isReceived : TaskCall → Bool
  | .received _ => true
  | _ => false

theorem metricsCall_isKill (ctx : Ctx) (read : MetricRead) : (metricsCall ctx read).isKill = false := rfl

theorem metricsCall_isReceived (ctx : Ctx) (read : MetricRead) :
    (metricsCall ctx read).isReceived = false := rfl

/-- What the case that ends the loop receives from the exit channel. -/
def SelectCase.received : SelectCase → List TaskCall
  | .exit status => [.received status]
  | _ => []

/-! ## The loop -/

/-- A case that ends the loop does so at once. -/
theorem waitForExecutionEvent_last {ctx : Ctx} {limit : ℤ} {last : SelectCase}
    (h : ¬ last.Harmless limit) (rest : List SelectCase) :
    ∃ calls, waitForExecutionEvent ctx limit (last :: rest) = some (last.event, calls) ∧
      calls.filter TaskCall.isKill = [] ∧ calls.filter TaskCall.isReceived = last.received := by
  cases last with
  | exit status => exact ⟨_, rfl, rfl, rfl⟩
  | exitClosed => exact ⟨_, rfl, rfl, rfl⟩
  | outputLimit => exact ⟨_, rfl, rfl, rfl⟩
  | wallDeadline => exact ⟨_, rfl, rfl, rfl⟩
  | ctxDone e => exact ⟨_, rfl, rfl, rfl⟩
  | cpuTick read =>
    refine ⟨[metricsCall ctx read], ?_, rfl, rfl⟩
    rw [waitForExecutionEvent]
    cases hread : collectMetrics read with
    | error e => simp only [SelectCase.event, hread]
    | ok m =>
      have hover : m.cpuMillis ≥ limit := by
        by_contra hlt
        exact h ⟨m, hread, by omega⟩
      simp only [SelectCase.event, hread, if_pos hover]

/-- The loop returns when a case that ends it is picked, however many ticks came before. -/
theorem waitForExecutionEvent_of_ends (ctx : Ctx) {limit : ℤ} {events : List SelectCase}
    {last : SelectCase} (h : LoopEnds limit events last) :
    ∃ calls, waitForExecutionEvent ctx limit events = some (last.event, calls) ∧
      calls.filter TaskCall.isKill = [] ∧ calls.filter TaskCall.isReceived = last.received := by
  obtain ⟨ticks, rest, rfl, hticks, hlast⟩ := h
  induction ticks with
  | nil => exact waitForExecutionEvent_last hlast rest
  | cons tick ticks ih =>
    obtain ⟨calls, hrest, hkill, hreceived⟩ := ih fun t ht => hticks t (List.mem_cons_of_mem _ ht)
    have htick := hticks tick List.mem_cons_self
    cases tick with
    | cpuTick read =>
      obtain ⟨m, hread, hlt⟩ := htick
      refine ⟨metricsCall ctx read :: calls, ?_, ?_, ?_⟩
      · rw [List.cons_append, waitForExecutionEvent, hread]
        simp only [if_neg (by omega : ¬ m.cpuMillis ≥ limit), hrest, Option.map_some]
      · rw [List.filter_cons_of_neg (by simp [metricsCall_isKill]), hkill]
      · rw [List.filter_cons_of_neg (by simp [metricsCall_isReceived]), hreceived]
    | exit _ | exitClosed | outputLimit | wallDeadline | ctxDone _ => exact absurd htick id

/-- The loop is left waiting exactly when no case that ends it is picked. -/
theorem waitForExecutionEvent_eq_none {ctx : Ctx} {limit : ℤ} {events : List SelectCase} :
    waitForExecutionEvent ctx limit events = none ↔ ¬ ∃ last, LoopEnds limit events last := by
  constructor
  · rintro hnone ⟨last, hends⟩
    obtain ⟨calls, hsome, -⟩ := waitForExecutionEvent_of_ends ctx hends
    rw [hsome] at hnone
    cases hnone
  · intro hnot
    cases hres : waitForExecutionEvent ctx limit events with
    | none => rfl
    | some p =>
      obtain ⟨last, hends, -⟩ := waitForExecutionEvent_spec hres
      exact absurd ⟨last, hends⟩ hnot

/-! ## The stop -/

/-- The error that is known when the task is stopped: that of the event, or else that of the metrics read
in between. -/
def SelectCase.errBeforeStop (last : SelectCase) (env : WatchScript) : Option Err :=
  if last.event.reason ≠ some .cpuTime ∧ last.event.err = none then
    match collectMetrics env.metrics with
    | .error e => some (.wrap "collect cgroup metrics" e)
    | .ok _ => none
  else last.event.err

/-- `stopTask` kills once, and succeeds only if it then receives a status without error. -/
theorem stopTask_calls (ctx : Ctx) (env : WatchScript) (timeout : ℤ) :
    (stopTask ctx env timeout).2.filter TaskCall.isKill =
        [.kill (.withTimeout (.withoutCancel ctx) timeout) .sigkill true] ∧
      ((stopTask ctx env timeout).1 = none → ∃ status, status.err = none ∧
        (stopTask ctx env timeout).2.filter TaskCall.isReceived = [.received status]) := by
  unfold stopTask
  cases env.kill with
  | failed e => exact ⟨rfl, fun h => nomatch h⟩
  | ok | notFound =>
    cases env.afterKill with
    | exit status =>
      refine ⟨rfl, fun h => ⟨status, ?_, rfl⟩⟩
      exact Option.map_eq_none_iff.mp h
    | closed => exact ⟨rfl, fun h => nomatch h⟩
    | timeout e => exact ⟨rfl, fun h => nomatch h⟩

/-- What `errors.Join` of two possible errors leaves of a result. -/
def Joined {α : Type} (first second : Option Err) (res : Except Err α) : Prop :=
  match joinErrors first second with
  | some e => res = .error e
  | none => ∃ a, res = .ok a

theorem joined_result {α : Type} (first second : Option Err) (a : α) (calls : List TaskCall) :
    ∃ res, (match joinErrors first second with
      | some e => some (Except.error e, calls)
      | none => some (Except.ok a, calls)) = some (res, calls) ∧ Joined first second res := by
  unfold Joined
  cases joinErrors first second with
  | some e => exact ⟨_, rfl, rfl⟩
  | none => exact ⟨_, rfl, a, rfl⟩

/-- After a loop that saw no exit, `waitForTask` joins the error known so far with that of the stop. -/
theorem waitForTask_forced (ctx : Ctx) {env : WatchScript} {limits : ResourceLimits} {last : SelectCase}
    (hends : LoopEnds limits.cpuTimeMs env.events last) (hexit : last.event.exited = false) :
    ∃ res calls, waitForTask ctx env limits = some (res, calls) ∧
      calls.filter TaskCall.isKill =
        (stopTask ctx env lifecycleOperationTimeout).2.filter TaskCall.isKill ∧
      calls.filter TaskCall.isReceived = last.received ++
        (stopTask ctx env lifecycleOperationTimeout).2.filter TaskCall.isReceived ∧
      Joined (last.errBeforeStop env) (stopTask ctx env lifecycleOperationTimeout).1 res := by
  obtain ⟨calls₀, hevent, hkill, hreceived⟩ := waitForExecutionEvent_of_ends ctx hends
  unfold waitForTask SelectCase.errBeforeStop
  rw [hevent]
  simp only [hexit, Bool.false_eq_true, if_false]
  generalize stopTask ctx env lifecycleOperationTimeout = stop
  by_cases hread : last.event.reason ≠ some .cpuTime ∧ last.event.err = none
  · simp only [if_pos hread]
    cases collectMetrics env.metrics with
    | error e =>
      obtain ⟨res, hres, hjoined⟩ := joined_result (some (.wrap "collect cgroup metrics" e)) stop.1 _ _
      exact ⟨res, _, hres, by simp [hkill, metricsCall_isKill],
        by simp [hreceived, metricsCall_isReceived], hjoined⟩
    | ok m =>
      simp only [hread.2]
      obtain ⟨res, hres, hjoined⟩ := joined_result none stop.1 _ _
      exact ⟨res, _, hres, by simp [hkill, metricsCall_isKill],
        by simp [hreceived, metricsCall_isReceived], hjoined⟩
  · simp only [if_neg hread]
    obtain ⟨res, hres, hjoined⟩ := joined_result last.event.err stop.1 _ _
    exact ⟨res, _, hres, by simp [hkill], by simp [hreceived], hjoined⟩

/-- After a loop that saw the task exit, `waitForTask` makes one metrics read at most. -/
theorem waitForTask_exit (ctx : Ctx) {env : WatchScript} {limits : ResourceLimits} {status : ExitStatus}
    (hends : LoopEnds limits.cpuTimeMs env.events (.exit status)) :
    ∃ res calls, waitForTask ctx env limits = some (res, calls) ∧
      calls.filter TaskCall.isKill = [] ∧ calls.filter TaskCall.isReceived = [.received status] ∧
      ((∃ outcome, res = .ok outcome) → status.err = none) := by
  obtain ⟨calls₀, hevent, hkill, hreceived⟩ := waitForExecutionEvent_of_ends ctx hends
  unfold waitForTask
  rw [hevent]
  simp only [SelectCase.event, if_true]
  cases herr : status.err with
  | some e =>
    refine ⟨_, _, rfl, hkill, hreceived, ?_⟩
    rintro ⟨outcome, h⟩
    cases h
  | none =>
    cases collectMetrics env.metrics with
    | error e => exact ⟨_, _, rfl, by simp [hkill, metricsCall_isKill],
        by simp [hreceived, SelectCase.received, metricsCall_isReceived], fun _ => rfl⟩
    | ok m => exact ⟨_, _, rfl, by simp [hkill, metricsCall_isKill],
        by simp [hreceived, SelectCase.received, metricsCall_isReceived], fun _ => rfl⟩

/-- `watchExecution` adds no call that kills or receives to those of `waitForTask`, keeps its error, and
returns a result only after the copiers have finished. -/
theorem watchExecution_calls {ctx : Ctx} {env : WatchScript} {limits : ResourceLimits}
    {res : Except Err ExecutionOutcome} {calls : List TaskCall} (hstart : env.start = none)
    (h : waitForTask ctx env limits = some (res, calls)) :
    ∃ res' calls', watchExecution ctx env limits = some (res', calls') ∧
      calls'.filter TaskCall.isKill = calls.filter TaskCall.isKill ∧
      calls'.filter TaskCall.isReceived = calls.filter TaskCall.isReceived ∧
      (∀ e, res = .error e → res' = .error e) ∧
      ∀ r, res' = .ok r → (∃ outcome, res = .ok outcome) ∧ TaskCall.drained ∈ calls' := by
  unfold watchExecution
  simp only [hstart, h, waitForOutput]
  cases res with
  | error e =>
    refine ⟨_, _, rfl, rfl, rfl, ?_, ?_⟩
    · intro e' h
      cases h
      rfl
    · intro r h
      cases h
  | ok outcome =>
    cases env.drain with
    | some e =>
      refine ⟨_, _, rfl, ?_, ?_, ?_, ?_⟩
      · simp [TaskCall.isKill]
      · simp [TaskCall.isReceived]
      · intro e' h
        cases h
      · intro r h
        cases h
    | none =>
      refine ⟨_, _, rfl, ?_, ?_, ?_, fun _ _ => ⟨⟨_, rfl⟩, by simp⟩⟩
      · simp [TaskCall.isKill]
      · simp [TaskCall.isReceived]
      · intro e' h
        cases h

theorem watchExecution_exit (ctx : Ctx) {env : WatchScript} {limits : ResourceLimits}
    {status : ExitStatus} (hstart : env.start = none)
    (hends : LoopEnds limits.cpuTimeMs env.events (.exit status)) :
    ∃ res calls, watchExecution ctx env limits = some (res, calls) ∧
      (∀ c ∈ calls, c.isKill = false) ∧
      ∀ r, res = .ok r → (∃ status, status.err = none ∧
        calls.filter TaskCall.isReceived = [.received status]) ∧ .drained ∈ calls := by
  obtain ⟨res, calls, hwait, hkill, hreceived, herr⟩ := waitForTask_exit ctx hends
  obtain ⟨res', calls', hwatch, hkill', hreceived', -, hok⟩ := watchExecution_calls hstart hwait
  refine ⟨res', calls', hwatch, ?_, ?_⟩
  · rw [hkill, List.filter_eq_nil_iff] at hkill'
    simpa using hkill'
  · intro r hr
    obtain ⟨houtcome, hdrained⟩ := hok r hr
    exact ⟨⟨status, herr houtcome, hreceived'.trans hreceived⟩, hdrained⟩

theorem watchExecution_forced (ctx : Ctx) {env : WatchScript} {limits : ResourceLimits}
    {last : SelectCase} (hstart : env.start = none)
    (hends : LoopEnds limits.cpuTimeMs env.events last) (hexit : ∀ status, last ≠ .exit status) :
    ∃ res calls, watchExecution ctx env limits = some (res, calls) ∧
      (∃ stopCtx, calls.filter TaskCall.isKill = [.kill stopCtx .sigkill true] ∧
        ∀ id, ¬ stopCtx.observes id) ∧
      (∀ e, last.errBeforeStop env = some e ∨
          (stopTask ctx env lifecycleOperationTimeout).1 = some e →
        ∃ err, res = .error err ∧ err.Is e) ∧
      ∀ r, res = .ok r → (∃ status, status.err = none ∧
        calls.filter TaskCall.isReceived = [.received status]) ∧ .drained ∈ calls := by
  have hevent : last.event.exited = false ∧ last.received = [] := by
    cases last with
    | exit status => exact absurd rfl (hexit status)
    | cpuTick read =>
      refine ⟨?_, rfl⟩
      rw [SelectCase.event]
      split <;> rfl
    | exitClosed | outputLimit | wallDeadline | ctxDone _ => exact ⟨rfl, rfl⟩
  obtain ⟨hkillStop, hreceivedStop⟩ := stopTask_calls ctx env lifecycleOperationTimeout
  obtain ⟨res, calls, hwait, hkill, hreceived, hjoined⟩ := waitForTask_forced ctx hends hevent.1
  obtain ⟨res', calls', hwatch, hkill', hreceived', herror, hok⟩ := watchExecution_calls hstart hwait
  refine ⟨res', calls', hwatch, ⟨_, (hkill'.trans hkill).trans hkillStop, fun _ h => h⟩, ?_, ?_⟩
  · intro e he
    obtain ⟨err, heq, his⟩ := joinErrors_is he
    rw [Joined, heq] at hjoined
    exact ⟨err, herror err hjoined, his⟩
  · intro r hr
    obtain ⟨⟨outcome, rfl⟩, hdrained⟩ := hok r hr
    refine ⟨?_, hdrained⟩
    have hnone : (stopTask ctx env lifecycleOperationTimeout).1 = none := by
      by_contra hsome
      obtain ⟨e, he⟩ := Option.ne_none_iff_exists'.mp hsome
      obtain ⟨err, heq, -⟩ := joinErrors_is (.inr he)
      rw [Joined, heq] at hjoined
      cases hjoined
    obtain ⟨status, hstatus, hone⟩ := hreceivedStop hnone
    exact ⟨status, hstatus, by rw [hreceived', hreceived, hevent.2, hone]; rfl⟩

theorem watchExecution_returns (ctx : Ctx) {env : WatchScript} {limits : ResourceLimits}
    {last : SelectCase} (hstart : env.start = none)
    (hends : LoopEnds limits.cpuTimeMs env.events last) : ∃ p, watchExecution ctx env limits = some p := by
  by_cases hexit : ∃ status, last = .exit status
  · obtain ⟨status, rfl⟩ := hexit
    obtain ⟨res, calls, hwatch, -⟩ := watchExecution_exit ctx hstart hends
    exact ⟨_, hwatch⟩
  · push Not at hexit
    obtain ⟨res, calls, hwatch, -⟩ := watchExecution_forced ctx hstart hends hexit
    exact ⟨_, hwatch⟩

/-- Once the task was started, `watchExecution` returns exactly if its loop ends. If that was by a status
from the exit channel, `Kill` is never called; in every other case it is called exactly once, with
`SIGKILL` for all processes and on a context that no request cancels, and the errors of the event, of the
metrics read and of the stop are all found in the error returned. Without an error, exactly one status was
received, it carried none either, and the output copiers have finished. -/
theorem watchExecution_kills (ctx : Ctx) (env : WatchScript) (limits : ResourceLimits)
    (hstart : env.start = none) :
    (watchExecution ctx env limits = none ↔ ¬ ∃ last, LoopEnds limits.cpuTimeMs env.events last) ∧
    ∀ last, LoopEnds limits.cpuTimeMs env.events last →
      ∃ res calls, watchExecution ctx env limits = some (res, calls) ∧
        (∀ status, last = .exit status → ∀ c ∈ calls, c.isKill = false) ∧
        ((∀ status, last ≠ .exit status) →
          (∃ stopCtx, calls.filter TaskCall.isKill = [.kill stopCtx .sigkill true] ∧
            ∀ id, ¬ stopCtx.observes id) ∧
          ∀ e, last.errBeforeStop env = some e ∨
              (stopTask ctx env lifecycleOperationTimeout).1 = some e →
            ∃ err, res = .error err ∧ err.Is e) ∧
        (∀ r, res = .ok r → (∃ status, status.err = none ∧
          calls.filter TaskCall.isReceived = [.received status]) ∧ .drained ∈ calls) := by
  refine ⟨⟨?_, ?_⟩, ?_⟩
  · rintro hnone ⟨last, hends⟩
    obtain ⟨p, hsome⟩ := watchExecution_returns ctx hstart hends
    rw [hsome] at hnone
    cases hnone
  · intro hnot
    unfold watchExecution waitForTask
    rw [hstart, waitForExecutionEvent_eq_none.mpr hnot]
  · intro last hends
    by_cases hexit : ∃ status, last = .exit status
    · obtain ⟨status, rfl⟩ := hexit
      obtain ⟨res, calls, hwatch, hkill, hok⟩ := watchExecution_exit ctx hstart hends
      exact ⟨res, calls, hwatch, fun _ _ => hkill, fun h => absurd rfl (h status), hok⟩
    · push Not at hexit
      obtain ⟨res, calls, hwatch, hkill, herror, hok⟩ := watchExecution_forced ctx hstart hends hexit
      exact ⟨res, calls, hwatch, fun status h => absurd h (hexit status), fun _ => ⟨hkill, herror⟩, hok⟩

/-- The request is cancelled, the metrics are not read then, and `Kill` fails. -/
theorem watchExecution_kills_cancelled :
    let env : WatchScript :=
      { events := [.cpuTick (.stats ⟨none, none, none⟩), .ctxDone (.text "context canceled")]
        metrics := .noData, kill := .failed (.text "ttrpc: closed"), afterKill := .closed }
    ∃ err calls, watchExecution (.request 0) env ⟨1000, 3000, 256, 1024⟩ = some (.error err, calls) ∧
      (∃ stopCtx, calls.filter TaskCall.isKill = [.kill stopCtx .sigkill true] ∧
        ∀ id, ¬ stopCtx.observes id) ∧
      err.Is (.wrap "execution canceled" (.text "context canceled")) ∧
      err.Is (.wrap "kill task" (.text "ttrpc: closed")) := by
  intro env
  have hends : LoopEnds 1000 env.events (.ctxDone (.text "context canceled")) := by
    refine ⟨[.cpuTick (.stats ⟨none, none, none⟩)], [], rfl, ?_, id⟩
    intro t ht
    rw [List.mem_singleton.mp ht]
    exact ⟨_, rfl, by decide⟩
  obtain ⟨-, hkills⟩ := watchExecution_kills (.request 0) env ⟨1000, 3000, 256, 1024⟩ rfl
  obtain ⟨res, calls, hwatch, -, hforced, -⟩ := hkills _ hends
  obtain ⟨hkill, herror⟩ := hforced (by simp)
  obtain ⟨err, rfl, hcancel⟩ := herror (.wrap "execution canceled" (.text "context canceled")) (.inl rfl)
  obtain ⟨err', heq, hstop⟩ := herror (.wrap "kill task" (.text "ttrpc: closed")) (.inr rfl)
  cases heq
  exact ⟨err, calls, hwatch, hkill, hcancel, hstop⟩

end Afterglow.Sandbox
