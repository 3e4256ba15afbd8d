import Afterglow.Sandbox.Verdict

/-!
# Watching a task

Reference: `internal/sandbox/containerd.go`, from `watchExecution` to `stopTask`.

Five event sources race in the `select` of `waitForExecutionEvent`. What the loop observes is a list
of the cases `select` picked, in order, so every sequence of events and every choice among ready
cases is some list. The loop is a recursion over it; it is still waiting when the list ends first.

`WatchScript` holds everything else the task and its output copiers answer. The calls made on the
task are returned beside the result. What the limited writers hold depends on the calls made before
they are read: the copiers may be at work until they are drained.
-/

namespace Afterglow.Sandbox

/-- `lifecycleOperationTimeout`, in milliseconds. -/
def lifecycleOperationTimeout : ℤ := 5000

/-- `containerd.ExitStatus`; `err` is the error of `Result`. -/
structure ExitStatus where
  code : UInt32
  err : Option Err := none
deriving Repr, DecidableEq

/-- The case that `select` picks in the loop, with the metrics read of a tick. -/
inductive SelectCase
  | exit (status : ExitStatus)
  | exitClosed
  | cpuTick (read : MetricRead)
  | outputLimit
  | wallDeadline
  | ctxDone (err : Err)
deriving Repr, DecidableEq

/-- The result of `task.Kill`. -/
inductive KillResult
  | ok
  | notFound
  | failed (e : Err)
deriving Repr, DecidableEq

/-- The case that `select` picks while waiting for a killed task. -/
inductive StopWait
  | exit (status : ExitStatus)
  | closed
  | timeout (err : Err)
deriving Repr, DecidableEq

/-- What the two limited writers hold. -/
structure Writers where
  stdout : Bytes := []
  stderr : Bytes := []
  stdoutOverflowed : Bool := false
  stderrOverflowed : Bool := false
deriving Repr, DecidableEq

/-- The output that is judged. -/
def Writers.output (w : Writers) : ExecutionOutput where
  stdout := w.stdout
  stderr := w.stderr
  overflowed := w.stdoutOverflowed || w.stderrOverflowed

/-- What the environment of one `watchExecution` call does. -/
structure WatchScript where
  /-- The error of `task.Start`. -/
  start : Option Err := none
  /-- The error of `task.CloseIO`, which is only logged. -/
  closeIO : Option Err := none
  /-- The cases picked by the event loop. -/
  events : List SelectCase
  /-- The metrics read after the loop, if one is made. -/
  metrics : MetricRead
  kill : KillResult := .ok
  afterKill : StopWait
  /-- `none` when the output copiers finished, else the error of the drain context. -/
  drain : Option Err := none
  /-- The writers while the copiers may still be at work. -/
  copying : Writers := {}
  /-- The writers once the copiers are done. -/
  copied : Writers := {}
deriving Repr, DecidableEq

/-- Signals that a task can be sent. -/
inductive Signal
  | sigkill
  | sigterm
deriving Repr, DecidableEq

/-- The calls made on the task, and what was received from its exit channel. -/
inductive TaskCall
  | start (ctx : Ctx)
  | closeIO (ctx : Ctx)
  | metrics (ctx : Ctx) (result : Except Err CgroupMetrics)
  | received (status : ExitStatus)
  | kill (ctx : Ctx) (signal : Signal) (all : Bool)
  | drained
deriving Repr, DecidableEq

/-- The writers as they are read after these calls. -/
def WatchScript.writersAfter (env : WatchScript) (calls : List TaskCall) : Writers :=
  if .drained ∈ calls then env.copied else env.copying

/-- `executionEvent`. -/
structure ExecutionEvent where
  status : ExitStatus := ⟨0, none⟩
  exited : Bool := false
  reason : Option StopReason := none
  metrics : CgroupMetrics := {}
  err : Option Err := none
deriving Repr, DecidableEq

/-- `metricsReadTimeout`, in milliseconds. -/
def metricsReadTimeout : ℤ := 100

/-- The log entry of one `collectMetrics` call. -/
def metricsCall (ctx : Ctx) (read : MetricRead) : TaskCall :=
  .metrics (.withTimeout ctx metricsReadTimeout) (collectMetrics read)

/-- `waitForExecutionEvent`; `none` while no case that ends the loop was picked. -/
def waitForExecutionEvent (ctx : Ctx) (cpuTimeLimitMs : ℤ) :
    List SelectCase → Option (ExecutionEvent × List TaskCall)
  | [] => none
  | .exit status :: _ => some ({ status, exited := true }, [.received status])
  | .exitClosed :: _ =>
      some ({ err := some (.text "wait for task exit: exit channel closed without status") }, [])
  | .cpuTick read :: rest =>
      match collectMetrics read with
      | .error e => some ({ err := some (.wrap "monitor CPU time" e) }, [metricsCall ctx read])
      | .ok metrics =>
          if metrics.cpuMillis ≥ cpuTimeLimitMs then
            some ({ reason := some .cpuTime, metrics }, [metricsCall ctx read])
          else
            (waitForExecutionEvent ctx cpuTimeLimitMs rest).map fun (event, calls) =>
              (event, metricsCall ctx read :: calls)
  | .outputLimit :: _ => some ({ reason := some .outputLimit }, [])
  | .wallDeadline :: _ => some ({ reason := some .wallTime }, [])
  | .ctxDone e :: _ => some ({ err := some (.wrap "execution canceled" e) }, [])

/-- `stopTask`. -/
def stopTask (ctx : Ctx) (env : WatchScript) (timeout : ℤ) : Option Err × List TaskCall :=
  let stopCtx := Ctx.withTimeout (.withoutCancel ctx) timeout
  let kill := TaskCall.kill stopCtx .sigkill true
  match env.kill with
  | .failed e => (some (.wrap "kill task" e), [kill])
  | .ok | .notFound =>
      match env.afterKill with
      | .exit status =>
          (status.err.map (.wrap "wait for task exit after kill"), [kill, .received status])
      | .closed =>
          (some (.text "wait for task exit after kill: exit channel closed without status"), [kill])
      | .timeout e => (some (.wrap "wait for task exit after kill" e), [kill])

/-- `waitForTask`. -/
def waitForTask (ctx : Ctx) (env : WatchScript) (limits : ResourceLimits) :
    Option (Except Err ExecutionOutcome × List TaskCall) :=
  match waitForExecutionEvent ctx limits.cpuTimeMs env.events with
  | none => none
  | some (event, calls) =>
    if event.exited then
      match event.status.err with
      | some e => some (.error (.wrap "read task exit result" e), calls)
      | none =>
        match collectMetrics env.metrics with
        | .error e =>
            some (.error (.wrap "collect cgroup metrics" e), calls ++ [metricsCall ctx env.metrics])
        | .ok metrics =>
            some (.ok { exitCode := event.status.code, metrics },
              calls ++ [metricsCall ctx env.metrics])
    else
      -- the metrics of a CPU-time stop are those of the tick; the other stops read them now
      let (event, calls) : ExecutionEvent × List TaskCall :=
        if event.reason ≠ some .cpuTime ∧ event.err = none then
          match collectMetrics env.metrics with
          | .error e => ({ event with metrics := {}, err := some (.wrap "collect cgroup metrics" e) },
              calls ++ [metricsCall ctx env.metrics])
          | .ok metrics => ({ event with metrics }, calls ++ [metricsCall ctx env.metrics])
        else (event, calls)
      let (stopErr, stopCalls) := stopTask ctx env lifecycleOperationTimeout
      match joinErrors event.err stopErr with
      | some e => some (.error e, calls ++ stopCalls)
      | none => some (.ok { reason := event.reason, metrics := event.metrics }, calls ++ stopCalls)

/-- `waitForOutput`: the error, if any, and that the copiers are done by the time it returns. -/
def waitForOutput (env : WatchScript) : Option Err × List TaskCall :=
  (env.drain.map (.wrap "collect task output"), [.drained])

/-- `watchExecution`; `none` while its event loop is still waiting. -/
def watchExecution (ctx : Ctx) (env : WatchScript) (limits : ResourceLimits) :
    Option (Except Err ExecuteResult × List TaskCall) :=
  match env.start with
  | some e => some (.error (.wrap "start task" e), [.start ctx])
  | none =>
    let prelude := [TaskCall.start ctx, TaskCall.closeIO ctx]
    match waitForTask ctx env limits with
    | none => none
    | some (.error e, calls) => some (.error e, prelude ++ calls)
    | some (.ok outcome, calls) =>
      match waitForOutput env with
      | (some e, drainCalls) => some (.error e, prelude ++ calls ++ drainCalls)
      | (none, drainCalls) =>
        let calls := prelude ++ calls ++ drainCalls
        some (.ok (buildVerdict outcome (env.writersAfter calls).output limits), calls)

/-! ## How the loop ends -/

/-- A picked case after which the loop goes on: a tick that read CPU time below the limit. -/
def SelectCase.Harmless (cpuTimeLimitMs : ℤ) : SelectCase → Prop
  | .cpuTick read => ∃ m, collectMetrics read = .ok m ∧ m.cpuMillis < cpuTimeLimitMs
  | _ => False

/-- `last` is the case that ends the loop: the first one that is not a harmless tick. -/
def LoopEnds (cpuTimeLimitMs : ℤ) (events : List SelectCase) (last : SelectCase) : Prop :=
  ∃ ticks rest, events = ticks ++ last :: rest ∧ (∀ t ∈ ticks, t.Harmless cpuTimeLimitMs) ∧
    ¬ last.Harmless cpuTimeLimitMs

/-- The event that a loop-ending case makes. -/
def SelectCase.event : SelectCase → ExecutionEvent
  | .exit status => { status, exited := true }
  | .exitClosed => { err := some (.text "wait for task exit: exit channel closed without status") }
  | .cpuTick read =>
      match collectMetrics read with
      | .error e => { err := some (.wrap "monitor CPU time" e) }
      | .ok metrics => { reason := some .cpuTime, metrics }
  | .outputLimit => { reason := some .outputLimit }
  | .wallDeadline => { reason := some .wallTime }
  | .ctxDone e => { err := some (.wrap "execution canceled" e) }

/-- A tick at the limit was read by these calls only if the loop stopped for it. -/
def TicksBelow (cpuTimeLimitMs : ℤ) (event : ExecutionEvent) (calls : List TaskCall) : Prop :=
  ∀ c m, TaskCall.metrics c (.ok m) ∈ calls → cpuTimeLimitMs ≤ m.cpuMillis →
    event.reason = some .cpuTime

/-- The loop returns the event of the case that ends it. -/
theorem waitForExecutionEvent_spec {ctx : Ctx} {limit : ℤ} {events : List SelectCase}
    {event : ExecutionEvent} {calls : List TaskCall}
    (h : waitForExecutionEvent ctx limit events = some (event, calls)) :
    ∃ last, LoopEnds limit events last ∧ event = last.event ∧ TicksBelow limit event calls := by
  induction events generalizing event calls with
  | nil => cases h
  | cons picked rest ih =>
      have hhead : ∀ {c : SelectCase}, ¬ c.Harmless limit → LoopEnds limit (c :: rest) c :=
        fun hc => ⟨[], rest, rfl, by simp, hc⟩
      cases picked with
      | exit status =>
          cases h
          exact ⟨_, hhead id, rfl, by simp [TicksBelow]⟩
      | exitClosed =>
          cases h
          exact ⟨_, hhead id, rfl, by simp [TicksBelow]⟩
      | outputLimit =>
          cases h
          exact ⟨_, hhead id, rfl, by simp [TicksBelow]⟩
      | wallDeadline =>
          cases h
          exact ⟨_, hhead id, rfl, by simp [TicksBelow]⟩
      | ctxDone e =>
          cases h
          exact ⟨_, hhead id, rfl, by simp [TicksBelow]⟩
      | cpuTick read =>
          simp only [waitForExecutionEvent] at h
          cases hread : collectMetrics read with
          | error e =>
              rw [hread] at h
              cases h
              refine ⟨.cpuTick read, hhead ?_, ?_, ?_⟩
              · rintro ⟨m, hm, -⟩
                rw [hread] at hm
                cases hm
              · simp [SelectCase.event, hread]
              · simp [TicksBelow, metricsCall, hread]
          | ok m =>
              rw [hread] at h
              simp only at h
              split at h
              · next hover =>
                  cases h
                  refine ⟨.cpuTick read, hhead ?_, ?_, ?_⟩
                  · rintro ⟨m', hm', hlt⟩
                    rw [hread] at hm'
                    cases hm'
                    omega
                  · simp [SelectCase.event, hread]
                  · intro c m' _ _
                    rfl
              · next hbelow =>
                  obtain ⟨⟨event', calls'⟩, hrec, heq⟩ := Option.map_eq_some_iff.mp h
                  cases heq
                  obtain ⟨last, ⟨ticks, rest', hev, hticks, hlast⟩, hevent, htb⟩ := ih hrec
                  refine ⟨last, ⟨.cpuTick read :: ticks, rest', by rw [hev]; rfl, ?_, hlast⟩,
                    hevent, ?_⟩
                  · intro t ht
                    rcases List.mem_cons.mp ht with rfl | ht
                    · exact ⟨m, hread, by omega⟩
                    · exact hticks t ht
                  · intro c m' hmem hle
                    rcases List.mem_cons.mp hmem with heq | hmem
                    · simp only [metricsCall, hread, TaskCall.metrics.injEq, Except.ok.injEq] at heq
                      rw [heq.2] at hle
                      omega
                    · exact htb c m' hmem hle

/-! ## From the end of the loop to the verdict -/

/-- The outcome of a nil-error `waitForTask`, by the case that ended the loop: after an exit, its
code and the metrics read then; after a forced stop, the reason and the metrics read before it.
Cancellation, a closed exit channel and failed monitoring leave no nil-error outcome. -/
inductive OutcomeOf (env : WatchScript) : SelectCase → ExecutionOutcome → Prop
  | exit {status : ExitStatus} {m : CgroupMetrics} (herr : status.err = none)
      (hmetrics : collectMetrics env.metrics = .ok m) :
      OutcomeOf env (.exit status) { exitCode := status.code, metrics := m }
  | cpuTime {read : MetricRead} {m : CgroupMetrics} (hread : collectMetrics read = .ok m) :
      OutcomeOf env (.cpuTick read) { reason := some .cpuTime, metrics := m }
  | wallTime {m : CgroupMetrics} (hmetrics : collectMetrics env.metrics = .ok m) :
      OutcomeOf env .wallDeadline { reason := some .wallTime, metrics := m }
  | outputLimit {m : CgroupMetrics} (hmetrics : collectMetrics env.metrics = .ok m) :
      OutcomeOf env .outputLimit { reason := some .outputLimit, metrics := m }

/-- The tail of a forced stop: a nil error means that neither the event nor the stop had one. -/
theorem stop_ok {e stopErr : Option Err} {good outcome : ExecutionOutcome}
    {calls calls' : List TaskCall}
    (h : (match joinErrors e stopErr with
      | some e => some (Except.error e, calls)
      | none => some (Except.ok good, calls)) = some (.ok outcome, calls')) :
    e = none ∧ stopErr = none ∧ outcome = good ∧ calls' = calls := by
  cases hj : joinErrors e stopErr with
  | some e' =>
      rw [hj] at h
      cases h
  | none =>
      rw [hj] at h
      cases h
      obtain ⟨he, hs⟩ := joinErrors_eq_none.mp hj
      exact ⟨he, hs, rfl, rfl⟩

theorem waitForTask_ok {ctx : Ctx} {env : WatchScript} {limits : ResourceLimits}
    {outcome : ExecutionOutcome} {calls : List TaskCall}
    (h : waitForTask ctx env limits = some (.ok outcome, calls)) :
    ∃ last, LoopEnds limits.cpuTimeMs env.events last ∧ OutcomeOf env last outcome ∧
      (outcome.reason = none → metricsCall ctx env.metrics ∈ calls) ∧
      ∀ c m, TaskCall.metrics c (.ok m) ∈ calls → limits.cpuTimeMs ≤ m.cpuMillis →
        outcome.reason ≠ none ∨ outcome.metrics = m := by
  unfold waitForTask at h
  cases hev : waitForExecutionEvent ctx limits.cpuTimeMs env.events with
  | none =>
      rw [hev] at h
      cases h
  | some p =>
      obtain ⟨event, calls₀⟩ := p
      rw [hev] at h
      obtain ⟨last, hends, rfl, hticks⟩ := waitForExecutionEvent_spec hev
      refine ⟨last, hends, ?_⟩
      cases last with
      | exit status =>
          simp only [SelectCase.event, if_true] at h
          cases herr : status.err with
          | some e =>
              rw [herr] at h
              cases h
          | none =>
              rw [herr] at h
              cases hm : collectMetrics env.metrics with
              | error e =>
                  rw [hm] at h
                  cases h
              | ok m =>
                  rw [hm] at h
                  cases h
                  -- after an exit the metrics read last are those of the outcome, and no tick before was over
                  refine ⟨.exit herr hm, fun _ => by simp, ?_⟩
                  intro c m' hmem hle
                  rcases List.mem_append.mp hmem with hmem | hmem
                  · cases hticks c m' hmem hle
                  · simp only [metricsCall, hm, List.mem_singleton, TaskCall.metrics.injEq,
                      Except.ok.injEq] at hmem
                    exact .inr hmem.2.symm
      -- these two come with an error, so the stop cannot end without one
      | exitClosed => cases (stop_ok h).1
      | ctxDone e => cases (stop_ok h).1
      | cpuTick read =>
          cases hread : collectMetrics read with
          | error e =>
              simp only [SelectCase.event, hread] at h
              cases (stop_ok h).1
          | ok m =>
              simp only [SelectCase.event, hread] at h
              obtain ⟨-, -, rfl, -⟩ := stop_ok h
              exact ⟨.cpuTime hread, by simp, fun _ _ _ _ => .inl (by simp)⟩
      | outputLimit =>
          cases hm : collectMetrics env.metrics with
          | error e =>
              simp only [SelectCase.event, hm] at h
              cases (stop_ok h).1
          | ok m =>
              simp only [SelectCase.event, hm] at h
              obtain ⟨-, -, rfl, -⟩ := stop_ok h
              exact ⟨.outputLimit hm, by simp, fun _ _ _ _ => .inl (by simp)⟩
      | wallDeadline =>
          cases hm : collectMetrics env.metrics with
          | error e =>
              simp only [SelectCase.event, hm] at h
              cases (stop_ok h).1
          | ok m =>
              simp only [SelectCase.event, hm] at h
              obtain ⟨-, -, rfl, -⟩ := stop_ok h
              exact ⟨.wallTime hm, by simp, fun _ _ _ _ => .inl (by simp)⟩

/-- A nil-error result is the verdict on the outcome of the loop and the drained output. -/
theorem watchExecution_ok {ctx : Ctx} {env : WatchScript} {limits : ResourceLimits}
    {res : ExecuteResult} {calls : List TaskCall}
    (h : watchExecution ctx env limits = some (.ok res, calls)) :
    ∃ outcome calls₀, waitForTask ctx env limits = some (.ok outcome, calls₀) ∧
      env.drain = none ∧ calls = [.start ctx, TaskCall.closeIO ctx] ++ calls₀ ++ [.drained] ∧
      res = buildVerdict outcome env.copied.output limits := by
  unfold watchExecution at h
  cases hstart : env.start with
  | some e =>
      rw [hstart] at h
      cases h
  | none =>
      rw [hstart] at h
      simp only at h
      rcases hwait : waitForTask ctx env limits with _ | ⟨_ | outcome, calls₀⟩
      · rw [hwait] at h
        cases h
      · rw [hwait] at h
        cases h
      · rw [hwait] at h
        cases hdrain : env.drain with
        | some e =>
            simp only [waitForOutput, hdrain, Option.map_some] at h
            cases h
        | none =>
            simp only [waitForOutput, hdrain, Option.map_none, Option.some.injEq,
              Prod.mk.injEq, Except.ok.injEq] at h
            refine ⟨outcome, calls₀, rfl, rfl, h.2.symm, ?_⟩
            rw [← h.1, WatchScript.writersAfter, if_pos (by simp)]

end Afterglow.Sandbox
