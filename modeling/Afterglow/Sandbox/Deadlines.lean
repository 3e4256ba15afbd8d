import Mathlib.Data.Int.LeastGreatest
import Afterglow.Sandbox.Kill

/-!
# Events in the order of their times

Reference: `watchExecution`, `waitForTask`, `waitForExecutionEvent` and `waitForOutput` in
`internal/sandbox/containerd.go`, and `collectMetrics` in `metrics.go`.

A task ends by itself or by one of its own limits: the output limit, the first CPU tick at or over the
limit, the wall timer. Beside these there is the deadline of the context. Here each of them has a time, in
nanoseconds, and `select` picks whatever comes first. A tick is read when it is due, in no time. The metrics
read after the loop, the kill and the drain take time, and the first and the last of them are under the
context too: if it expires while they are made, they may fail.
-/

namespace Afterglow

/-- When a context expires whose timeouts were set at `now`. A request itself has no deadline. -/
def Ctx.deadline (now : ℤ) : Ctx → Option ℤ
  | .request _ | .withoutCancel _ => none
  | .withValue parent | .withCancel parent => parent.deadline now
  | .withTimeout parent ms =>
    let timeout := now + toInt64 (ms * 1000000)
    some ((parent.deadline now).elim timeout (min timeout))

/-- A call made under this context and over at `t` may succeed. -/
def Ctx.InTime (ctx : Ctx) (now t : ℤ) : Prop := ∀ d, ctx.deadline now = some d → t ≤ d

/-- A call made under this context and not over before `t` may be cut off. -/
def Ctx.CutOff (ctx : Ctx) (now t : ℤ) : Prop := ∃ d, ctx.deadline now = some d ∧ d ≤ t

theorem Ctx.inTime_or_cutOff (ctx : Ctx) (now t : ℤ) : ctx.InTime now t ∨ ctx.CutOff now t := by
  cases hd : ctx.deadline now with
  | none =>
    left
    intro d hsome
    cases hd.symm.trans hsome
  | some d =>
    rcases le_total t d with hle | hle
    · left
      intro d' hsome
      cases hd.symm.trans hsome
      exact hle
    · exact .inr ⟨d, hd, hle⟩

namespace Sandbox

/-- `cpuTimeCheckInterval`, in nanoseconds. -/
def cpuTimeCheckInterval : ℕ := 10 * 1000000

/-- The error of a context that expired. -/
def deadlineExceeded : Err := .text "context deadline exceeded"

/-- What a task does once it is started, if nothing stops it, and how long the calls made on it take. The
times of the task count from its start. No call runs into the timeout that it is itself made with. -/
structure TaskCourse where
  /-- When it exits by itself, and its code. -/
  exit : Option (ℕ × UInt32)
  /-- When it exceeds its output limit. -/
  overflow : Option ℕ
  /-- The statistics of its cgroup at each time. -/
  stats : ℕ → CgroupStats
  /-- The statistics that are read when the loop has ended. -/
  final : CgroupStats
  /-- The writers once the copiers are done. -/
  copied : Writers
  /-- How long the metrics read after the loop takes. -/
  metricsTime : ℕ
  /-- How long a killed task takes to be gone. -/
  killTime : ℕ
  /-- How long the copiers are at work after that. -/
  drainTime : ℕ
  metricsTime_lt : metricsTime < metricsReadTimeout * 1000000
  killTime_lt : killTime < lifecycleOperationTimeout * 1000000
  drainTime_lt : drainTime < lifecycleOperationTimeout * 1000000

namespace TaskCourse

/-- The time of a tick. -/
def tickTime (n : ℕ) : ℕ := (n + 1) * cpuTimeCheckInterval

/-- What a tick reads. -/
def tick (task : TaskCourse) (n : ℕ) : SelectCase := .cpuTick (.stats (task.stats (tickTime n)))

/-- The CPU time that a tick reads. -/
def cpuMillis (task : TaskCourse) (n : ℕ) : ℤ := (parseCgroupMetrics (task.stats (tickTime n))).cpuMillis

/-- The ends of a task that started at `t1`: its own exit and each of its own limits, with their times. -/
inductive OwnEnd (task : TaskCourse) (limits : ResourceLimits) (t1 : ℤ) : ℤ → SelectCase → Prop
  | exit {t : ℕ} {code : UInt32} (h : task.exit = some (t, code)) :
      OwnEnd task limits t1 (t1 + t) (.exit ⟨code, none⟩)
  | outputLimit {t : ℕ} (h : task.overflow = some t) : OwnEnd task limits t1 (t1 + t) .outputLimit
  | cpuTime {n : ℕ} (h : limits.cpuTimeMs ≤ task.cpuMillis n) :
      OwnEnd task limits t1 (t1 + tickTime n) (task.tick n)
  | wallTime : OwnEnd task limits t1 (t1 + wallDeadline limits) .wallDeadline

/-- The end that comes first. Of several at the same time, each is one. -/
structure FirstOwnEnd (task : TaskCourse) (limits : ResourceLimits) (t1 t : ℤ) (last : SelectCase) :
    Prop where
  own : task.OwnEnd limits t1 t last
  first : ∀ t' last', task.OwnEnd limits t1 t' last' → t ≤ t'

/-- What may end the loop, with its time: an end of the task, or the deadline of a context whose timeouts
were set at `t0`. -/
inductive Due (task : TaskCourse) (ctx : Ctx) (limits : ResourceLimits) (t0 t1 : ℤ) :
    ℤ → SelectCase → Prop
  | own {t : ℤ} {last : SelectCase} (h : task.OwnEnd limits t1 t last) : Due task ctx limits t0 t1 t last
  | expired {d : ℤ} (h : ctx.deadline t0 = some d) :
      Due task ctx limits t0 t1 d (.ctxDone deadlineExceeded)

/-- `last` ends the loop at `t`, since nothing is due before. Up to then all ticks are read; one that is
due at the same time may be. -/
structure Observed (task : TaskCourse) (ctx : Ctx) (limits : ResourceLimits) (t0 t1 t : ℤ)
    (last : SelectCase) (events : List SelectCase) : Prop where
  due : task.Due ctx limits t0 t1 t last
  first : ∀ t' last', task.Due ctx limits t0 t1 t' last' → t ≤ t'
  ticks : ∃ k, events = (List.range k).map task.tick ++ [last] ∧
    (∀ n < k, t1 + tickTime n ≤ t ∧ task.cpuMillis n < limits.cpuTimeMs) ∧
    ∀ n, t1 + tickTime n < t → n < k

/-- When the metrics are read, if the loop ended at `t`. Those of a CPU stop are the tick's, and there are
none for an error. -/
def readAt (task : TaskCourse) (t : ℤ) : SelectCase → ℤ
  | .exit _ | .outputLimit | .wallDeadline => t + task.metricsTime
  | .cpuTick _ | .exitClosed | .ctxDone _ => t

/-- When the task is gone. -/
def goneAt (task : TaskCourse) (t : ℤ) : SelectCase → ℤ
  | .exit status => task.readAt t (.exit status)
  | last => task.readAt t last + task.killTime

/-- When the copiers are done. -/
def settledAt (task : TaskCourse) (t : ℤ) (last : SelectCase) : ℤ := task.goneAt t last + task.drainTime

/-- How a watch of the task may go if `last` ends its loop at `t`. The start and the kill succeed; the
metrics read and the drain do unless the context expires first. -/
structure Watched (task : TaskCourse) (ctx : Ctx) (limits : ResourceLimits) (t0 t1 t : ℤ)
    (last : SelectCase) (w : WatchScript) : Prop where
  start : w.start = none
  events : task.Observed ctx limits t0 t1 t last w.events
  metrics : w.metrics = .stats task.final ∧ ctx.InTime t0 (task.readAt t last) ∨
    w.metrics = .failed deadlineExceeded ∧ ctx.CutOff t0 (task.readAt t last)
  kill : w.kill = .ok
  afterKill : ∃ code, w.afterKill = .exit ⟨code, none⟩
  drain : w.drain = none ∧ ctx.InTime t0 (task.settledAt t last) ∨
    w.drain = some deadlineExceeded ∧ ctx.CutOff t0 (task.settledAt t last)
  copied : w.copied = task.copied

variable {task : TaskCourse} {ctx : Ctx} {limits : ResourceLimits} {t0 t1 t : ℤ} {last : SelectCase}

theorem tickTime_eq (n : ℕ) : tickTime n = (n + 1) * 10000000 := rfl

theorem readAt_le_settledAt (task : TaskCourse) (t : ℤ) (last : SelectCase) :
    task.readAt t last ≤ task.settledAt t last := by
  cases last <;> simp only [settledAt, goneAt] <;> omega

theorem le_settledAt (task : TaskCourse) (t : ℤ) (last : SelectCase) : t ≤ task.settledAt t last := by
  have hread : t ≤ task.readAt t last := by
    cases last <;> simp only [readAt] <;> omega
  exact hread.trans (task.readAt_le_settledAt t last)

/-! ## What comes first -/

theorem OwnEnd.not_harmless (h : task.OwnEnd limits t1 t last) : ¬ last.Harmless limits.cpuTimeMs := by
  cases h with
  | exit _ | outputLimit _ | wallTime => exact id
  | cpuTime hover =>
    rintro ⟨m, hm, hlt⟩
    cases hm
    exact absurd hover (not_le_of_gt hlt)

theorem Due.not_harmless (h : task.Due ctx limits t0 t1 t last) : ¬ last.Harmless limits.cpuTimeMs := by
  cases h with
  | own h => exact h.not_harmless
  | expired _ => exact id

/-- Every task ends, at the latest by its wall timer. -/
theorem exists_firstOwnEnd (task : TaskCourse) (limits : ResourceLimits) (t1 : ℤ) :
    ∃ t last, task.FirstOwnEnd limits t1 t last := by
  have hbound : ∀ t, (∃ last, task.OwnEnd limits t1 t last) → min t1 (t1 + wallDeadline limits) ≤ t := by
    rintro t ⟨last, hown⟩
    cases hown <;> omega
  obtain ⟨t, ⟨last, hown⟩, hfirst⟩ := Int.exists_least_of_bdd ⟨_, hbound⟩ ⟨_, _, .wallTime⟩
  exact ⟨t, last, hown, fun t' last' h => hfirst t' ⟨last', h⟩⟩

/-- The ticks before a time are finitely many. -/
theorem exists_ticks_before (t1 t : ℤ) : ∃ k, ∀ n, t1 + tickTime n < t ↔ n < k := by
  refine ⟨((t - t1 - 1) / 10000000).toNat, fun n => ?_⟩
  rw [tickTime_eq]
  omega

/-- Whatever is due first can be observed. -/
theorem exists_observed (hdue : task.Due ctx limits t0 t1 t last)
    (hfirst : ∀ t' last', task.Due ctx limits t0 t1 t' last' → t ≤ t') :
    ∃ events, task.Observed ctx limits t0 t1 t last events := by
  obtain ⟨k, hk⟩ := exists_ticks_before t1 t
  refine ⟨_, hdue, hfirst, k, rfl, fun n hn => ?_, fun n hn => (hk n).mp hn⟩
  have hbefore : t1 + tickTime n < t := (hk n).mpr hn
  refine ⟨hbefore.le, ?_⟩
  -- a tick over the limit would be due before `t`
  by_contra hover
  have := hfirst _ _ (.own (.cpuTime (not_lt.mp hover)))
  omega

theorem Observed.loopEnds {events : List SelectCase} (h : task.Observed ctx limits t0 t1 t last events) :
    LoopEnds limits.cpuTimeMs events last := by
  obtain ⟨k, rfl, hticks, -⟩ := h.ticks
  refine ⟨_, [], rfl, ?_, h.due.not_harmless⟩
  intro tick hmem
  obtain ⟨n, hn, rfl⟩ := List.mem_map.mp hmem
  exact ⟨_, rfl, (hticks n (List.mem_range.mp hn)).2⟩

/-- If the task can have settled before the context expires, its loop ends by an end of its own. -/
theorem Observed.firstOwnEnd {events : List SelectCase}
    (h : task.Observed ctx limits t0 t1 t last events)
    (hbudget : ∀ t last, task.FirstOwnEnd limits t1 t last → ¬ ctx.CutOff t0 (task.settledAt t last)) :
    task.FirstOwnEnd limits t1 t last := by
  have hfirst : ∀ t' last', task.OwnEnd limits t1 t' last' → t ≤ t' := fun _ _ h' => h.first _ _ (.own h')
  cases h.due with
  | own hown => exact ⟨hown, hfirst⟩
  | expired hd =>
    obtain ⟨t', last', hown⟩ := exists_firstOwnEnd task limits t1
    exact absurd ⟨t, hd, (hfirst _ _ hown.own).trans (task.le_settledAt t' last')⟩ (hbudget _ _ hown)

/-- The task exits by itself at `t`, before any of its limits. -/
structure ExitsInTime (task : TaskCourse) (limits : ResourceLimits) (t : ℕ) (code : UInt32) : Prop where
  exit : task.exit = some (t, code)
  wall : t < wallDeadline limits
  overflow : ∀ o, task.overflow = some o → t < o
  cpu : ∀ n, tickTime n ≤ t → task.cpuMillis n < limits.cpuTimeMs

theorem ExitsInTime.firstOwnEnd {t : ℕ} {code : UInt32} (h : task.ExitsInTime limits t code) {t' : ℤ}
    (hfirst : task.FirstOwnEnd limits t1 t' last) : t' = t1 + t ∧ last = .exit ⟨code, none⟩ := by
  have hle : t' ≤ t1 + t := hfirst.first _ _ (.exit h.exit)
  have hwall := h.wall
  cases hfirst.own with
  | exit hexit =>
    cases h.exit.symm.trans hexit
    exact ⟨rfl, rfl⟩
  | outputLimit ho =>
    have := h.overflow _ ho
    omega
  | @cpuTime n hover =>
    have := h.cpu n (by omega)
    omega
  | wallTime => omega

/-- The task is still running at its wall deadline, and has reached none of its other limits. -/
structure StillRunning (task : TaskCourse) (limits : ResourceLimits) : Prop where
  exit : ∀ t code, task.exit = some (t, code) → wallDeadline limits < t
  overflow : ∀ o, task.overflow = some o → wallDeadline limits < o
  cpu : ∀ n, tickTime n ≤ wallDeadline limits → task.cpuMillis n < limits.cpuTimeMs

theorem StillRunning.firstOwnEnd (h : task.StillRunning limits)
    (hfirst : task.FirstOwnEnd limits t1 t last) :
    t = t1 + wallDeadline limits ∧ last = .wallDeadline := by
  have hle : t ≤ t1 + wallDeadline limits := hfirst.first _ _ .wallTime
  cases hfirst.own with
  | exit hexit =>
    have := h.exit _ _ hexit
    omega
  | outputLimit ho =>
    have := h.overflow _ ho
    omega
  | @cpuTime n hover =>
    have := h.cpu n (by omega)
    omega
  | wallTime => exact ⟨rfl, rfl⟩

/-! ## What the watch returns -/

/-- The outcome of an end of the task. -/
def outcome (task : TaskCourse) (last : SelectCase) : ExecutionOutcome where
  exitCode := last.event.status.code
  reason := last.event.reason
  metrics :=
    if last.event.reason = some .cpuTime then last.event.metrics else parseCgroupMetrics task.final

theorem OwnEnd.outcomeOf (h : task.OwnEnd limits t1 t last) {env : WatchScript}
    (hmetrics : env.metrics = .stats task.final) : OutcomeOf env last (task.outcome last) := by
  have hm : collectMetrics env.metrics = .ok (parseCgroupMetrics task.final) := by rw [hmetrics]; rfl
  cases h with
  | exit _ => exact .exit rfl hm
  | outputLimit _ => exact .outputLimit hm
  | cpuTime _ => exact .cpuTime rfl
  | wallTime => exact .wallTime hm

/-- A task that was stopped is judged to have failed. -/
theorem OwnEnd.failed (h : task.OwnEnd limits t1 t last) (hstop : ∀ status, last ≠ .exit status)
    (output : ExecutionOutput) : (buildVerdict (task.outcome last) output limits).verdict ≠ .ok := by
  intro hok
  have hreason := (buildVerdict_ok hok).1
  cases h with
  | exit _ => exact hstop _ rfl
  | outputLimit _ | cpuTime _ | wallTime => cases hreason

theorem waitForTask_of_outcome (ctx : Ctx) {env : WatchScript} {outcome : ExecutionOutcome} {code : UInt32}
    (hends : LoopEnds limits.cpuTimeMs env.events last) (hkill : env.kill = .ok)
    (hafter : env.afterKill = .exit ⟨code, none⟩) (hout : OutcomeOf env last outcome) :
    ∃ calls, waitForTask ctx env limits = some (.ok outcome, calls) := by
  obtain ⟨calls, hevent, -⟩ := waitForExecutionEvent_of_ends ctx hends
  unfold waitForTask stopTask
  rw [hevent, hkill, hafter]
  cases hout with
  | exit herr hm => simp [SelectCase.event, herr, hm]
  | cpuTime hread => simp [SelectCase.event, hread, joinErrors]
  | wallTime hm => simp [SelectCase.event, hm, joinErrors]
  | outputLimit hm => simp [SelectCase.event, hm, joinErrors]

namespace Watched

variable {w : WatchScript}

/-- A task that settles before the context expires is judged by its own end. -/
theorem judged (h : task.Watched ctx limits t0 t1 t last w) (hown : task.OwnEnd limits t1 t last)
    (hbudget : ¬ ctx.CutOff t0 (task.settledAt t last)) :
    ∃ calls, watchExecution ctx w limits =
      some (.ok (buildVerdict (task.outcome last) task.copied.output limits), calls) := by
  have hmetrics : w.metrics = .stats task.final := by
    rcases h.metrics with ⟨hm, -⟩ | ⟨-, d, hd, hle⟩
    · exact hm
    · exact absurd ⟨d, hd, hle.trans (task.readAt_le_settledAt t last)⟩ hbudget
  have hdrain : w.drain = none := by
    rcases h.drain with ⟨hnone, -⟩ | ⟨-, hcut⟩
    · exact hnone
    · exact absurd hcut hbudget
  obtain ⟨code, hafter⟩ := h.afterKill
  obtain ⟨calls, hwait⟩ := waitForTask_of_outcome ctx h.events.loopEnds h.kill hafter
    (hown.outcomeOf hmetrics)
  refine ⟨[.start ctx, TaskCall.closeIO ctx] ++ calls ++ [.drained], ?_⟩
  unfold watchExecution
  simp only [h.start, hwait, waitForOutput, hdrain, Option.map_none]
  rw [WatchScript.writersAfter, if_pos (by simp), h.copied]

/-- A watch whose output was not drained fails. -/
theorem fails (h : task.Watched ctx limits t0 t1 t last w) (hdrain : w.drain ≠ none) :
    ∃ e calls, watchExecution ctx w limits = some (.error e, calls) := by
  obtain ⟨⟨res, calls⟩, hwatch⟩ := watchExecution_returns ctx h.start h.events.loopEnds
  cases res with
  | error e => exact ⟨e, calls, hwatch⟩
  | ok res =>
    obtain ⟨outcome, calls₀, -, hnone, -⟩ := watchExecution_ok hwatch
    exact absurd hnone hdrain

end Watched

/-- Whatever is due first, there is a watch of it, and one that is cut off if that may be. -/
theorem exists_watched (hdue : task.Due ctx limits t0 t1 t last)
    (hfirst : ∀ t' last', task.Due ctx limits t0 t1 t' last' → t ≤ t') :
    ∃ w, task.Watched ctx limits t0 t1 t last w ∧
      (ctx.CutOff t0 (task.settledAt t last) → w.drain ≠ none) := by
  obtain ⟨events, hobs⟩ := exists_observed hdue hfirst
  have hread : ∃ read : MetricRead, read = .stats task.final ∧ ctx.InTime t0 (task.readAt t last) ∨
      read = .failed deadlineExceeded ∧ ctx.CutOff t0 (task.readAt t last) := by
    rcases ctx.inTime_or_cutOff t0 (task.readAt t last) with hin | hcut
    · exact ⟨_, .inl ⟨rfl, hin⟩⟩
    · exact ⟨_, .inr ⟨rfl, hcut⟩⟩
  obtain ⟨read, hread⟩ := hread
  have hdrain : ∃ drain : Option Err, (drain = none ∧ ctx.InTime t0 (task.settledAt t last) ∨
      drain = some deadlineExceeded ∧ ctx.CutOff t0 (task.settledAt t last)) ∧
      (ctx.CutOff t0 (task.settledAt t last) → drain ≠ none) := by
    by_cases hcut : ctx.CutOff t0 (task.settledAt t last)
    · exact ⟨_, .inr ⟨rfl, hcut⟩, fun _ => by simp⟩
    · have hin := (ctx.inTime_or_cutOff t0 (task.settledAt t last)).resolve_right hcut
      exact ⟨_, .inl ⟨rfl, hin⟩, fun h => absurd h hcut⟩
  obtain ⟨drain, hdrain, hcut⟩ := hdrain
  exact ⟨{ events, drain, metrics := read, afterKill := .exit ⟨137, none⟩, copied := task.copied },
    ⟨rfl, hobs, hread, rfl, ⟨_, rfl⟩, hdrain, rfl⟩, hcut⟩

/-- If the context expires before the task can have settled, that may be the end of its watch. -/
theorem exists_watched_fails (hown : task.FirstOwnEnd limits t1 t last)
    (hcut : ctx.CutOff t0 (task.settledAt t last)) :
    ∃ t' last' w, task.Watched ctx limits t0 t1 t' last' w ∧
      ∃ e calls, watchExecution ctx w limits = some (.error e, calls) := by
  obtain ⟨d, hd, hle⟩ := hcut
  have hexpires : ∀ t', t' ≤ t → t' ≤ d → ∀ t'' last', task.Due ctx limits t0 t1 t'' last' → t' ≤ t'' := by
    intro t' ht hdle t'' last' hdue
    cases hdue with
    | own h => exact ht.trans (hown.first _ _ h)
    | expired h =>
      cases hd.symm.trans h
      exact hdle
  rcases le_total t d with hbefore | hafter
  · obtain ⟨w, hw, hdrain⟩ := exists_watched (.own hown.own) (hexpires t le_rfl hbefore)
    exact ⟨t, last, w, hw, hw.fails (hdrain ⟨d, hd, hle⟩)⟩
  · obtain ⟨w, hw, hdrain⟩ := exists_watched (.expired hd) (hexpires d hafter le_rfl)
    exact ⟨d, _, w, hw, hw.fails (hdrain ⟨d, hd, task.le_settledAt _ _⟩)⟩

end TaskCourse

end Sandbox

end Afterglow
