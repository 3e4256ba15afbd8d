import Afterglow.Model.Basic

/-!
# Sandbox requests, metrics and verdicts

Reference: `internal/sandbox/sandbox.go`, `metrics.go`, `verdict.go`.
-/

namespace Afterglow.Sandbox

/-! ## Requests and results (`sandbox.go`) -/

/-- `ResourceLimits`. -/
structure ResourceLimits where
  cpuTimeMs : ℤ
  wallTimeMs : ℤ
  memoryMB : ℤ
  outputBytes : ℤ
deriving Repr, DecidableEq

/-- `sandbox.Verdict`. -/
inductive Verdict
  | unknown
  | ok
  | tle
  | mle
  | ole
  | re
deriving Repr, DecidableEq

/-- `ExecuteResult`. -/
structure ExecuteResult where
  exitCode : ℤ
  stdout : Bytes
  stderr : Bytes
  cpuTimeMs : ℤ
  memoryMB : ℤ
  verdict : Verdict
  extraInfo : Bytes
deriving Repr, DecidableEq

def bytesPerMiB : ℤ := 1024 * 1024

/-- `memoryBytes`, in the arithmetic of `int64`. -/
def memoryBytes (memoryMB : ℤ) : ℤ := toInt64 (memoryMB * bytesPerMiB)

/-- The `uint64` of `oci.WithMemoryLimit` in `sandboxSpecOpts`. -/
def memoryLimitOpt (limits : ResourceLimits) : UInt64 := UInt64.ofInt (memoryBytes limits.memoryMB)

/-- The nanoseconds of the timer in `waitForTask`, in the arithmetic of `time.Duration`. -/
def wallDeadline (limits : ResourceLimits) : ℤ := toInt64 (limits.wallTimeMs * 1000000)

/-! ## Cgroup metrics (`metrics.go`) -/

def nanosPerMs : UInt64 := 1000000

/-- `cgroupMetrics`. -/
structure CgroupMetrics where
  cpuNanos : UInt64 := 0
  peakMemBytes : UInt64 := 0
  oomDetected : Bool := false
  oomKillDetected : Bool := false
deriving Repr, DecidableEq

/-- `cgroupMetrics.cpuMillis`. -/
def CgroupMetrics.cpuMillis (m : CgroupMetrics) : ℤ :=
  toInt64 (m.cpuNanos / nanosPerMs).toNat

/-- `cgroupMetrics.peakMemMB`. -/
def CgroupMetrics.peakMemMB (m : CgroupMetrics) : ℤ :=
  toInt64 (m.peakMemBytes / UInt64.ofNat bytesPerMiB.toNat).toNat

/-- The cgroup v2 statistics that are read, each present or absent: CPU usage in microseconds,
maximum and current memory usage, and the counts of OOM and OOM-kill events. -/
structure CgroupStats where
  cpuUsageUsec : Option UInt64
  memory : Option (UInt64 × UInt64)
  memoryEvents : Option (UInt64 × UInt64)
deriving Repr, DecidableEq

/-- What `task.Metrics` and the decoding of its answer can yield. -/
inductive MetricRead
  | failed (e : Err)
  | noData
  | malformed (e : Err)
  | stats (v2 : CgroupStats)
deriving Repr, DecidableEq

/-- `parseCgroupMetrics`, after the type-URL decoding. -/
def parseCgroupMetrics (v2 : CgroupStats) : CgroupMetrics where
  cpuNanos := v2.cpuUsageUsec.elim 0 (· * 1000)
  peakMemBytes := v2.memory.elim 0 fun (maxUsage, usage) => max maxUsage usage
  oomDetected := v2.memoryEvents.elim false fun (oom, _) => decide (oom > 0)
  oomKillDetected := v2.memoryEvents.elim false fun (_, oomKill) => decide (oomKill > 0)

/-- `collectMetrics`. -/
def collectMetrics : MetricRead → Except Err CgroupMetrics
  | .failed e => .error (.wrap "read task metrics" e)
  | .noData => .error (.text "read task metrics: response contains no data")
  | .malformed e => .error (.wrap "unmarshal cgroup v2 metrics" e)
  | .stats v2 => .ok (parseCgroupMetrics v2)

/-! ## The verdict (`verdict.go`) -/

/-- `stopReason`; its zero value, "not stopped", is `none`. -/
inductive StopReason
  | cpuTime
  | wallTime
  | outputLimit
deriving Repr, DecidableEq

/-- `stopReason.String`. -/
def StopReason.string : StopReason → String
  | .cpuTime => "CPU time limit exceeded"
  | .wallTime => "wall time limit exceeded"
  | .outputLimit => "output limit exceeded"

/-- `executionOutcome`. -/
structure ExecutionOutcome where
  exitCode : UInt32 := 0
  reason : Option StopReason := none
  metrics : CgroupMetrics
deriving Repr, DecidableEq

/-- `executionOutput`. -/
structure ExecutionOutput where
  stdout : Bytes
  stderr : Bytes
  overflowed : Bool
deriving Repr, DecidableEq

/-- `buildVerdict`. -/
def buildVerdict (outcome : ExecutionOutcome) (output : ExecutionOutput)
    (limits : ResourceLimits) : ExecuteResult :=
  let cpuMs := outcome.metrics.cpuMillis
  let peakMemMB := outcome.metrics.peakMemMB
  let res (verdict : Verdict) (extraInfo : Bytes) : ExecuteResult :=
    { exitCode := outcome.exitCode.toNat, stdout := output.stdout, stderr := output.stderr,
      cpuTimeMs := cpuMs, memoryMB := peakMemMB, verdict, extraInfo }
  if outcome.reason = some .outputLimit ∨ (outcome.reason = none ∧ output.overflowed) then
    res .ole (utf8 ("output limit exceeded (" ++ toString limits.outputBytes ++ " bytes max)"))
  else if outcome.reason = some .cpuTime ∨ outcome.reason = some .wallTime then
    res .tle (utf8 ((outcome.reason.elim "unknown" StopReason.string) ++ " (cpu " ++
      toString cpuMs ++ "ms, cpu limit " ++ toString limits.cpuTimeMs ++ "ms, wall limit " ++
      toString limits.wallTimeMs ++ "ms)"))
  else if outcome.metrics.oomKillDetected ∨
      (outcome.exitCode ≠ 0 ∧ outcome.metrics.oomDetected) then
    res .mle (utf8 ("memory limit exceeded (peak " ++ toString peakMemMB ++ "MB, limit " ++
      toString limits.memoryMB ++ "MB)"))
  else if cpuMs ≥ limits.cpuTimeMs then
    res .tle (utf8 ("CPU time exceeded: " ++ toString cpuMs ++ "ms >= " ++
      toString limits.cpuTimeMs ++ "ms"))
  else if outcome.exitCode = 0 then
    res .ok []
  else
    res .re output.stderr

variable {outcome : ExecutionOutcome} {output : ExecutionOutput} {limits : ResourceLimits}

/-- What an `OK` verdict excludes: a forced stop, an overflow, an OOM kill, CPU time at the limit and
a non-zero exit code. -/
theorem buildVerdict_ok (h : (buildVerdict outcome output limits).verdict = .ok) :
    outcome.reason = none ∧ output.overflowed = false ∧
      outcome.metrics.oomKillDetected = false ∧
      outcome.metrics.cpuMillis < limits.cpuTimeMs ∧ outcome.exitCode = 0 := by
  unfold buildVerdict at h
  simp only at h
  split_ifs at h with h1 h2 h3 h4 h5
  push Not at h1 h2 h3 h4
  have hreason : outcome.reason = none := by
    rcases hr : outcome.reason with _ | ⟨_ | _ | _⟩ <;> simp_all
  exact ⟨hreason, by simpa [hreason] using h1.2, by simpa using h3.1, h4, h5⟩

/-- A stop for CPU or wall time is `TLE` whatever else happened. -/
theorem buildVerdict_stop_time (h : outcome.reason = some .cpuTime ∨ outcome.reason = some .wallTime) :
    (buildVerdict outcome output limits).verdict = .tle := by
  unfold buildVerdict
  simp only
  rw [if_neg (by rcases h with h | h <;> simp [h]), if_pos h]

/-- Overflow without a time stop is `OLE`. -/
theorem buildVerdict_overflow
    (h : outcome.reason = some .outputLimit ∨ (outcome.reason = none ∧ output.overflowed)) :
    (buildVerdict outcome output limits).verdict = .ole := by
  unfold buildVerdict
  simp only
  rw [if_pos h]

/-- CPU time at the limit rules out `OK` and `RE`. -/
theorem buildVerdict_cpu_over (h : limits.cpuTimeMs ≤ outcome.metrics.cpuMillis) :
    (buildVerdict outcome output limits).verdict ≠ .ok ∧
      (buildVerdict outcome output limits).verdict ≠ .re := by
  unfold buildVerdict
  simp only
  split_ifs <;> simp

/-- `OK` comes with exit code zero. -/
theorem buildVerdict_ok_exitCode (h : (buildVerdict outcome output limits).verdict = .ok) :
    (buildVerdict outcome output limits).exitCode = 0 := by
  obtain ⟨-, -, -, -, hcode⟩ := buildVerdict_ok h
  unfold buildVerdict
  simp only
  split_ifs <;> simp [hcode]

/-- The buffers are reported as they are, whatever the verdict. -/
theorem buildVerdict_output : (buildVerdict outcome output limits).stdout = output.stdout ∧
    (buildVerdict outcome output limits).stderr = output.stderr := by
  unfold buildVerdict
  simp only
  split_ifs <;> exact ⟨rfl, rfl⟩

end Afterglow.Sandbox
