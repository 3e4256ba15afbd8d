import Mathlib.Tactic.NormNum
import Afterglow.Service.Profile

/-!
# The arithmetic of limits

Reference: `compiledLanguageProgram.Run` and `sandboxMemoryLimitMB` in `internal/service/language.go`,
`memoryBytes` in `internal/sandbox/sandbox.go`, `sandboxSpecOpts` in `spec.go`, `waitForTask` in
`containerd.go`, `cpuMillis` and `peakMemMB` in `metrics.go`.

The limits of a request pass through `uint32`, `int`, `int64`, `uint64` and `time.Duration`. Every
conversion on the way is exact for every request, up to the largest `uint32` limits.
-/

namespace Afterglow.Service

open Execution Sandbox

/-! ## Metrics -/

theorem cpuMillis_eq (m : CgroupMetrics) : m.cpuMillis = m.cpuNanos.toNat / 1000000 := by
  have hlt := m.cpuNanos.toNat_lt
  have hdiv : ((m.cpuNanos / nanosPerMs).toNat : ℤ) = m.cpuNanos.toNat / 1000000 := by
    rw [UInt64.toNat_div]
    rfl
  rw [CgroupMetrics.cpuMillis, hdiv, toInt64_of_lt (by omega) (by omega)]

theorem peakMemMB_eq (m : CgroupMetrics) : m.peakMemMB = m.peakMemBytes.toNat / 2 ^ 20 := by
  have hlt := m.peakMemBytes.toNat_lt
  have hdiv : ((m.peakMemBytes / UInt64.ofNat bytesPerMiB.toNat).toNat : ℤ) =
      m.peakMemBytes.toNat / 2 ^ 20 := by
    rw [UInt64.toNat_div]
    rfl
  rw [CgroupMetrics.peakMemMB, hdiv, toInt64_of_lt (by omega) (by omega)]

/-- The measured time has reached a whole number of milliseconds exactly when the nanoseconds have. -/
theorem le_cpuMillis_iff (m : CgroupMetrics) (timeMs : ℕ) :
    (timeMs : ℤ) ≤ m.cpuMillis ↔ timeMs * 1000000 ≤ m.cpuNanos.toNat := by
  rw [cpuMillis_eq]
  omega

/-- Where nothing else decides the verdict, CPU time at the limit does. -/
theorem buildVerdict_tle_iff {outcome : ExecutionOutcome} {output : ExecutionOutput}
    {limits : ResourceLimits} (hreason : outcome.reason = none) (houtput : output.overflowed = false)
    (hkill : outcome.metrics.oomKillDetected = false) (hoom : outcome.metrics.oomDetected = false) :
    (buildVerdict outcome output limits).verdict = .tle ↔
      outcome.metrics.cpuMillis ≥ limits.cpuTimeMs := by
  unfold buildVerdict
  simp only [hreason, houtput, hkill, hoom]
  rw [if_neg (by simp), if_neg (by simp), if_neg (by simp)]
  split
  case isTrue h => simp [h]
  case isFalse h => split <;> simp [h]

/-! ## Limits -/

variable {lang : Language} {memoryLimit : UInt32}

theorem sandboxMemoryLimitMB_java (memoryLimit : UInt32) :
    sandboxMemoryLimitMB .java memoryLimit.toNat =
      memoryLimit.toNat + max 64 (memoryLimit.toNat / 4 : ℤ) := by
  have hlt := memoryLimit.toNat_lt
  have hdiv : (memoryLimit.toNat : ℤ).tdiv 4 = memoryLimit.toNat / 4 :=
    Int.tdiv_eq_ediv_of_nonneg (by omega)
  rw [sandboxMemoryLimitMB, if_neg (by simp), javaNativeReserveMB, hdiv,
    toInt64_of_lt (by omega) (by omega)]

theorem sandboxMemoryLimitMB_other (h : lang ≠ .java) (memoryLimit : UInt32) :
    sandboxMemoryLimitMB lang memoryLimit.toNat = memoryLimit.toNat := if_pos h

/-- Whatever the language, the limit of the sandbox is the one asked for and at most a quarter or 64
more. -/
theorem sandboxMemoryLimitMB_bounds (lang : Language) (memoryLimit : UInt32) :
    memoryLimit.toNat ≤ sandboxMemoryLimitMB lang memoryLimit.toNat ∧
      sandboxMemoryLimitMB lang memoryLimit.toNat ≤ 2 * memoryLimit.toNat + 64 := by
  by_cases hlang : lang = .java
  · rw [hlang, sandboxMemoryLimitMB_java]
    omega
  · rw [sandboxMemoryLimitMB_other hlang]
    omega

theorem memoryBytes_eq {memoryMB : ℤ} (h0 : 0 ≤ memoryMB) (h : memoryMB < 2 ^ 43) :
    memoryBytes memoryMB = memoryMB * 2 ^ 20 := by
  rw [memoryBytes, bytesPerMiB, toInt64_of_lt (by omega) (by omega)]
  rfl

theorem memoryLimitOpt_eq {limits : ResourceLimits} (h0 : 0 ≤ limits.memoryMB)
    (h : limits.memoryMB < 2 ^ 43) : (memoryLimitOpt limits).toNat = limits.memoryMB * 2 ^ 20 := by
  rw [memoryLimitOpt, memoryBytes_eq h0 h, UInt64.ofInt, UInt64.toNat_ofNat']
  omega

theorem sandboxMemoryLimitMB_eq (lang : Language) (memoryLimit : UInt32) :
    sandboxMemoryLimitMB lang memoryLimit.toNat =
      memoryLimit.toNat + if lang = .java then max 64 (memoryLimit.toNat / 4 : ℤ) else 0 := by
  by_cases hlang : lang = .java
  · rw [if_pos hlang, hlang, sandboxMemoryLimitMB_java]
  · rw [if_neg hlang, sandboxMemoryLimitMB_other hlang, Int.add_zero]

theorem wallTimeMs_eq (timeLimit : UInt32) :
    toInt64 (timeLimit.toNat * WallTimeMultiplier) = timeLimit.toNat * 3 := by
  have hlt := timeLimit.toNat_lt
  rw [WallTimeMultiplier, toInt64_of_lt (by omega) (by omega)]

theorem CompiledLanguageProgram.request_limits (p : CompiledLanguageProgram) (input : Bytes)
    (timeLimit memoryLimit : UInt32) : (p.request input timeLimit memoryLimit).limits =
      { cpuTimeMs := timeLimit.toNat
        wallTimeMs := timeLimit.toNat * 3
        memoryMB := sandboxMemoryLimitMB p.language memoryLimit.toNat
        outputBytes := DefaultRunOutputLimitBytes } := by
  simp only [CompiledLanguageProgram.request]
  rw [wallTimeMs_eq]

/-- The heap options of a Java program: the initial heap is positive and at most the maximal one, which
is the memory limit asked for. -/
theorem javaProfile_heap (path : String) {memoryLimit : UInt32} (hm : 1 ≤ memoryLimit) :
    ∃ xms xmx : ℤ, javaProfile.run.runtimeCommand path memoryLimit.toNat =
        ["java", "-Xmx" ++ toString xmx ++ "m", "-Xms" ++ toString xms ++ "m", "-jar", path] ∧
      1 ≤ xms ∧ xms ≤ xmx ∧ xmx = memoryLimit.toNat := by
  have hpos : 1 ≤ memoryLimit.toNat := UInt32.le_iff_toNat_le.mp hm
  exact ⟨min memoryLimit.toNat 64, memoryLimit.toNat, rfl, by omega, by omega, rfl⟩

/-- The limits of every admitted request are exact on their way to the sandbox: the wall time and its
nanoseconds, the memory of the sandbox in MiB, its bytes as `int64` and as `uint64`. So are the measured
time and memory, the test of `buildVerdict` compares the nanoseconds with the limit, and a Java program
gets a heap that leaves the sandbox at least 64 MiB more, the more memory it may use. -/
theorem limits_exact {lang : Language} {profile : LanguageProfile}
    (hprofile : profileForLanguage lang = .ok profile) (artifact : Artifact) (input : Bytes)
    (timeLimit : UInt32) {memoryLimit : UInt32} (hm : 1 ≤ memoryLimit) (metrics : CgroupMetrics) :
    let program : CompiledLanguageProgram := ⟨lang, profile.run, artifact⟩
    let limits := (program.request input timeLimit memoryLimit).limits
    (limits.cpuTimeMs = timeLimit.toNat ∧
      limits.wallTimeMs = timeLimit.toNat * 3 ∧
      wallDeadline limits = timeLimit.toNat * 3 * 1000000 ∧
      limits.memoryMB =
        memoryLimit.toNat + (if lang = .java then max 64 (memoryLimit.toNat / 4 : ℤ) else 0) ∧
      memoryBytes limits.memoryMB = limits.memoryMB * 2 ^ 20 ∧
      (memoryLimitOpt limits).toNat = limits.memoryMB * 2 ^ 20 ∧
      metrics.cpuMillis = metrics.cpuNanos.toNat / 1000000 ∧
      metrics.peakMemMB = metrics.peakMemBytes.toNat / 2 ^ 20) ∧
    (0 ≤ limits.cpuTimeMs ∧ 0 ≤ limits.wallTimeMs ∧ 0 ≤ wallDeadline limits ∧ 0 ≤ limits.memoryMB ∧
      0 ≤ memoryBytes limits.memoryMB ∧ 0 ≤ metrics.cpuMillis ∧ 0 ≤ metrics.peakMemMB) ∧
    (metrics.cpuMillis ≥ limits.cpuTimeMs ↔ timeLimit.toNat * 1000000 ≤ metrics.cpuNanos.toNat) ∧
    (∀ outcome output, outcome.metrics = metrics → outcome.reason = none → output.overflowed = false →
      metrics.oomKillDetected = false → metrics.oomDetected = false →
      ((buildVerdict outcome output limits).verdict = .tle ↔
        timeLimit.toNat * 1000000 ≤ metrics.cpuNanos.toNat)) ∧
    (lang = .java → ∃ xms xmx : ℤ,
      (program.request input timeLimit memoryLimit).command =
        ["java", "-Xmx" ++ toString xmx ++ "m", "-Xms" ++ toString xms ++ "m", "-jar",
          "./" ++ artifact.name] ∧
      1 ≤ xms ∧ xms ≤ xmx ∧ xmx = memoryLimit.toNat ∧ xmx + 64 ≤ limits.memoryMB ∧
      ∀ memoryLimit', memoryLimit ≤ memoryLimit' →
        limits.memoryMB ≤ (program.request input timeLimit memoryLimit').limits.memoryMB) := by
  intro program limits
  have htlt := timeLimit.toNat_lt
  have hmlt := memoryLimit.toNat_lt
  have hbounds := sandboxMemoryLimitMB_bounds lang memoryLimit
  have hlimits : limits = _ := program.request_limits input timeLimit memoryLimit
  -- from here on only the values of the limits matter, and those are below the machine bounds
  clear_value limits
  have hcpu : limits.cpuTimeMs = timeLimit.toNat := by rw [hlimits]
  have hwall : limits.wallTimeMs = timeLimit.toNat * 3 := by rw [hlimits]
  have hdeadline : wallDeadline limits = timeLimit.toNat * 3 * 1000000 := by
    rw [wallDeadline, hwall, toInt64_of_lt (by omega) (by omega)]
  have hmem : limits.memoryMB = sandboxMemoryLimitMB lang memoryLimit.toNat := by
    rw [hlimits]
  have hbytes : memoryBytes limits.memoryMB = limits.memoryMB * 2 ^ 20 :=
    memoryBytes_eq (by omega) (by omega)
  have htest : metrics.cpuMillis ≥ limits.cpuTimeMs ↔
      timeLimit.toNat * 1000000 ≤ metrics.cpuNanos.toNat := hcpu ▸ le_cpuMillis_iff metrics _
  have hcpuMillis := cpuMillis_eq metrics
  have hpeakMemMB := peakMemMB_eq metrics
  refine ⟨⟨hcpu, hwall, hdeadline, hmem.trans (sandboxMemoryLimitMB_eq lang memoryLimit), hbytes,
    memoryLimitOpt_eq (by omega) (by omega), hcpuMillis, hpeakMemMB⟩,
    ⟨by omega, by omega, by omega, by omega, by omega, by omega, ?_⟩, htest, ?_, ?_⟩
  · rw [hpeakMemMB]
    exact Int.ediv_nonneg (Int.natCast_nonneg _) (by norm_num)
  · intro outcome output hmetrics hreason houtput hkill hoom
    rw [buildVerdict_tle_iff hreason houtput (hmetrics ▸ hkill) (hmetrics ▸ hoom), hmetrics]
    exact htest
  · rintro rfl
    cases hprofile
    obtain ⟨xms, xmx, hcommand, hpos, hle, hxmx⟩ := javaProfile_heap ("./" ++ artifact.name) hm
    rw [sandboxMemoryLimitMB_java] at hmem
    refine ⟨xms, xmx, hcommand, hpos, hle, hxmx, by omega, ?_⟩
    intro memoryLimit' hle'
    have hle' : memoryLimit.toNat ≤ memoryLimit'.toNat := UInt32.le_iff_toNat_le.mp hle'
    rw [program.request_limits, hmem]
    change _ ≤ sandboxMemoryLimitMB .java memoryLimit'.toNat
    rw [sandboxMemoryLimitMB_java]
    omega

/-- The largest limits a request can carry. -/
theorem limits_exact_largest :
    let program : CompiledLanguageProgram := ⟨.java, javaProfile.run, ⟨"solution.jar", [], 0o644⟩⟩
    let limits := (program.request [] 4294967295 4294967295).limits
    wallDeadline limits = 12884901885000000 ∧ memoryBytes limits.memoryMB = 5629499532115968 := by
  have hpos : (1 : UInt32) ≤ 4294967295 := by decide
  have hjava : profileForLanguage .java = .ok javaProfile := rfl
  obtain ⟨⟨-, -, hdeadline, hmem, hbytes, -⟩, -⟩ :=
    limits_exact hjava ⟨"solution.jar", [], 0o644⟩ [] 4294967295 hpos {}
  refine ⟨hdeadline, ?_⟩
  rw [hbytes, hmem]
  decide

end Afterglow.Service
