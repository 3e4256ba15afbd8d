import Afterglow.Decimal
import Afterglow.Model.Text
import Afterglow.Sandbox.CpuPool
import Afterglow.Service.Judge

/-!
# Starting the server

Reference: `loadSettings` and `initializeServer` of `cmd/server/main.go`, with what they call:
`sandbox.New` and `CheckEnvironment`, `resource.NewBundled` and `NewExternal`, `execution.NewExecutor`,
`service.NewJudgeEngine`.

Start-up looks at the environment and at the host and either gives up with an error or hands over an engine
with its capacities. `Ready` is what the engine relies on later, and `initializeServer_ready` says that
whatever starts is ready.
-/

namespace Afterglow.Startup

open Engine Service

/-! ## Numbers and levels of the standard library -/

/-- What `strconv.Quote` makes of a byte string. -/
abbrev Quoting := Bytes → String

variable (q : Quoting)

/-- `strconv.Atoi`, on a platform with 64-bit `int`. -/
def atoi (s : Bytes) : Except Err ℤ :=
  let failed (reason : String) : Except Err ℤ := .error (.wrap ("strconv.Atoi: parsing " ++ q s) (.text reason))
  let digits := if s.head? = some 43 ∨ s.head? = some 45 then s.tail else s
  let run := digits.takeWhile Decimal.isDigit
  -- a run that is too long is noticed before what comes behind it
  if 2 ^ 64 ≤ Decimal.value run then failed "value out of range"
  else if run = [] ∨ run ≠ digits then failed "invalid syntax"
  else
    let n : ℤ := if s.head? = some 45 then -Decimal.value run else Decimal.value run
    if n < -2 ^ 63 ∨ 2 ^ 63 ≤ n then failed "value out of range" else .ok n

/-- `strings.ToUpper`, as far as the result is ASCII. Outside ASCII, only `ı` and `ſ` have an upper case in
it. -/
def toUpper : Bytes → Bytes
  | 0xC4 :: 0xB1 :: rest => 73 :: toUpper rest
  | 0xC5 :: 0xBF :: rest => 83 :: toUpper rest
  | c :: rest => (if 97 ≤ c ∧ c ≤ 122 then c - 32 else c) :: toUpper rest
  | [] => []

/-- The levels that `slog` has names for. -/
def levelNames : List (Bytes × ℤ) :=
  [(utf8 "DEBUG", -4), (utf8 "INFO", 0), (utf8 "WARN", 4), (utf8 "ERROR", 8)]

/-- `slog.Level.UnmarshalText`. -/
def parseLevel (s : Bytes) : Except Err ℤ :=
  let name := s.takeWhile fun c => c ≠ 43 ∧ c ≠ 45
  let rest := s.drop name.length
  let parsed : Except Err ℤ := do
    let offset ← if rest = [] then .ok 0 else atoi q rest
    match levelNames.lookup (toUpper name) with
    | some level => return toInt64 (level + offset)
    | none => .error (.text "unknown name")
  parsed.mapError (.wrap ("slog: level string " ++ q s))

/-! ## Settings -/

/-- `settings`. -/
structure Settings where
  listenAddr : Bytes
  containerdSocket : Bytes
  maxConcurrentContainers : ℤ
  maxConcurrentJudges : ℤ
  externalDataDir : Bytes
  logLevel : ℤ
deriving Repr, DecidableEq

/-- What start-up finds around it. -/
structure Host where
  /-- `os.LookupEnv`. -/
  lookupEnv : String → Option Bytes
  quote : Quoting
  /-- `unix.SchedGetaffinity`. -/
  affinity : Except Err CPUSet
  /-- `cgroups.Mode() == cgroups.Unified`. -/
  cgroupUnified : Bool
  /-- `containerd.New`. -/
  connect : Bytes → Option Err
  /-- `client.Version`. -/
  version : Bytes → Option Err
  /-- `fs.Sub` on the embedded files. -/
  bundledSub : Option Err
  /-- `fs.ReadFile` on the bundled resources. -/
  readBundled : String → Except Err Bytes
  /-- `fs.Stat` on them; the answer is `info.Mode().IsRegular()`. -/
  statBundled : String → Except Err Bool
  /-- `os.Stat`; the answer is `info.IsDir()`. -/
  stat : Bytes → Except Err Bool
  sha256 : Bytes → Bytes
  isLetter : Char → Bool
  isDigit : Char → Bool

variable (host : Host)

/-- `if err != nil { return err }`. -/
def unlessFailed : Option Err → Except Err Unit
  | some e => .error e
  | none => .ok ()

def env (key : String) (fallback : Bytes) : Bytes :=
  match host.lookupEnv key with
  | none => fallback
  | some value => trimSpaceBytes value

def envInt (key : String) (fallback : ℤ) : Except Err ℤ :=
  match host.lookupEnv key with
  | none => .ok fallback
  | some value =>
    (atoi host.quote (trimSpaceBytes value)).mapError fun _ =>
      .text (key ++ " must be an integer, got " ++ host.quote value)

def loadSettings : Except Err Settings := do
  let listenAddr := env host "HTTP_LISTEN_ADDR" (utf8 ":8080")
  let containerdSocket := env host "CONTAINERD_SOCKET" (utf8 "/run/containerd/containerd.sock")
  let externalDataDir := env host "EXTERNAL_DATA_DIR" []
  unlessFailed (if listenAddr = [] then some (.text "HTTP_LISTEN_ADDR must not be empty") else none)
  let maxConcurrentContainers ← envInt host "MAX_CONCURRENT_CONTAINERS" 8
  let maxConcurrentJudges ← envInt host "MAX_CONCURRENT_JUDGES" 4
  let logLevel := env host "LOG_LEVEL" (utf8 "info")
  let level ← (parseLevel host.quote logLevel).mapError
    (.wrap ("LOG_LEVEL must be a valid slog level, got " ++ host.quote logLevel))
  return { listenAddr, containerdSocket, maxConcurrentContainers, maxConcurrentJudges, externalDataDir,
           logLevel := level }

/-! ## The parts of the server -/

def containerdNamespace : Bytes := utf8 "afterglow-sandbox"

/-- `sandbox.New`; `none` if it hangs. -/
def newSandbox (socketPath : Bytes) : Option (Except Err (Chan ℕ)) :=
  if trimSpaceBytes socketPath = [] then some (.error (.text "containerd socket path is required"))
  else if trimSpaceBytes containerdNamespace = [] then
    some (.error (.text "containerd namespace is required"))
  else newCPUPool host.affinity

/-- `resource.NewExternal`. -/
def newExternal (mountPoint : Bytes) : Except Err Unit :=
  if mountPoint.head? ≠ some 47 then
    .error (.text ("mount point must be absolute: " ++ host.quote mountPoint))
  else
    match host.stat mountPoint with
    | .error e => .error (.wrap "mount point not accessible" e)
    | .ok isDir =>
      if isDir then .ok () else .error (.text ("mount point is not a directory: " ++ host.quote mountPoint))

/-- `execution.NewExecutor`; the executor is its capacity. -/
def newExecutor (maxConcurrent : ℤ) : Except Err ℕ :=
  if maxConcurrent ≤ 0 then
    .error (.text ("max concurrent executions must be positive, got " ++ toString maxConcurrent))
  else .ok maxConcurrent.toNat

/-- `Sandbox.CheckEnvironment`. -/
def checkEnvironment (socketPath : Bytes) : Option Err :=
  if host.cgroupUnified = false then some (.text "cgroup v2 unified mode is required")
  else
    match host.connect socketPath with
    | some e => some (.wrap ("connect to containerd socket " ++ host.quote socketPath) e)
    | none => (host.version socketPath).map (.wrap ("ping containerd on " ++ host.quote socketPath))

/-- `validateResourceFile` on the bundled resources. -/
def validateResourceFile (name : String) : Option Err :=
  match host.statBundled name with
  | .error e => some e
  | .ok isRegular => if isRegular then none else some (.text (quote name ++ " is not a regular file"))

def checkerCacheEntries : ℤ := 64

/-- `newCheckerCompiler`, whose cache needs a positive size. -/
def newCheckerCompiler : Option Err :=
  if checkerCacheEntries ≤ 0 then some (.text "must provide a positive size") else none

/-- `newChecker`; the answer is the header. -/
def newChecker : Except Err Bytes := do
  let notAvailable (name : String) : Err → Err := .wrap ("checker dependency " ++ quote name ++
    " is not available")
  let testlibHeader ← (host.readBundled testlibHeaderKey).mapError (notAvailable testlibHeaderKey)
  let defaultCheckerPath := builtinCheckerPath defaultCheckerName
  unlessFailed ((validateResourceFile host defaultCheckerPath).map (notAvailable defaultCheckerPath))
  unlessFailed (newCheckerCompiler.map (.wrap "create checker compile cache"))
  return testlibHeader

/-- `service.NewJudgeEngine`; its capacity is returned beside it. -/
def newJudgeEngine (hasExternal : Bool) (maxConcurrent : ℤ) : Except Err (JudgeEngine × ℕ) :=
  if maxConcurrent ≤ 0 then
    .error (.text ("max concurrent judges must be positive, got " ++ toString maxConcurrent))
  else
    match newChecker host with
    | .error e => .error (.wrap "initialize checker" e)
    | .ok testlibHeader => .ok
      ({ executor := containerExecutor
         sha256 := host.sha256
         testlibHeader := testlibHeader
         hasExternal := hasExternal
         isLetter := host.isLetter
         isDigit := host.isDigit }, maxConcurrent.toNat)

/-- A server that has been initialized: its engine and the capacities it was built with. -/
structure Server where
  listenAddr : Bytes
  engine : JudgeEngine
  judgeMax : ℕ
  execMax : ℕ
  cpus : Chan ℕ

/-- The external resources of `initializeServer`, if there are any. -/
def initializeExternal (cfg : Settings) : Except Err Unit :=
  if cfg.externalDataDir = [] then .ok ()
  else (newExternal host cfg.externalDataDir).mapError
    (.wrap ("initialize external resources " ++ host.quote cfg.externalDataDir))

/-- `initializeServer` once there is a sandbox. -/
def initializeWith (cfg : Settings) (cpus : Chan ℕ) : Except Err Server := do
  unlessFailed (host.bundledSub.map fun e =>
    .wrap "initialize bundled resources" (.wrap "open bundled support resources" e))
  initializeExternal host cfg
  let execMax ← (newExecutor cfg.maxConcurrentContainers).mapError (.wrap "initialize executor")
  unlessFailed ((checkEnvironment host cfg.containerdSocket).map (.wrap "sandbox environment check failed"))
  let judge ← (newJudgeEngine host (cfg.externalDataDir ≠ []) cfg.maxConcurrentJudges).mapError
    (.wrap "initialize judge engine")
  return { listenAddr := cfg.listenAddr, engine := judge.1, judgeMax := judge.2, execMax, cpus }

/-- `initializeServer`; `none` if it hangs. -/
def initializeServer (cfg : Settings) : Option (Except Err Server) :=
  (newSandbox host cfg.containerdSocket).map fun sb => do
    let cpus ← sb.mapError (.wrap "initialize sandbox")
    initializeWith host cfg cpus

/-- `main` up to the point where it listens. -/
def start : Option (Except Err Server) :=
  match loadSettings host with
  | .error e => some (.error e)
  | .ok cfg => initializeServer host cfg

/-! ## What starts is ready -/

/-- What the engine relies on. -/
structure Ready (server : Server) : Prop where
  executor : server.engine.executor = containerExecutor
  judgeMax : 0 < server.judgeMax
  execMax : 0 < server.execMax
  cpus : server.cpus.buffer ≠ []
  distinct : server.cpus.buffer.Nodup

variable {host}

/-- A pool is made without blocking, of distinct CPUs. -/
theorem newCPUPool_spec (affinity : Except Err CPUSet) : ∃ res, newCPUPool affinity = some res ∧
    ∀ pool, res = .ok pool → pool.buffer ≠ [] ∧ pool.buffer.Nodup := by
  cases affinity with
  | error e => exact ⟨_, rfl, by simp⟩
  | ok affinity =>
    by_cases hids : cpuIDsFromAffinity affinity = []
    · refine ⟨.error (.text "cpu affinity contains no available CPUs"), ?_, by simp⟩
      rw [newCPUPool, hids]
      rfl
    · refine ⟨_, newCPUPoolFromIDs_eq hids, ?_⟩
      rintro pool hpool
      obtain rfl := Except.ok.inj hpool
      exact ⟨hids, cpuIDsFromAffinity_nodup affinity⟩

theorem newSandbox_spec (socketPath : Bytes) : ∃ res, newSandbox host socketPath = some res ∧
    ∀ pool, res = .ok pool → pool.buffer ≠ [] ∧ pool.buffer.Nodup := by
  unfold newSandbox
  split
  · exact ⟨_, rfl, by simp⟩
  split
  · exact ⟨_, rfl, by simp⟩
  · exact newCPUPool_spec host.affinity

theorem newExecutor_pos {maxConcurrent : ℤ} {execMax : ℕ} (h : newExecutor maxConcurrent = .ok execMax) :
    0 < execMax := by
  unfold newExecutor at h
  split at h
  · cases h
  · obtain rfl := Except.ok.inj h
    omega

theorem newJudgeEngine_spec {hasExternal : Bool} {maxConcurrent : ℤ} {engine : JudgeEngine} {judgeMax : ℕ}
    (h : newJudgeEngine host hasExternal maxConcurrent = .ok (engine, judgeMax)) :
    engine.executor = containerExecutor ∧ 0 < judgeMax := by
  unfold newJudgeEngine at h
  split at h
  · cases h
  split at h
  · cases h
  · cases h
    exact ⟨rfl, by omega⟩

theorem bind_eq_ok {α β : Type} {x : Except Err α} {f : α → Except Err β} {b : β} :
    x >>= f = .ok b ↔ ∃ a, x = .ok a ∧ f a = .ok b := by
  cases x with
  | error e => simp [bind, Except.bind]
  | ok a => simp [bind, Except.bind]

theorem mapError_eq_ok {α : Type} {x : Except Err α} {f : Err → Err} {a : α} :
    x.mapError f = .ok a ↔ x = .ok a := by
  cases x <;> simp [Except.mapError]

theorem initializeWith_ready {cfg : Settings} {cpus : Chan ℕ} {server : Server}
    (h : initializeWith host cfg cpus = .ok server) (hne : cpus.buffer ≠ []) (hnodup : cpus.buffer.Nodup) :
    Ready server := by
  unfold initializeWith at h
  obtain ⟨-, -, h⟩ := bind_eq_ok.mp h
  obtain ⟨-, -, h⟩ := bind_eq_ok.mp h
  obtain ⟨execMax, hexec, h⟩ := bind_eq_ok.mp h
  obtain ⟨-, -, h⟩ := bind_eq_ok.mp h
  obtain ⟨judge, hjudge, h⟩ := bind_eq_ok.mp h
  obtain rfl := Except.ok.inj h
  obtain ⟨hexecutor, hpos⟩ := newJudgeEngine_spec (mapError_eq_ok.mp hjudge)
  exact ⟨hexecutor, hpos, newExecutor_pos (mapError_eq_ok.mp hexec), hne, hnodup⟩

/-- Start-up does not hang, and a server that starts is ready. -/
theorem start_ready (host : Host) : ∃ res, start host = some res ∧ ∀ server, res = .ok server → Ready server := by
  unfold start
  split
  · exact ⟨_, rfl, by simp⟩
  · next cfg _ =>
      obtain ⟨sb, hsb, hpool⟩ := @newSandbox_spec host cfg.containerdSocket
      refine ⟨_, by rw [initializeServer, hsb]; rfl, ?_⟩
      intro server hserver
      obtain ⟨cpus, hcpus, hwith⟩ := bind_eq_ok.mp hserver
      obtain ⟨hne, hnodup⟩ := hpool cpus (mapError_eq_ok.mp hcpus)
      exact initializeWith_ready hwith hne hnodup

end Afterglow.Startup
