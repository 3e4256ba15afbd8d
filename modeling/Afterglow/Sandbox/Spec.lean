import Afterglow.Model.Types
import Afterglow.Sandbox.Verdict

/-!
# The specification of a container

Reference: `internal/sandbox/spec.go`, and the options that `executeInContainer` of `containerd.go` passes to
`containerd.WithNewSpec`.

The options of the package `oci` are a parameter, `Oci`, with what their documentation says of them: each
sets its part of the specification and leaves the rest alone. Nothing is assumed of `WithImageConfig`, so an
image may ask for anything. It comes first in the list of options, and `newSpec_eq` says what is left of it.
-/

namespace Afterglow.Sandbox

/-! ## Specifications -/

/-- The source of a mount; a directory of the host is a workspace. -/
inductive MountSource
  | dir (hostPath : ℕ)
  | named (name : String)
deriving Repr, DecidableEq

/-- `specs.Mount`. -/
structure SpecMount where
  destination : String
  type : String
  source : MountSource
  options : List String
deriving Repr, DecidableEq

inductive SeccompAction
  | allow
  | errno
deriving Repr, DecidableEq

inductive Arch
  | x86_64
  | x86
deriving Repr, DecidableEq

/-- `specs.LinuxSyscall`. -/
structure LinuxSyscall where
  names : List String
  action : SeccompAction
deriving Repr, DecidableEq

/-- `specs.LinuxSeccomp`. -/
structure LinuxSeccomp where
  defaultAction : SeccompAction
  architectures : List Arch
  syscalls : List LinuxSyscall
deriving Repr, DecidableEq

/-- What a system call meets under a profile without arguments. -/
def LinuxSeccomp.action (p : LinuxSeccomp) (syscall : String) : SeccompAction :=
  match p.syscalls.find? fun rule => syscall ∈ rule.names with
  | some rule => rule.action
  | none => p.defaultAction

/-- `oci.Spec`, as far as the sandbox sets it. -/
structure Spec where
  args : List String
  cwd : String
  mounts : List SpecMount
  rootReadonly : Bool
  memoryLimit : Option UInt64
  memorySwap : Option ℤ
  cpus : String
  capabilities : List String
  noNewPrivileges : Bool
  pidsLimit : Option ℤ
  seccomp : Option LinuxSeccomp
deriving Repr, DecidableEq

/-- `oci.SpecOpts`. -/
abbrev SpecOpts := Spec → Except Err Spec

/-- Options apply in order, up to the first that fails. -/
def applyOpts (opts : List SpecOpts) : SpecOpts := fun s => opts.foldlM (fun s opt => opt s) s

/-- The options of the package `oci`. -/
structure Oci where
  withImageConfig : String → SpecOpts
  withProcessArgs : List String → SpecOpts
  withProcessCwd : String → SpecOpts
  withMounts : List SpecMount → SpecOpts
  withMemoryLimit : UInt64 → SpecOpts
  withMemorySwap : ℤ → SpecOpts
  withRootFSReadonly : SpecOpts
  withCPUs : String → SpecOpts
  withCapabilities : List String → SpecOpts
  withNoNewPrivileges : SpecOpts
  withPidsLimit : ℤ → SpecOpts
  compose : List SpecOpts → SpecOpts
  processArgs : ∀ args s, withProcessArgs args s = .ok { s with args := args }
  processCwd : ∀ cwd s, withProcessCwd cwd s = .ok { s with cwd := cwd }
  mounts : ∀ mounts s, withMounts mounts s = .ok { s with mounts := s.mounts ++ mounts }
  memoryLimit : ∀ limit s, withMemoryLimit limit s = .ok { s with memoryLimit := some limit }
  memorySwap : ∀ swap s, withMemorySwap swap s = .ok { s with memorySwap := some swap }
  rootFSReadonly : ∀ s, withRootFSReadonly s = .ok { s with rootReadonly := true }
  cpus : ∀ cpus s, withCPUs cpus s = .ok { s with cpus := cpus }
  capabilities : ∀ caps s, withCapabilities caps s = .ok { s with capabilities := caps }
  noNewPrivileges : ∀ s, withNoNewPrivileges s = .ok { s with noNewPrivileges := true }
  pidsLimit : ∀ limit s, withPidsLimit limit s = .ok { s with pidsLimit := some limit }
  composed : ∀ opts, compose opts = applyOpts opts

attribute [simp] Oci.processArgs Oci.processCwd Oci.mounts Oci.memoryLimit Oci.memorySwap
  Oci.rootFSReadonly Oci.cpus Oci.capabilities Oci.noNewPrivileges Oci.pidsLimit Oci.composed

@[simp] theorem applyOpts_nil (s : Spec) : applyOpts [] s = .ok s := rfl

@[simp] theorem applyOpts_cons (opt : SpecOpts) (opts : List SpecOpts) (s : Spec) :
    applyOpts (opt :: opts) s = (opt s).bind (applyOpts opts) := by
  cases h : opt s <;> simp [applyOpts, h] <;> rfl

/-! ## The options of the sandbox (`spec.go`) -/

def pidsLimit : ℤ := 128

/-- The system calls that `withJudgeSandboxSeccomp` blocks. -/
def blockedSyscalls : List String :=
  ["socket", "bind", "listen", "connect", "accept", "accept4",
    "sendto", "recvfrom", "sendmsg", "recvmsg",
    "fork", "vfork",
    "ptrace",
    "mount", "umount2",
    "reboot"]

/-- The profile of `withJudgeSandboxSeccomp`. -/
def judgeSandboxSeccomp : LinuxSeccomp where
  defaultAction := .allow
  architectures := [.x86_64, .x86]
  syscalls := [{ names := blockedSyscalls, action := .errno }]

theorem judgeSandboxSeccomp_action (syscall : String) :
    judgeSandboxSeccomp.action syscall = .errno ↔ syscall ∈ blockedSyscalls := by
  by_cases h : syscall ∈ blockedSyscalls <;> simp [LinuxSeccomp.action, judgeSandboxSeccomp, h]

def withJudgeSandboxSeccomp : SpecOpts := fun s => .ok { s with seccomp := some judgeSandboxSeccomp }

variable (oci : Oci)

/-- The bind mount of `mountSpecOpts`. -/
def Mount.spec (m : Mount) : SpecMount where
  destination := m.containerPath
  type := "bind"
  source := .dir m.hostPath
  options := ["rbind"] ++ if m.readOnly then ["ro"] else []

def mountSpecOpts : Option Mount → List SpecOpts
  | none => []
  | some m => [oci.withMounts [m.spec], oci.withProcessCwd m.containerPath]

/-- The `/tmp` of `sandboxSecurityOpts`. -/
def tmpMount : SpecMount where
  destination := "/tmp"
  type := "tmpfs"
  source := .named "tmpfs"
  options := ["nosuid", "nodev"]

def sandboxSecurityOpts (enableSeccomp : Bool) (cpuID : ℕ) : SpecOpts :=
  oci.compose ([oci.withRootFSReadonly, oci.withMounts [tmpMount], oci.withCPUs (toString cpuID),
    oci.withCapabilities [], oci.withNoNewPrivileges, oci.withPidsLimit pidsLimit] ++
    if enableSeccomp then [withJudgeSandboxSeccomp] else [])

def sandboxSpecOpts (req : ExecuteRequest) (cpuID : ℕ) : List SpecOpts :=
  mountSpecOpts oci req.mountDir ++
    [oci.withMemoryLimit (memoryLimitOpt req.limits), oci.withMemorySwap (memoryBytes req.limits.memoryMB),
      sandboxSecurityOpts oci req.enableSeccomp cpuID]

/-- The specification that `executeInContainer` asks for, from the default one of containerd. -/
def newSpec (req : ExecuteRequest) (cpuID : ℕ) : SpecOpts :=
  applyOpts ([oci.withImageConfig req.imageRef, oci.withProcessArgs req.command] ++
    sandboxSpecOpts oci req cpuID)

/-! ## What comes of it -/

theorem sandboxSecurityOpts_eq (enableSeccomp : Bool) (cpuID : ℕ) (s : Spec) :
    sandboxSecurityOpts oci enableSeccomp cpuID s = .ok
      { s with
        mounts := s.mounts ++ [tmpMount]
        rootReadonly := true
        cpus := toString cpuID
        capabilities := []
        noNewPrivileges := true
        pidsLimit := some pidsLimit
        seccomp := if enableSeccomp then some judgeSandboxSeccomp else s.seccomp } := by
  cases enableSeccomp <;> simp [sandboxSecurityOpts, withJudgeSandboxSeccomp, Except.bind]

/-- The image decides about nothing but the mounts before the sandbox's own and, without seccomp
restrictions, the seccomp profile. -/
theorem newSpec_eq (req : ExecuteRequest) {m : Mount} (hm : req.mountDir = some m) (cpuID : ℕ) (base : Spec) :
    newSpec oci req cpuID base = (oci.withImageConfig req.imageRef base).map fun s =>
      { args := req.command
        cwd := m.containerPath
        mounts := s.mounts ++ [m.spec, tmpMount]
        rootReadonly := true
        memoryLimit := some (memoryLimitOpt req.limits)
        memorySwap := some (memoryBytes req.limits.memoryMB)
        cpus := toString cpuID
        capabilities := []
        noNewPrivileges := true
        pidsLimit := some pidsLimit
        seccomp := if req.enableSeccomp then some judgeSandboxSeccomp else s.seccomp } := by
  rw [newSpec, List.cons_append, applyOpts_cons]
  cases oci.withImageConfig req.imageRef base with
  | error e => rfl
  | ok s =>
    show applyOpts _ s = .ok _
    simp [sandboxSpecOpts, mountSpecOpts, hm, sandboxSecurityOpts_eq, Except.bind]

end Afterglow.Sandbox
