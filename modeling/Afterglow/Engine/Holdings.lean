import Afterglow.Concurrency.Capacity
import Afterglow.Concurrency.Discipline
import Afterglow.Execution.Executor

/-!
# What goroutines hold

`heldDiscipline` tracks the judge slot, the led flight, the executor permit, the CPU and the workspace of
a goroutine, and orders its waits: nothing is waited for while something later in the order slot, flight,
cases, permit, CPU is held. `HeldInv` relates all holdings to the shared state: slots and permits are
counted, every CPU is free or held once, and a workspace belongs to one goroutine, which knows its
contents and what the sandbox made of them.
-/

namespace Afterglow.Engine

open Concurrency Execution

/-! ## Workspaces and sandbox calls -/

/-- The data of a regular file. -/
def Node.data? : Node → Option Bytes
  | .regular data _ => some data
  | .irregular => none

/-- A directory holds exactly the given regular files. -/
def Matches (files : String → Option Bytes) (entries : Contents) : Prop :=
  ∀ name, (entries name).map Node.data? = (files name).map some

theorem matches_empty : Matches (fun _ => none) fun _ => none := fun _ => rfl

theorem Matches.write {files : String → Option Bytes} {entries : Contents} (h : Matches files entries)
    (name : String) (content : Bytes) (perm : ℕ) :
    Matches (Function.update files name (some content))
      (Function.update entries name (some (.regular content perm))) := by
  intro name'
  by_cases hname : name' = name
  · subst hname
    simp [Node.data?]
  · simpa [Function.update_of_ne hname] using h name'

/-- The call and the return of `sandbox.Execute`. -/
def Op.SandboxBoundary : Op → Prop
  | .enterExecute _ _ | .mark (.leaveExecute _ _ _) => True
  | _ => False

/-- These events end inside a `sandbox.Execute` call on a workspace that held exactly `files`. -/
def Executing (events : List (Event Op Op.Ans)) (req : Sandbox.ExecuteRequest)
    (files : String → Option Bytes) : Prop :=
  ∃ t₁ ctx entries t₂, events = t₁ ++ ⟨.enterExecute ctx req, some entries⟩ :: t₂ ∧
    Matches files entries ∧ ∀ ev ∈ t₂, ¬ ev.op.SandboxBoundary

/-- Among these events is a `sandbox.Execute` call on a workspace that held exactly `files`, which
returned `res`. -/
def Executed (events : List (Event Op Op.Ans)) (req : Sandbox.ExecuteRequest)
    (files : String → Option Bytes) (res : Except Err Sandbox.ExecuteResult) : Prop :=
  ∃ t₁ ctx t₂, Executing t₁ req files ∧
    events = t₁ ++ ⟨.mark (.leaveExecute ctx req res), ()⟩ :: t₂

theorem Executing.snoc {events : List (Event Op Op.Ans)} {req : Sandbox.ExecuteRequest}
    {files : String → Option Bytes} (h : Executing events req files) {ev : Event Op Op.Ans}
    (hev : ¬ ev.op.SandboxBoundary) : Executing (events ++ [ev]) req files := by
  obtain ⟨t₁, ctx, entries, t₂, rfl, hmatch, hopen⟩ := h
  refine ⟨t₁, ctx, entries, t₂ ++ [ev], by simp, hmatch, ?_⟩
  intro ev' hmem
  rcases List.mem_append.mp hmem with hmem | hmem
  · exact hopen ev' hmem
  · rw [List.mem_singleton.mp hmem]
    exact hev

theorem Executed.append {events : List (Event Op Op.Ans)} {req : Sandbox.ExecuteRequest}
    {files : String → Option Bytes} {res : Except Err Sandbox.ExecuteResult}
    (h : Executed events req files res) (events' : List (Event Op Op.Ans)) :
    Executed (events ++ events') req files res := by
  obtain ⟨t₁, ctx, t₂, hexec, rfl⟩ := h
  exact ⟨t₁, ctx, t₂ ++ events', hexec, by simp⟩

/-! ## The discipline -/

/-- A workspace that a goroutine has created and not tried to remove. -/
structure Workspace where
  dir : ℕ
  /-- What is in it, as long as that is known. -/
  files : Option (String → Option Bytes)

/-- Where a goroutine stands. -/
structure Held where
  judge : Bool := false
  /-- It leads a flight. -/
  leading : Bool := false
  /-- It has started the goroutines of its cases. -/
  started : Bool := false
  permit : Bool := false
  cpu : Option ℕ := none
  workspace : Option Workspace := none
  /-- The sandbox call it is in. -/
  executing : Option (Sandbox.ExecuteRequest × (String → Option Bytes)) := none
  /-- The sandbox calls it has made. -/
  executed : Set (Sandbox.ExecuteRequest × (String → Option Bytes) ×
    Except Err Sandbox.ExecuteResult) := ∅

namespace Held

/-- Nothing of the executor is held. -/
def Idle (l : Held) : Prop := l.permit = false ∧ l.cpu = none ∧ l.workspace = none

/-- Neither anything of the executor nor a flight is held. -/
def Clear (l : Held) : Prop := l.Idle ∧ l.leading = false

/-- The directory of the workspace. -/
def dir (l : Held) : Option ℕ := l.workspace.map Workspace.dir

/-- The contents of the workspace are no longer known. -/
def spoil (l : Held) : Held :=
  { l with workspace := l.workspace.map fun w => { w with files := none } }

/-- A file was written, or failed to be. -/
def wrote (l : Held) (name : String) (content : Bytes) : Option Err → Held
  | none => { l with workspace := l.workspace.map fun w =>
      { w with files := w.files.map fun files => Function.update files name (some content) } }
  | some _ => l.spoil

/-- A task ran on the workspace. -/
def watched (l : Held) (req : Sandbox.ExecuteRequest) : Held :=
  if req.mountDir.any fun m => m.readOnly = false then l.spoil else l

/-- `sandbox.Execute` was called. -/
def enter (l : Held) (req : Sandbox.ExecuteRequest) : Held :=
  { l with executing := (l.workspace.bind Workspace.files).map fun files => (req, files) }

/-- `sandbox.Execute` returned. -/
def leave (l : Held) (req : Sandbox.ExecuteRequest) (res : Except Err Sandbox.ExecuteResult) : Held :=
  { l with
    executing := none
    executed := l.executed ∪ { x | l.executing = some (req, x.2.1) ∧ x = (req, x.2.1, res) } }

end Held

/-- The contents of a fresh workspace after writing these files. -/
def fileTree (files : List File) : String → Option Bytes :=
  files.foldl (fun tree file => Function.update tree file.name (some file.content)) fun _ => none

/-- A task was executed, with the result `out`. -/
def Held.Ran (l : Held) (t : Task) (out : RunResult) : Prop :=
  ∃ ws r, (t.request ws, fileTree t.files, .ok r) ∈ l.executed ∧ out = sandboxResultToRunResult r

/-- The discipline of acquiring, waiting and releasing. Requests and cases have their own goroutines,
and what `Run` returns was executed. -/
def heldDiscipline : Discipline Op Op.Ans Tid Held where
  pre i l
    | .judgeAcquire _ => (∃ j, i = .judge j) ∧ l.judge = false ∧ l.Clear
    | .judgeRelease => l.judge = true ∧ l.Clear
    | .execAcquire _ => l.Idle
    | .execRelease => l.permit = true ∧ l.cpu = none ∧ l.workspace = none
    | .cpuTake _ => l.permit = true ∧ l.cpu = none
    | .cpuPut id => l.cpu = some id
    | .mkdirTemp => l.workspace = none
    | .removeAll d | .writeFile d _ _ _ | .stat d _ | .readFile d _ => l.dir = some d
    | .enterExecute _ req | .watch _ req =>
      l.permit = true ∧ ∃ m, req.mountDir = some m ∧ l.dir = some m.hostPath
    | .flightDo _ | .flightWait _ | .goCases _ => (∃ j, i = .judge j) ∧ l.Clear
    | .flightDone _ _ _ => l.leading = true ∧ l.Idle
    | .caseBegin | .caseEnd _ => (∃ j n, i = .case j n) ∧ l.judge = false ∧ l.Clear
    | .wgWait => (∃ j, i = .judge j) ∧ l.started = true ∧ l.Clear
    | .mark (.leaveRun _ req (.ok out)) => l.Ran (runTaskOf req) out
    | _ => True
  next _ l
    | .judgeAcquire _, (none : Option Err) => { l with judge := true }
    | .judgeRelease, _ => { l with judge := false }
    | .execAcquire _, (none : Option Err) => { l with permit := true }
    | .execRelease, _ => { l with permit := false }
    | .cpuTake _, (.ok id : Except Err ℕ) => { l with cpu := some id }
    | .cpuPut _, _ => { l with cpu := none }
    | .flightDo _, (.lead _ : Flight) => { l with leading := true }
    | .flightDone _ _ _, _ => { l with leading := false }
    | .goCases _, _ => { l with started := true }
    | .mkdirTemp, (.ok d : Except Err ℕ) => { l with workspace := some ⟨d, some fun _ => none⟩ }
    | .removeAll _, _ => { l with workspace := none }
    | .writeFile _ name content _, r => l.wrote name content r
    | .watch _ req, _ => l.watched req
    | .enterExecute _ req, _ => l.enter req
    | .mark (.leaveExecute _ req res), _ => l.leave req res
    | _, _ => l

/-- What a goroutine holds after a trace. -/
def held (tr : Trace) (i : Tid) : Held := heldDiscipline.locals (fun _ => {}) tr i

/-! ## Capacity -/

/-- Slots and permits are counted within their bounds, and every CPU is free or held once. -/
structure CapacityInv (judgeMax execMax : ℕ) (cpus : List ℕ) (s : State) (ℓ : Tid → Held) : Prop where
  judgeMax_eq : s.judgeMax = judgeMax
  execMax_eq : s.execMax = execMax
  cpuCap_eq : s.cpuCap = cpus.length
  judges : Counted (fun l : Held => l.judge = true) ℓ s.judgeUsed
  judges_le : s.judgeUsed ≤ judgeMax
  permits : Counted (fun l : Held => l.permit = true) ℓ s.execUsed
  permits_le : s.execUsed ≤ execMax
  cpus : Dealt cpus s.freeCpus fun i => (ℓ i).cpu

/-- The operations that acquire or release no capacity. -/
def Op.CapacityQuiet : Op → Prop
  | .judgeAcquire _ | .judgeRelease | .execAcquire _ | .execRelease | .cpuTake _ | .cpuPut _ => False
  | _ => True

theorem act_capacity_quiet {i : Tid} {s s' : State} {e : Op} {r : e.Ans} (he : e.CapacityQuiet)
    (h : act i s e r s') :
    s'.judgeMax = s.judgeMax ∧ s'.execMax = s.execMax ∧ s'.cpuCap = s.cpuCap ∧
      s'.judgeUsed = s.judgeUsed ∧ s'.execUsed = s.execUsed ∧ s'.freeCpus = s.freeCpus := by
  unfold act at h
  split at h
  all_goals first | exact absurd he id | grind [State.setDir]

@[simp] theorem Held.watched_judge (l : Held) (req : Sandbox.ExecuteRequest) :
    (l.watched req).judge = l.judge ∧ (l.watched req).permit = l.permit ∧
      (l.watched req).cpu = l.cpu := by
  unfold watched
  split <;> exact ⟨rfl, rfl, rfl⟩

theorem next_capacity_quiet {e : Op} (he : e.CapacityQuiet) (i : Tid) (l : Held) (r : e.Ans) :
    (heldDiscipline.next i l e r).judge = l.judge ∧ (heldDiscipline.next i l e r).permit = l.permit ∧
      (heldDiscipline.next i l e r).cpu = l.cpu := by
  cases e with
  | mkdirTemp | writeFile d name content mode | flightDo key => cases r <;> exact ⟨rfl, rfl, rfl⟩
  | watch ctx req => exact l.watched_judge req
  | mark m => cases m <;> exact ⟨rfl, rfl, rfl⟩
  | _ => first | exact absurd he id | exact ⟨rfl, rfl, rfl⟩

section Capacity

variable {judgeMax execMax : ℕ} {cpus : List ℕ} {s s' : State} {ℓ : Tid → Held} {i : Tid}

theorem update_cpu (ℓ : Tid → Held) (i : Tid) (l : Held) :
    (fun j => (Function.update ℓ i l j).cpu) = Function.update (fun j => (ℓ j).cpu) i l.cpu := by
  funext j
  by_cases hj : j = i
  · simp [hj]
  · simp [hj]

/-- A goroutine moves on with the same slot, permit and CPU. -/
theorem CapacityInv.stay (inv : CapacityInv judgeMax execMax cpus s ℓ) {l : Held}
    (hjudge : l.judge = (ℓ i).judge) (hpermit : l.permit = (ℓ i).permit) (hcpu : l.cpu = (ℓ i).cpu) :
    CapacityInv judgeMax execMax cpus s (Function.update ℓ i l) where
  judgeMax_eq := inv.judgeMax_eq
  execMax_eq := inv.execMax_eq
  cpuCap_eq := inv.cpuCap_eq
  judges := inv.judges.stay (by rw [hjudge])
  judges_le := inv.judges_le
  permits := inv.permits.stay (by rw [hpermit])
  permits_le := inv.permits_le
  cpus := inv.cpus.stay (q := Held.cpu) hcpu

theorem CapacityInv.step (inv : CapacityInv judgeMax execMax cpus s ℓ) {e : Op} {r : e.Ans}
    (hpre : heldDiscipline.pre i (ℓ i) e) (hact : act i s e r s') :
    CapacityInv judgeMax execMax cpus s'
      (Function.update ℓ i (heldDiscipline.next i (ℓ i) e r)) := by
  by_cases hquiet : e.CapacityQuiet
  · obtain ⟨hjudge, hpermit, hcpu⟩ := next_capacity_quiet hquiet i (ℓ i) r
    have inv' := inv.stay hjudge hpermit hcpu
    obtain ⟨h₁, h₂, h₃, h₄, h₅, h₆⟩ := act_capacity_quiet hquiet hact
    exact ⟨h₁.trans inv.judgeMax_eq, h₂.trans inv.execMax_eq, h₃.trans inv.cpuCap_eq,
      h₄ ▸ inv'.judges, h₄ ▸ inv.judges_le, h₅ ▸ inv'.permits, h₅ ▸ inv.permits_le, h₆ ▸ inv'.cpus⟩
  cases e with
  | judgeAcquire ctx =>
    match r, hact with
    | some e, hs =>
      obtain rfl : s' = s := hs
      exact inv.stay rfl rfl rfl
    | none, ⟨hlt, hs⟩ =>
      subst hs
      have hfree : ¬ (ℓ i).judge = true := by simp [hpre.2.1]
      rw [inv.judgeMax_eq] at hlt
      exact ⟨inv.judgeMax_eq, inv.execMax_eq, inv.cpuCap_eq, inv.judges.acquire hfree rfl, hlt,
        inv.permits.stay Iff.rfl, inv.permits_le, inv.cpus.stay (q := Held.cpu) rfl⟩
  | judgeRelease =>
    obtain ⟨-, rfl⟩ := hact
    obtain ⟨-, hjudges⟩ := inv.judges.release (i := i) (l := { ℓ i with judge := false }) hpre.1 (by simp)
    exact ⟨inv.judgeMax_eq, inv.execMax_eq, inv.cpuCap_eq, hjudges,
      (Nat.sub_le _ _).trans inv.judges_le, inv.permits.stay Iff.rfl, inv.permits_le,
      inv.cpus.stay (q := Held.cpu) rfl⟩
  | execAcquire ctx =>
    match r, hact with
    | some e, hs =>
      obtain rfl : s' = s := hs
      exact inv.stay rfl rfl rfl
    | none, ⟨hlt, hs⟩ =>
      subst hs
      have hfree : ¬ (ℓ i).permit = true := by simp [hpre.1]
      rw [inv.execMax_eq] at hlt
      exact ⟨inv.judgeMax_eq, inv.execMax_eq, inv.cpuCap_eq, inv.judges.stay Iff.rfl, inv.judges_le,
        inv.permits.acquire hfree rfl, hlt, inv.cpus.stay (q := Held.cpu) rfl⟩
  | execRelease =>
    obtain ⟨-, rfl⟩ := hact
    obtain ⟨-, hpermits⟩ :=
      inv.permits.release (i := i) (l := { ℓ i with permit := false }) hpre.1 (by simp)
    exact ⟨inv.judgeMax_eq, inv.execMax_eq, inv.cpuCap_eq, inv.judges.stay Iff.rfl, inv.judges_le,
      hpermits, (Nat.sub_le _ _).trans inv.permits_le, inv.cpus.stay (q := Held.cpu) rfl⟩
  | cpuTake ctx =>
    match r, hact with
    | .error e, hs =>
      obtain rfl : s' = s := hs
      exact inv.stay rfl rfl rfl
    | .ok id, ⟨rest, hfree, hs⟩ =>
      subst hs
      -- the CPU moves from the pool to the goroutine
      have hdealt := inv.cpus
      rw [hfree] at hdealt
      refine ⟨inv.judgeMax_eq, inv.execMax_eq, inv.cpuCap_eq, inv.judges.stay Iff.rfl, inv.judges_le,
        inv.permits.stay Iff.rfl, inv.permits_le, ?_⟩
      rw [update_cpu]
      exact hdealt.take hpre.2
  | cpuPut id =>
    obtain ⟨-, rfl⟩ := hact
    refine ⟨inv.judgeMax_eq, inv.execMax_eq, inv.cpuCap_eq, inv.judges.stay Iff.rfl, inv.judges_le,
      inv.permits.stay Iff.rfl, inv.permits_le, ?_⟩
    rw [update_cpu]
    exact inv.cpus.put hpre
  | _ => exact absurd trivial hquiet

/-- A held CPU can be put back. -/
theorem CapacityInv.room (inv : CapacityInv judgeMax execMax cpus s ℓ) {id : ℕ}
    (hcpu : (ℓ i).cpu = some id) : s.freeCpus.length < s.cpuCap := by
  rw [inv.cpuCap_eq]
  exact inv.cpus.length_lt (i := i) hcpu

end Capacity

/-! ## Workspaces -/

/-- Every workspace is a directory of its own, with the contents its goroutine knows of. -/
structure WorkspaceInv (s : State) (ℓ : Tid → Held) : Prop where
  contents : ∀ i w, (ℓ i).workspace = some w → ∃ entries, s.dirs w.dir = some entries ∧
    ∀ files, w.files = some files → Matches files entries
  inj : ∀ i j d, (ℓ i).dir = some d → (ℓ j).dir = some d → i = j

/-- The operations that neither change a directory nor what is known of one. -/
def Op.WorkspaceQuiet : Op → Prop
  | .mkdirTemp | .removeAll _ | .writeFile _ _ _ _ | .watch _ _ => False
  | _ => True

theorem act_workspace_quiet {i : Tid} {s s' : State} {e : Op} {r : e.Ans} (he : e.WorkspaceQuiet)
    (h : act i s e r s') : s'.dirs = s.dirs := by
  unfold act at h
  split at h
  all_goals first | exact absurd he id | grind

theorem next_workspace_quiet {e : Op} (he : e.WorkspaceQuiet) (i : Tid) (l : Held) (r : e.Ans) :
    (heldDiscipline.next i l e r).workspace = l.workspace := by
  cases e with
  | judgeAcquire ctx | execAcquire ctx | cpuTake ctx | flightDo key => cases r <;> rfl
  | mark m => cases m <;> rfl
  | _ => first | exact absurd he id | rfl

section Workspace

variable {s s' : State} {ℓ : Tid → Held} {i : Tid}

theorem WorkspaceInv.dir_ne (inv : WorkspaceInv s ℓ) {j : Tid} {d : ℕ} {w : Workspace} (hij : j ≠ i)
    (hi : (ℓ i).dir = some d) (hj : (ℓ j).workspace = some w) : w.dir ≠ d := by
  rintro rfl
  refine hij (inv.inj j i w.dir ?_ hi)
  rw [Held.dir, hj]
  rfl

/-- A goroutine changes its own workspace, if it has one, and what it knows of it. -/
theorem WorkspaceInv.change (inv : WorkspaceInv s ℓ) {l : Held} {d : ℕ} {entries : Option Contents}
    (hi : (ℓ i).dir = some d) (hdir : l.dir = some d ∨ l.dir = none)
    (hl : ∀ w, l.workspace = some w → ∃ entries', entries = some entries' ∧
      ∀ files, w.files = some files → Matches files entries') :
    WorkspaceInv (s.setDir d entries) (Function.update ℓ i l) where
  contents j w hj := by
    by_cases hij : j = i
    · subst hij
      rw [Function.update_self] at hj
      obtain ⟨entries', hentries, hmatch⟩ := hl w hj
      refine ⟨entries', ?_, hmatch⟩
      have hd : w.dir = d := by
        rcases hdir with hdir | hdir <;> simp [Held.dir, hj] at hdir
        exact hdir
      simp [State.setDir, hd, hentries]
    · rw [Function.update_of_ne hij] at hj
      obtain ⟨entries', hentries, hmatch⟩ := inv.contents j w hj
      have hne := inv.dir_ne hij hi hj
      exact ⟨entries', by simp [State.setDir, Function.update_of_ne hne, hentries], hmatch⟩
  inj j j' d' hj hj' := by
    have hsame : ∀ k, (Function.update ℓ i l k).dir = some d' → (ℓ k).dir = some d' := by
      intro k hk
      by_cases hki : k = i
      · subst hki
        rw [Function.update_self] at hk
        rcases hdir with hdir | hdir
        · rw [hi, ← hdir, hk]
        · exact absurd (hk.symm.trans hdir) (by simp)
      · rwa [Function.update_of_ne hki] at hk
    exact inv.inj j j' d' (hsame j hj) (hsame j' hj')

/-- A goroutine without a workspace creates one. -/
theorem WorkspaceInv.create (inv : WorkspaceInv s ℓ) {d : ℕ} (hnone : (ℓ i).workspace = none)
    (hfree : s.dirs d = none) :
    WorkspaceInv (s.setDir d (some fun _ => none))
      (Function.update ℓ i { ℓ i with workspace := some ⟨d, some fun _ => none⟩ }) where
  contents j w hj := by
    by_cases hij : j = i
    · subst hij
      rw [Function.update_self] at hj
      obtain rfl := Option.some.inj hj
      refine ⟨fun _ => none, by simp [State.setDir], ?_⟩
      intro files hfiles
      obtain rfl := Option.some.inj hfiles
      exact matches_empty
    · rw [Function.update_of_ne hij] at hj
      obtain ⟨entries, hentries, hmatch⟩ := inv.contents j w hj
      have hne : w.dir ≠ d := by
        rintro rfl
        exact absurd (hentries.symm.trans hfree) (by simp)
      exact ⟨entries, by simp [State.setDir, Function.update_of_ne hne, hentries], hmatch⟩
  inj j j' d' hj hj' := by
    -- no other workspace is at the new directory
    have hnew : ∀ k, (ℓ k).dir ≠ some d := by
      intro k hk
      obtain ⟨w, hw, rfl⟩ := Option.map_eq_some_iff.mp hk
      obtain ⟨entries, hentries, -⟩ := inv.contents k w hw
      exact absurd (hentries.symm.trans hfree) (by simp)
    have hi : (Function.update ℓ i { ℓ i with workspace := some ⟨d, some fun _ => none⟩ } i).dir =
        some d := by simp [Held.dir]
    by_cases hji : j = i <;> by_cases hji' : j' = i
    · rw [hji, hji']
    · rw [hji, hi] at hj
      rw [Function.update_of_ne hji', ← hj] at hj'
      exact absurd hj' (hnew j')
    · rw [hji', hi] at hj'
      rw [Function.update_of_ne hji, ← hj'] at hj
      exact absurd hj (hnew j)
    · rw [Function.update_of_ne hji] at hj
      rw [Function.update_of_ne hji'] at hj'
      exact inv.inj j j' d' hj hj'

/-- What a goroutine knows of its workspace is lost. -/
theorem WorkspaceInv.spoil (inv : WorkspaceInv s ℓ) {d : ℕ} (hi : (ℓ i).dir = some d)
    (left : Contents) :
    WorkspaceInv (s.setDir d ((s.dirs d).map fun _ => left)) (Function.update ℓ i (ℓ i).spoil) := by
  obtain ⟨w, hw, rfl⟩ := Option.map_eq_some_iff.mp hi
  obtain ⟨entries, hentries, -⟩ := inv.contents i w hw
  refine inv.change hi (.inl ?_) ?_
  · simp [Held.dir, Held.spoil, hw]
  · intro w' hw'
    simp only [Held.spoil, hw, Option.map_some] at hw'
    obtain rfl := Option.some.inj hw'
    exact ⟨left, by simp [hentries], by simp⟩

theorem WorkspaceInv.step (inv : WorkspaceInv s ℓ) {e : Op} {r : e.Ans}
    (hpre : heldDiscipline.pre i (ℓ i) e) (hact : act i s e r s') :
    WorkspaceInv s' (Function.update ℓ i (heldDiscipline.next i (ℓ i) e r)) := by
  have hstay : ∀ {l : Held}, s'.dirs = s.dirs → l.workspace = (ℓ i).workspace →
      WorkspaceInv s' (Function.update ℓ i l) := by
    intro l hdirs hl
    have hsame : ∀ j, (Function.update ℓ i l j).workspace = (ℓ j).workspace := by
      intro j
      by_cases hj : j = i
      · simp [hj, hl]
      · simp [hj]
    refine ⟨?_, ?_⟩
    · intro j
      rw [hsame, hdirs]
      exact inv.contents j
    · intro j j' d
      rw [Held.dir, Held.dir, hsame, hsame]
      exact inv.inj j j' d
  by_cases hquiet : e.WorkspaceQuiet
  · exact hstay (act_workspace_quiet hquiet hact) (next_workspace_quiet hquiet i (ℓ i) r)
  cases e with
  | mkdirTemp =>
    match r, hact with
    | .error e, hs => exact hstay (by rw [show s' = s from hs]) rfl
    | .ok d, ⟨hfree, hs⟩ =>
      subst hs
      exact inv.create hpre hfree
  | removeAll d =>
    have hgone : ∀ entries, WorkspaceInv (s.setDir d entries)
        (Function.update ℓ i { ℓ i with workspace := none }) :=
      fun entries => inv.change hpre (.inr rfl) (by simp)
    match r, hact with
    | none, hs =>
      obtain rfl : s' = _ := hs
      exact hgone none
    | some e, ⟨left, hs⟩ =>
      subst hs
      exact hgone left
  | writeFile d name content mode =>
    match r, hact with
    | some e, ⟨left, hs⟩ =>
      subst hs
      exact inv.spoil hpre left
    | none, ⟨entries, perm, hentries, hs⟩ =>
      subst hs
      obtain ⟨w, hw, rfl⟩ := Option.map_eq_some_iff.mp hpre
      -- a successful write changes the directory and the record of it alike
      obtain ⟨entries', hentries', hmatch⟩ := inv.contents i w hw
      obtain rfl := Option.some.inj (hentries.symm.trans hentries')
      refine inv.change hpre (.inl ?_) ?_
      · simp [Held.dir, heldDiscipline, Held.wrote, hw]
      · intro w' hw'
        simp only [heldDiscipline, Held.wrote, hw, Option.map_some] at hw'
        obtain rfl := Option.some.inj hw'
        refine ⟨_, rfl, ?_⟩
        intro files hfiles
        obtain ⟨files₀, hfiles₀, rfl⟩ := Option.map_eq_some_iff.mp hfiles
        exact (hmatch files₀ hfiles₀).write name content perm
  | watch ctx req =>
    obtain ⟨-, m, hm, hdir⟩ := hpre
    show WorkspaceInv s' (Function.update ℓ i ((ℓ i).watched req))
    unfold Held.watched
    -- a task changes the workspace only if it is mounted writable
    obtain rfl | ⟨m', left, hm', hro, rfl⟩ := hact
    · split
      · -- knowing less is always right
        obtain ⟨w, hw, hd⟩ := Option.map_eq_some_iff.mp hdir
        obtain ⟨entries, hentries, -⟩ := inv.contents i w hw
        have hself : s'.setDir m.hostPath ((s'.dirs m.hostPath).map fun _ => entries) = s' := by
          rw [← hd, hentries]
          simp only [State.setDir, Option.map_some]
          rw [← hentries, Function.update_eq_self]
        exact hself ▸ inv.spoil hdir entries
      · exact hstay rfl rfl
    · obtain rfl := Option.some.inj (hm.symm.trans hm')
      rw [if_pos (by simp [hm, hro])]
      exact inv.spoil hdir left
  | _ => exact absurd trivial hquiet

end Workspace

/-! ## Sandbox calls -/

/-- What a goroutine knows of its sandbox calls is in its events. -/
structure Records (events : List (Event Op Op.Ans)) (l : Held) : Prop where
  executing : ∀ req files, l.executing = some (req, files) → Executing events req files
  executed : ∀ req files res, (req, files, res) ∈ l.executed → Executed events req files res
  ran : ∀ ctx req out, ⟨.mark (.leaveRun ctx req (.ok out)), ()⟩ ∈ events → ∃ ws r,
    Executed events ((runTaskOf req).request ws) (fileTree (runTaskOf req).files) (.ok r) ∧
      out = sandboxResultToRunResult r

theorem next_boundary_quiet {e : Op} (he : ¬ e.SandboxBoundary) (i : Tid) (l : Held) (r : e.Ans) :
    (heldDiscipline.next i l e r).executing = l.executing ∧
      (heldDiscipline.next i l e r).executed = l.executed := by
  cases e with
  | enterExecute ctx req => exact absurd trivial he
  | judgeAcquire ctx | execAcquire ctx | cpuTake ctx | flightDo key | mkdirTemp
  | writeFile d name content mode =>
    cases r <;> exact ⟨rfl, rfl⟩
  | watch ctx req =>
    show (l.watched req).executing = l.executing ∧ (l.watched req).executed = l.executed
    unfold Held.watched
    split <;> exact ⟨rfl, rfl⟩
  | mark m =>
    cases m with
    | leaveExecute ctx req res => exact absurd trivial he
    | _ => exact ⟨rfl, rfl⟩
  | _ => exact ⟨rfl, rfl⟩

theorem Records.step {s s' : State} {ℓ : Tid → Held} {i : Tid} (inv : WorkspaceInv s ℓ)
    {events : List (Event Op Op.Ans)} (h : Records events (ℓ i)) {e : Op} {r : e.Ans}
    (hpre : heldDiscipline.pre i (ℓ i) e) (hact : act i s e r s') :
    Records (events ++ [⟨e, r⟩]) (heldDiscipline.next i (ℓ i) e r) := by
  have hran : ∀ ctx req out,
      ⟨.mark (.leaveRun ctx req (.ok out)), ()⟩ ∈ events ++ [(⟨e, r⟩ : Event Op Op.Ans)] → ∃ ws r',
        Executed (events ++ [⟨e, r⟩]) ((runTaskOf req).request ws) (fileTree (runTaskOf req).files)
          (.ok r') ∧ out = sandboxResultToRunResult r' := by
    intro ctx req out hmem
    rcases List.mem_append.mp hmem with hmem | hmem
    · obtain ⟨ws, r', hexec, hout⟩ := h.ran ctx req out hmem
      exact ⟨ws, r', hexec.append _, hout⟩
    · cases List.mem_singleton.mp hmem
      obtain ⟨ws, r', hexec, hout⟩ := hpre
      exact ⟨ws, r', (h.executed _ _ _ hexec).append _, hout⟩
  by_cases hquiet : e.SandboxBoundary
  · cases e with
    | enterExecute ctx req =>
      refine ⟨?_, fun req' files res hmem => (h.executed req' files res hmem).append _, hran⟩
      intro req' files hexec
      obtain ⟨files', hfiles', heq⟩ := Option.map_eq_some_iff.mp hexec
      obtain ⟨rfl, rfl⟩ := Prod.mk.inj heq
      obtain ⟨w, hw, hwf⟩ := Option.bind_eq_some_iff.mp hfiles'
      obtain ⟨-, m, hm, hdir⟩ := hpre
      obtain ⟨entries, hentries, hmatch⟩ := inv.contents i w hw
      obtain ⟨hr, -⟩ := hact
      -- the answer is what the goroutine's own workspace holds
      have hd : m.hostPath = w.dir := by simpa [Held.dir, hw] using hdir.symm
      have hmounted : s.mounted req = some entries := by
        rw [State.mounted, hm, Option.bind_some, hd, hentries]
      subst hr
      rw [hmounted]
      exact ⟨events, ctx, entries, [], rfl, hmatch _ hwf, by simp⟩
    | mark m =>
      cases m with
      | leaveExecute ctx req res =>
        refine ⟨fun req' files hexec => absurd hexec (by simp [heldDiscipline, Held.leave]), ?_, hran⟩
        rintro req' files res' (hmem | ⟨hexec, heq⟩)
        · exact (h.executed req' files res' hmem).append _
        · simp only [Prod.mk.injEq] at heq
          obtain ⟨rfl, -, rfl⟩ := heq
          exact ⟨events, ctx, [], h.executing _ _ hexec, rfl⟩
      | _ => exact absurd hquiet id
    | _ => exact absurd hquiet id
  · obtain ⟨hexecuting, hexecuted⟩ := next_boundary_quiet hquiet i (ℓ i) r
    refine ⟨?_, ?_, hran⟩
    · rw [hexecuting]
      intro req files hexec
      exact (h.executing req files hexec).snoc hquiet
    · rw [hexecuted]
      intro req files res hmem
      exact (h.executed req files res hmem).append _

/-! ## The whole invariant -/

/-- What all goroutines hold, and what they know. -/
structure HeldInv (judgeMax execMax : ℕ) (cpus : List ℕ) (s : State) (tr : Trace) (ℓ : Tid → Held) :
    Prop where
  capacity : CapacityInv judgeMax execMax cpus s ℓ
  workspace : WorkspaceInv s ℓ
  records : ∀ i, Records (own i tr) (ℓ i)
  started : ∀ i, (ℓ i).started = true → (s.batches i.request).isSome

theorem act_batches {i : Tid} {s s' : State} {e : Op} {r : e.Ans} (h : act i s e r s')
    (he : ∀ batch, e ≠ .goCases batch) : s'.batches = s.batches := by
  unfold act at h
  split at h
  all_goals first | exact absurd rfl (he _) | grind [State.setDir]

theorem next_started {e : Op} (he : ∀ batch, e ≠ .goCases batch) (i : Tid) (l : Held) (r : e.Ans) :
    (heldDiscipline.next i l e r).started = l.started := by
  cases e with
  | goCases batch => exact absurd rfl (he batch)
  | judgeAcquire ctx | execAcquire ctx | cpuTake ctx | flightDo key | mkdirTemp
  | writeFile d name content mode => cases r <;> rfl
  | watch ctx req =>
    show (l.watched req).started = l.started
    unfold Held.watched
    split <;> rfl
  | mark m => cases m <;> rfl
  | _ => rfl

/-- A goroutine that has started its cases has left them where they find them. -/
theorem started_step {s s' : State} {ℓ : Tid → Held} {i : Tid}
    (h : ∀ j, (ℓ j).started = true → (s.batches j.request).isSome) {e : Op} {r : e.Ans}
    (hact : act i s e r s') (j : Tid)
    (hj : (Function.update ℓ i (heldDiscipline.next i (ℓ i) e r) j).started = true) :
    (s'.batches j.request).isSome := by
  by_cases he : ∃ batch, e = .goCases batch
  · obtain ⟨batch, rfl⟩ := he
    obtain rfl : s' = _ := hact
    by_cases hreq : j.request = i.request
    · simp [hreq]
    · have hij : j ≠ i := fun hij => hreq (by rw [hij])
      rw [Function.update_of_ne hij] at hj
      simpa [Function.update_of_ne hreq] using h j hj
  · have he' : ∀ batch, e ≠ .goCases batch := fun batch heq => he ⟨batch, heq⟩
    rw [act_batches hact he']
    refine h j ?_
    by_cases hij : j = i
    · subst hij
      rwa [Function.update_self, next_started he'] at hj
    · rwa [Function.update_of_ne hij] at hj

theorem held_upholds (judgeMax execMax : ℕ) (cpus : List ℕ) :
    Upholds semantics heldDiscipline (HeldInv judgeMax execMax cpus) := by
  intro s tr ℓ i e r s' inv hpre hact
  refine ⟨inv.capacity.step hpre hact, inv.workspace.step hpre hact, ?_, started_step inv.started hact⟩
  intro j
  by_cases hij : j = i
  · subst hij
    rw [Function.update_self, own_snoc_self]
    exact (inv.records j).step inv.workspace hpre hact
  · rw [Function.update_of_ne hij, own_snoc_of_ne (Ne.symm hij)]
    exact inv.records j

theorem heldInv_new (judgeMax execMax : ℕ) {cpus : List ℕ} (hcpus : cpus.Nodup) :
    HeldInv judgeMax execMax cpus (State.new judgeMax execMax cpus) [] fun _ => {} where
  capacity :=
    { judgeMax_eq := rfl
      execMax_eq := rfl
      cpuCap_eq := rfl
      judges := counted_zero (by simp)
      judges_le := Nat.zero_le _
      permits := counted_zero (by simp)
      permits_le := Nat.zero_le _
      cpus := dealt_start hcpus }
  workspace := ⟨by simp, by simp [Held.dir]⟩
  records i := ⟨by simp, by simp, by simp⟩
  started := by simp

end Afterglow.Engine
