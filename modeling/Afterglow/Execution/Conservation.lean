import Mathlib.Data.List.Nodup
import Afterglow.Engine.World
import Afterglow.Execution.Holdings

/-!
# Conservation of resources

The ledger of a call of `Compile` or `Run` is what it acquired and released, in order. Whatever fails
on the way, a complete call unwinds: it acquires resources in the order of `Resource.rank`, stops at
some point, and releases them in the opposite order (`Unwound`). For any number of concurrent calls,
`HeldInv` bounds the permits and accounts for every CPU.
-/

namespace Afterglow.Engine

open Concurrency Execution

/-! ## Ledgers -/

/-- What a call acquires on its way; a call of the sandbox counts as one. -/
inductive Resource
  | permit
  | workspace (dir : ℕ)
  | root (dir : ℕ)
  | sandboxCall
  | client
  | cpu (id : ℕ)
  | container (id : ℕ)
  | task (id : ℕ)
deriving Repr, DecidableEq

/-- The order of acquisition. -/
def Resource.rank : Resource → ℕ
  | .permit => 0
  | .workspace _ => 1
  | .root _ => 2
  | .sandboxCall => 3
  | .client => 4
  | .cpu _ => 5
  | .container _ => 6
  | .task _ => 7

inductive LedgerEntry
  | acquired (r : Resource)
  | released (r : Resource)
deriving Repr, DecidableEq

/-- What an event does to resources. An attempt to release counts, whatever comes of it. -/
def ledgerEntry : Event Op Op.Ans → Option LedgerEntry
  | ⟨.execAcquire _, (none : Option Err)⟩ => some (.acquired .permit)
  | ⟨.execRelease, _⟩ => some (.released .permit)
  | ⟨.mkdirTemp, (.ok d : Except Err ℕ)⟩ => some (.acquired (.workspace d))
  | ⟨.removeAll d, _⟩ => some (.released (.workspace d))
  | ⟨.ask (.openRoot d), (none : Option Err)⟩ => some (.acquired (.root d))
  | ⟨.ask (.closeRoot d), _⟩ => some (.released (.root d))
  | ⟨.enterExecute _ _, _⟩ => some (.acquired .sandboxCall)
  | ⟨.mark (.leaveExecute _ _ _), _⟩ => some (.released .sandboxCall)
  | ⟨.ask .connect, (none : Option Err)⟩ => some (.acquired .client)
  | ⟨.ask .closeClient, _⟩ => some (.released .client)
  | ⟨.cpuTake _, (.ok id : Except Err ℕ)⟩ => some (.acquired (.cpu id))
  | ⟨.cpuPut id, _⟩ => some (.released (.cpu id))
  | ⟨.ask (.newContainer _ _ _), (.ok id : Except Err ℕ)⟩ => some (.acquired (.container id))
  | ⟨.ask (.deleteContainer _ id), _⟩ => some (.released (.container id))
  | ⟨.ask (.newTask _ _ _), (.ok id : Except Err ℕ)⟩ => some (.acquired (.task id))
  | ⟨.ask (.deleteTask _ id), _⟩ => some (.released (.task id))
  | _ => none

/-- The ledger of a list of events. -/
def ledger (events : List (Event Op Op.Ans)) : List LedgerEntry := events.filterMap ledgerEntry

@[simp] theorem ledger_nil : ledger [] = [] := rfl

@[simp] theorem ledger_append (t₁ t₂ : List (Event Op Op.Ans)) :
    ledger (t₁ ++ t₂) = ledger t₁ ++ ledger t₂ := by
  simp [ledger]

theorem ledger_cons (ev : Event Op Op.Ans) (t : List (Event Op Op.Ans)) :
    ledger (ev :: t) = (ledgerEntry ev).toList ++ ledger t := by
  unfold ledger
  cases h : ledgerEntry ev with
  | none => simp [List.filterMap_cons_none h]
  | some entry => simp [List.filterMap_cons_some h]

/-- The operation never appears in a ledger. -/
def Op.Silent (e : Op) : Prop := ∀ r : e.Ans, ledgerEntry ⟨e, r⟩ = none

theorem ledger_silent {α : Type} {p : EProg α} {tr : List (Event Op Op.Ans)} {a : α}
    (h : p.Runs tr a) (hp : p.All Op.Silent) : ledger tr = [] := by
  refine List.filterMap_eq_nil_iff.mpr ?_
  intro ev hev
  exact h.all hp ev hev ev.ans

/-! ## Unwinding -/

/-- Resources of consecutive ranks from `n` on are acquired and then released in the opposite
order. -/
def Unwound (n : ℕ) (entries : List LedgerEntry) : Prop :=
  ∃ rs : List Resource, rs.map Resource.rank = List.range' n rs.length ∧
    entries = rs.map .acquired ++ (rs.map .released).reverse

theorem unwound_nil (n : ℕ) : Unwound n [] := ⟨[], rfl, rfl⟩

/-- A resource acquired before and released after what is unwound. -/
theorem Unwound.wrap {n : ℕ} {entries : List LedgerEntry} (h : Unwound (n + 1) entries) {r : Resource}
    (hr : r.rank = n) : Unwound n (.acquired r :: (entries ++ [.released r])) := by
  obtain ⟨rs, hranks, rfl⟩ := h
  refine ⟨r :: rs, ?_, by simp⟩
  rw [List.map_cons, hr, hranks, List.length_cons, List.range'_succ]

section Unwound

variable {n : ℕ} {entries : List LedgerEntry} {r r' : Resource}

/-- The resources behind an unwound ledger, in the order of acquisition. -/
theorem Unwound.sorted (h : Unwound n entries) : ∃ rs : List Resource,
    rs.Pairwise (fun a b => a.rank < b.rank) ∧
      entries = rs.map .acquired ++ (rs.map .released).reverse := by
  obtain ⟨rs, hranks, rfl⟩ := h
  refine ⟨rs, ?_, rfl⟩
  have hsorted : (rs.map Resource.rank).Pairwise (· < ·) := by
    rw [hranks]
    exact List.pairwise_lt_range'
  exact List.pairwise_map.mp hsorted

/-- Every release is that of something acquired. -/
theorem Unwound.acquired_of_released (h : Unwound n entries) (hmem : .released r ∈ entries) :
    .acquired r ∈ entries := by
  obtain ⟨rs, -, rfl⟩ := h.sorted
  simp only [List.mem_append, List.mem_map, List.mem_reverse] at hmem ⊢
  rcases hmem with ⟨r', -, heq⟩ | ⟨r', hr', heq⟩
  · cases heq
  · cases heq
    exact .inl ⟨r, hr', rfl⟩

theorem mem_of_acquired {rs : List Resource}
    (h : .acquired r ∈ rs.map LedgerEntry.acquired ++ (rs.map LedgerEntry.released).reverse) :
    r ∈ rs := by
  simp only [List.mem_append, List.mem_map, List.mem_reverse] at h
  rcases h with ⟨r', hr', heq⟩ | ⟨r', -, heq⟩
  · cases heq
    exact hr'
  · cases heq

/-- What is acquired is released exactly once. -/
theorem Unwound.count_released (h : Unwound n entries) (hmem : .acquired r ∈ entries) :
    entries.count (.released r) = 1 := by
  obtain ⟨rs, hsorted, rfl⟩ := h.sorted
  have hnodup : rs.Nodup := hsorted.imp fun hlt heq => absurd hlt (by rw [heq]; exact lt_irrefl _)
  have hzero : (rs.map LedgerEntry.acquired).count (.released r) = 0 := by
    refine List.count_eq_zero.mpr ?_
    simp
  have hone : (rs.map LedgerEntry.released).count (.released r) = rs.count r :=
    List.count_map_of_injective rs _ (fun _ _ heq => LedgerEntry.released.inj heq) r
  rw [List.count_append, List.count_reverse, hzero, hone, Nat.zero_add]
  exact List.count_eq_one_of_mem hnodup (mem_of_acquired hmem)

/-- What is acquired later is released earlier. -/
theorem Unwound.nested (h : Unwound n entries) (hmem : .acquired r ∈ entries)
    (hmem' : .acquired r' ∈ entries) (hlt : r.rank < r'.rank) :
    [.acquired r, .acquired r', .released r', .released r].Sublist entries := by
  obtain ⟨rs, hsorted, rfl⟩ := h.sorted
  have hpair : [r, r'].Sublist rs := by
    obtain ⟨s₁, s₂, rfl⟩ := List.append_of_mem (mem_of_acquired hmem)
    rcases List.mem_append.mp (mem_of_acquired hmem') with hr' | hr'
    · have := (List.pairwise_append.mp hsorted).2.2 r' hr' r List.mem_cons_self
      omega
    · rcases List.mem_cons.mp hr' with rfl | hr'
      · exact absurd hlt (lt_irrefl _)
      · exact (List.Sublist.cons_cons r (List.singleton_sublist.mpr hr')).trans
          (List.sublist_append_right s₁ _)
  exact (hpair.map LedgerEntry.acquired).append (hpair.map LedgerEntry.released).reverse

end Unwound

/-! ## Every way through a call unwinds -/

section Runs

variable {ctx : Ctx} {req : Sandbox.ExecuteRequest} {tr : List (Event Op Op.Ans)}
  {res : Except Err Sandbox.ExecuteResult}

theorem watchTask_ledger {task : ℕ} (h : (watchTask ctx task req).Runs tr res) : ledger tr = [] := by
  refine ledger_silent h (Prog.All.deferring ⟨fun _ => rfl, fun _ => trivial⟩ ⟨fun _ => rfl, ?_⟩)
  intro waitErr
  match waitErr with
  | some e => trivial
  | none => exact ⟨fun _ => rfl, fun _ => trivial⟩

theorem cleanupResource_ledger {cleanup : Ctx → Query} {r : Resource}
    (hcleanup : ∀ ctx ans, ledgerEntry ⟨.ask (cleanup ctx), ans⟩ = some (.released r))
    (h : (cleanupResource ctx cleanup).Runs tr ()) : ledger tr = [.released r] := by
  obtain ⟨ans, tr₁, rfl, h₁⟩ := Prog.runs_perform_iff.mp h
  obtain ⟨_, tr₂, rfl, h₂⟩ := Prog.runs_perform_iff.mp h₁
  obtain ⟨rfl, -⟩ := Prog.runs_ret_iff.mp h₂
  rw [ledger_cons, ledger_cons, hcleanup]
  rfl

theorem runTask_ledger {container : ℕ} (h : (runTask ctx container req).Runs tr res) :
    Unwound 7 (ledger tr) := by
  obtain ⟨created, tr₁, rfl, h₁⟩ := Prog.runs_perform_iff.mp h
  match created with
  | .error e =>
    obtain ⟨rfl, -⟩ := Prog.runs_ret_iff.mp h₁
    exact unwound_nil 7
  | .ok task =>
    obtain ⟨t₁, t₂, rfl, hbody, hclean⟩ := Prog.runs_deferring_iff.mp h₁
    rw [ledger_cons, ledger_append, watchTask_ledger hbody,
      cleanupResource_ledger (r := .task task) (fun _ _ => rfl) hclean]
    exact (unwound_nil 8).wrap (r := .task task) rfl

theorem runContainer_ledger {cpuID : ℕ} (h : (runContainer ctx cpuID req).Runs tr res) :
    Unwound 6 (ledger tr) := by
  obtain ⟨created, tr₁, rfl, h₁⟩ := Prog.runs_perform_iff.mp h
  match created with
  | .error e =>
    obtain ⟨rfl, -⟩ := Prog.runs_ret_iff.mp h₁
    exact unwound_nil 6
  | .ok container =>
    obtain ⟨t₁, t₂, rfl, hbody, hclean⟩ := Prog.runs_deferring_iff.mp h₁
    rw [ledger_cons, ledger_append,
      cleanupResource_ledger (r := .container container) (fun _ _ => rfl) hclean]
    exact (runTask_ledger hbody).wrap (r := .container container) rfl

theorem executeInContainer_ledger (h : (executeInContainer ctx req).Runs tr res) :
    Unwound 5 (ledger tr) := by
  obtain ⟨t₁, leased, t₂, rfl, hcpu, hrest⟩ := Prog.runs_bind_iff.mp h
  obtain ⟨done, tr₁, rfl, h₁⟩ := Prog.runs_perform_iff.mp hcpu
  match done with
  | some e =>
    obtain ⟨rfl, rfl⟩ := Prog.runs_ret_iff.mp h₁
    obtain ⟨rfl, -⟩ := Prog.runs_ret_iff.mp hrest
    exact unwound_nil 5
  | none =>
    obtain ⟨leased', tr₂, rfl, h₂⟩ := Prog.runs_op_iff.mp h₁
    obtain ⟨rfl, rfl⟩ := Prog.runs_ret_iff.mp h₂
    match leased with
    | .error e =>
      obtain ⟨rfl, -⟩ := Prog.runs_ret_iff.mp hrest
      exact unwound_nil 5
    | .ok cpuID =>
      obtain ⟨t₃, t₄, rfl, hbody, hput⟩ := Prog.runs_deferring_iff.mp hrest
      obtain ⟨_, tr₃, rfl, h₃⟩ := Prog.runs_op_iff.mp hput
      obtain ⟨rfl, -⟩ := Prog.runs_ret_iff.mp h₃
      rw [ledger_append, ledger_append]
      exact (runContainer_ledger hbody).wrap (r := .cpu cpuID) rfl

theorem ensureImage_silent {imageRef : String} : (ensureImage ctx imageRef).All Op.Silent := by
  refine ⟨fun _ => rfl, fun image => ?_⟩
  match image with
  | .found => trivial
  | .failed e => trivial
  | .notFound e => exact ⟨fun _ => rfl, fun _ => trivial⟩

theorem sandboxExecute_ledger (h : (sandboxExecute ctx req).Runs tr res) :
    Unwound 4 (ledger tr) := by
  obtain ⟨connected, tr₁, rfl, h₁⟩ := Prog.runs_perform_iff.mp h
  match connected with
  | some e =>
    obtain ⟨rfl, -⟩ := Prog.runs_ret_iff.mp h₁
    exact unwound_nil 4
  | none =>
    obtain ⟨t₁, t₂, rfl, hbody, hclose⟩ := Prog.runs_deferring_iff.mp h₁
    obtain ⟨_, tr₂, rfl, h₂⟩ := Prog.runs_perform_iff.mp hclose
    obtain ⟨rfl, -⟩ := Prog.runs_ret_iff.mp h₂
    obtain ⟨t₃, image, t₄, rfl, himage, hrest⟩ := Prog.runs_bind_iff.mp hbody
    have hinner : Unwound 5 (ledger t₄) := by
      match image with
      | some e =>
        obtain ⟨rfl, -⟩ := Prog.runs_ret_iff.mp hrest
        exact unwound_nil 5
      | none => exact executeInContainer_ledger hrest
    rw [ledger_cons, ledger_append, ledger_append, ledger_silent himage ensureImage_silent]
    exact hinner.wrap (r := .client) rfl

theorem Execute_ledger (h : (containerSandbox.Execute ctx req).Runs tr res) :
    Unwound 3 (ledger tr) := by
  obtain ⟨_, tr₁, rfl, h₁⟩ := Prog.runs_perform_iff.mp h
  obtain ⟨t₁, res', t₂, rfl, hbody, hleave⟩ := Prog.runs_bind_iff.mp h₁
  obtain ⟨_, tr₂, rfl, h₂⟩ := Prog.runs_perform_iff.mp hleave
  obtain ⟨rfl, -⟩ := Prog.runs_ret_iff.mp h₂
  rw [ledger_cons, ledger_append]
  exact (sandboxExecute_ledger hbody).wrap (r := .sandboxCall) rfl

end Runs

section Executor

variable {ctx : Ctx} {tr : List (Event Op Op.Ans)}

theorem Op.FileAccess.silent {e : Op} (he : e.FileAccess) : e.Silent := by
  cases e <;> first | exact absurd he id | exact fun _ => rfl

theorem executeIn_ledger {t : Task} {ws : ℕ} {res : Except Err TaskResult}
    (h : (executeIn containerSandbox ctx t ws).Runs tr res) : Unwound 3 (ledger tr) := by
  obtain ⟨t₁, written, t₂, rfl, hwrite, h₁⟩ := Prog.runs_bind_iff.mp h
  rw [ledger_append, ledger_silent hwrite ((writeFiles_all _ _).mono fun _ he => he.silent), List.nil_append]
  match written with
  | some e =>
    obtain ⟨rfl, -⟩ := Prog.runs_ret_iff.mp h₁
    exact unwound_nil 3
  | none =>
    obtain ⟨t₃, executed, t₄, rfl, hexec, h₂⟩ := Prog.runs_bind_iff.mp h₁
    have hrest : ledger t₄ = [] := by
      match executed with
      | .error e => exact ledger_silent h₂ trivial
      | .ok r =>
        refine ledger_silent h₂ ?_
        show Prog.All _ (ite (r.verdict = .unknown) _ _)
        split
        · trivial
        · show Prog.All _ (ite (_ ∨ _ ∨ _) _ _)
          split
          · trivial
          · refine Prog.All.bind ?_ fun _ => trivial
            exact (collectArtifact_all _ _).mono fun _ he => he.silent
    rw [ledger_append, hrest, List.append_nil]
    exact Execute_ledger hexec

theorem execute_ledger {t : Task} {res : Except Err TaskResult}
    (h : (execute containerSandbox ctx t).Runs tr res) : Unwound 0 (ledger tr) := by
  obtain ⟨acquired, tr₁, rfl, h₁⟩ := Prog.runs_perform_iff.mp h
  match acquired with
  | some e =>
    obtain ⟨rfl, -⟩ := Prog.runs_ret_iff.mp h₁
    exact unwound_nil 0
  | none =>
    obtain ⟨t₁, t₂, rfl, hbody, hrelease⟩ := Prog.runs_deferring_iff.mp h₁
    obtain ⟨_, tr₂, rfl, h₂⟩ := Prog.runs_op_iff.mp hrelease
    obtain ⟨rfl, -⟩ := Prog.runs_ret_iff.mp h₂
    have hinner : Unwound 1 (ledger t₁) := by
      obtain ⟨t₃, made, t₄, rfl, hnew, hrest⟩ := Prog.runs_bind_iff.mp hbody
      obtain ⟨made', tr₃, rfl, h₃⟩ := Prog.runs_perform_iff.mp hnew
      match made' with
      | .error e =>
        obtain ⟨rfl, rfl⟩ := Prog.runs_ret_iff.mp h₃
        obtain ⟨rfl, -⟩ := Prog.runs_ret_iff.mp hrest
        exact unwound_nil 1
      | .ok dir =>
        obtain ⟨opened, tr₄, rfl, h₄⟩ := Prog.runs_perform_iff.mp h₃
        match opened with
        | some e =>
          -- the directory is removed at once when it cannot be opened
          obtain ⟨removed, tr₅, rfl, h₅⟩ := Prog.runs_perform_iff.mp h₄
          obtain ⟨rfl, rfl⟩ := Prog.runs_ret_iff.mp h₅
          obtain ⟨rfl, -⟩ := Prog.runs_ret_iff.mp hrest
          exact (unwound_nil 2).wrap (r := .workspace dir) rfl
        | none =>
          obtain ⟨rfl, rfl⟩ := Prog.runs_ret_iff.mp h₄
          obtain ⟨t₅, result, t₆, rfl, hexec, hclean⟩ := Prog.runs_bind_iff.mp hrest
          obtain ⟨t₇, cleanupErr, t₈, rfl, hcleanup, hret⟩ := Prog.runs_bind_iff.mp hclean
          obtain ⟨rfl, -⟩ := Prog.runs_ret_iff.mp hret
          obtain ⟨closed, tr₆, rfl, h₆⟩ := Prog.runs_perform_iff.mp hcleanup
          obtain ⟨removed, tr₇, rfl, h₇⟩ := Prog.runs_perform_iff.mp h₆
          obtain ⟨rfl, -⟩ := Prog.runs_ret_iff.mp h₇
          have hwrapped := ((executeIn_ledger hexec).wrap (r := .root dir) rfl).wrap
            (r := .workspace dir) rfl
          simpa [ledger_cons, ledgerEntry] using hwrapped
    rw [ledger_cons, ledger_append]
    exact hinner.wrap (r := .permit) rfl

end Executor

/-! ## Concurrent calls -/

/-- A call of the executor. -/
inductive ExecutorCall
  | compile (ctx : Ctx) (req : CompileRequest)
  | run (ctx : Ctx) (req : RunRequest)

/-- The program of a call. -/
def ExecutorCall.prog : ExecutorCall → EProg Unit
  | .compile ctx req => do let _ ← containerExecutor.Compile ctx req
  | .run ctx req => do let _ ← containerExecutor.Run ctx req

/-- Any number of concurrent calls. -/
def executorCalls (calls : ℕ → ExecutorCall) : Tid → EProg Unit
  | .judge j => (calls j).prog
  | .case _ _ => return ()

/-- Noting the call and the return of `p` leaves its ledger alone. -/
theorem noted_ledger {α : Type} {p : EProg α} {enter : Mark} {leave : α → Mark}
    {tr : List (Event Op Op.Ans)} {a : α} (henter : (Op.mark enter).Silent)
    (hleave : ∀ a, (Op.mark (leave a)).Silent)
    (h : (do note enter; let res ← p; note (leave res); return res : EProg α).Runs tr a) :
    ∃ t, p.Runs t a ∧ ledger tr = ledger t := by
  obtain ⟨_, tr₁, rfl, h₁⟩ := Prog.runs_perform_iff.mp h
  obtain ⟨t₁, res, t₂, rfl, hp, hrest⟩ := Prog.runs_bind_iff.mp h₁
  obtain ⟨_, tr₂, rfl, h₂⟩ := Prog.runs_perform_iff.mp hrest
  obtain ⟨rfl, rfl⟩ := Prog.runs_ret_iff.mp h₂
  refine ⟨t₁, hp, ?_⟩
  rw [ledger_cons, ledger_append, ledger_cons, henter, hleave]
  simp

theorem ExecutorCall.ledger_prog {call : ExecutorCall} {tr : List (Event Op Op.Ans)}
    (h : call.prog.Runs tr ()) : Unwound 0 (ledger tr) := by
  cases call with
  | compile ctx req =>
    obtain ⟨t₁, res, t₂, rfl, hcall, hret⟩ := Prog.runs_bind_iff.mp h
    obtain ⟨rfl, -⟩ := Prog.runs_ret_iff.mp hret
    obtain ⟨t, hcompile, hledger⟩ := noted_ledger (fun _ => rfl) (fun _ _ => rfl) hcall
    obtain ⟨t₃, result, t₄, rfl, hexec, hret⟩ := Prog.runs_bind_iff.mp hcompile
    obtain ⟨rfl, -⟩ := Prog.runs_ret_iff.mp hret
    simpa [hledger] using execute_ledger hexec
  | run ctx req =>
    obtain ⟨t₁, res, t₂, rfl, hcall, hret⟩ := Prog.runs_bind_iff.mp h
    obtain ⟨rfl, -⟩ := Prog.runs_ret_iff.mp hret
    obtain ⟨t, hrun, hledger⟩ := noted_ledger (fun _ => rfl) (fun _ _ => rfl) hcall
    obtain ⟨t₃, result, t₄, rfl, hexec, hret⟩ := Prog.runs_bind_iff.mp hrun
    obtain ⟨rfl, -⟩ := Prog.runs_ret_iff.mp hret
    simpa [hledger] using execute_ledger hexec

theorem ExecutorCall.prog_safe (call : ExecutorCall) (i : Tid) :
    call.prog.Safe heldDiscipline i (fun _ l => Held.Steady {} l) {} := by
  cases call with
  | compile ctx req =>
    exact Prog.Safe.bind ((Compile_held ⟨rfl, rfl, rfl⟩ rfl).mono fun _ _ hl => hl)
  | run ctx req =>
    exact Prog.Safe.bind ((Run_held ⟨rfl, rfl, rfl⟩ rfl).mono fun _ _ hl => hl)

/-- A ledger in which everything acquired was released exactly once, whatever was acquired later being
released before, and nothing else was released. -/
def Settled (entries : List LedgerEntry) : Prop :=
  (∀ r, .released r ∈ entries → .acquired r ∈ entries) ∧
  (∀ r, .acquired r ∈ entries → entries.count (.released r) = 1) ∧
  ∀ r r', .acquired r ∈ entries → .acquired r' ∈ entries → r.rank < r'.rank →
    [.acquired r, .acquired r', .released r', .released r].Sublist entries

/-- The records of the goroutines are right in every reachable state, and every goroutine keeps to the
discipline. -/
theorem executorCalls_held {cpus : List ℕ} (hcpus : cpus.Nodup) {calls : ℕ → ExecutorCall}
    {judgeMax execMax : ℕ} {c : Config Op Op.Ans Tid State fun _ => Unit}
    (h : Reachable semantics (.start (State.new judgeMax execMax cpus) (executorCalls calls)) c) :
    HeldInv judgeMax execMax cpus c.shared c.trace (held c.trace) ∧
      ∀ i, (c.prog i).Safe heldDiscipline i (fun _ l => Held.Steady {} l) (held c.trace i) := by
  refine (held_upholds judgeMax execMax cpus).locals h (heldInv_new judgeMax execMax hcpus) fun i => ?_
  cases i with
  | judge j => exact (calls j).prog_safe _
  | case j n => exact .refl _

/-- Conservation of resources over any number of concurrent `Compile` and `Run` calls, with failures and
cancellations anywhere. In every reachable state at most `execMax` calls hold a permit; the free CPUs and
the held ones are the CPUs of the pool, each once, and putting one back never blocks. A call that has
returned holds nothing, and has released everything it acquired exactly once, in the opposite order:
task, container, CPU, connection, the sandbox call itself, workspace, permit. -/
theorem executor_conserves {cpus : List ℕ} (hcpus : cpus.Nodup) {calls : ℕ → ExecutorCall}
    {judgeMax execMax : ℕ} {c : Config Op Op.Ans Tid State fun _ => Unit}
    (h : Reachable semantics (.start (State.new judgeMax execMax cpus) (executorCalls calls)) c) :
    {i | (held c.trace i).permit = true}.encard ≤ execMax ∧
    ((∀ id, id ∈ cpus ↔ id ∈ c.shared.freeCpus ∨ ∃ i, (held c.trace i).cpu = some id) ∧
      c.shared.freeCpus.Nodup ∧
      (∀ i id, (held c.trace i).cpu = some id → id ∉ c.shared.freeCpus) ∧
      (∀ i j id, (held c.trace i).cpu = some id → (held c.trace j).cpu = some id → i = j) ∧
      ∀ i id, (held c.trace i).cpu = some id → ∃ s, act i c.shared (.cpuPut id) () s) ∧
    ∀ j, c.prog (.judge j) = .ret () →
      (held c.trace (.judge j)).permit = false ∧ (held c.trace (.judge j)).cpu = none ∧
      Settled (ledger (own (.judge j) c.trace)) := by
  obtain ⟨inv, hsafe⟩ := executorCalls_held hcpus h
  have hcap := inv.capacity
  refine ⟨?_, ⟨hcap.cpus.mem, hcap.cpus.nodup, hcap.cpus.apart, hcap.cpus.inj, ?_⟩, ?_⟩
  · refine (show Set.encard _ = _ from hcap.permits).trans_le ?_
    exact_mod_cast hcap.permits_le
  · intro i id hid
    exact ⟨_, hcap.room hid, rfl⟩
  · intro j hret
    have hj := hsafe (.judge j)
    rw [hret] at hj
    have hledger := ExecutorCall.ledger_prog (h.own_runs hret)
    exact ⟨hj.permit, hj.cpu, fun r hr => hledger.acquired_of_released hr,
      fun r hr => hledger.count_released hr, fun r r' hr hr' hlt => hledger.nested hr hr' hlt⟩

/-- Every call runs a small program. -/
def smallRuns (j : ℕ) : ExecutorCall := .run (.request j)
  { artifact := { name := "program", data := [127], mode := 0o755 }
    imageRef := "debian"
    command := ["./program"]
    limits := ⟨1000, 3000, 256, 1024⟩ }

/-- The task of call 0 cannot be created. -/
def failingTaskWorld : World where
  ask
    | .judge 0, .newTask _ _ _ => .error (.text "shim failed")
    | _, q => calmAnswer q
  watch := World.calm.watch
  produce := World.calm.produce

/-- Call 0 fails with a container and returns while call 1 holds the other CPU. -/
theorem executor_conserves_failed_task :
    ∃ c : Config Op Op.Ans Tid State fun _ => Unit,
      Reachable semantics (.start (State.new 1 2 (cpuIDsFromAffinity [true, false, true]))
        (executorCalls smallRuns)) c ∧
      (held c.trace (.judge 1)).cpu = some 0 ∧ 0 ∉ c.shared.freeCpus ∧
      (ledger (own (.judge 0) c.trace)).count (.released (.container 0)) = 1 := by
  let c₀ : Config Op Op.Ans Tid State fun _ => Unit :=
    .start (State.new 1 2 (cpuIDsFromAffinity [true, false, true])) (executorCalls smallRuns)
  let schedule := List.replicate 12 (Tid.judge 1) ++ List.replicate 21 (.judge 0)
  have hrun : (drive failingTaskWorld.answer schedule c₀).map (fun c =>
      ((c.prog (.judge 0)).returned?, (held c.trace (.judge 1)).cpu,
        decide (.acquired (.container 0) ∈ ledger (own (.judge 0) c.trace)))) =
      some (some (), some 0, true) := by decide +kernel
  obtain ⟨c, hc, heq⟩ := Option.map_eq_some_iff.mp hrun
  simp only [Prod.mk.injEq, Prog.returned?_eq_some, decide_eq_true_eq] at heq
  obtain ⟨hret, hcpu, hcontainer⟩ := heq
  have hreach : Reachable semantics c₀ c :=
    drive_reachable failingTaskWorld.answer_sound Relation.ReflTransGen.refl hc
  obtain ⟨-, ⟨-, -, hheld, -⟩, hdone⟩ := executor_conserves (cpuIDsFromAffinity_nodup _) hreach
  exact ⟨c, hreach, hcpu, hheld _ _ hcpu, (hdone 0 hret).2.2.2.1 _ hcontainer⟩

/-! ## The CPU pool -/

/-- The enumeration of the CPUs ends, after one round more than the mask is wide at the latest, with the
set positions in increasing order. The pool cannot be made exactly when the mask is empty; otherwise
making it never blocks, it is full of distinct CPUs, and a CPU leased from it is leased to one goroutine
at a time. -/
theorem newCPUPool_exact (affinity : CPUSet) :
    (∀ fuel, affinity.length < fuel → cpuIDsFromAffinityLoop affinity affinity.Count fuel 0 [] =
      some (cpuIDsFromAffinity affinity)) ∧
    (cpuIDsFromAffinity affinity).Pairwise (· < ·) ∧
    (∀ cpuID, cpuID ∈ cpuIDsFromAffinity affinity ↔ affinity.IsSet cpuID = true) ∧
    ((∃ e, newCPUPool (.ok affinity) = some (.error e)) ↔ ∀ cpuID, affinity.IsSet cpuID = false) ∧
    ((∃ cpuID, affinity.IsSet cpuID = true) → ∃ pool, newCPUPool (.ok affinity) = some (.ok pool) ∧
      pool.buffer = cpuIDsFromAffinity affinity ∧ pool.capacity = pool.buffer.length ∧
      pool.buffer.Nodup ∧
      ∀ judgeMax execMax calls (c : Config Op Op.Ans Tid State fun _ => Unit),
        Reachable semantics (.start (State.new judgeMax execMax pool.buffer) (executorCalls calls)) c →
        ∀ i j id, (held c.trace i).cpu = some id → (held c.trace j).cpu = some id → i = j) := by
  have hempty : cpuIDsFromAffinity affinity = [] ↔ ∀ cpuID, affinity.IsSet cpuID = false := by
    simp only [List.eq_nil_iff_forall_not_mem, mem_cpuIDsFromAffinity, Bool.not_eq_true]
  refine ⟨fun fuel hfuel => cpuIDsFromAffinityLoop_eq affinity hfuel,
    cpuIDsFromAffinity_increasing affinity, fun _ => mem_cpuIDsFromAffinity, ?_, ?_⟩
  · rw [← hempty, newCPUPool]
    constructor
    · rintro ⟨e, he⟩
      by_contra hne
      rw [newCPUPoolFromIDs_eq hne] at he
      cases he
    · intro hnil
      exact ⟨_, by rw [hnil]; rfl⟩
  · rintro ⟨cpuID, hset⟩
    have hne : cpuIDsFromAffinity affinity ≠ [] := List.ne_nil_of_mem (mem_cpuIDsFromAffinity.mpr hset)
    have hnodup := cpuIDsFromAffinity_nodup affinity
    refine ⟨_, newCPUPoolFromIDs_eq hne, rfl, rfl, hnodup, ?_⟩
    intro judgeMax execMax calls c h
    exact (executorCalls_held hnodup h).1.capacity.cpus.inj

/-- A mask of four bits with a gap. -/
theorem newCPUPool_exact_sparse :
    cpuIDsFromAffinity [false, true, false, true] = [1, 3] ∧
      ∃ pool, newCPUPool (.ok [false, true, false, true]) = some (.ok pool) ∧ pool.capacity = 2 := by
  have hids : cpuIDsFromAffinity [false, true, false, true] = [1, 3] := by decide
  obtain ⟨-, -, -, -, hpool⟩ := newCPUPool_exact [false, true, false, true]
  obtain ⟨pool, hnew, hbuffer, hcapacity, -⟩ := hpool ⟨1, rfl⟩
  exact ⟨hids, pool, hnew, by rw [hcapacity, hbuffer, hids]; rfl⟩

end Afterglow.Engine
