import Afterglow.Execution.Conservation

/-!
# What a compilation reports

Reference: `executor.Compile`, `execute` and `collectArtifact` in `internal/execution/execution.go`, and
`buildVerdict` in `internal/sandbox/verdict.go`.

The log is put together in one layer from texts that come from two others: what the compiler printed, why
the sandbox stopped it, and why its artifact was not taken. Every text that the code itself adds has the
letter `e` in it, and no white space is encoded with that byte.
-/

namespace Afterglow.Engine

open Concurrency Execution

/-! ## Texts -/

theorem not_blank_of_letter {b : Bytes} (h : 101 ∈ b) : ¬ Blank b := not_blank_of_mem (by decide) h

/-- A stop for a limit is explained. -/
theorem buildVerdict_explains {outcome : Sandbox.ExecutionOutcome} {output : Sandbox.ExecutionOutput}
    {limits : Sandbox.ResourceLimits}
    (h : (Sandbox.buildVerdict outcome output limits).verdict = .tle ∨
      (Sandbox.buildVerdict outcome output limits).verdict = .mle ∨
      (Sandbox.buildVerdict outcome output limits).verdict = .ole) :
    101 ∈ (Sandbox.buildVerdict outcome output limits).extraInfo := by
  revert h
  unfold Sandbox.buildVerdict
  simp only
  have hole : 101 ∈ utf8 "output limit exceeded (" := by decide
  have hcpu : 101 ∈ utf8 "CPU time limit exceeded (cpu " := by decide
  have hwall : 101 ∈ utf8 "wall time limit exceeded (cpu " := by decide
  have hmle : 101 ∈ utf8 "memory limit exceeded (peak " := by decide
  have htle : 101 ∈ utf8 "CPU time exceeded: " := by decide
  split_ifs with h1 h2 h3 h4 h5
  · simp [utf8_append, hole]
  · rcases h2 with h2 | h2
    · simp [h2, Sandbox.StopReason.string, utf8_append, hcpu]
    · simp [h2, Sandbox.StopReason.string, utf8_append, hwall]
  · simp [utf8_append, hmle]
  · simp [utf8_append, htle]
  · simp
  · simp

/-! ## The log -/

/-- The texts that `executor.Compile` joins. -/
def diagnostics (result : TaskResult) : List Bytes :=
  [result.run.stdout, result.run.stderr, result.compile.log].filter (· ≠ []) ++
    match result.run.verdict with
    | .tle | .mle | .ole => [result.run.extraInfo]
    | _ => []

theorem compileLog_eq (result : TaskResult) :
    compileLog result =
      if result.run.verdict = .re ∧ Blank (joinBytes [10] (diagnostics result)) then
        utf8 ("compiler exited with code " ++ toString result.run.exitCode)
      else joinBytes [10] (diagnostics result) := by
  have hnewline : utf8 "\n" = [10] := by decide
  unfold compileLog diagnostics Blank
  rw [hnewline]
  cases result.run.verdict <;> simp

/-- The log is never blank after a failing compiler. -/
theorem compileLog_re {result : TaskResult} (h : result.run.verdict = .re) :
    ¬ Blank (compileLog result) := by
  rw [compileLog_eq]
  split
  case isTrue =>
    refine not_blank_of_letter ?_
    rw [utf8_append]
    exact List.mem_append_left _ (by decide)
  case isFalse hblank => exact fun hlog => hblank ⟨h, hlog⟩

/-- A text with a letter that is joined makes a log that is not blank. -/
theorem compileLog_of_letter {result : TaskResult} {part : Bytes} (hpart : part ∈ diagnostics result)
    (hletter : 101 ∈ part) : ¬ Blank (compileLog result) := by
  have hjoined : ¬ Blank (joinBytes [10] (diagnostics result)) :=
    not_blank_of_letter ((infix_joinBytes hpart).mem hletter)
  rw [compileLog_eq, if_neg fun h => hjoined h.2]
  exact hjoined

/-- What the compiler printed is in the log, unless it failed and printed nothing but blanks. -/
theorem compileLog_output {result : TaskResult} {text : Bytes}
    (htext : text = result.run.stdout ∨ text = result.run.stderr) (hne : text ≠ []) :
    text <:+: compileLog result ∨
      result.run.verdict = .re ∧ Blank result.run.stdout ∧ Blank result.run.stderr := by
  have hmem : ∀ text, text = result.run.stdout ∨ text = result.run.stderr → text ≠ [] →
      text ∈ diagnostics result := by
    intro text htext hne
    refine List.mem_append_left _ (List.mem_filter.mpr ⟨?_, by simpa using hne⟩)
    rcases htext with rfl | rfl <;> simp
  rw [compileLog_eq]
  split
  case isTrue hblank =>
    have hall : ∀ text, text = result.run.stdout ∨ text = result.run.stderr → Blank text := by
      intro text htext
      by_cases hnil : text = []
      · rw [hnil]
        rfl
      · exact blank_of_blank_joinBytes (hmem text htext hnil) hblank.2
    exact .inr ⟨hblank.1, hall _ (.inl rfl), hall _ (.inr rfl)⟩
  case isFalse => exact .inl (infix_joinBytes (hmem text htext hne))

/-! ## Runs -/

variable {sb : SandboxExecutor} {ctx : Ctx} {tr : List (Event Op Op.Ans)}

/-- A result of the sandbox is the verdict on some outcome and some output. -/
def Judged (limits : Sandbox.ResourceLimits) (r : Sandbox.ExecuteResult) : Prop :=
  ∃ outcome output, r = Sandbox.buildVerdict outcome output limits

theorem executeInContainer_judged (ctx : Ctx) (req : Sandbox.ExecuteRequest) :
    (executeInContainer ctx req).Returns fun res => ∀ r, res = .ok r → Judged req.limits r := by
  refine Prog.Returns.bind ((Prog.returns_true _).mono fun leased _ => ?_)
  match leased with
  | .error e => exact fun _ h => nomatch h
  | .ok cpuID =>
    refine Prog.Returns.deferring fun created => ?_
    match created with
    | .error e => exact fun _ h => nomatch h
    | .ok container =>
      refine Prog.Returns.deferring fun created => ?_
      match created with
      | .error e => exact fun _ h => nomatch h
      | .ok task =>
        refine Prog.Returns.deferring (Prog.Returns.deferring fun waitErr => ?_)
        match waitErr with
        | some e => exact fun _ h => nomatch h
        | none =>
          rintro ⟨w, hw⟩ r hr
          obtain ⟨⟨res, calls⟩, hres⟩ := Option.isSome_iff_exists.mp hw
          simp only [hres, Option.get_some] at hr
          subst hr
          obtain ⟨outcome, -, -, -, -, rfl⟩ := Sandbox.watchExecution_ok hres
          exact ⟨_, _, rfl⟩

theorem sandboxExecute_judged (ctx : Ctx) (req : Sandbox.ExecuteRequest) :
    (sandboxExecute ctx req).Returns fun res => ∀ r, res = .ok r → Judged req.limits r := by
  intro connected
  match connected with
  | some e => exact fun _ h => nomatch h
  | none =>
    refine Prog.Returns.deferring (Prog.Returns.bind ((Prog.returns_true _).mono fun image _ => ?_))
    match image with
    | some e => exact fun _ h => nomatch h
    | none => exact executeInContainer_judged _ req

/-- What `collectArtifact` makes of an entry, and what it reads then. -/
inductive Collected (ws : ℕ) (name : String) :
    Node → List (Event Op Op.Ans) → Execution.CompileResult → Prop
  | irregular {compile : Execution.CompileResult} (hartifact : compile.artifact = none)
      (hlog : 101 ∈ compile.log) : Collected ws name .irregular [] compile
  | large {entry : Bytes} {perm : ℕ} {compile : Execution.CompileResult}
      (hsize : maxCompileArtifactBytes < entry.length) (hartifact : compile.artifact = none)
      (hlog : 101 ∈ compile.log) : Collected ws name (.regular entry perm) [] compile
  | taken {entry data : Bytes} {perm : ℕ} (hsize : entry.length ≤ maxCompileArtifactBytes) :
      Collected ws name (.regular entry perm) [⟨.readFile ws name, .ok data⟩]
        { artifact := some { name := name, data := data, mode := perm } }

theorem collectArtifact_ok {ws : ℕ} {name : String} {compile : Execution.CompileResult}
    (h : (collectArtifact ws name).Runs tr (.ok compile)) :
    ∃ node rest, tr = ⟨.stat ws name, .ok node⟩ :: rest ∧ Collected ws name node rest compile := by
  have hletter : 101 ∈ utf8 "compiled artifact " := by decide
  obtain ⟨info, rest, rfl, hinfo⟩ := Prog.runs_perform_iff.mp h
  clear h
  match info with
  | .error e => cases (Prog.runs_ret_iff.mp hinfo).2
  | .ok .irregular =>
    obtain ⟨rfl, heq⟩ := Prog.runs_ret_iff.mp hinfo
    cases heq
    exact ⟨_, _, rfl, .irregular rfl (by simp [utf8_append, hletter])⟩
  | .ok (.regular entry perm) =>
    refine ⟨_, _, rfl, ?_⟩
    change Prog.Runs (ite (entry.length > maxCompileArtifactBytes) _ _) _ _ at hinfo
    split at hinfo
    case isTrue hsize =>
      obtain ⟨rfl, heq⟩ := Prog.runs_ret_iff.mp hinfo
      cases heq
      exact .large hsize rfl (by simp [utf8_append, hletter])
    case isFalse hsize =>
      obtain ⟨read, rest', rfl, hread⟩ := Prog.runs_perform_iff.mp hinfo
      clear hinfo
      match read with
      | .error e => cases (Prog.runs_ret_iff.mp hread).2
      | .ok data =>
        obtain ⟨rfl, heq⟩ := Prog.runs_ret_iff.mp hread
        cases heq
        exact .taken (Nat.le_of_not_lt hsize)

/-- `execute` returned `out` on a workspace: the sandbox returned `r` on it, and `t₂` is what happened to
the workspace from then on. -/
def ExecutedOn (sb : SandboxExecutor) (ctx : Ctx) (t : Task) (ws : ℕ) (r : Sandbox.ExecuteResult)
    (t₂ : List (Event Op Op.Ans)) (out : TaskResult) : Prop :=
  (∃ t₀, (sb.execute ctx (t.request ws)).Runs t₀ (.ok r)) ∧ r.verdict ≠ .unknown ∧
    out.run = sandboxResultToRunResult r ∧
    (t.artifactName = "" ∨ r.exitCode ≠ 0 ∨ r.verdict ≠ .ok → out.compile = {}) ∧
    (t.artifactName ≠ "" → r.exitCode = 0 → r.verdict = .ok →
      ∃ t₃ t₄, t₂ = t₃ ++ t₄ ∧ (collectArtifact ws t.artifactName).Runs t₃ (.ok out.compile))

theorem sandboxVerdictToModel_ok {v : Sandbox.Verdict} : sandboxVerdictToModel v = .ok ↔ v = .ok := by
  cases v <;> simp [sandboxVerdictToModel]

theorem executeIn_ok {t : Task} {ws : ℕ} {out : TaskResult}
    (h : (executeIn sb ctx t ws).Runs tr (.ok out)) :
    ∃ t₁ r t₂, tr = t₁ ++ ⟨.mark (.leaveExecute ctx (t.request ws) (.ok r)), ()⟩ :: t₂ ∧
      ExecutedOn sb ctx t ws r t₂ out := by
  obtain ⟨t₁, written, t₂, rfl, -, hwritten⟩ := Prog.runs_bind_iff.mp h
  clear h
  match written with
  | some e => cases (Prog.runs_ret_iff.mp hwritten).2
  | none =>
    obtain ⟨t₃, executed, t₄, rfl, hexec, hrest⟩ := Prog.runs_bind_iff.mp hwritten
    clear hwritten
    obtain ⟨mounted, t₅, rfl, hentered⟩ := Prog.runs_perform_iff.mp hexec
    obtain ⟨t₆, res, t₇, rfl, hrun, hnote⟩ := Prog.runs_bind_iff.mp hentered
    obtain ⟨_, t₈, rfl, hret⟩ := Prog.runs_perform_iff.mp hnote
    obtain ⟨rfl, rfl⟩ := Prog.runs_ret_iff.mp hret
    match executed with
    | .error e => cases (Prog.runs_ret_iff.mp hrest).2
    | .ok r =>
      change Prog.Runs (ite (r.verdict = .unknown) _ _) _ _ at hrest
      split at hrest
      case isTrue => cases (Prog.runs_ret_iff.mp hrest).2
      case isFalse hunknown =>
        refine ⟨t₁ ++ ⟨.enterExecute ctx (t.request ws), mounted⟩ :: t₆, r, t₄, by simp, ⟨t₆, hrun⟩,
          hunknown, ?_⟩
        change Prog.Runs (ite (t.artifactName = "" ∨ r.exitCode ≠ 0 ∨
          sandboxVerdictToModel r.verdict ≠ .ok) _ _) _ _ at hrest
        have hverdict : sandboxVerdictToModel r.verdict ≠ .ok ↔ r.verdict ≠ .ok :=
          not_congr sandboxVerdictToModel_ok
        simp only [hverdict] at hrest
        split at hrest
        case isTrue hskip =>
          obtain ⟨rfl, heq⟩ := Prog.runs_ret_iff.mp hrest
          cases heq
          refine ⟨rfl, fun _ => rfl, fun hname hcode hok => ?_⟩
          rcases hskip with hskip | hskip | hskip
          · exact absurd hskip hname
          · exact absurd hcode hskip
          · exact absurd hok hskip
        case isFalse hcollect =>
          obtain ⟨t₉, collected, t₁₀, rfl, hrun, hret⟩ := Prog.runs_bind_iff.mp hrest
          obtain ⟨rfl, heq⟩ := Prog.runs_ret_iff.mp hret
          match collected, heq with
          | .ok compile, heq =>
            cases heq
            exact ⟨rfl, fun hskip => absurd hskip hcollect, fun _ _ _ => ⟨t₉, [], rfl, hrun⟩⟩

theorem execute_ok {t : Task} {out : TaskResult} (h : (execute sb ctx t).Runs tr (.ok out)) :
    ∃ ws t₁ r t₂, tr = t₁ ++ ⟨.mark (.leaveExecute ctx (t.request ws) (.ok r)), ()⟩ :: t₂ ∧
      ExecutedOn sb ctx t ws r t₂ out := by
  obtain ⟨acquired, t₁, rfl, hacquired⟩ := Prog.runs_perform_iff.mp h
  clear h
  match acquired with
  | some e => cases (Prog.runs_ret_iff.mp hacquired).2
  | none =>
    obtain ⟨t₂, t₃, rfl, hbody, -⟩ := Prog.runs_deferring_iff.mp hacquired
    obtain ⟨t₄, made, t₅, rfl, -, hmade⟩ := Prog.runs_bind_iff.mp hbody
    clear hacquired hbody
    match made with
    | .error e => cases (Prog.runs_ret_iff.mp hmade).2
    | .ok ws =>
      obtain ⟨t₆, result, t₇, rfl, hexec, hrest⟩ := Prog.runs_bind_iff.mp hmade
      obtain ⟨t₈, cleanupErr, t₉, rfl, -, hret⟩ := Prog.runs_bind_iff.mp hrest
      obtain ⟨rfl, heq⟩ := Prog.runs_ret_iff.mp hret
      obtain rfl : result = .ok out := joinResult_ok heq.symm
      obtain ⟨t₁₀, r, t₁₁, rfl, hok⟩ := executeIn_ok hexec
      obtain ⟨hrun, hknown, hout, hskip, hcollect⟩ := hok
      refine ⟨ws, ⟨.execAcquire ctx, none⟩ :: t₄ ++ t₁₀, r, t₁₁ ++ (t₈ ++ [] ++ t₃), by simp, hrun, hknown,
        hout, hskip, ?_⟩
      intro hname hcode hverdict
      obtain ⟨t₁₂, t₁₃, rfl, hcollected⟩ := hcollect hname hcode hverdict
      exact ⟨t₁₂, t₁₃ ++ (t₈ ++ [] ++ t₃), by simp, hcollected⟩

/-- What `executor.Compile` reports of a result of the sandbox. If the compiler succeeded, its artifact
was looked at. -/
structure Reported (ws : ℕ) (req : CompileRequest) (r : Sandbox.ExecuteResult)
    (t₂ : List (Event Op Op.Ans)) (res compile : Execution.CompileResult) : Prop where
  log : res.log = compileLog { run := sandboxResultToRunResult r, compile := compile }
  artifact : res.artifact = compile.artifact
  known : r.verdict ≠ .unknown
  failed : r.verdict ≠ .ok → compile = {}
  collected : r.verdict = .ok → ∃ node rest t₃, t₂ = ⟨.stat ws req.artifactName, .ok node⟩ :: rest ++ t₃ ∧
    Collected ws req.artifactName node rest compile

theorem Judged.exitCode {limits : Sandbox.ResourceLimits} {r : Sandbox.ExecuteResult}
    (h : Judged limits r) (hok : r.verdict = .ok) : r.exitCode = 0 := by
  obtain ⟨outcome, output, rfl⟩ := h
  exact Sandbox.buildVerdict_ok_exitCode hok

theorem compile_ok {req : CompileRequest} {res : Execution.CompileResult}
    (h : (containerExecutor.compile ctx req).Runs tr (.ok res)) (hname : req.artifactName ≠ "") :
    ∃ ws r compile t₁ t₂,
      tr = t₁ ++ ⟨.mark (.leaveExecute ctx ((compileTask req).request ws) (.ok r)), ()⟩ :: t₂ ∧
      Judged req.limits r ∧ Reported ws req r t₂ res compile := by
  obtain ⟨t₁, result, t₂, rfl, hexec, hret⟩ := Prog.runs_bind_iff.mp h
  obtain ⟨rfl, heq⟩ := Prog.runs_ret_iff.mp hret
  match result, heq with
  | .ok out, heq =>
    cases heq
    obtain ⟨ws, t₃, r, t₄, rfl, ⟨t₀, hrun⟩, hknown, hout, hskip, hcollect⟩ := execute_ok hexec
    have hjudged : Judged req.limits r := hrun.returns (sandboxExecute_judged _ _) r rfl
    refine ⟨ws, r, out.compile, t₃, t₄, by simp, hjudged, by rw [← hout], rfl, hknown,
      fun hne => hskip (.inr (.inr hne)), ?_⟩
    intro hok
    obtain ⟨t₅, t₆, rfl, hcollected⟩ := hcollect hname (hjudged.exitCode hok) hok
    obtain ⟨node, rest, rfl, hnode⟩ := collectArtifact_ok hcollected
    exact ⟨node, rest, t₆, rfl, hnode⟩

/-- A compilation without an artifact is explained, whatever the compiler printed. -/
theorem Reported.explained {ws : ℕ} {req : CompileRequest} {r : Sandbox.ExecuteResult}
    {t₂ : List (Event Op Op.Ans)} {res compile : Execution.CompileResult}
    (h : Reported ws req r t₂ res compile) (hjudged : Judged req.limits r) (hnone : res.artifact = none) :
    ¬ Blank res.log := by
  rw [h.log]
  have hstopped : r.verdict = .tle ∨ r.verdict = .mle ∨ r.verdict = .ole →
      ¬ Blank (compileLog { run := sandboxResultToRunResult r, compile := compile }) := by
    intro hverdict
    obtain ⟨outcome, output, rfl⟩ := hjudged
    refine compileLog_of_letter ?_ (buildVerdict_explains hverdict)
    refine List.mem_append_right _ ?_
    rcases hverdict with hv | hv | hv <;> simp [sandboxResultToRunResult, hv, sandboxVerdictToModel]
  cases hverdict : r.verdict with
  | unknown => exact absurd hverdict h.known
  | tle => exact hstopped (.inl hverdict)
  | mle => exact hstopped (.inr (.inl hverdict))
  | ole => exact hstopped (.inr (.inr hverdict))
  | re => exact compileLog_re (by simp [sandboxResultToRunResult, hverdict, sandboxVerdictToModel])
  | ok =>
    -- Only an artifact that was refused leaves none, and the refusal is in the log.
    obtain ⟨node, rest, t₃, -, hcollected⟩ := h.collected hverdict
    rw [h.artifact] at hnone
    have hlog : 101 ∈ compile.log := by
      cases hcollected with
      | irregular hartifact hlog => exact hlog
      | large hsize hartifact hlog => exact hlog
      | taken hsize => cases hnone
    have hne : compile.log ≠ [] := List.ne_nil_of_mem hlog
    refine compileLog_of_letter (List.mem_append_left _ (List.mem_filter.mpr ⟨?_, ?_⟩)) hlog
    · simp
    · simpa using hne

/-! ## The workspace after the run -/

/-- No goroutine changes the workspace of another. -/
theorem WorkspaceInv.dirs_eq {s s' : State} {ℓ : Tid → Held} {i j : Tid} {d : ℕ} {e : Op} {r : e.Ans}
    (inv : WorkspaceInv s ℓ) (hpre : heldDiscipline.pre j (ℓ j) e) (hact : act j s e r s') (hij : j ≠ i)
    (hi : (ℓ i).dir = some d) : s'.dirs d = s.dirs d := by
  have hother : ∀ d' entries, (ℓ j).dir = some d' → (s.setDir d' entries).dirs d = s.dirs d := by
    intro d' entries hj
    have hne : d ≠ d' := by
      rintro rfl
      exact hij (inv.inj j i d hj hi)
    exact Function.update_of_ne hne _ _
  by_cases hquiet : e.WorkspaceQuiet
  · rw [act_workspace_quiet hquiet hact]
  cases e with
  | mkdirTemp =>
    match r, hact with
    | .error e, hs => rw [show s' = s from hs]
    | .ok d', ⟨hfree, hs⟩ =>
      obtain ⟨w, hw, rfl⟩ := Option.map_eq_some_iff.mp hi
      obtain ⟨entries, hentries, -⟩ := inv.contents i w hw
      have hne : w.dir ≠ d' := by
        rintro rfl
        rw [hentries] at hfree
        cases hfree
      subst hs
      exact Function.update_of_ne hne _ _
  | removeAll d' =>
    match r, hact with
    | none, hs =>
      rw [show s' = _ from hs]
      exact hother d' none hpre
    | some e, ⟨left, hs⟩ =>
      subst hs
      exact hother d' left hpre
  | writeFile d' name content mode =>
    match r, hact with
    | none, ⟨entries, perm, _, hs⟩ =>
      subst hs
      exact hother d' _ hpre
    | some e, ⟨left, hs⟩ =>
      subst hs
      exact hother d' _ hpre
  | watch ctx req =>
    obtain ⟨-, m, hm, hdir⟩ := hpre
    obtain rfl | ⟨m', left, hm', -, rfl⟩ := hact
    · rfl
    · obtain rfl := Option.some.inj (hm.symm.trans hm')
      exact hother _ _ hdir
  | _ => exact absurd trivial hquiet

section Calls

variable {cpus : List ℕ} {calls : ℕ → ExecutorCall} {judgeMax execMax : ℕ}
  {c c' : Config Op Op.Ans Tid State fun _ => Unit} {i : Tid}

/-- A workspace stays as it is while its goroutine does nothing. -/
theorem executorCalls_dirs_eq (hcpus : cpus.Nodup)
    (h : Reachable semantics (.start (State.new judgeMax execMax cpus) (executorCalls calls)) c)
    (h' : Reachable semantics c c') (hown : own i c'.trace = own i c.trace) {d : ℕ}
    (hd : (held c.trace i).dir = some d) : c'.shared.dirs d = c.shared.dirs d := by
  induction h' with
  | refl => rfl
  | @tail b c' hb hs ih =>
    obtain @⟨j, e, k, r, s, hprog, hact⟩ := hs
    have hgrow : own i c.trace <+: own i b.trace := Reachable.own_isPrefix hb i
    have hij : j ≠ i := by
      rintro rfl
      rw [Config.advance, own_snoc_self] at hown
      have hlen := hgrow.length_le
      rw [← hown, List.length_append] at hlen
      simp at hlen
    rw [Config.advance, own_snoc_of_ne hij] at hown
    obtain ⟨inv, hsafe⟩ := executorCalls_held hcpus (Relation.ReflTransGen.trans h hb)
    have hpre := hsafe j
    rw [hprog] at hpre
    have hheld : held b.trace i = held c.trace i := by
      simp only [held, Discipline.locals, hown]
    rw [← ih hown]
    exact inv.workspace.dirs_eq hpre.1 hact hij (hheld ▸ hd)

/-- What a compilation reports is true of the sandbox result `r` and of the entry that the workspace then
has under the artifact's name. -/
structure Truthful (name : String) (entry : Option Node) (r : Sandbox.ExecuteResult)
    (res : Execution.CompileResult) : Prop where
  /-- There is an artifact exactly if the compiler succeeded and left a regular file that is not too
  large. -/
  artifact_iff : res.artifact ≠ none ↔ r.verdict = .ok ∧
    ∃ data perm, entry = some (.regular data perm) ∧ data.length ≤ maxCompileArtifactBytes
  /-- It is that file. -/
  artifact_eq : ∀ a, res.artifact = some a →
    r.exitCode = 0 ∧ a.name = name ∧ entry = some (.regular a.data a.mode)
  /-- Without an artifact, the log says something. -/
  explained : res.artifact = none → ¬ Blank res.log
  /-- What the compiler printed is in the log, unless it failed and printed nothing but blanks. -/
  output : ∀ text, text = r.stdout ∨ text = r.stderr → text ≠ [] →
    text <:+: res.log ∨ r.verdict = .re ∧ Blank r.stdout ∧ Blank r.stderr

theorem Reported.output {ws : ℕ} {req : CompileRequest} {r : Sandbox.ExecuteResult}
    {t₂ : List (Event Op Op.Ans)} {res compile : Execution.CompileResult}
    (h : Reported ws req r t₂ res compile) {text : Bytes} (htext : text = r.stdout ∨ text = r.stderr)
    (hne : text ≠ []) : text <:+: res.log ∨ r.verdict = .re ∧ Blank r.stdout ∧ Blank r.stderr := by
  rw [h.log]
  refine (compileLog_output htext hne).imp id ?_
  rintro ⟨hverdict, hblank⟩
  refine ⟨?_, hblank⟩
  cases hv : r.verdict <;> simp [sandboxResultToRunResult, hv, sandboxVerdictToModel] at hverdict ⊢

/-- A compiler that did not succeed leaves no artifact. -/
theorem Reported.truthful_of_failed {ws : ℕ} {req : CompileRequest} {r : Sandbox.ExecuteResult}
    {t₂ : List (Event Op Op.Ans)} {res compile : Execution.CompileResult}
    (h : Reported ws req r t₂ res compile) (hjudged : Judged req.limits r) (hfailed : r.verdict ≠ .ok)
    (entry : Option Node) : Truthful req.artifactName entry r res := by
  have hnone : res.artifact = none := by rw [h.artifact, h.failed hfailed]
  refine ⟨?_, ?_, h.explained hjudged, fun _ => h.output⟩
  · exact iff_of_false (not_not.mpr hnone) fun hok => hfailed hok.1
  · intro a ha
    rw [hnone] at ha
    cases ha

/-- A compiler that succeeded is reported by the entry it left, if the file read is the one looked at. -/
theorem Reported.truthful_of_ok {ws : ℕ} {req : CompileRequest} {r : Sandbox.ExecuteResult}
    {t₂ : List (Event Op Op.Ans)} {res compile : Execution.CompileResult}
    (h : Reported ws req r t₂ res compile) (hjudged : Judged req.limits r) (hok : r.verdict = .ok)
    {node : Node} {rest : List (Event Op Op.Ans)}
    (hcollected : Collected ws req.artifactName node rest compile)
    (hread : ∀ data, rest = [⟨.readFile ws req.artifactName, .ok data⟩] → node.data? = some data) :
    Truthful req.artifactName (some node) r res := by
  refine ⟨?_, ?_, h.explained hjudged, fun _ => h.output⟩
  · rw [h.artifact]
    cases hcollected with
    | irregular hartifact hlog => exact iff_of_false (not_not.mpr hartifact) (by simp)
    | large hsize hartifact hlog =>
      refine iff_of_false (not_not.mpr hartifact) ?_
      rintro ⟨-, data, perm, heq, hle⟩
      cases heq
      omega
    | taken hsize => exact iff_of_true (by simp) ⟨hok, _, _, rfl, hsize⟩
  · intro a ha
    rw [h.artifact] at ha
    cases hcollected with
    | irregular hartifact hlog => exact absurd (ha.symm.trans hartifact) (by simp)
    | large hsize hartifact hlog => exact absurd (ha.symm.trans hartifact) (by simp)
    | taken hsize =>
      cases ha
      have hdata := hread _ rfl
      cases hdata
      exact ⟨hjudged.exitCode hok, rfl, rfl⟩

/-- The events of a call of `Compile` that has returned. -/
theorem compileCall_events {j : ℕ} {req : CompileRequest} {res : Execution.CompileResult} {ctx : Ctx}
    (h : Reachable semantics (.start (State.new judgeMax execMax cpus) (executorCalls calls)) c)
    (hcall : calls j = .compile ctx req) (hret : c.prog (.judge j) = .ret ())
    (hleave : Did c.trace (.judge j) (.mark (.leaveCompile ctx req (.ok res))) ()) :
    ∃ t, (containerExecutor.compile ctx req).Runs t (.ok res) ∧ own (.judge j) c.trace =
      ⟨.mark (.enterCompile ctx req), ()⟩ :: t ++ [⟨.mark (.leaveCompile ctx req (.ok res)), ()⟩] := by
  have hruns : (calls j).prog.Runs (own (.judge j) c.trace) () := h.own_runs hret
  rw [hcall] at hruns
  obtain ⟨t₁, res', t₂, hown, hcompile, hdone⟩ := Prog.runs_bind_iff.mp hruns
  obtain ⟨rfl, -⟩ := Prog.runs_ret_iff.mp hdone
  obtain ⟨_, t₃, rfl, hentered⟩ := Prog.runs_perform_iff.mp hcompile
  obtain ⟨t₄, res'', t₅, rfl, hrun, hnote⟩ := Prog.runs_bind_iff.mp hentered
  obtain ⟨_, t₆, rfl, hdone'⟩ := Prog.runs_perform_iff.mp hnote
  obtain ⟨rfl, rfl⟩ := Prog.runs_ret_iff.mp hdone'
  have hmem : (⟨.mark (.leaveCompile ctx req (.ok res)), ()⟩ : Event Op Op.Ans) ∈
      own (.judge j) c.trace := mem_own.mpr hleave
  rw [hown, List.append_nil] at hmem
  rcases List.mem_cons.mp hmem with hmem | hmem
  · cases hmem
  rcases List.mem_append.mp hmem with hmem | hmem
  · exact absurd (hrun.all (containerExecutor_all.compile ctx req) _ hmem) id
  · cases List.mem_singleton.mp hmem
    exact ⟨t₄, hrun, by rw [hown]; simp⟩

/-- What is read of an entry right after looking at it is what was seen. -/
theorem executorCalls_read (hcpus : cpus.Nodup)
    (h : Reachable semantics (.start (State.new judgeMax execMax cpus) (executorCalls calls)) c)
    {ws : ℕ} {name : String} {k : Except Err Node → EProg Unit} {node : Node} {s : State}
    (hprog : c.prog i = .op (.stat ws name) k) (hact : act i c.shared (.stat ws name) (.ok node) s)
    (h' : Reachable semantics (c.advance i (.stat ws name) (.ok node) s (k (.ok node))) c')
    {data : Bytes} {t' : List (Event Op Op.Ans)} (hown : own i c'.trace =
      own i c.trace ++ ⟨.stat ws name, .ok node⟩ :: ⟨.readFile ws name, .ok data⟩ :: t') :
    node.data? = some data := by
  have hadvance : Reachable semantics (.start (State.new judgeMax execMax cpus) (executorCalls calls))
      (c.advance i (.stat ws name) (.ok node) s (k (.ok node))) := h.step hprog hact
  obtain ⟨rfl, hnode⟩ := hact
  obtain ⟨-, hsafe⟩ := executorCalls_held hcpus h
  have hdir := hsafe i
  rw [hprog] at hdir
  have hnow : own i (c.advance i (.stat ws name) (.ok node) c.shared (k (.ok node))).trace =
      own i c.trace ++ [⟨.stat ws name, .ok node⟩] := by
    rw [Config.advance, own_snoc_self]
  have hsplit : own i c'.trace = (own i c.trace ++ [⟨.stat ws name, .ok node⟩]) ++
      ⟨.readFile ws name, .ok data⟩ :: t' := by
    rw [hown, List.append_assoc]
    rfl
  obtain ⟨c₂, k₂, s₂, hc₂, hown₂, -, ⟨-, perm, hread⟩, -⟩ := h'.own_split hsplit (by rw [hnow])
  have hheld : (held (c.advance i (.stat ws name) (.ok node) c.shared (k (.ok node))).trace i).dir =
      some ws := by
    rw [held, Config.advance, Discipline.locals_snoc, Function.update_self]
    exact hdir.1
  have hdirs := executorCalls_dirs_eq hcpus hadvance hc₂ (hown₂.trans hnow.symm) hheld
  rw [hdirs, Config.advance, hnode] at hread
  cases hread
  rfl

/-- Every call of `Compile` that returned without an error is truthful about the workspace it had when
the sandbox returned. -/
theorem executorCalls_truthful (hcpus : cpus.Nodup) {j : ℕ} {req : CompileRequest}
    {res : Execution.CompileResult} {ctx : Ctx}
    (h : Reachable semantics (.start (State.new judgeMax execMax cpus) (executorCalls calls)) c)
    (hname : req.artifactName ≠ "") (hcall : calls j = .compile ctx req)
    (hret : c.prog (.judge j) = .ret ())
    (hleave : Did c.trace (.judge j) (.mark (.leaveCompile ctx req (.ok res))) ()) :
    ∃ outcome output ws c₁ t, Reachable semantics
        (.start (State.new judgeMax execMax cpus) (executorCalls calls)) c₁ ∧
      Reachable semantics c₁ c ∧
      own (.judge j) c₁.trace = t ++ [⟨.mark (.leaveExecute ctx ((compileTask req).request ws)
        (.ok (Sandbox.buildVerdict outcome output req.limits))), ()⟩] ∧
      Truthful req.artifactName ((c₁.shared.dirs ws).bind (· req.artifactName))
        (Sandbox.buildVerdict outcome output req.limits) res := by
  obtain ⟨t, hrun, hown⟩ := compileCall_events h hcall hret hleave
  obtain ⟨ws, r, compile, t₁, t₂, rfl, ⟨outcome, output, rfl⟩, hreported⟩ := compile_ok hrun hname
  have hjudged : Judged req.limits (Sandbox.buildVerdict outcome output req.limits) := ⟨_, _, rfl⟩
  by_cases hok : (Sandbox.buildVerdict outcome output req.limits).verdict = .ok
  · obtain ⟨node, rest, t₃, rfl, hcollected⟩ := hreported.collected hok
    -- The next operation looks at the artifact, and the one after that may read it.
    have hsplit : own (.judge j) c.trace = (⟨.mark (.enterCompile ctx req), ()⟩ :: t₁ ++ [⟨.mark
        (.leaveExecute ctx ((compileTask req).request ws) (.ok
          (Sandbox.buildVerdict outcome output req.limits))), ()⟩]) ++
        ⟨.stat ws req.artifactName, .ok node⟩ ::
          (rest ++ (t₃ ++ [⟨.mark (.leaveCompile ctx req (.ok res)), ()⟩])) := by
      rw [hown]
      simp
    obtain ⟨c₁, k, s, hc₁, hown₁, hprog, hact, hrest⟩ := h.own_split hsplit (by simp [Config.start])
    have hentry : (c₁.shared.dirs ws).bind (· req.artifactName) = some node := hact.2
    refine ⟨outcome, output, ws, c₁, _, hc₁, (Relation.ReflTransGen.single (.mk hprog hact)).trans hrest,
      hown₁, ?_⟩
    rw [hentry]
    refine hreported.truthful_of_ok hjudged hok hcollected ?_
    rintro data rfl
    have hown' : own (.judge j) c.trace = own (.judge j) c₁.trace ++
        ⟨.stat ws req.artifactName, .ok node⟩ :: ⟨.readFile ws req.artifactName, .ok data⟩ ::
          (t₃ ++ [⟨.mark (.leaveCompile ctx req (.ok res)), ()⟩]) := by
      rw [hsplit, hown₁]
      rfl
    exact executorCalls_read hcpus hc₁ hprog hact hrest hown'
  · obtain ⟨ev, t', hnext⟩ : ∃ ev t', t₂ ++ [⟨.mark (.leaveCompile ctx req (.ok res)), ()⟩] = ev :: t' :=
      List.exists_cons_of_ne_nil (by simp)
    have hsplit : own (.judge j) c.trace = (⟨.mark (.enterCompile ctx req), ()⟩ :: t₁ ++ [⟨.mark
        (.leaveExecute ctx ((compileTask req).request ws) (.ok
          (Sandbox.buildVerdict outcome output req.limits))), ()⟩]) ++ ev :: t' := by
      rw [hown, ← hnext]
      simp
    obtain ⟨c₁, k, s, hc₁, hown₁, hprog, hact, hrest⟩ := h.own_split hsplit (by simp [Config.start])
    exact ⟨outcome, output, ws, c₁, _, hc₁,
      (Relation.ReflTransGen.single (.mk hprog hact)).trans hrest, hown₁,
      hreported.truthful_of_failed hjudged hok _⟩

end Calls

end Afterglow.Engine
