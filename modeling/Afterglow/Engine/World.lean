import Afterglow.Engine.Op

/-!
# Executable worlds

A world answers the calls out of the engine; the rest of `act` is executed as it stands, with no
failure and no eviction. `World.answer` drives concrete runs.
-/

namespace Afterglow.Engine

open Concurrency Execution

/-- How the world outside the engine behaves. -/
structure World where
  ask : Tid → (q : Query) → q.Ans
  /-- How a task goes. -/
  watch : Tid → (ctx : Ctx) → (req : Sandbox.ExecuteRequest) → (Op.watch ctx req).Ans
  /-- What a task makes of a directory that is mounted for writing. -/
  produce : Tid → Sandbox.ExecuteRequest → Contents → Contents

/-! ## A calm world -/

/-- A task that exits by itself. -/
def exitScript (code : UInt32) (stdout : Bytes) : Sandbox.WatchScript where
  events := [.exit ⟨code, none⟩]
  metrics := .stats ⟨some 7000, some (4096, 2048), some (0, 0)⟩
  afterKill := .closed
  copied := { stdout }

theorem exitScript_ends (ctx : Ctx) (limits : Sandbox.ResourceLimits) (code : UInt32)
    (stdout : Bytes) : (Sandbox.watchExecution ctx (exitScript code stdout) limits).isSome := rfl

/-- Every call succeeds, an executor makes empty artifacts, and the resources are not there. -/
def calmAnswer : (q : Query) → q.Ans
  | .readResource _ _ => .error (.text "file does not exist")
  | .getImage _ _ => .found
  | .newContainer _ _ _ => .ok 0
  | .newTask _ _ _ => .ok 0
  | .cancel _ => ()
  | .compile _ req => .ok { artifact := some { name := req.artifactName, data := [], mode := 0o755 } }
  | .run _ _ => .ok ⟨⟨.ok, 0, [], [], 0, 0, []⟩, .inl rfl⟩
  | .openRoot _ | .closeRoot _ | .connect | .closeClient | .pull _ _ | .ctxErr _
  | .deleteContainer _ _ | .deleteTask _ _ | .waitTask _ _ => none

/-- Every call succeeds and every task exits with code 0. -/
def World.calm : World where
  ask _ := calmAnswer
  watch _ ctx req := ⟨exitScript 0 [], exitScript_ends ctx req.limits 0 []⟩
  produce _ _ entries := entries

/-! ## Answering -/

/-- The values of `f` below `n`, if they are all there. -/
def collect {α : Type} (f : ℕ → Option α) : ℕ → Option (List α)
  | 0 => some []
  | n + 1 =>
    match collect f n, f n with
    | some xs, some x => some (xs ++ [x])
    | _, _ => none

theorem collect_spec {α : Type} {f : ℕ → Option α} {n : ℕ} {xs : List α} (h : collect f n = some xs) :
    xs.length = n ∧ ∀ m x, xs[m]? = some x → f m = some x := by
  induction n generalizing xs with
  | zero =>
    obtain rfl := Option.some.inj h
    exact ⟨rfl, by simp⟩
  | succ n ih =>
    rw [collect] at h
    split at h
    · next ys y hys hy =>
        obtain rfl := Option.some.inj h
        obtain ⟨hlen, hget⟩ := ih hys
        refine ⟨by simp [hlen], ?_⟩
        intro m x hm
        rcases Nat.lt_or_ge m ys.length with hlt | hge
        · exact hget m x (by rwa [List.getElem?_append_left hlt] at hm)
        · rw [List.getElem?_append_right hge, List.getElem?_singleton] at hm
          split at hm
          · next hzero =>
              obtain rfl := Option.some.inj hm
              obtain rfl : m = n := by omega
              exact hy
          · cases hm
    · cases h

/-- A directory that is not in use. -/
def State.freshDir (s : State) : Option ℕ := (List.range 64).find? fun d => (s.dirs d).isNone

/-- The answer of a world to thread `i`, if the operation is not blocked. -/
def World.answer (w : World) (i : Tid) (s : State) : (e : Op) → Option (e.Ans × State)
  | .judgeAcquire _ =>
    if s.judgeUsed < s.judgeMax then some (none, { s with judgeUsed := s.judgeUsed + 1 }) else none
  | .judgeRelease =>
    if 0 < s.judgeUsed then some ((), { s with judgeUsed := s.judgeUsed - 1 }) else none
  | .execAcquire _ =>
    if s.execUsed < s.execMax then some (none, { s with execUsed := s.execUsed + 1 }) else none
  | .execRelease =>
    if 0 < s.execUsed then some ((), { s with execUsed := s.execUsed - 1 }) else none
  | .cpuTake _ =>
    match s.freeCpus with
    | [] => none
    | id :: rest => some (.ok id, { s with freeCpus := rest })
  | .cpuPut id =>
    if s.freeCpus.length < s.cpuCap then some ((), { s with freeCpus := s.freeCpus ++ [id] }) else none
  | .cacheGet key => some (s.cache key, s)
  | .cacheAdd key value => some ((), { s with cache := Function.update s.cache key (some value) })
  | .flightDo key =>
    match s.flights key with
    | none => some (.lead s.nextFlight, { s with
        flights := Function.update s.flights key (some s.nextFlight), nextFlight := s.nextFlight + 1 })
    | some f => some (.join f, s)
  | .flightWait f => (s.landed f).map fun r => (r, s)
  | .flightDone key f res => some ((), { s with
      flights := Function.update s.flights key none
      landed := Function.update s.landed f (some res) })
  | .goCases batch =>
    some ((), { s with batches := Function.update s.batches i.request (some batch) })
  | .caseBegin =>
    match i with
    | .judge _ => none
    | .case j n =>
      (s.batches j).bind fun batch => batch.cases[n]?.map fun data =>
        ((batch.ctx, batch.runner, data), s)
  | .caseEnd res =>
    match i with
    | .judge _ => none
    | .case j n => some ((), { s with
        results := Function.update s.results j (Function.update (s.results j) n (some res)) })
  | .wgWait =>
    (s.batches i.request).bind fun batch =>
      (collect (s.results i.request) batch.cases.length).map fun r => (r, s)
  | .mkdirTemp => s.freshDir.map fun d => (.ok d, s.setDir d (some fun _ => none))
  | .removeAll d => some (none, s.setDir d none)
  | .writeFile d name content mode => (s.dirs d).map fun entries =>
      (none, s.setDir d (some (Function.update entries name (some (.regular content mode)))))
  | .stat d name =>
    match (s.dirs d).bind (· name) with
    | some node => some (.ok node, s)
    | none => some (.error (.text "file does not exist"), s)
  | .readFile d name =>
    match (s.dirs d).bind (· name) with
    | some (.regular data _) => some (.ok data, s)
    | _ => some (.error (.text "file does not exist"), s)
  | .enterExecute _ req => some (s.mounted req, s)
  | .watch ctx req =>
    match req.mountDir with
    | some m =>
      if m.readOnly = false then
        some (w.watch i ctx req, s.setDir m.hostPath ((s.dirs m.hostPath).map (w.produce i req)))
      else some (w.watch i ctx req, s)
    | none => some (w.watch i ctx req, s)
  | .ask q => some (w.ask i q, s)
  | .mark _ => some ((), s)

theorem World.answer_sound (w : World) (i : Tid) (s : State) (e : Op) (r : e.Ans) (s' : State)
    (h : w.answer i s e = some (r, s')) : act i s e r s' := by
  cases e with
  | judgeAcquire ctx | judgeRelease | execAcquire ctx | execRelease | cpuPut id =>
    simp only [answer] at h
    split at h
    · next hfree =>
        cases h
        exact ⟨hfree, rfl⟩
    · cases h
  | cpuTake ctx =>
    simp only [answer] at h
    split at h
    · cases h
    · next id rest hfree =>
        cases h
        exact ⟨rest, hfree, rfl⟩
  | cacheGet key =>
    cases h
    exact ⟨rfl, rfl⟩
  | cacheAdd key value =>
    cases h
    exact ⟨fun _ => true, by simp⟩
  | flightDo key =>
    simp only [answer] at h
    split at h
    · next hnone =>
        cases h
        exact ⟨hnone, rfl, rfl⟩
    · next f hsome =>
        cases h
        exact ⟨hsome, rfl⟩
  | flightWait f =>
    obtain ⟨r', hr', heq⟩ := Option.map_eq_some_iff.mp h
    cases heq
    exact ⟨hr', rfl⟩
  | flightDone key f res | goCases batch =>
    cases h
    rfl
  | caseBegin =>
    cases i with
    | judge j => cases h
    | case j n =>
      obtain ⟨batch, hbatch, hdata⟩ := Option.bind_eq_some_iff.mp h
      obtain ⟨data, hget, heq⟩ := Option.map_eq_some_iff.mp hdata
      cases heq
      exact ⟨rfl, j, n, batch, rfl, hbatch, rfl, rfl, hget⟩
  | caseEnd res =>
    cases i with
    | judge j => cases h
    | case j n =>
      cases h
      exact ⟨j, n, rfl, rfl⟩
  | wgWait =>
    obtain ⟨batch, hbatch, hres⟩ := Option.bind_eq_some_iff.mp h
    obtain ⟨xs, hxs, heq⟩ := Option.map_eq_some_iff.mp hres
    cases heq
    obtain ⟨hlen, hget⟩ := collect_spec hxs
    exact ⟨rfl, batch, hbatch, hlen, hget⟩
  | mkdirTemp =>
    obtain ⟨d, hd, heq⟩ := Option.map_eq_some_iff.mp h
    cases heq
    have hfree : (s.dirs d).isNone = true :=
      List.find?_some (p := fun d => (s.dirs d).isNone) hd
    exact ⟨Option.isNone_iff_eq_none.mp hfree, rfl⟩
  | removeAll d =>
    cases h
    rfl
  | writeFile d name content mode =>
    obtain ⟨entries, hentries, heq⟩ := Option.map_eq_some_iff.mp h
    cases heq
    exact ⟨entries, mode, hentries, rfl⟩
  | stat d name =>
    simp only [answer] at h
    split at h
    · next node hnode =>
        cases h
        exact ⟨rfl, hnode⟩
    · cases h
      rfl
  | readFile d name =>
    simp only [answer] at h
    split at h
    · next data perm hdata =>
        cases h
        exact ⟨rfl, perm, hdata⟩
    · cases h
      rfl
  | enterExecute ctx req =>
    cases h
    exact ⟨rfl, rfl⟩
  | watch ctx req =>
    simp only [answer] at h
    split at h
    · next m hm =>
        split at h
        · next hro =>
            cases h
            cases hdir : s.dirs m.hostPath with
            | none => exact .inr ⟨m, fun _ => none, hm, hro, by simp [hdir]⟩
            | some entries => exact .inr ⟨m, w.produce i req entries, hm, hro, by simp [hdir]⟩
        · cases h
          exact .inl rfl
    · cases h
      exact .inl rfl
  | ask q | mark m =>
    cases h
    rfl

end Afterglow.Engine
