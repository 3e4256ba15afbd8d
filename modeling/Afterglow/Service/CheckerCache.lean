import Mathlib.Data.Set.Insert
import Afterglow.Concurrency.Discipline
import Afterglow.Service.Checker

/-!
# The shared checker compilations

Any number of goroutines call `checkerCompiler.compile`. `checkerDiscipline` says what one of them may
do in which situation: start a compilation only as the leader of a flight whose second look-up missed,
add to the cache only what that compilation returned, and so on. `FlightInv` is the invariant that
follows for the shared state, and `HistoryInv` the one that follows for the trace.
-/

namespace Afterglow.Engine

open Concurrency Execution Service

variable (g : JudgeEngine)

/-! ## Outcomes -/

/-- The source of a request to compile a checker. -/
def checkerSource? (req : CompileRequest) : Option Bytes :=
  req.files.head?.bind fun file =>
    if req = checkerCompileRequest g.testlibHeader file.content then some file.content else none

theorem checkerSource?_eq_some {req : CompileRequest} {source : Bytes} :
    checkerSource? g req = some source ↔ req = checkerCompileRequest g.testlibHeader source := by
  constructor
  · intro h
    obtain ⟨file, -, hfile⟩ := Option.bind_eq_some_iff.mp h
    split at hfile
    · next hreq =>
        obtain rfl := Option.some.inj hfile
        exact hreq
    · cases hfile
  · intro h
    subst h
    simp [checkerSource?, checkerCompileRequest]

/-- What `compileUncached` makes of what the executor returned. -/
def setupResult (raw : Except Err Execution.CompileResult) : Except Err Execution.CompileResult :=
  raw.mapError (.wrap "checker setup failed")

/-- Thread `k` compiled `source` by an `executor.Compile` call, with outcome `res`. -/
def Compiled (tr : Trace) (k : Tid) (source : Bytes) (res : Except Err Execution.CompileResult) :
    Prop :=
  ∃ ctx raw, Did tr k (.mark (.leaveCompile ctx (checkerCompileRequest g.testlibHeader source) raw)) () ∧
    res = setupResult raw

/-- `compile` was called on `source`. -/
def Asked (tr : Trace) (source : Bytes) : Prop := ∃ i ctx, Did tr i (.mark (.enterChecker ctx source)) ()

/-- Some call compiled a source with this hash, with outcome `res`. -/
def Outcome (tr : Trace) (key : Bytes) (res : Except Err Execution.CompileResult) : Prop :=
  ∃ k source, g.sha256 source = key ∧ Asked tr source ∧ Compiled g tr k source res

/-- An artifact came out. -/
def Succeeded (res : Except Err Execution.CompileResult) : Prop :=
  ∃ out, res = .ok out ∧ out.artifact.isSome

/-! ## The discipline -/

/-- Where a goroutine stands. -/
structure CheckerLocal where
  /-- The sources it called `compile` on. -/
  asked : Set Bytes := ∅
  /-- The flight it leads. -/
  lead : Option (Bytes × ℕ) := none
  /-- The flight it joined. -/
  joined : Option (Bytes × ℕ) := none
  /-- Its look-up missed since it leads. -/
  missed : Bool := false
  /-- The source that it has the executor compile. -/
  running : Option Bytes := none
  /-- The outcome of the compilation made since it leads. -/
  made : Option (Except Err Execution.CompileResult) := none
  /-- What its look-ups found. -/
  hits : Set Execution.CompileResult := ∅
  /-- The outcomes it knows of. -/
  known : Set (Bytes × Except Err Execution.CompileResult) := ∅

namespace CheckerLocal

/-- A look-up of `key`. -/
def lookedUp (l : CheckerLocal) (key : Bytes) : Option Execution.CompileResult → CheckerLocal
  | some v => { l with known := insert (key, .ok v) l.known, hits := insert v l.hits }
  | none => { l with missed := decide (l.lead.map Prod.fst = some key) }

/-- A flight is entered. -/
def entered (l : CheckerLocal) (key : Bytes) : Flight → CheckerLocal
  | .lead f => { l with lead := some (key, f), missed := false, made := none }
  | .join f => { l with joined := some (key, f) }

/-- The executor is called. -/
def started (l : CheckerLocal) : Option Bytes → CheckerLocal
  | some source => { l with running := some source }
  | none => l

/-- The executor returned `res`. -/
def finished (l : CheckerLocal) (res : Except Err Execution.CompileResult) :
    Option Bytes → CheckerLocal
  | some source =>
    { l with running := none, made := some res, known := insert (g.sha256 source, res) l.known }
  | none => l

end CheckerLocal

/-- The discipline of `checkerCompiler.compile`. -/
def checkerDiscipline : Discipline Op Op.Ans Tid CheckerLocal where
  pre _ l
    | .cacheAdd key value =>
      (key, .ok value) ∈ l.known ∧ value.artifact.isSome ∧ l.lead.map Prod.fst = some key ∧
        l.running = none
    | .flightDo _ => l.lead = none
    | .flightWait f => ∃ key, l.joined = some (key, f)
    | .flightDone key f res =>
      l.lead = some (key, f) ∧ (key, res) ∈ l.known ∧ l.running = none ∧
        (¬ Succeeded res → l.made = some res ∨ ∃ v ∈ l.hits, res = .ok v)
    | .mark (.enterCompile _ req) => ∀ source, checkerSource? g req = some source →
      l.lead.map Prod.fst = some (g.sha256 source) ∧ l.missed = true ∧ l.running = none ∧
        source ∈ l.asked
    | .mark (.leaveCompile _ req _) => ∀ source, checkerSource? g req = some source →
      l.running = some source
    | .cacheGet _ => l.running = none
    | _ => True
  next _ l
    | .cacheGet key, r => l.lookedUp key r
    | .cacheAdd _ _, _ => { l with missed := false }
    | .flightDo key, r => l.entered key r
    | .flightWait f, r =>
      { l with known := l.known ∪ { x | l.joined = some (x.1, f) ∧ x.2 = r } }
    | .flightDone _ _ _, _ => { l with lead := none, missed := false }
    | .mark (.enterChecker _ source), _ => { l with asked := insert source l.asked }
    | .mark (.enterCompile _ req), _ => l.started (checkerSource? g req)
    | .mark (.leaveCompile _ req res), _ => l.finished g (setupResult res) (checkerSource? g req)
    | _, _ => l

/-- The operations that have nothing to do with shared compilations. -/
def Op.CheckerQuiet : Op → Prop
  | .cacheGet _ | .cacheAdd _ _ | .flightDo _ | .flightWait _ | .flightDone _ _ _ => False
  | .mark (.enterChecker _ _) | .mark (.enterCompile _ _) | .mark (.leaveCompile _ _ _) => False
  | _ => True

theorem checkerDiscipline_quiet {e : Op} (he : e.CheckerQuiet) (i : Tid) (l : CheckerLocal) :
    (checkerDiscipline g).pre i l e ∧ ∀ r, (checkerDiscipline g).next i l e r = l := by
  cases e with
  | mark m => cases m <;> first | exact absurd he id | exact ⟨trivial, fun _ => rfl⟩
  | _ => first | exact absurd he id | exact ⟨trivial, fun _ => rfl⟩

theorem act_quiet {i : Tid} {s s' : State} {e : Op} {r : e.Ans} (he : e.CheckerQuiet)
    (h : act i s e r s') :
    s'.cache = s.cache ∧ s'.flights = s.flights ∧ s'.landed = s.landed ∧
      s'.nextFlight = s.nextFlight := by
  unfold act at h
  split at h
  all_goals first | exact absurd he id | grind [State.setDir]

/-! ## The invariant of cache and flights -/

/-- Flights in progress are led by exactly one goroutine each, with a number of their own. A leader
whose look-up missed still finds its key absent from the cache, and only such a leader has the
executor compile. -/
structure FlightInv (s : State) (ℓ : Tid → CheckerLocal) : Prop where
  lead_flight : ∀ i key f, (ℓ i).lead = some (key, f) → s.flights key = some f
  flight_lead : ∀ key f, s.flights key = some f → ∃ i, (ℓ i).lead = some (key, f)
  lead_inj : ∀ i j key f f', (ℓ i).lead = some (key, f) → (ℓ j).lead = some (key, f') → i = j
  flight_inj : ∀ key key' f, s.flights key = some f → s.flights key' = some f → key = key'
  fresh : ∀ key f, s.flights key = some f → f < s.nextFlight ∧ s.landed f = none
  landed_lt : ∀ f r, s.landed f = some r → f < s.nextFlight
  missed : ∀ i, (ℓ i).missed = true → ∃ key f, (ℓ i).lead = some (key, f) ∧ s.cache key = none
  running : ∀ i source, (ℓ i).running = some source →
    (ℓ i).missed = true ∧ ∃ f, (ℓ i).lead = some (g.sha256 source, f)

variable {g}

/-- A step that touches neither the shared compilations nor where a goroutine stands. -/
theorem FlightInv.frame {s s' : State} {ℓ : Tid → CheckerLocal} (inv : FlightInv g s ℓ)
    (hcache : s'.cache = s.cache) (hflights : s'.flights = s.flights)
    (hlanded : s'.landed = s.landed) (hnext : s'.nextFlight = s.nextFlight) : FlightInv g s' ℓ where
  lead_flight := by rw [hflights]; exact inv.lead_flight
  flight_lead := by rw [hflights]; exact inv.flight_lead
  lead_inj := inv.lead_inj
  flight_inj := by rw [hflights]; exact inv.flight_inj
  fresh := by rw [hflights, hlanded, hnext]; exact inv.fresh
  landed_lt := by rw [hlanded, hnext]; exact inv.landed_lt
  missed := by rw [hcache]; exact inv.missed
  running := inv.running

theorem map_fst_eq_some {lead : Option (Bytes × ℕ)} {key : Bytes} :
    lead.map Prod.fst = some key ↔ ∃ f, lead = some (key, f) := by
  constructor
  · intro h
    obtain ⟨⟨key', f⟩, hlead, rfl⟩ := Option.map_eq_some_iff.mp h
    exact ⟨f, hlead⟩
  · rintro ⟨f, rfl⟩
    rfl

section Steps

variable {s : State} {ℓ : Tid → CheckerLocal} {i : Tid}

/-- A goroutine moves on without entering or leaving a flight. -/
theorem FlightInv.relocate (inv : FlightInv g s ℓ) {l : CheckerLocal} (hlead : l.lead = (ℓ i).lead)
    (hmissed : l.missed = true → ∃ key f, l.lead = some (key, f) ∧ s.cache key = none)
    (hrunning : ∀ source, l.running = some source →
      l.missed = true ∧ ∃ f, l.lead = some (g.sha256 source, f)) :
    FlightInv g s (Function.update ℓ i l) := by
  have key : ∀ j, (Function.update ℓ i l j).lead = (ℓ j).lead := by
    intro j
    by_cases hj : j = i
    · rw [hj, Function.update_self, hlead]
    · rw [Function.update_of_ne hj]
  refine ⟨?_, ?_, ?_, inv.flight_inj, inv.fresh, inv.landed_lt, ?_, ?_⟩
  · intro j
    rw [key j]
    exact inv.lead_flight j
  · intro k f hk
    obtain ⟨j, hj⟩ := inv.flight_lead k f hk
    exact ⟨j, by rw [key j]; exact hj⟩
  · intro j j'
    rw [key j, key j']
    exact inv.lead_inj j j'
  · intro j hj
    by_cases hij : j = i
    · subst hij
      rw [Function.update_self] at hj ⊢
      exact hmissed hj
    · rw [Function.update_of_ne hij] at hj ⊢
      exact inv.missed j hj
  · intro j source hj
    by_cases hij : j = i
    · subst hij
      rw [Function.update_self] at hj ⊢
      exact hrunning source hj
    · rw [Function.update_of_ne hij] at hj ⊢
      exact inv.running j source hj

/-- Only `lead`, `missed` and `running` of the goroutine that moves matter. -/
theorem FlightInv.congr (inv : FlightInv g s ℓ) {l : CheckerLocal} (hlead : l.lead = (ℓ i).lead)
    (hmissed : l.missed = (ℓ i).missed) (hrunning : l.running = (ℓ i).running) :
    FlightInv g s (Function.update ℓ i l) := by
  refine inv.relocate hlead ?_ ?_
  · rw [hmissed, hlead]
    exact inv.missed i
  · rw [hmissed, hlead, hrunning]
    exact inv.running i

theorem FlightInv.cacheGet (inv : FlightInv g s ℓ) (key : Bytes) (hrunning : (ℓ i).running = none) :
    FlightInv g s (Function.update ℓ i ((ℓ i).lookedUp key (s.cache key))) := by
  cases hget : s.cache key with
  | some v => exact inv.congr rfl rfl rfl
  | none =>
    refine inv.relocate rfl ?_ ?_
    · intro hmissed
      obtain ⟨f, hf⟩ := map_fst_eq_some.mp (of_decide_eq_true hmissed)
      exact ⟨key, f, hf, hget⟩
    · intro source hsource
      exact absurd (hsource.symm.trans hrunning) (by simp)

/-- Adding to the cache under one's own flight leaves the other leaders' keys absent. -/
theorem FlightInv.cacheAdd (inv : FlightInv g s ℓ) {key : Bytes} {f : ℕ} (value : Execution.CompileResult)
    (keep : Bytes → Bool) (hlead : (ℓ i).lead = some (key, f)) (hrunning : (ℓ i).running = none) :
    FlightInv g { s with
        cache := Function.update (fun k => if keep k then s.cache k else none) key (some value) }
      (Function.update ℓ i { ℓ i with missed := false }) := by
  have inv' : FlightInv g s (Function.update ℓ i { ℓ i with missed := false }) := by
    refine inv.relocate rfl (by simp) ?_
    intro source hsource
    exact absurd (hsource.symm.trans hrunning) (by simp)
  refine ⟨inv'.lead_flight, inv'.flight_lead, inv'.lead_inj, inv.flight_inj, inv.fresh,
    inv.landed_lt, ?_, inv'.running⟩
  intro j hj
  obtain ⟨key', f', hlead', hnone⟩ := inv'.missed j hj
  have hkey : key' ≠ key := by
    rintro rfl
    have hlead'' : (Function.update ℓ i { ℓ i with missed := false } i).lead = some (key', f) := by
      rw [Function.update_self]
      exact hlead
    obtain rfl := inv'.lead_inj j i _ _ _ hlead' hlead''
    rw [Function.update_self] at hj
    exact absurd hj (by simp)
  exact ⟨key', f', hlead', by simp only [Function.update_of_ne hkey, hnone, ite_self]⟩

theorem FlightInv.flightLead (inv : FlightInv g s ℓ) {key : Bytes} (hnone : (ℓ i).lead = none)
    (hkey : s.flights key = none) :
    FlightInv g { s with
        flights := Function.update s.flights key (some s.nextFlight)
        nextFlight := s.nextFlight + 1 }
      (Function.update ℓ i ((ℓ i).entered key (.lead s.nextFlight))) := by
  have hrun : (ℓ i).running = none := by
    cases hr : (ℓ i).running with
    | none => rfl
    | some source =>
      obtain ⟨-, f, hf⟩ := inv.running i source hr
      exact absurd (hf.symm.trans hnone) (by simp)
  have hfree : ∀ j f, (ℓ j).lead ≠ some (key, f) := by
    intro j f hj
    exact absurd ((inv.lead_flight j key f hj).symm.trans hkey) (by simp)
  have hnew : ∀ k f, s.flights k = some f → f ≠ s.nextFlight ∧ s.landed f = none := by
    intro k f hk
    obtain ⟨hlt, hland⟩ := inv.fresh k f hk
    exact ⟨by omega, hland⟩
  constructor
  · grind [inv.lead_flight, CheckerLocal.entered, Function.update_apply]
  · intro k f hk
    by_cases hkk : k = key
    · subst hkk
      exact ⟨i, by grind [CheckerLocal.entered, Function.update_apply]⟩
    · obtain ⟨j, hj⟩ := inv.flight_lead k f (by simpa [Function.update_of_ne hkk] using hk)
      exact ⟨j, by grind [Function.update_apply]⟩
  · grind [inv.lead_inj, CheckerLocal.entered, Function.update_apply]
  · grind [inv.flight_inj, Function.update_apply]
  · intro k f hk
    by_cases hkk : k = key
    · subst hkk
      obtain rfl : s.nextFlight = f := by simpa using hk
      refine ⟨Nat.lt_succ_self _, ?_⟩
      by_contra hland
      obtain ⟨r, hr⟩ := Option.ne_none_iff_exists'.mp hland
      exact absurd (inv.landed_lt _ _ hr) (lt_irrefl _)
    · have := inv.fresh k f (by simpa [Function.update_of_ne hkk] using hk)
      exact ⟨Nat.lt_succ_of_lt this.1, this.2⟩
  · intro f r hr
    exact Nat.lt_succ_of_lt (inv.landed_lt f r hr)
  · grind [inv.missed, CheckerLocal.entered, Function.update_apply]
  · grind [inv.running, CheckerLocal.entered, Function.update_apply]

theorem FlightInv.flightDone (inv : FlightInv g s ℓ) {key : Bytes} {f : ℕ}
    (res : Except Err Execution.CompileResult) (hlead : (ℓ i).lead = some (key, f))
    (hrunning : (ℓ i).running = none) :
    FlightInv g { s with
        flights := Function.update s.flights key none
        landed := Function.update s.landed f (some res) }
      (Function.update ℓ i { ℓ i with lead := none, missed := false }) := by
  have hf := inv.lead_flight i key f hlead
  have hother : ∀ k f', Function.update s.flights key none k = some f' →
      k ≠ key ∧ f' ≠ f ∧ s.flights k = some f' := by
    intro k f' hk
    have hkk : k ≠ key := by
      rintro rfl
      rw [Function.update_self] at hk
      cases hk
    rw [Function.update_of_ne hkk] at hk
    refine ⟨hkk, ?_, hk⟩
    rintro rfl
    exact hkk (inv.flight_inj k key f' hk hf)
  constructor
  · grind [inv.lead_flight, inv.lead_inj, Function.update_apply]
  · intro k f' hk
    obtain ⟨hkk, -, hk'⟩ := hother k f' hk
    obtain ⟨j, hj⟩ := inv.flight_lead k f' hk'
    exact ⟨j, by grind [Function.update_apply]⟩
  · grind [inv.lead_inj, Function.update_apply]
  · intro k k' f' hk hk'
    exact inv.flight_inj k k' f' (hother k f' hk).2.2 (hother k' f' hk').2.2
  · intro k f' hk
    obtain ⟨-, hff, hk'⟩ := hother k f' hk
    obtain ⟨hlt, hland⟩ := inv.fresh k f' hk'
    exact ⟨hlt, (Function.update_of_ne hff _ _).trans hland⟩
  · intro f' r hr
    by_cases hff : f' = f
    · rw [hff]
      exact (inv.fresh key f hf).1
    · exact inv.landed_lt f' r ((Function.update_of_ne hff _ _).symm.trans hr)
  · grind [inv.missed, Function.update_apply]
  · grind [inv.running, Function.update_apply]

theorem FlightInv.started (inv : FlightInv g s ℓ) {source : Bytes} {f : ℕ}
    (hlead : (ℓ i).lead = some (g.sha256 source, f)) (hmissed : (ℓ i).missed = true) :
    FlightInv g s (Function.update ℓ i { ℓ i with running := some source }) := by
  refine inv.relocate rfl (inv.missed i) ?_
  intro source' hsource'
  obtain rfl : source = source' := Option.some.inj hsource'
  exact ⟨hmissed, f, hlead⟩

theorem FlightInv.finished (inv : FlightInv g s ℓ) (made : Option (Except Err Execution.CompileResult))
    (known : Set (Bytes × Except Err Execution.CompileResult)) :
    FlightInv g s
      (Function.update ℓ i { ℓ i with running := none, made := made, known := known }) := by
  refine inv.relocate rfl (inv.missed i) ?_
  intro source hsource
  cases hsource

end Steps

/-- Every disciplined step keeps the invariant. -/
theorem FlightInv.step {s s' : State} {ℓ : Tid → CheckerLocal} (inv : FlightInv g s ℓ) {i : Tid}
    {e : Op} {r : e.Ans} (hpre : (checkerDiscipline g).pre i (ℓ i) e) (hact : act i s e r s') :
    FlightInv g s' (Function.update ℓ i ((checkerDiscipline g).next i (ℓ i) e r)) := by
  by_cases hquiet : e.CheckerQuiet
  · obtain ⟨hcache, hflights, hlanded, hnext⟩ := act_quiet hquiet hact
    rw [(checkerDiscipline_quiet g hquiet i (ℓ i)).2 r, Function.update_eq_self]
    exact inv.frame hcache hflights hlanded hnext
  cases e with
  | cacheGet key =>
    obtain ⟨rfl, rfl⟩ := hact
    exact inv.cacheGet key hpre
  | cacheAdd key value =>
    obtain ⟨keep, rfl⟩ := hact
    obtain ⟨f, hlead⟩ := map_fst_eq_some.mp hpre.2.2.1
    exact inv.cacheAdd value keep hlead hpre.2.2.2
  | flightDo key =>
    match r, hact with
    | .lead f, ⟨hkey, hf, hs⟩ =>
      subst hf hs
      exact inv.flightLead hpre hkey
    | .join f, ⟨_, hs⟩ =>
      subst hs
      exact inv.congr rfl rfl rfl
  | flightWait f =>
    obtain ⟨-, rfl⟩ := hact
    exact inv.congr rfl rfl rfl
  | flightDone key f res =>
    obtain rfl := hact
    exact inv.flightDone res hpre.1 hpre.2.2.1
  | mark m =>
    obtain rfl : s' = s := hact
    cases m with
    | enterChecker ctx source => exact inv.congr rfl rfl rfl
    | enterCompile ctx req =>
      show FlightInv g s' (Function.update ℓ i ((ℓ i).started (checkerSource? g req)))
      cases hsource : checkerSource? g req with
      | none =>
        rw [CheckerLocal.started, Function.update_eq_self]
        exact inv
      | some source =>
        obtain ⟨hlead, hmissed, -⟩ := hpre source hsource
        obtain ⟨f, hf⟩ := map_fst_eq_some.mp hlead
        exact inv.started hf hmissed
    | leaveCompile ctx req res =>
      show FlightInv g s'
        (Function.update ℓ i ((ℓ i).finished g (setupResult res) (checkerSource? g req)))
      cases hsource : checkerSource? g req with
      | none =>
        rw [CheckerLocal.finished, Function.update_eq_self]
        exact inv
      | some source => exact inv.finished _ _
    | _ => exact absurd trivial hquiet
  | _ => exact absurd trivial hquiet

/-! ## The invariant of the trace -/

theorem Compiled.append {tr : Trace} {k : Tid} {source : Bytes}
    {res : Except Err Execution.CompileResult} (h : Compiled g tr k source res) (tr' : Trace) :
    Compiled g (tr ++ tr') k source res := by
  obtain ⟨ctx, raw, hdid, hres⟩ := h
  exact ⟨ctx, raw, hdid.append tr', hres⟩

theorem Asked.append {tr : Trace} {source : Bytes} (h : Asked tr source) (tr' : Trace) :
    Asked (tr ++ tr') source := by
  obtain ⟨i, ctx, hdid⟩ := h
  exact ⟨i, ctx, hdid.append tr'⟩

theorem Outcome.append {tr : Trace} {key : Bytes} {res : Except Err Execution.CompileResult}
    (h : Outcome g tr key res) (tr' : Trace) : Outcome g (tr ++ tr') key res := by
  obtain ⟨k, source, hkey, hasked, hcomp⟩ := h
  exact ⟨k, source, hkey, hasked.append tr', hcomp.append tr'⟩

variable (g) in
/-- Flight `f` for `key` has ended with `res`: its leader forgot it, and made a failing `res` itself. -/
def Landed (tr : Trace) (key : Bytes) (f : ℕ) (res : Except Err Execution.CompileResult) : Prop :=
  Outcome g tr key res ∧ ∃ k, Did tr k (.flightDo key) (.lead f) ∧
    Did tr k (.flightDone key f res) () ∧
    (¬ Succeeded res → ∃ source, g.sha256 source = key ∧ Asked tr source ∧ Compiled g tr k source res)

theorem Landed.append {tr : Trace} {key : Bytes} {f : ℕ} {res : Except Err Execution.CompileResult}
    (h : Landed g tr key f res) (tr' : Trace) : Landed g (tr ++ tr') key f res := by
  obtain ⟨hout, k, hlead, hdone, hmade⟩ := h
  refine ⟨hout.append tr', k, hlead.append tr', hdone.append tr', ?_⟩
  intro hfail
  obtain ⟨source, hkey, hasked, hcomp⟩ := hmade hfail
  exact ⟨source, hkey, hasked.append tr', hcomp.append tr'⟩

variable (g) in
/-- What a goroutine knows about itself is in the trace. -/
structure Standing (s : State) (tr : Trace) (i : Tid) (l : CheckerLocal) : Prop where
  asked : ∀ source ∈ l.asked, Asked tr source
  running : ∀ source, l.running = some source → Asked tr source
  hits : ∀ v ∈ l.hits, v.artifact.isSome
  known : ∀ key res, (key, res) ∈ l.known → Outcome g tr key res
  made : ∀ key f res, l.lead = some (key, f) → l.made = some res →
    ∃ source, g.sha256 source = key ∧ Asked tr source ∧ Compiled g tr i source res
  lead : ∀ key f, l.lead = some (key, f) → Did tr i (.flightDo key) (.lead f)
  joined : ∀ key f, l.joined = some (key, f) →
    s.flights key = some f ∨ ∃ res, s.landed f = some res ∧ Landed g tr key f res

variable (g) in
/-- What cache and flights hold and hand out is in the trace, and a flight is entered before it is
forgotten. -/
structure History (s : State) (tr : Trace) : Prop where
  cached : ∀ key v, s.cache key = some v → v.artifact.isSome ∧ Outcome g tr key (.ok v)
  hit : ∀ i key v, Did tr i (.cacheGet key) (some v) → v.artifact.isSome
  joins : ∀ i key f, Did tr i (.flightDo key) (.join f) →
    s.flights key = some f ∨ ∃ res, s.landed f = some res ∧ Landed g tr key f res
  waited : ∀ i f res, Did tr i (.flightWait f) res → s.landed f = some res
  done : ∀ k key f res, Did tr k (.flightDone key f res) () →
    s.landed f = some res ∧ Landed g tr key f res
  entered : ∀ t₁ t₂ i key fl, tr = t₁ ++ ⟨⟨.flightDo key, fl⟩, i⟩ :: t₂ →
    ∀ k key' res, ¬ Did t₁ k (.flightDone key' fl.id res) ()

section Extend

variable {s s' : State} {tr : Trace} {ℓ : Tid → CheckerLocal} {i : Tid} {l : CheckerLocal}
  {en : Entry Op Op.Ans Tid}

/-- A longer trace, in a state whose flights have at most landed since. -/
theorem Standing.extend (h : Standing g s tr i l)
    (hjoined : ∀ key f, l.joined = some (key, f) →
      (s.flights key = some f ∨ ∃ res, s.landed f = some res ∧ Landed g tr key f res) →
      s'.flights key = some f ∨ ∃ res, s'.landed f = some res ∧ Landed g (tr ++ [en]) key f res) :
    Standing g s' (tr ++ [en]) i l where
  asked source hs := (h.asked source hs).append _
  running source hs := (h.running source hs).append _
  hits := h.hits
  known key res hk := (h.known key res hk).append _
  made key f res hl hm := by
    obtain ⟨source, hkey, hasked, hcomp⟩ := h.made key f res hl hm
    exact ⟨source, hkey, hasked.append _, hcomp.append _⟩
  lead key f hl := (h.lead key f hl).append _
  joined key f hj := hjoined key f hj (h.joined key f hj)

end Extend

section Steps

variable {s s' : State} {tr : Trace} {ℓ : Tid → CheckerLocal} {i : Tid}

theorem Standing.landed_of_done {key : Bytes} {f : ℕ} {res : Except Err Execution.CompileResult}
    (h : Standing g s tr i (ℓ i)) (hpre : (checkerDiscipline g).pre i (ℓ i) (.flightDone key f res)) :
    Landed g (tr ++ [⟨⟨.flightDone key f res, ()⟩, i⟩]) key f res := by
  obtain ⟨hlead, hknown, -, hmade⟩ := hpre
  refine ⟨(h.known key res hknown).append _, i, (h.lead key f hlead).append _, did_last _ _ _ _, ?_⟩
  intro hfail
  rcases hmade hfail with hmade | ⟨v, hv, rfl⟩
  · obtain ⟨source, hkey, hasked, hcomp⟩ := h.made key f res hlead hmade
    exact ⟨source, hkey, hasked.append _, hcomp.append _⟩
  · exact absurd ⟨v, rfl, h.hits v hv⟩ hfail

/-- A joined flight stays in progress or lands. -/
theorem joined_step (inv : FlightInv g s ℓ) (h : Standing g s tr i (ℓ i)) {e : Op} {r : e.Ans}
    (hpre : (checkerDiscipline g).pre i (ℓ i) e) (hact : act i s e r s') (key : Bytes) (f : ℕ)
    (hf : s.flights key = some f ∨ ∃ res, s.landed f = some res ∧ Landed g tr key f res) :
    s'.flights key = some f ∨
      ∃ res, s'.landed f = some res ∧ Landed g (tr ++ [⟨⟨e, r⟩, i⟩]) key f res := by
  have hsame : s'.flights = s.flights → s'.landed = s.landed →
      s'.flights key = some f ∨
        ∃ res, s'.landed f = some res ∧ Landed g (tr ++ [⟨⟨e, r⟩, i⟩]) key f res := by
    intro hflights hlanded
    rw [hflights, hlanded]
    exact hf.imp_right fun ⟨res, hres, hland⟩ => ⟨res, hres, hland.append _⟩
  by_cases hquiet : e.CheckerQuiet
  · obtain ⟨-, hflights, hlanded, -⟩ := act_quiet hquiet hact
    exact hsame hflights hlanded
  cases e with
  | cacheGet key => exact hsame (by rw [hact.2]) (by rw [hact.2])
  | cacheAdd key value =>
    obtain ⟨keep, rfl⟩ := hact
    exact hsame rfl rfl
  | flightDo key₀ =>
    match r, hact with
    | .lead f₀, ⟨hkey, hf₀, hs⟩ =>
      subst hf₀ hs
      rcases hf with hf | ⟨res, hres, hland⟩
      · have hne : key ≠ key₀ := by
          rintro rfl
          exact absurd (hf.symm.trans hkey) (by simp)
        exact .inl ((Function.update_of_ne hne _ _).trans hf)
      · exact .inr ⟨res, hres, hland.append _⟩
    | .join f₀, ⟨_, hs⟩ => exact hsame (by rw [hs]) (by rw [hs])
  | flightWait f => exact hsame (by rw [hact.2]) (by rw [hact.2])
  | flightDone key₀ f₀ res₀ =>
    have hland := h.landed_of_done hpre
    have hlead := inv.lead_flight i key₀ f₀ hpre.1
    obtain rfl : s' = _ := hact
    rcases hf with hf | ⟨res, hres, hland'⟩
    · by_cases hne : key = key₀
      · subst hne
        obtain rfl : f = f₀ := Option.some.inj (hf.symm.trans hlead)
        exact .inr ⟨res₀, Function.update_self _ _ _, hland⟩
      · exact .inl ((Function.update_of_ne hne _ _).trans hf)
    · have hne : f ≠ f₀ := by
        rintro rfl
        exact absurd (hres.symm.trans (inv.fresh key₀ f hlead).2) (by simp)
      exact .inr ⟨res, (Function.update_of_ne hne _ _).trans hres, hland'.append _⟩
  | mark m => exact hsame (by rw [show s' = s from hact]) (by rw [show s' = s from hact])
  | _ => exact absurd trivial hquiet

theorem Standing.insert_known {l : CheckerLocal} (h : Standing g s tr i l) {key : Bytes}
    {res : Except Err Execution.CompileResult} (hout : Outcome g tr key res) :
    ∀ key' res', (key', res') ∈ insert (key, res) l.known → Outcome g tr key' res' := by
  intro key' res' hmem
  rcases Set.mem_insert_iff.mp hmem with heq | hmem
  · obtain ⟨rfl, rfl⟩ := Prod.mk.inj heq
    exact hout
  · exact h.known key' res' hmem

/-- The goroutine that moves keeps its standing. -/
theorem Standing.step (inv : FlightInv g s ℓ) (hist : History g s tr) (h : Standing g s tr i (ℓ i))
    {e : Op} {r : e.Ans} (hpre : (checkerDiscipline g).pre i (ℓ i) e) (hact : act i s e r s') :
    Standing g s' (tr ++ [⟨⟨e, r⟩, i⟩]) i ((checkerDiscipline g).next i (ℓ i) e r) := by
  have hstay : Standing g s' (tr ++ [⟨⟨e, r⟩, i⟩]) i (ℓ i) :=
    h.extend fun key f _ hf => joined_step inv h hpre hact key f hf
  by_cases hquiet : e.CheckerQuiet
  · rw [(checkerDiscipline_quiet g hquiet i (ℓ i)).2 r]
    exact hstay
  cases e with
  | cacheGet key =>
    obtain ⟨rfl, rfl⟩ := hact
    show Standing g s' _ i ((ℓ i).lookedUp key (s'.cache key))
    cases hget : s'.cache key with
    | none =>
      rw [hget] at hstay
      exact ⟨hstay.asked, hstay.running, hstay.hits, hstay.known, hstay.made, hstay.lead,
        hstay.joined⟩
    | some v =>
      rw [hget] at hstay
      -- a hit is the outcome of a compilation that was cached for this key
      obtain ⟨hart, hout⟩ := hist.cached key v hget
      refine ⟨hstay.asked, hstay.running, ?_, hstay.insert_known (hout.append _), hstay.made,
        hstay.lead, hstay.joined⟩
      intro v' hv'
      rcases Set.mem_insert_iff.mp hv' with rfl | hv'
      · exact hart
      · exact hstay.hits v' hv'
  | cacheAdd key value =>
    exact ⟨hstay.asked, hstay.running, hstay.hits, hstay.known, hstay.made, hstay.lead, hstay.joined⟩
  | flightDo key =>
    match r, hact with
    | .lead f, ⟨hkey, hf, hs⟩ =>
      refine ⟨hstay.asked, hstay.running, hstay.hits, hstay.known, ?_, ?_, hstay.joined⟩
      · intro key' f' res _ hmade
        cases hmade
      · rintro key' f' heq
        obtain ⟨rfl, rfl⟩ := Prod.mk.inj (Option.some.inj heq)
        exact did_last _ _ _ _
    | .join f, ⟨hf, hs⟩ =>
      refine ⟨hstay.asked, hstay.running, hstay.hits, hstay.known, hstay.made, hstay.lead, ?_⟩
      rintro key' f' heq
      obtain ⟨rfl, rfl⟩ := Prod.mk.inj (Option.some.inj heq)
      exact .inl (by rw [hs]; exact hf)
  | flightWait f =>
    obtain ⟨hres, rfl⟩ := hact
    obtain ⟨key, hjoined⟩ := hpre
    refine ⟨hstay.asked, hstay.running, hstay.hits, ?_, hstay.made, hstay.lead, hstay.joined⟩
    rintro key' res' (hmem | ⟨hj, rfl⟩)
    · exact hstay.known key' res' hmem
    · -- what a joined flight hands over is what it landed with
      rcases hstay.joined key' f hj with hf | ⟨res, hres', hland⟩
      · exact absurd (hres.symm.trans (inv.fresh key' f hf).2) (by simp)
      · obtain rfl := Option.some.inj (hres.symm.trans hres')
        exact hland.1
  | flightDone key f res =>
    refine ⟨hstay.asked, hstay.running, hstay.hits, hstay.known, ?_, ?_, hstay.joined⟩
    · intro key' f' res' hlead
      cases hlead
    · intro key' f' hlead
      cases hlead
  | mark m =>
    obtain rfl : s' = s := hact
    cases m with
    | enterChecker ctx source =>
      refine ⟨?_, hstay.running, hstay.hits, hstay.known, hstay.made, hstay.lead, hstay.joined⟩
      intro source' hmem
      rcases Set.mem_insert_iff.mp hmem with rfl | hmem
      · exact ⟨i, ctx, did_last _ _ _ _⟩
      · exact hstay.asked source' hmem
    | enterCompile ctx req =>
      show Standing g s' _ i ((ℓ i).started (checkerSource? g req))
      cases hsource : checkerSource? g req with
      | none => exact hstay
      | some source =>
        refine ⟨hstay.asked, ?_, hstay.hits, hstay.known, hstay.made, hstay.lead, hstay.joined⟩
        rintro source' heq
        obtain rfl := Option.some.inj heq
        exact hstay.asked _ (hpre _ hsource).2.2.2
    | leaveCompile ctx req res =>
      show Standing g s' _ i ((ℓ i).finished g (setupResult res) (checkerSource? g req))
      cases hsource : checkerSource? g req with
      | none => exact hstay
      | some source =>
        have hrun := hpre source hsource
        have hasked := hstay.running source hrun
        obtain rfl := (checkerSource?_eq_some g).mp hsource
        have hcomp : Compiled g (tr ++ [⟨⟨.mark (.leaveCompile ctx
            (checkerCompileRequest g.testlibHeader source) res), r⟩, i⟩]) i source (setupResult res) :=
          ⟨ctx, res, did_last _ _ _ _, rfl⟩
        refine ⟨hstay.asked, ?_, hstay.hits, hstay.insert_known ⟨i, source, rfl, hasked, hcomp⟩, ?_,
          hstay.lead, hstay.joined⟩
        · intro source' heq
          cases heq
        · rintro key f res' hlead heq
          obtain rfl := Option.some.inj heq
          -- only the leader of a flight compiles, and it leads this one
          obtain ⟨f', hlead'⟩ := (inv.running i source hrun).2
          obtain ⟨rfl, -⟩ := Prod.mk.inj (Option.some.inj (hlead'.symm.trans hlead))
          exact ⟨source, rfl, hasked, hcomp⟩
    | _ => exact absurd trivial hquiet
  | _ => exact absurd trivial hquiet

/-- A split of a longer trace is at its last entry or in front of it. -/
theorem snoc_eq_append_cons {tr t₁ t₂ : Trace} {en en' : Entry Op Op.Ans Tid}
    (h : tr ++ [en] = t₁ ++ en' :: t₂) :
    (en' = en ∧ t₁ = tr) ∨ ∃ t₃, t₂ = t₃ ++ [en] ∧ tr = t₁ ++ en' :: t₃ := by
  rcases List.eq_nil_or_concat t₂ with rfl | ⟨t₃, last, rfl⟩
  · obtain ⟨htr, hen⟩ := List.append_inj' h rfl
    exact .inl ⟨(List.cons.inj hen).1.symm, htr.symm⟩
  · rw [List.concat_eq_append, ← List.cons_append, ← List.append_assoc] at h
    obtain ⟨htr, hen⟩ := List.append_inj' h rfl
    exact .inr ⟨t₃, by rw [List.concat_eq_append, (List.cons.inj hen).1], htr⟩

/-- What has landed stays landed. -/
theorem landed_step (inv : FlightInv g s ℓ) {e : Op} {r : e.Ans}
    (hpre : (checkerDiscipline g).pre i (ℓ i) e) (hact : act i s e r s') (f : ℕ)
    {res : Except Err Execution.CompileResult} (hf : s.landed f = some res) :
    s'.landed f = some res := by
  by_cases hquiet : e.CheckerQuiet
  · rw [(act_quiet hquiet hact).2.2.1]
    exact hf
  cases e with
  | cacheGet key => rw [hact.2]; exact hf
  | cacheAdd key value =>
    obtain ⟨keep, rfl⟩ := hact
    exact hf
  | flightDo key =>
    match r, hact with
    | .lead f₀, ⟨_, _, hs⟩ => rw [hs]; exact hf
    | .join f₀, ⟨_, hs⟩ => rw [hs]; exact hf
  | flightWait f₀ => rw [hact.2]; exact hf
  | flightDone key f₀ res₀ =>
    have hfresh := (inv.fresh key f₀ (inv.lead_flight i key f₀ hpre.1)).2
    obtain rfl : s' = _ := hact
    have hne : f ≠ f₀ := by
      rintro rfl
      exact absurd (hf.symm.trans hfresh) (by simp)
    exact (Function.update_of_ne hne _ _).trans hf
  | mark m => rw [show s' = s from hact]; exact hf
  | _ => exact absurd trivial hquiet

/-- What an entry of the trace has to bring along. -/
structure Newly (s' : State) (tr : Trace) (i : Tid) (e : Op) (r : e.Ans) : Prop where
  hit : ∀ key v, (⟨e, r⟩ : Event Op Op.Ans) = ⟨.cacheGet key, some v⟩ → v.artifact.isSome
  joins : ∀ key f, (⟨e, r⟩ : Event Op Op.Ans) = ⟨.flightDo key, .join f⟩ → s'.flights key = some f
  waited : ∀ f res, (⟨e, r⟩ : Event Op Op.Ans) = ⟨.flightWait f, res⟩ → s'.landed f = some res
  done : ∀ key f res, e = .flightDone key f res →
    s'.landed f = some res ∧ Landed g (tr ++ [⟨⟨e, r⟩, i⟩]) key f res
  entered : ∀ key fl, (⟨e, r⟩ : Event Op Op.Ans) = ⟨.flightDo key, fl⟩ → s'.landed fl.id = none

theorem event_of_entry {e e' : Op} {r : e.Ans} {r' : e'.Ans} {k : Tid}
    (h : (⟨⟨e', r'⟩, k⟩ : Entry Op Op.Ans Tid) = ⟨⟨e, r⟩, i⟩) :
    (⟨e, r⟩ : Event Op Op.Ans) = ⟨e', r'⟩ :=
  (congrArg Entry.toEvent h).symm

/-- A step keeps the history, given what its own entry brings along. -/
theorem History.snoc (inv : FlightInv g s ℓ) (h : History g s tr) (hst : Standing g s tr i (ℓ i))
    {e : Op} {r : e.Ans} (hpre : (checkerDiscipline g).pre i (ℓ i) e) (hact : act i s e r s')
    (hnew : Newly (g := g) s' tr i e r)
    (hcached : ∀ key v, s'.cache key = some v →
      v.artifact.isSome ∧ Outcome g (tr ++ [⟨⟨e, r⟩, i⟩]) key (.ok v)) :
    History g s' (tr ++ [⟨⟨e, r⟩, i⟩]) where
  cached := hcached
  hit k key v hdid := by
    rcases did_snoc.mp hdid with hdid | heq
    · exact h.hit k key v hdid
    · exact hnew.hit key v (event_of_entry heq)
  joins k key f hdid := by
    rcases did_snoc.mp hdid with hdid | heq
    · exact joined_step inv hst hpre hact key f (h.joins k key f hdid)
    · exact .inl (hnew.joins key f (event_of_entry heq))
  waited k f res hdid := by
    rcases did_snoc.mp hdid with hdid | heq
    · exact landed_step inv hpre hact f (h.waited k f res hdid)
    · exact hnew.waited f res (event_of_entry heq)
  done k key f res hdid := by
    rcases did_snoc.mp hdid with hdid | heq
    · obtain ⟨hf, hland⟩ := h.done k key f res hdid
      exact ⟨landed_step inv hpre hact f hf, hland.append _⟩
    · exact hnew.done key f res (congrArg (fun en => en.op) heq).symm
  entered t₁ t₂ k key fl htr := by
    rcases snoc_eq_append_cons htr with ⟨heq, rfl⟩ | ⟨t₃, -, htr'⟩
    · intro k' key' res hdid
      have hland := landed_step inv hpre hact _ (h.done k' key' fl.id res hdid).1
      exact absurd (hland.symm.trans (hnew.entered key fl (event_of_entry heq))) (by simp)
    · exact h.entered t₁ t₃ k key fl htr'

theorem History.cached_same (h : History g s tr) {en : Entry Op Op.Ans Tid}
    (hcache : s'.cache = s.cache) (key : Bytes) (v : Execution.CompileResult)
    (hv : s'.cache key = some v) :
    v.artifact.isSome ∧ Outcome g (tr ++ [en]) key (.ok v) := by
  rw [hcache] at hv
  obtain ⟨hart, hout⟩ := h.cached key v hv
  exact ⟨hart, hout.append _⟩

theorem History.step (inv : FlightInv g s ℓ) (h : History g s tr) (hst : Standing g s tr i (ℓ i))
    {e : Op} {r : e.Ans} (hpre : (checkerDiscipline g).pre i (ℓ i) e) (hact : act i s e r s') :
    History g s' (tr ++ [⟨⟨e, r⟩, i⟩]) := by
  by_cases hquiet : e.CheckerQuiet
  · refine h.snoc inv hst hpre hact ?_ (h.cached_same (act_quiet hquiet hact).1)
    constructor
    · rintro key v ⟨⟩
      exact absurd hquiet id
    · rintro key f ⟨⟩
      exact absurd hquiet id
    · rintro f res ⟨⟩
      exact absurd hquiet id
    · rintro key f res rfl
      exact absurd hquiet id
    · rintro key fl ⟨⟩
      exact absurd hquiet id
  cases e with
  | cacheGet key =>
    refine h.snoc inv hst hpre hact ?_ (h.cached_same (by rw [hact.2]))
    refine ⟨?_, by simp, by simp, by simp, by simp⟩
    rintro key' v ⟨⟩
    exact (h.cached key v hact.1.symm).1
  | cacheAdd key value =>
    refine h.snoc inv hst hpre hact (by constructor <;> simp) ?_
    -- what is not evicted was in the cache before, or has just been added
    obtain ⟨keep, rfl⟩ := hact
    intro key' v hv
    by_cases hkey : key' = key
    · subst hkey
      obtain rfl : value = v := by simpa using hv
      exact ⟨hpre.2.1, (hst.known _ _ hpre.1).append _⟩
    · simp only [Function.update_of_ne hkey] at hv
      split at hv
      · have hsame : s.cache = s.cache := rfl
        exact h.cached_same hsame key' v hv
      · cases hv
  | flightDo key =>
    match r, hact with
    | .lead f, hact =>
      obtain ⟨hkey, hf, hs⟩ := hact
      refine h.snoc inv hst hpre ⟨hkey, hf, hs⟩ ?_ (h.cached_same (by rw [hs]))
      refine ⟨by simp, by simp, by simp, by simp, ?_⟩
      rintro key' fl ⟨⟩
      -- the identifier of a new flight is fresh, so nothing has landed under it
      by_contra hland
      obtain ⟨res, hres⟩ := Option.ne_none_iff_exists'.mp hland
      rw [hs] at hres
      have := inv.landed_lt _ _ hres
      rw [Flight.id, hf] at this
      exact absurd this (lt_irrefl _)
    | .join f, hact =>
      obtain ⟨hf, hs⟩ := hact
      refine h.snoc inv hst hpre ⟨hf, hs⟩ ?_ (h.cached_same (by rw [hs]))
      refine ⟨by simp, ?_, by simp, by simp, ?_⟩
      · rintro key' f' ⟨⟩
        rw [hs]
        exact hf
      · rintro key' fl ⟨⟩
        rw [hs]
        exact (inv.fresh key f hf).2
  | flightWait f =>
    refine h.snoc inv hst hpre hact ?_ (h.cached_same (by rw [hact.2]))
    refine ⟨by simp, by simp, ?_, by simp, by simp⟩
    rintro f' res ⟨⟩
    rw [hact.2]
    exact hact.1
  | flightDone key f res =>
    have hland := hst.landed_of_done hpre
    refine h.snoc inv hst hpre hact ?_ (h.cached_same (by rw [show s' = _ from hact]))
    refine ⟨by simp, by simp, by simp, ?_, by simp⟩
    rintro key' f' res' ⟨⟩
    obtain rfl : s' = _ := hact
    exact ⟨Function.update_self _ _ _, hland⟩
  | mark m =>
    exact h.snoc inv hst hpre hact (by constructor <;> simp)
      (h.cached_same (by rw [show s' = s from hact]))
  | _ => exact absurd trivial hquiet

end Steps

variable (g) in
/-- The invariant of shared checker compilations. -/
structure CheckerInv (s : State) (tr : Trace) (ℓ : Tid → CheckerLocal) : Prop where
  flight : FlightInv g s ℓ
  history : History g s tr
  standing : ∀ i, Standing g s tr i (ℓ i)

theorem checker_upholds : Upholds semantics (checkerDiscipline g) (CheckerInv g) := by
  intro s tr ℓ i e r s' inv hpre hact
  have hst := inv.standing i
  refine ⟨inv.flight.step hpre hact, inv.history.step inv.flight hst hpre hact, ?_⟩
  intro j
  by_cases hij : j = i
  · subst hij
    rw [Function.update_self]
    exact hst.step inv.flight inv.history hpre hact
  · rw [Function.update_of_ne hij]
    exact (inv.standing j).extend fun key f _ hf => joined_step inv.flight hst hpre hact key f hf

theorem checkerInv_new (judgeMax execMax : ℕ) (cpus : List ℕ) :
    CheckerInv g (State.new judgeMax execMax cpus) [] fun _ => {} where
  flight := by constructor <;> simp [State.new]
  history := by constructor <;> simp [State.new, Did]
  standing i := by constructor <;> simp

end Afterglow.Engine
