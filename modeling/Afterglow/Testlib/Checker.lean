import Afterglow.Testlib.Token

/-!
# Checkers that compare an output with an answer

Reference: `support/testlib.h`, `registerTestlibCmd` and `quitf`, as the checkers of
`support/checkers` use them. A checker reads the two streams `ouf` and `ans` and ends by `quitf`.

Several checkers read both files token by token in step. `Fair` is what such a checker promises: it
accepts exactly the pairs of files whose tokens are well formed and agree, and it names the side whose
token is not well formed.
-/

namespace Afterglow.Testlib

open Halting

/-- The streams `ouf` and `ans`. -/
structure Streams where
  ouf : Reader
  ans : Reader

/-- Code that works on both streams and may halt the process. -/
abbrev Checking := StateT Streams (Except Stop)

/-- A member of `InStream`, called on `ouf`. -/
def onOuf {α : Type} (m : TMode → Reading α) : Checking α :=
  zoom Streams.ouf (fun r s => { s with ouf := r }) (m .output)

/-- A member of `InStream`, called on `ans`. -/
def onAns {α : Type} (m : TMode → Reading α) : Checking α :=
  zoom Streams.ans (fun r s => { s with ans := r }) (m .answer)

/-- `quitf`, which is `ouf.quit`. -/
def quitf {α : Type} (result : TResult) : Checking α := do
  let s ← get
  throw (quit .output (some s.ouf) result)

/-- `main` of a checker, on the contents of the three files. -/
def check (body : Checking Empty) (inf ouf ans : Bytes) : Stop :=
  match registerTestlibCmd inf ouf ans with
  | .error stop => stop
  | .ok (oufReader, ansReader) =>
    match body ⟨oufReader, ansReader⟩ with
    | .error stop => stop
    | .ok (never, _) => never.elim

/-- `while (!ans.seekEof() && !ouf.seekEof())`, for at most `n` rounds. -/
def lockstep (step : Checking Unit) : ℕ → Checking Unit
  | 0 => throw .diverge
  | n + 1 => do
    let ansEnds ← onAns fun _ => seekEof
    if ansEnds then
      pure ()
    else
      let oufEnds ← onOuf fun _ => seekEof
      if oufEnds then
        pure ()
      else
        step
        lockstep step n

/-- `while (!in.seekEof()) { in.read…(); count++; }`, for at most `n` rounds; `atEnd` and `next` are
the calls on the stream. -/
def drain {α : Type} (atEnd : Checking Bool) (next : Checking α) : ℕ → ℕ → Checking ℕ
  | 0, _ => throw .diverge
  | n + 1, count => do
    let ends ← atEnd
    if ends then
      pure count
    else
      let _ ← next
      drain atEnd next n (count + 1)

/-- The text of `ncmp` and `nyesno`: compare in step, count what is left on either side, and accept if
that is nothing. -/
def compareInStep {α : Type} (step : Checking Unit) (read : TMode → Reading α) : Checking Empty := do
  let s ← get
  lockstep step (s.ans.remaining + 1)
  let s ← get
  let extraInAnsCount ← drain (onAns fun _ => seekEof) (onAns read) (s.ans.remaining + 1) 0
  let extraInOufCount ← drain (onOuf fun _ => seekEof) (onOuf read) (s.ouf.remaining + 1) 0
  if extraInAnsCount > 0 then
    quitf .wa
  else if extraInOufCount > 0 then
    quitf .wa
  else
    quitf .ok

/-! ## The streams in front of tokens -/

/-- The streams stand in front of the tokens `ts` of the answer and `us` of the output. -/
structure Facing (ts us : List Bytes) (s : Streams) : Prop where
  ans : Ahead ts s.ans
  ouf : Ahead us s.ouf

section Facing

variable {ts us : List Bytes} {s : Streams} {E : Stop → Prop}

@[simp] theorem quit_output_pe (ouf : Option Reader) : quit .output ouf .pe = .exit PE_EXIT_CODE := by
  simp [quit, shouldCheckDirt, resultExitCode, PE_EXIT_CODE]

@[simp] theorem quit_output_unexpectedEof (ouf : Option Reader) :
    quit .output ouf .unexpectedEof = .exit PE_EXIT_CODE := by
  simp [quit, shouldCheckDirt, resultExitCode, PE_EXIT_CODE]

@[simp] theorem quit_output_wa (ouf : Option Reader) : quit .output ouf .wa = .exit WA_EXIT_CODE := by
  simp [quit, shouldCheckDirt, resultExitCode, WA_EXIT_CODE]

@[simp] theorem quit_output_fail (ouf : Option Reader) : quit .output ouf .fail = .exit FAIL_EXIT_CODE := by
  simp [quit, shouldCheckDirt, resultExitCode, FAIL_EXIT_CODE]

/-- Whatever goes wrong on the answer is a failure. -/
@[simp] theorem quit_answer_pe (ouf : Option Reader) : quit .answer ouf .pe = .exit FAIL_EXIT_CODE := by
  simp [quit, resultExitCode, FAIL_EXIT_CODE]

@[simp] theorem quit_answer_unexpectedEof (ouf : Option Reader) :
    quit .answer ouf .unexpectedEof = .exit FAIL_EXIT_CODE := by
  simp [quit, resultExitCode, FAIL_EXIT_CODE]

theorem quitf_leads {α : Type} {result : TResult} {Q : α → Streams → Prop}
    (h : E (quit .output (some s.ouf) result)) : Leads (quitf result) s E Q :=
  Leads.bind (Leads.get (Leads.throw h))

/-- `quitf(_ok, …)` is a presentation error if there are tokens left in the output. -/
theorem Facing.quit_ok (h : Facing ts us s) :
    quit .output (some s.ouf) .ok = .exit (if us = [] then 0 else PE_EXIT_CODE) := by
  obtain ⟨b, hat, rfl⟩ := h.ouf
  obtain ⟨e, r, heof, rfl, -⟩ := hat.seekEof
  by_cases hnil : tokens b = []
  · simp [quit, shouldCheckDirt, heof, hnil, resultExitCode]
  · have hempty : (tokens b).isEmpty = false := by simpa using hnil
    simp [quit, shouldCheckDirt, heof, hempty, hnil, resultExitCode, PE_EXIT_CODE]

theorem Facing.ansSeekEof (h : Facing ts us s) :
    Leads (onAns fun _ => seekEof) s E fun e s' => e = ts.isEmpty ∧ Facing ts us s' := by
  refine Leads.zoom (h.ans.seekEof.mono ?_)
  rintro e r ⟨rfl, h'⟩
  exact ⟨rfl, h', h.ouf⟩

theorem Facing.oufSeekEof (h : Facing ts us s) :
    Leads (onOuf fun _ => seekEof) s E fun e s' => e = us.isEmpty ∧ Facing ts us s' := by
  refine Leads.zoom (h.ouf.seekEof.mono ?_)
  rintro e r ⟨rfl, h'⟩
  exact ⟨rfl, h.ans, h'⟩

/-- The next word of the answer. -/
theorem Facing.ansWord {t : Bytes} (h : Facing (t :: ts) us s)
    (hlong : maxTokenLength < t.length → E (.exit FAIL_EXIT_CODE)) :
    Leads (onAns readWordTo) s E fun w s' => w = t ∧ t.length ≤ maxTokenLength ∧ Facing ts us s' := by
  refine Leads.zoom ((h.ans.readWordTo .answer (by simp) ?_).mono ?_)
  · intro t' ts' hts hmax
    obtain ⟨rfl, rfl⟩ := List.cons.inj hts
    simpa using hlong hmax
  · rintro w r ⟨hlen, ts', hts, h'⟩
    obtain ⟨rfl, rfl⟩ := List.cons.inj hts
    exact ⟨rfl, hlen, h', h.ouf⟩

/-- The next word of the output. -/
theorem Facing.oufWord {u : Bytes} (h : Facing ts (u :: us) s)
    (hlong : maxTokenLength < u.length → E (.exit PE_EXIT_CODE)) :
    Leads (onOuf readWordTo) s E fun w s' => w = u ∧ u.length ≤ maxTokenLength ∧ Facing ts us s' := by
  refine Leads.zoom ((h.ouf.readWordTo .output (by simp) ?_).mono ?_)
  · intro u' us' hus hmax
    obtain ⟨rfl, rfl⟩ := List.cons.inj hus
    simpa using hlong hmax
  · rintro w r ⟨hlen, us', hus, h'⟩
    obtain ⟨rfl, rfl⟩ := List.cons.inj hus
    exact ⟨rfl, hlen, h.ans, h'⟩

end Facing

/-! ## Reading in step -/

/-- The checker may end with `stop` in front of the tokens `ts` of the answer and `us` of the output:
exit code 0 means that all tokens are `good` and agree, 3 that a token of the answer is not good, 2
that a token of the output is not good, and there are no others but 1. -/
structure Fair (good : Bytes → Prop) (same : Bytes → Bytes → Prop) (ts us : List Bytes) (stop : Stop) :
    Prop where
  code : ∃ c ≤ 3, stop = .exit c
  accepts : stop = .exit 0 ↔ (∀ t ∈ ts, good t) ∧ (∀ u ∈ us, good u) ∧ List.Forall₂ same ts us
  fails : stop = .exit FAIL_EXIT_CODE → ∃ t ∈ ts, ¬ good t
  malformed : stop = .exit PE_EXIT_CODE → ∃ u ∈ us, ¬ good u

section Fair

variable {good : Bytes → Prop} {same : Bytes → Bytes → Prop} {ts us : List Bytes}

/-- A good pair in front makes no difference. -/
theorem Fair.cons {t u : Bytes} {stop : Stop} (ht : good t) (hu : good u) (hsame : same t u)
    (h : Fair good same ts us stop) : Fair good same (t :: ts) (u :: us) stop := by
  refine ⟨h.code, ?_, ?_, ?_⟩
  · rw [h.accepts]
    simp [ht, hu, hsame]
  · intro hfail
    obtain ⟨t', ht', hbad⟩ := h.fails hfail
    exact ⟨t', List.mem_cons_of_mem _ ht', hbad⟩
  · intro hpe
    obtain ⟨u', hu', hbad⟩ := h.malformed hpe
    exact ⟨u', List.mem_cons_of_mem _ hu', hbad⟩

theorem Fair.fail {t : Bytes} (ht : t ∈ ts) (hbad : ¬ good t) :
    Fair good same ts us (.exit FAIL_EXIT_CODE) where
  code := ⟨3, le_rfl, rfl⟩
  accepts := iff_of_false (by decide) fun h => hbad (h.1 t ht)
  fails _ := ⟨t, ht, hbad⟩
  malformed h := absurd h (by decide)

theorem Fair.pe {u : Bytes} (hu : u ∈ us) (hbad : ¬ good u) : Fair good same ts us (.exit PE_EXIT_CODE) where
  code := ⟨2, by omega, rfl⟩
  accepts := iff_of_false (by decide) fun h => hbad (h.2.1 u hu)
  fails h := absurd h (by decide)
  malformed _ := ⟨u, hu, hbad⟩

theorem Fair.wa (hdiffer : ¬ List.Forall₂ same ts us) : Fair good same ts us (.exit WA_EXIT_CODE) where
  code := ⟨1, by omega, rfl⟩
  accepts := iff_of_false (by decide) fun h => hdiffer h.2.2
  fails h := absurd h (by decide)
  malformed h := absurd h (by decide)

theorem Fair.ok : Fair good same [] [] (.exit 0) where
  code := ⟨0, by omega, rfl⟩
  accepts := by simp
  fails h := absurd h (by decide)
  malformed h := absurd h (by decide)

/-- What one round of the loop does, the loop does with the tokens in front. -/
theorem lockstep_leads {step : Checking Unit}
    (hstep : ∀ t ts u us s, Facing (t :: ts) (u :: us) s →
      Leads step s (Fair good same (t :: ts) (u :: us)) fun _ s' =>
        Facing ts us s' ∧ good t ∧ good u ∧ same t u)
    (n : ℕ) (hn : ts.length < n) {s : Streams} (h : Facing ts us s) :
    Leads (lockstep step n) s (Fair good same ts us) fun _ s' =>
      ∃ ts' us', Facing ts' us' s' ∧ (ts' = [] ∨ us' = []) ∧
        ∀ stop, Fair good same ts' us' stop → Fair good same ts us stop := by
  induction n generalizing ts us s with
  | zero => omega
  | succ n ih =>
    refine Leads.bind (h.ansSeekEof.mono ?_)
    rintro e s₁ ⟨rfl, h₁⟩
    cases ts with
    | nil => exact Leads.pure ⟨[], us, h₁, .inl rfl, fun _ h => h⟩
    | cons t ts =>
      refine Leads.bind (h₁.oufSeekEof.mono ?_)
      rintro e s₂ ⟨rfl, h₂⟩
      cases us with
      | nil => exact Leads.pure ⟨t :: ts, [], h₂, .inr rfl, fun _ h => h⟩
      | cons u us =>
        refine Leads.bind ((hstep t ts u us s₂ h₂).mono ?_)
        rintro _ s₃ ⟨h₃, ht, hu, hsame⟩
        rw [List.length_cons] at hn
        refine ((ih (by omega) h₃).weaken fun stop => Fair.cons ht hu hsame).mono ?_
        rintro _ s₄ ⟨ts', us', h₄, hend, hfair⟩
        exact ⟨ts', us', h₄, hend, fun stop hstop => Fair.cons ht hu hsame (hfair stop hstop)⟩

end Fair

section Drain

variable {α : Type}

/-- Counting the tokens left in a stream. `F` says which tokens it stands in front of. -/
theorem drain_leads {atEnd : Checking Bool} {next : Checking α} {F : List Bytes → Streams → Prop}
    {E : Stop → Prop} {ts : List Bytes} {s : Streams}
    (hend : ∀ ts s, F ts s → Leads atEnd s E fun e s' => e = ts.isEmpty ∧ F ts s')
    (hnext : ∀ t ts' s, t ∈ ts → F (t :: ts') s → Leads next s E fun _ s' => F ts' s')
    (n count : ℕ) (hn : ts.length < n) (h : F ts s) :
    Leads (drain atEnd next n count) s E fun total s' => total = count + ts.length ∧ F [] s' := by
  induction n generalizing ts s count with
  | zero => omega
  | succ n ih =>
    refine Leads.bind ((hend ts s h).mono ?_)
    rintro e s₁ ⟨rfl, h₁⟩
    cases ts with
    | nil => exact Leads.pure ⟨rfl, h₁⟩
    | cons t ts =>
      rw [List.length_cons] at hn
      refine Leads.bind ((hnext t ts s₁ List.mem_cons_self h₁).mono ?_)
      intro _ s₂ h₂
      refine (ih (fun t' ts' s ht' => hnext t' ts' s (List.mem_cons_of_mem _ ht')) (count + 1) (by omega)
        h₂).mono ?_
      rintro total s₃ ⟨rfl, h₃⟩
      exact ⟨by rw [List.length_cons]; omega, h₃⟩

/-- A loop that uses up both lists accepts; anything left over is a wrong answer. -/
theorem compareInStep_leads {good : Bytes → Prop} {same : Bytes → Bytes → Prop} {step : Checking Unit}
    {read : TMode → Reading α}
    (hstep : ∀ t ts u us s, Facing (t :: ts) (u :: us) s →
      Leads step s (Fair good same (t :: ts) (u :: us)) fun _ s' =>
        Facing ts us s' ∧ good t ∧ good u ∧ same t u)
    (hans : ∀ {t ts us s} {E : Stop → Prop}, Facing (t :: ts) us s → (¬ good t → E (.exit FAIL_EXIT_CODE)) →
      Leads (onAns read) s E fun _ s' => Facing ts us s')
    (houf : ∀ {ts u us s} {E : Stop → Prop}, Facing ts (u :: us) s → (¬ good u → E (.exit PE_EXIT_CODE)) →
      Leads (onOuf read) s E fun _ s' => Facing ts us s')
    (ts us : List Bytes) (s : Streams) (h : Facing ts us s) :
    Leads (compareInStep step read) s (Fair good same ts us) fun _ _ => True := by
  refine Leads.bind (Leads.get (Leads.bind ((lockstep_leads hstep _
    (Nat.lt_succ_of_le h.ans.length_le) h).mono ?_)))
  -- one of the lists is used up; what is left of the answer is counted first
  rintro _ s₁ ⟨ts', us', h₁, hend, hfair⟩
  refine Leads.bind (Leads.get (Leads.bind ((drain_leads (F := fun ts => Facing ts us')
    (fun _ _ => Facing.ansSeekEof) ?_ _ 0 (Nat.lt_succ_of_le h₁.ans.length_le) h₁).mono ?_)))
  · intro t ts'' s ht hs
    exact hans hs fun hbad => hfair _ (Fair.fail ht hbad)
  rintro _ s₂ ⟨rfl, h₂⟩
  refine Leads.bind ((drain_leads (F := fun us => Facing [] us) (fun _ _ => Facing.oufSeekEof) ?_ _ 0
    (Nat.lt_succ_of_le h₁.ouf.length_le) h₂).mono ?_)
  · intro u us'' s hu hs
    exact houf hs fun hbad => hfair _ (Fair.pe hu hbad)
  rintro _ s₃ ⟨rfl, h₃⟩
  rw [Nat.zero_add, Nat.zero_add]
  by_cases hnone : ts' = [] ∧ us' = []
  · obtain ⟨rfl, rfl⟩ := hnone
    rw [if_neg (by simp), if_neg (by simp)]
    refine quitf_leads (hfair _ ?_)
    rw [h₃.quit_ok]
    exact Fair.ok
  · have hwa : Fair good same ts us (quit .output (some s₃.ouf) .wa) := by
      rw [quit_output_wa]
      refine hfair _ (Fair.wa fun hall => hnone ?_)
      rcases hend with rfl | rfl
      · exact ⟨rfl, List.forall₂_nil_left_iff.mp hall⟩
      · exact ⟨List.forall₂_nil_right_iff.mp hall, rfl⟩
    split_ifs with hextra hextra'
    · exact quitf_leads hwa
    · exact quitf_leads hwa
    · exact absurd ⟨List.length_eq_zero_iff.mp (by omega), List.length_eq_zero_iff.mp (by omega)⟩ hnone

end Drain

/-! ## The whole run -/

/-- The three files are not too large to be opened. -/
structure Sized (inf ouf ans : Bytes) : Prop where
  inf : inf.length ≤ maxFileSize
  ouf : ouf.length ≤ maxFileSize
  ans : ans.length ≤ maxFileSize

/-- A run on files that can be opened is what the body makes of their contents. -/
theorem check_of_sized {body : Checking Empty} {inf ouf ans : Bytes} {E : Stop → Prop}
    (hsized : Sized inf ouf ans)
    (hbody : ∀ s, Holds 2 ans s.ans → Holds 2 (dropBom ouf) s.ouf → Leads body s E fun _ _ => True) :
    E (check body inf ouf ans) := by
  obtain ⟨oufReader, ansReader, hregister, houf, hans⟩ :=
    registerTestlibCmd_ok hsized.inf hsized.ouf hsized.ans
  obtain ⟨stop, hstop, hE⟩ := (hbody ⟨oufReader, ansReader⟩ hans houf).halts
  rw [check, hregister]
  simp only [hstop]
  exact hE

/-- How a run ends for the sake of a file that is too large: the output is to blame for its own size
only. -/
def TooLarge (inf ouf ans : Bytes) (stop : Stop) : Prop :=
  stop = .exit FAIL_EXIT_CODE ∧ (maxFileSize < inf.length ∨ maxFileSize < ans.length) ∨
    stop = .exit PE_EXIT_CODE ∧ maxFileSize < ouf.length

theorem registerTestlibCmd_error {inf ouf ans : Bytes} (hsized : ¬ Sized inf ouf ans) :
    ∃ stop, registerTestlibCmd inf ouf ans = .error stop ∧ TooLarge inf ouf ans stop := by
  by_cases hinf : inf.length > maxFileSize
  · refine ⟨.exit FAIL_EXIT_CODE, ?_, .inl ⟨rfl, .inl hinf⟩⟩
    simp [registerTestlibCmd, init, hinf, quit, resultExitCode, FAIL_EXIT_CODE, bind, Except.bind]
  by_cases houf : ouf.length > maxFileSize
  · refine ⟨.exit PE_EXIT_CODE, ?_, .inr ⟨rfl, houf⟩⟩
    simp [registerTestlibCmd, init, hinf, houf, bind, Except.bind]
  have hans : ans.length > maxFileSize := by
    by_contra hans
    exact hsized ⟨by omega, by omega, by omega⟩
  refine ⟨.exit FAIL_EXIT_CODE, ?_, .inl ⟨rfl, .inr hans⟩⟩
  obtain ⟨_, oufReader, hskip, -⟩ := skipBom_yields (Reader.new_holds ouf)
  simp [registerTestlibCmd, init, hinf, houf, hans, hskip, bind, Except.bind]

theorem check_of_not_sized (body : Checking Empty) {inf ouf ans : Bytes} (hsized : ¬ Sized inf ouf ans) :
    TooLarge inf ouf ans (check body inf ouf ans) := by
  obtain ⟨stop, hregister, hstop⟩ := registerTestlibCmd_error hsized
  rw [check, hregister]
  exact hstop

/-- How a run ends: it accepts exactly if `accepted`, and reports a failure or a presentation error only for
`answerBad` and `outputBad`. -/
structure Ends (accepted answerBad outputBad : Prop) (stop : Stop) : Prop where
  code : ∃ c ≤ 3, stop = .exit c
  accepts : stop = .exit 0 ↔ accepted
  fails : stop = .exit FAIL_EXIT_CODE → answerBad
  malformed : stop = .exit PE_EXIT_CODE → outputBad

/-- How a run ends on files that can be opened, and for the sake of one that is too large. -/
theorem check_ends {accepted answerBad outputBad : Prop} {body : Checking Empty} {inf ouf ans : Bytes}
    (h : Sized inf ouf ans → Ends accepted answerBad outputBad (check body inf ouf ans)) :
    Ends (Sized inf ouf ans ∧ accepted) (maxFileSize < inf.length ∨ maxFileSize < ans.length ∨ answerBad)
      (maxFileSize < ouf.length ∨ outputBad) (check body inf ouf ans) := by
  by_cases hsized : Sized inf ouf ans
  · obtain ⟨hcode, haccepts, hfails, hmalformed⟩ := h hsized
    exact ⟨hcode, by rw [haccepts, and_iff_right hsized], fun h => .inr (.inr (hfails h)),
      fun h => .inr (hmalformed h)⟩
  · rcases check_of_not_sized body hsized with ⟨hstop, hlarge⟩ | ⟨hstop, hlarge⟩
    · rw [hstop]
      exact ⟨⟨3, le_rfl, rfl⟩, iff_of_false (by decide) fun h => hsized h.1,
        fun _ => hlarge.imp_right .inl, fun h => absurd h (by decide)⟩
    · rw [hstop]
      exact ⟨⟨2, by omega, rfl⟩, iff_of_false (by decide) fun h => hsized h.1, fun h => absurd h (by decide),
        fun _ => .inl hlarge⟩

/-- What a checker that reads tokens in step promises about a run: it ends with an exit code up to 3, it
accepts exactly if all tokens are good and agree, it fails only for the sake of the input or the answer,
and it calls the output malformed only for the sake of the output. -/
structure Judges (good : Bytes → Prop) (same : Bytes → Bytes → Prop) (inf ouf ans : Bytes) (stop : Stop) :
    Prop where
  code : ∃ c ≤ 3, stop = .exit c
  accepts : stop = .exit 0 ↔ Sized inf ouf ans ∧ (∀ t ∈ tokens ans, good t) ∧
    (∀ u ∈ tokens (dropBom ouf), good u) ∧ List.Forall₂ same (tokens ans) (tokens (dropBom ouf))
  fails : stop = .exit FAIL_EXIT_CODE →
    maxFileSize < inf.length ∨ maxFileSize < ans.length ∨ ∃ t ∈ tokens ans, ¬ good t
  malformed : stop = .exit PE_EXIT_CODE → maxFileSize < ouf.length ∨ ∃ u ∈ tokens (dropBom ouf), ¬ good u

/-- The streams of a run on files that can be opened. -/
theorem facing_of_holds {ouf ans : Bytes} {s : Streams} (hans : Holds 2 ans s.ans)
    (houf : Holds 2 (dropBom ouf) s.ouf) : Facing (tokens ans) (tokens (dropBom ouf)) s :=
  ⟨⟨ans, .inl hans, rfl⟩, ⟨dropBom ouf, .inl houf, rfl⟩⟩

/-- What the body promises about the tokens ahead, the run does about those of the files. -/
theorem check_facing {body : Checking Empty} {P : List Bytes → List Bytes → Stop → Prop}
    (hbody : ∀ ts us s, Facing ts us s → Leads body s (P ts us) fun _ _ => True) {inf ouf ans : Bytes}
    (hsized : Sized inf ouf ans) : P (tokens ans) (tokens (dropBom ouf)) (check body inf ouf ans) :=
  check_of_sized hsized fun s hans houf => hbody _ _ s (facing_of_holds hans houf)

theorem check_judges {good : Bytes → Prop} {same : Bytes → Bytes → Prop} {body : Checking Empty}
    (hbody : ∀ ts us s, Facing ts us s → Leads body s (Fair good same ts us) fun _ _ => True)
    (inf ouf ans : Bytes) : Judges good same inf ouf ans (check body inf ouf ans) := by
  obtain ⟨hcode, haccepts, hfails, hmalformed⟩ := check_ends fun hsized =>
    have hfair := check_facing hbody hsized
    ⟨hfair.code, hfair.accepts, hfair.fails, hfair.malformed⟩
  exact ⟨hcode, haccepts, hfails, hmalformed⟩

end Afterglow.Testlib
