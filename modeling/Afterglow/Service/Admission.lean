import Afterglow.Engine.Slots
import Afterglow.Service.Requests

/-!
# Which requests are rejected

Reference: `validateJudgeRequest`, `Judge` and `materialize` in `internal/service/judge_service.go`, and
`readSource` in `internal/service/checker.go`.

The checks are spread over the time before and after a request gets its judge slot. Against a fixed file
system, what `materialize` reads is a function (`materialized`), so that the reasons of a rejection can be
said at once (`Rejected`).
-/

namespace Afterglow.Engine

open Concurrency Execution Service

/-! ## Reading resources -/

/-- The resource file systems, as what reading a file of them yields. -/
abbrev FileSystem := Resources → String → Except Err Bytes

/-- All reads of resources were answered by `fsys`. -/
def ReadsFrom (fsys : FileSystem) (events : List (Event Op Op.Ans)) : Prop :=
  ∀ fs name r, (⟨.ask (.readResource fs name), r⟩ : Event Op Op.Ans) ∈ events → r = fsys fs name

theorem ReadsFrom.left {fsys : FileSystem} {t₁ t₂ : List (Event Op Op.Ans)}
    (h : ReadsFrom fsys (t₁ ++ t₂)) : ReadsFrom fsys t₁ :=
  fun fs name r hmem => h fs name r (List.mem_append_left _ hmem)

theorem ReadsFrom.right {fsys : FileSystem} {t₁ t₂ : List (Event Op Op.Ans)}
    (h : ReadsFrom fsys (t₁ ++ t₂)) : ReadsFrom fsys t₂ :=
  fun fs name r hmem => h fs name r (List.mem_append_right _ hmem)

theorem ReadsFrom.head {fsys : FileSystem} {fs : Resources} {name : String}
    {r : (Op.ask (.readResource fs name)).Ans} {t : List (Event Op Op.Ans)}
    (h : ReadsFrom fsys (⟨.ask (.readResource fs name), r⟩ :: t)) : r = fsys fs name :=
  h fs name r List.mem_cons_self

theorem ReadsFrom.tail {fsys : FileSystem} {ev : Event Op Op.Ans} {t : List (Event Op Op.Ans)}
    (h : ReadsFrom fsys (ev :: t)) : ReadsFrom fsys t :=
  fun fs name r hmem => h fs name r (List.mem_cons_of_mem _ hmem)

variable {g : JudgeEngine} {ctx : Ctx} {fsys : FileSystem}

variable (g fsys) in
/-- A file of the external resources. -/
def externalFile (name : String) : Option Bytes :=
  if g.hasExternal then (fsys .external name).toOption else none

variable (g fsys) in
/-- The source of the chosen checker. -/
def chosenSource (choice : CheckerChoice) : Option Bytes :=
  match choice.kind with
  | .inline => some (utf8 choice.value)
  | .external => externalFile g fsys choice.value
  | .builtin => (fsys .bundled (builtinCheckerPath choice.value)).toOption

variable (g fsys) in
/-- The data of a case: both its texts, or the contents of both its files. -/
def caseContents (testCase : JudgeTestCase) : Option CaseData :=
  if testCase.inputFile = "" then
    some { input := utf8 testCase.inputText, expectedOutput := utf8 testCase.expectedOutput }
  else
    (externalFile g fsys testCase.inputFile).bind fun input =>
      (externalFile g fsys testCase.expectedOutputFile).map fun expectedOutput =>
        { input := input, expectedOutput := expectedOutput }

theorem readSource_runs {choice : CheckerChoice} {tr : List (Event Op Op.Ans)} {res : Except Err Bytes}
    (h : (readSource g choice).Runs tr res) (hreads : ReadsFrom fsys tr) :
    res.toOption = chosenSource g fsys choice := by
  unfold readSource at h
  unfold chosenSource
  cases hkind : choice.kind with
  | inline =>
    simp only [hkind] at h ⊢
    obtain ⟨rfl, rfl⟩ := Prog.runs_ret_iff.mp h
    rfl
  | external =>
    simp only [hkind] at h ⊢
    unfold externalFile
    split at h
    case isTrue hexternal =>
      obtain ⟨read, tr', rfl, h'⟩ := Prog.runs_op_iff.mp h
      obtain ⟨rfl, rfl⟩ := Prog.runs_ret_iff.mp h'
      rw [if_pos hexternal, ← hreads.head]
      cases read <;> rfl
    case isFalse hexternal =>
      obtain ⟨rfl, rfl⟩ := Prog.runs_ret_iff.mp h
      rw [if_neg hexternal]
      rfl
  | builtin =>
    simp only [hkind] at h ⊢
    obtain ⟨read, tr', rfl, h'⟩ := Prog.runs_op_iff.mp h
    obtain ⟨rfl, rfl⟩ := Prog.runs_ret_iff.mp h'
    rw [← hreads.head]
    cases read <;> rfl

theorem materializeCase_runs {testCase : JudgeTestCase} {tr : List (Event Op Op.Ans)}
    {res : Except Err CaseData} (h : (materializeCase g testCase).Runs tr res)
    (hreads : ReadsFrom fsys tr) : res.toOption = caseContents g fsys testCase := by
  unfold materializeCase at h
  unfold caseContents externalFile
  split at h
  case isTrue htext =>
    obtain ⟨rfl, rfl⟩ := Prog.runs_ret_iff.mp h
    rw [if_pos htext]
    rfl
  case isFalse htext =>
    rw [if_neg htext]
    split at h
    case isTrue hexternal =>
      obtain ⟨rfl, rfl⟩ := Prog.runs_ret_iff.mp h
      rw [if_neg (by simp [hexternal])]
      rfl
    case isFalse hexternal =>
      rw [if_pos (by simpa using hexternal), if_pos (by simpa using hexternal)]
      obtain ⟨input, tr', rfl, h'⟩ := Prog.runs_op_iff.mp h
      rw [← hreads.head]
      match input with
      | .error e =>
        obtain ⟨rfl, rfl⟩ := Prog.runs_ret_iff.mp h'
        rfl
      | .ok input =>
        obtain ⟨expectedOutput, tr'', rfl, h''⟩ := Prog.runs_op_iff.mp h'
        rw [← hreads.tail.head]
        match expectedOutput with
        | .error e =>
          obtain ⟨rfl, rfl⟩ := Prog.runs_ret_iff.mp h''
          rfl
        | .ok expectedOutput =>
          obtain ⟨rfl, rfl⟩ := Prog.runs_ret_iff.mp h''
          rfl

variable (g fsys) in
/-- The data of all cases. -/
def allContents : List JudgeTestCase → Option (List CaseData)
  | [] => some []
  | testCase :: rest =>
    (caseContents g fsys testCase).bind fun data => (allContents rest).map (data :: ·)

theorem materializeCases_runs {testCases : List JudgeTestCase} {index : ℕ}
    {tr : List (Event Op Op.Ans)} {res : Except Err (List CaseData)}
    (h : (materializeCases g index testCases).Runs tr res) (hreads : ReadsFrom fsys tr) :
    res.toOption = allContents g fsys testCases := by
  induction testCases generalizing index tr res with
  | nil =>
    obtain ⟨rfl, rfl⟩ := Prog.runs_ret_iff.mp h
    rfl
  | cons testCase rest ih =>
    obtain ⟨t₁, data, t₂, rfl, h₁, h₂⟩ := Prog.runs_bind_iff.mp h
    rw [allContents, ← materializeCase_runs h₁ hreads.left]
    match data with
    | .error e =>
      obtain ⟨rfl, rfl⟩ := Prog.runs_ret_iff.mp h₂
      rfl
    | .ok data =>
      obtain ⟨t₃, others, t₄, rfl, h₃, h₄⟩ := Prog.runs_bind_iff.mp h₂
      obtain ⟨rfl, rfl⟩ := Prog.runs_ret_iff.mp h₄
      rw [← ih h₃ hreads.right.left]
      cases others <;> rfl

theorem allContents_eq_some {testCases : List JudgeTestCase} {cases : List CaseData} :
    allContents g fsys testCases = some cases ↔
      List.Forall₂ (fun testCase data => caseContents g fsys testCase = some data) testCases cases := by
  induction testCases generalizing cases with
  | nil =>
    rw [allContents, List.forall₂_nil_left_iff]
    simp [eq_comm]
  | cons testCase rest ih =>
    rw [allContents, List.forall₂_cons_left_iff]
    simp only [Option.bind_eq_some_iff, Option.map_eq_some_iff, ih]
    constructor
    · rintro ⟨data, hdata, others, hothers, rfl⟩
      exact ⟨data, others, hdata, hothers, rfl⟩
    · rintro ⟨data, others, hdata, hothers, rfl⟩
      exact ⟨data, hdata, others, hothers, rfl⟩

variable (g fsys) in
/-- What `materialize` makes of a request. -/
def materialized (req : JudgeRequest) (profile : LanguageProfile) (choice : CheckerChoice) :
    Option JudgePlan :=
  (chosenSource g fsys choice).bind fun src => (allContents g fsys req.testCases).map fun cases =>
    { sourceCode := utf8 req.sourceCode
      timeLimit := req.timeLimit
      memoryLimit := req.memoryLimit
      cases := cases
      language := req.language
      profile := profile
      checker := src
      checkerProvidedByRequest := choice.providedByRequest }

theorem materialize_runs {req : JudgeRequest} {profile : LanguageProfile} {choice : CheckerChoice}
    {tr : List (Event Op Op.Ans)} {res : Except Err JudgePlan}
    (h : (materialize g req profile choice).Runs tr res) (hreads : ReadsFrom fsys tr) :
    res.toOption = materialized g fsys req profile choice := by
  obtain ⟨t₁, src, t₂, rfl, h₁, h₂⟩ := Prog.runs_bind_iff.mp h
  rw [materialized, ← readSource_runs h₁ hreads.left]
  match src with
  | .error e =>
    obtain ⟨rfl, rfl⟩ := Prog.runs_ret_iff.mp h₂
    rfl
  | .ok src =>
    obtain ⟨t₃, cases, t₄, rfl, h₃, h₄⟩ := Prog.runs_bind_iff.mp h₂
    obtain ⟨rfl, rfl⟩ := Prog.runs_ret_iff.mp h₄
    rw [← materializeCases_runs h₃ hreads.right.left]
    cases cases <;> rfl

/-! ## Reasons to reject -/

/-- Why a request can be rejected. -/
inductive Rejected (g : JudgeEngine) (fsys : FileSystem) (req : JudgeRequest) : Prop
  | source (h : ∀ c ∈ req.sourceCode.toList, isSpace c = true)
  | language (h : req.language ∉ [.c, .cpp, .java, .python])
  | timeLimit (h : req.timeLimit = 0)
  | memoryLimit (h : req.memoryLimit = 0)
  | noCases (h : req.testCases.length = 0)
  | manyCases (h : 64 < req.testCases.length)
  | mixed (testCase : JudgeTestCase) (hmem : testCase ∈ req.testCases)
      (htext : testCase.inputText ≠ "" ∨ testCase.expectedOutput ≠ "")
      (hfile : testCase.inputFile ≠ "" ∨ testCase.expectedOutputFile ≠ "")
  | oneFile (testCase : JudgeTestCase) (hmem : testCase ∈ req.testCases)
      (h : ¬ (testCase.inputFile = "" ↔ testCase.expectedOutputFile = ""))
  | path (testCase : JudgeTestCase) (hmem : testCase ∈ req.testCases) (name : String)
      (hname : name ∈ [testCase.inputFile, testCase.expectedOutputFile]) (hne : name ≠ "")
      (h : validPath name.toList = false)
  | checker (h : ∀ choice, resolveChecker g req.checker req.checkerSourceCode ≠ .ok choice)
  | checkerSource (choice : CheckerChoice)
      (hchoice : resolveChecker g req.checker req.checkerSourceCode = .ok choice)
      (h : chosenSource g fsys choice = none)
  | file (testCase : JudgeTestCase) (hmem : testCase ∈ req.testCases) (name : String)
      (hname : name ∈ [testCase.inputFile, testCase.expectedOutputFile]) (hne : name ≠ "")
      (h : externalFile g fsys name = none)

/-- A case that `validateJudgeTestCase` accepts. -/
structure WellFormedCase (testCase : JudgeTestCase) : Prop where
  unmixed : testCase.inputText ≠ "" ∨ testCase.expectedOutput ≠ "" →
    testCase.inputFile = "" ∧ testCase.expectedOutputFile = ""
  paired : testCase.inputFile = "" ↔ testCase.expectedOutputFile = ""
  valid : ∀ name ∈ [testCase.inputFile, testCase.expectedOutputFile], name ≠ "" →
    validPath name.toList = true

theorem validateJudgeTestCase_eq_none {index : ℕ} {testCase : JudgeTestCase} :
    validateJudgeTestCase index testCase = none ↔ WellFormedCase testCase := by
  unfold validateJudgeTestCase
  dsimp only
  split
  case isTrue hmixed =>
    refine iff_of_false (by simp) fun h => ?_
    obtain ⟨hinput, hexpected⟩ := h.unmixed hmixed.1
    simp [hinput, hexpected] at hmixed
  case isFalse hmixed =>
    split
    case isTrue hone =>
      refine iff_of_false (by simp) fun h => hone ?_
      rw [Ne, Ne, h.paired]
    case isFalse hone =>
      have hpaired : testCase.inputFile = "" ↔ testCase.expectedOutputFile = "" := by
        have hiff : ¬ testCase.inputFile = "" ↔ ¬ testCase.expectedOutputFile = "" := by simpa using hone
        exact not_iff_not.mp hiff
      split
      case isTrue hinput =>
        refine iff_of_false (by simp) fun h => ?_
        have := h.valid testCase.inputFile (by simp) hinput.1
        simp [hinput.2] at this
      case isFalse hinput =>
        split
        case isTrue hexpected =>
          refine iff_of_false (by simp) fun h => ?_
          have := h.valid testCase.expectedOutputFile (by simp) hexpected.1
          simp [hexpected.2] at this
        case isFalse hexpected =>
          refine iff_of_true rfl ⟨fun htext => ?_, hpaired, ?_⟩
          · by_contra hfile
            exact hmixed ⟨htext, not_and_or.mp hfile⟩
          · simpa using ⟨by simpa using hinput, by simpa using hexpected⟩

theorem validateJudgeTestCases_eq_none {index : ℕ} {testCases : List JudgeTestCase} :
    validateJudgeTestCases index testCases = none ↔ ∀ testCase ∈ testCases, WellFormedCase testCase := by
  induction testCases generalizing index with
  | nil => simp [validateJudgeTestCases]
  | cons testCase rest ih =>
    rw [validateJudgeTestCases, List.forall_mem_cons, ← @validateJudgeTestCase_eq_none index, ← @ih (index + 1)]
    cases validateJudgeTestCase index testCase <;> simp

/-- A request that `validateJudgeRequest` accepts. -/
structure WellFormed (req : JudgeRequest) : Prop where
  source : ¬ ∀ c ∈ req.sourceCode.toList, isSpace c = true
  language : req.language ≠ .unknown
  timeLimit : req.timeLimit ≠ 0
  memoryLimit : req.memoryLimit ≠ 0
  cases_pos : req.testCases.length ≠ 0
  cases_le : req.testCases.length ≤ maxTestCases
  cases : ∀ testCase ∈ req.testCases, WellFormedCase testCase

theorem validateJudgeRequest_eq_none {req : JudgeRequest} :
    validateJudgeRequest req = none ↔ WellFormed req := by
  unfold validateJudgeRequest
  split
  case isTrue h => exact iff_of_false (by simp) fun hw => hw.source (trimSpace_eq_nil_iff.mp h)
  split
  case isTrue h => exact iff_of_false (by simp) fun hw => hw.language h
  split
  case isTrue h => exact iff_of_false (by simp) fun hw => hw.timeLimit h
  split
  case isTrue h => exact iff_of_false (by simp) fun hw => hw.memoryLimit h
  split
  case isTrue h => exact iff_of_false (by simp) fun hw => hw.cases_pos h
  split
  case isTrue h => exact iff_of_false (by simp) fun hw => absurd hw.cases_le (by omega)
  rw [validateJudgeTestCases_eq_none]
  next hsource hlanguage htime hmemory hpos hle =>
    constructor
    · intro hcases
      exact ⟨fun h => hsource (trimSpace_eq_nil_iff.mpr h), hlanguage, htime, hmemory, hpos, by omega, hcases⟩
    · intro hw
      exact hw.cases

/-- The data of a well-formed case are missing exactly if one of its files is. -/
theorem caseContents_eq_none {testCase : JudgeTestCase} (h : WellFormedCase testCase) :
    caseContents g fsys testCase = none ↔
      ∃ name ∈ [testCase.inputFile, testCase.expectedOutputFile], name ≠ "" ∧
        externalFile g fsys name = none := by
  unfold caseContents
  have hpaired := h.paired
  split
  case isTrue htext =>
    refine iff_of_false (by simp) ?_
    simp [htext, hpaired.mp htext]
  case isFalse htext =>
    have hexpected : testCase.expectedOutputFile ≠ "" := fun h' => htext (hpaired.mpr h')
    cases hinput : externalFile g fsys testCase.inputFile with
    | none => simp [htext, hinput]
    | some input => simp [hexpected, hinput]

theorem allContents_eq_none {testCases : List JudgeTestCase} :
    allContents g fsys testCases = none ↔ ∃ testCase ∈ testCases, caseContents g fsys testCase = none := by
  induction testCases with
  | nil => simp [allContents]
  | cons testCase rest ih =>
    rw [allContents]
    cases hcase : caseContents g fsys testCase with
    | none => simp [hcase]
    | some data => simp [hcase, ih]

theorem profileForLanguage_isOk {lang : Language} :
    (∃ profile, profileForLanguage lang = .ok profile) ↔ lang ∈ [Language.c, .cpp, .java, .python] := by
  cases lang <;> simp [profileForLanguage]

/-- A request is accepted exactly if it is well formed, its language and its checker resolve, and all that
it names can be read. -/
theorem not_rejected_iff {req : JudgeRequest} : ¬ Rejected g fsys req ↔
    WellFormed req ∧ ∃ profile choice plan, profileForLanguage req.language = .ok profile ∧
      resolveChecker g req.checker req.checkerSourceCode = .ok choice ∧
      materialized g fsys req profile choice = some plan := by
  constructor
  · intro h
    -- each check of the code rules out one of the reasons
    have hcases : ∀ testCase ∈ req.testCases, WellFormedCase testCase := by
      intro testCase hmem
      refine ⟨fun htext => ?_, ?_, fun name hname hne => ?_⟩
      · by_contra hfile
        exact h (.mixed testCase hmem htext (not_and_or.mp hfile))
      · by_contra hone
        exact h (.oneFile testCase hmem hone)
      · by_contra hpath
        exact h (.path testCase hmem name hname hne (by simpa using hpath))
    have hlanguage : req.language ∈ [Language.c, .cpp, .java, .python] := by
      by_contra hlanguage
      exact h (.language hlanguage)
    obtain ⟨profile, hprofile⟩ := profileForLanguage_isOk.mpr hlanguage
    refine ⟨⟨fun h' => h (.source h'), ?_, fun h' => h (.timeLimit h'), fun h' => h (.memoryLimit h'),
      fun h' => h (.noCases h'), ?_, hcases⟩, profile, ?_⟩
    · intro hunknown
      simp [hunknown] at hlanguage
    · by_contra hmany
      exact h (.manyCases (by simpa [maxTestCases] using hmany))
    obtain ⟨choice, hchoice⟩ : ∃ choice,
        resolveChecker g req.checker req.checkerSourceCode = .ok choice := by
      by_contra hnone
      exact h (.checker fun choice hchoice => hnone ⟨choice, hchoice⟩)
    obtain ⟨src, hsrc⟩ : ∃ src, chosenSource g fsys choice = some src := by
      by_contra hnone
      exact h (.checkerSource choice hchoice (by simpa [Option.eq_none_iff_forall_ne_some] using hnone))
    obtain ⟨cases, hall⟩ : ∃ cases, allContents g fsys req.testCases = some cases := by
      by_contra hnone
      have hnone' : allContents g fsys req.testCases = none := by
        simpa [Option.eq_none_iff_forall_ne_some] using hnone
      obtain ⟨testCase, hmem, hcase⟩ := allContents_eq_none.mp hnone'
      obtain ⟨name, hname, hne, hfile⟩ := (caseContents_eq_none (hcases testCase hmem)).mp hcase
      exact h (.file testCase hmem name hname hne hfile)
    exact ⟨choice, _, hprofile, hchoice, by rw [materialized, hsrc, hall]; rfl⟩
  · rintro ⟨hw, profile, choice, plan, hprofile, hchoice, hplan⟩ hrejected
    obtain ⟨src, hsrc, hplan⟩ := Option.bind_eq_some_iff.mp hplan
    obtain ⟨cases, hall, -⟩ := Option.map_eq_some_iff.mp hplan
    -- conversely each reason contradicts what was resolved or read
    cases hrejected with
    | source h => exact hw.source h
    | language h => exact h (profileForLanguage_isOk.mp ⟨profile, hprofile⟩)
    | timeLimit h => exact hw.timeLimit h
    | memoryLimit h => exact hw.memoryLimit h
    | noCases h => exact hw.cases_pos h
    | manyCases h => exact absurd hw.cases_le (by simpa [maxTestCases] using h)
    | mixed testCase hmem htext hfile =>
      obtain ⟨hinput, hexpected⟩ := (hw.cases testCase hmem).unmixed htext
      simp [hinput, hexpected] at hfile
    | oneFile testCase hmem h => exact h (hw.cases testCase hmem).paired
    | path testCase hmem name hname hne h =>
      have := (hw.cases testCase hmem).valid name hname hne
      simp [h] at this
    | checker h => exact h choice hchoice
    | checkerSource choice' hchoice' h =>
      obtain rfl := Except.ok.inj (hchoice.symm.trans hchoice')
      exact absurd (hsrc.symm.trans h) (by simp)
    | file testCase hmem name hname hne h =>
      have hnone := (caseContents_eq_none (hw.cases testCase hmem)).mpr ⟨name, hname, hne, h⟩
      exact absurd (hall.symm.trans (allContents_eq_none.mpr ⟨testCase, hmem, hnone⟩)) (by simp)

/-! ## The course of a request -/

/-- A request before its judge slot: what it names is resolved. -/
structure Resolved (g : JudgeEngine) (req : JudgeRequest) (profile : LanguageProfile)
    (choice : CheckerChoice) : Prop where
  wellFormed : WellFormed req
  profile : profileForLanguage req.language = .ok profile
  choice : resolveChecker g req.checker req.checkerSourceCode = .ok choice

/-- A complete call of `Judge`: it returned an error before it asked for a judge slot, it did not get one,
or it held one until its end. -/
theorem judge_runs {req : JudgeRequest} {tr : List (Event Op Op.Ans)} {res : JudgeResult × Option Err}
    (h : (judge g ctx req).Runs tr res) :
    ((∀ profile choice, ¬ Resolved g req profile choice) ∧ tr = [] ∧ ∃ e, res = ({}, some e)) ∨
    ∃ profile choice, Resolved g req profile choice ∧
      ((∃ e, tr = [⟨.judgeAcquire ctx, some e⟩]) ∨
        ∃ t, tr = ⟨.judgeAcquire ctx, none⟩ :: (t ++ [⟨.judgeRelease, ()⟩]) ∧
          (judgeAdmitted g ctx req profile choice).Runs t res) := by
  unfold judge at h
  split at h
  case h_1 e he =>
    obtain ⟨rfl, rfl⟩ := Prog.runs_ret_iff.mp h
    refine .inl ⟨fun _ _ hr => ?_, rfl, e, rfl⟩
    exact absurd (he.symm.trans (validateJudgeRequest_eq_none.mpr hr.wellFormed)) (by simp)
  case h_2 hvalid =>
    split at h
    case h_1 e he =>
      obtain ⟨rfl, rfl⟩ := Prog.runs_ret_iff.mp h
      exact .inl ⟨fun _ _ hr => absurd (he.symm.trans hr.profile) (by simp), rfl, e, rfl⟩
    case h_2 profile hprofile =>
      split at h
      case h_1 e he =>
        obtain ⟨rfl, rfl⟩ := Prog.runs_ret_iff.mp h
        exact .inl ⟨fun _ _ hr => absurd (he.symm.trans hr.choice) (by simp), rfl, e, rfl⟩
      case h_2 choice hchoice =>
        have hresolved : Resolved g req profile choice :=
          ⟨validateJudgeRequest_eq_none.mp hvalid, hprofile, hchoice⟩
        refine .inr ⟨profile, choice, hresolved, ?_⟩
        obtain ⟨acquired, t, rfl, hrest⟩ := Prog.runs_perform_iff.mp h
        match acquired with
        | some e =>
          obtain ⟨rfl, rfl⟩ := Prog.runs_ret_iff.mp hrest
          exact .inl ⟨e, rfl⟩
        | none =>
          obtain ⟨t₁, t₂, rfl, hbody, hrelease⟩ := Prog.runs_deferring_iff.mp hrest
          obtain ⟨_, t₃, rfl, hdone⟩ := Prog.runs_op_iff.mp hrelease
          obtain ⟨rfl, -⟩ := Prog.runs_ret_iff.mp hdone
          exact .inr ⟨t₁, rfl, hbody⟩

/-- A request in its judge slot: it is materialized, and if that succeeds it is judged. -/
theorem judgeAdmitted_runs {req : JudgeRequest} {profile : LanguageProfile} {choice : CheckerChoice}
    {tr : List (Event Op Op.Ans)} {res : JudgeResult × Option Err}
    (h : (judgeAdmitted g ctx req profile choice).Runs tr res) :
    ∃ reads rest, tr = reads ++ rest ∧
      ((∃ e, (materialize g req profile choice).Runs reads (.error e) ∧ rest = [] ∧
          res = ({}, some e)) ∨
        ∃ plan result, (materialize g req profile choice).Runs reads (.ok plan) ∧
          (executeJudgePlan g ctx plan).Runs rest result ∧ res = (result, none)) := by
  obtain ⟨reads, plan, rest, rfl, hreads, hrest⟩ := Prog.runs_bind_iff.mp h
  refine ⟨reads, rest, rfl, ?_⟩
  match plan with
  | .error e =>
    obtain ⟨rfl, rfl⟩ := Prog.runs_ret_iff.mp hrest
    exact .inl ⟨e, hreads, rfl, rfl⟩
  | .ok plan =>
    obtain ⟨t, result, t', rfl, hplan, hret⟩ := Prog.runs_bind_iff.mp hrest
    obtain ⟨rfl, rfl⟩ := Prog.runs_ret_iff.mp hret
    exact .inr ⟨plan, result, hreads, by simpa using hplan, rfl⟩

/-- A call that returned an error returned no result beside it, and has at most read resources in its
judge slot. -/
theorem judge_runs_error {req : JudgeRequest} {tr : List (Event Op Op.Ans)} {result : JudgeResult} {e : Err}
    (h : (judge g ctx req).Runs tr (result, some e)) (hslot : ∀ e, ⟨.judgeAcquire ctx, some e⟩ ∉ tr) :
    result = {} ∧
    (((∀ profile choice, ¬ Resolved g req profile choice) ∧ tr = []) ∨
      ∃ profile choice reads, Resolved g req profile choice ∧
        tr = ⟨.judgeAcquire ctx, none⟩ :: (reads ++ [⟨.judgeRelease, ()⟩]) ∧
        (materialize g req profile choice).Runs reads (.error e)) := by
  rcases judge_runs h with ⟨hunresolved, rfl, e', heq⟩ |
      ⟨profile, choice, hresolved, ⟨e', rfl⟩ | ⟨t, rfl, hadmitted⟩⟩
  · cases heq
    exact ⟨rfl, .inl ⟨hunresolved, rfl⟩⟩
  · exact absurd List.mem_cons_self (hslot e')
  · obtain ⟨reads, rest, rfl, ⟨e', hreads, rfl, heq⟩ | ⟨plan, result, -, -, heq⟩⟩ :=
      judgeAdmitted_runs hadmitted
    · cases heq
      exact ⟨rfl, .inr ⟨profile, choice, reads, hresolved, by simp, hreads⟩⟩
    · cases heq

/-- A call that returned a result from its judge slot read resources first and then carried out its plan. -/
theorem judge_runs_ok {req : JudgeRequest} {tr : List (Event Op Op.Ans)} {result : JudgeResult}
    (h : (judge g ctx req).Runs tr (result, none)) (hslot : ∀ e, ⟨.judgeAcquire ctx, some e⟩ ∉ tr) :
    ∃ profile choice plan reads rest, Resolved g req profile choice ∧
      tr = ⟨.judgeAcquire ctx, none⟩ :: (reads ++ (rest ++ [⟨.judgeRelease, ()⟩])) ∧
      (materialize g req profile choice).Runs reads (.ok plan) ∧
      (executeJudgePlan g ctx plan).Runs rest result := by
  rcases judge_runs h with ⟨-, -, e, heq⟩ | ⟨profile, choice, hresolved, ⟨e', rfl⟩ | ⟨t, rfl, hadmitted⟩⟩
  · cases heq
  · exact absurd List.mem_cons_self (hslot e')
  · obtain ⟨reads, rest, rfl, ⟨e', -, -, heq⟩ | ⟨plan, result, hreads, hplan, heq⟩⟩ :=
      judgeAdmitted_runs hadmitted
    · cases heq
    · cases heq
      exact ⟨profile, choice, plan, reads, rest, hresolved, by simp, hreads, hplan⟩

/-- The operations of a plan with these cases: no resource is read, and no other cases are started. -/
def OfPlan (cases : List CaseData) : Op → Prop
  | .ask (.readResource _ _) => False
  | .goCases batch => batch.cases = cases
  | _ => True

theorem Op.OfExecutor.ofPlan {e : Op} (he : e.OfExecutor) (cases : List CaseData) : OfPlan cases e := by
  unfold OfPlan
  split <;> first | exact he | exact absurd he id | trivial

theorem OfCompile.ofPlan {source : Bytes} {e : Op} (he : OfCompile g ctx source e)
    (cases : List CaseData) : OfPlan cases e := by
  unfold OfPlan
  split <;> first | exact he | exact absurd he id | trivial

/-- The operations of a case: no resource is read, nothing is compiled, and no cases are started. -/
def Op.OfCase : Op → Prop
  | .ask (.readResource _ _) | .goCases _ | .flightDo _ | .mark (.leaveCompile _ _ _) => False
  | _ => True

theorem Op.OfExecutor.ofCase {e : Op} (he : e.OfExecutor) : e.OfCase := by
  unfold Op.OfCase
  split <;> first | exact he | exact absurd he id | trivial

section Calls

variable (hx : g.executor.All Op.OfExecutor)

include hx

theorem executeJudgePlan_all (plan : JudgePlan) :
    (executeJudgePlan g ctx plan).All (OfPlan plan.cases) := by
  have hx' : g.executor.All (OfPlan plan.cases) := hx.mono fun _ he => he.ofPlan _
  refine Prog.All.bind (Prog.All.bind (Prog.All.perform trivial fun _ => Prog.All.bind (hx'.compile _ _)
    fun _ => Prog.All.perform trivial fun _ => trivial) fun _ => trivial) fun compiled => ?_
  match compiled with
  | .error e => trivial
  | .ok (none, compileResult) => trivial
  | .ok (some program, compileResult) =>
    refine Prog.All.bind (Prog.All.bind (compileChecker_all hx' _ _ fun _ he => he.ofPlan _)
      fun _ => trivial) fun compilation => ?_
    match compilation with
    | .error e => trivial
    | .ok ⟨none, compile⟩ => trivial
    | .ok ⟨some checker, compile⟩ =>
      exact Prog.All.bind (Prog.All.perform rfl fun _ => ⟨trivial, fun _ => trivial⟩) fun _ => trivial

theorem Run_all {P : Op → Prop} {Q : Except Err RunResult → Prop} (hP : ∀ e, e.OfExecutor → P e)
    {req : RunRequest} (hQ : (g.executor.run ctx req).Returns Q) (henter : P (.mark (.enterRun ctx req)))
    (hleave : ∀ res, Q res → P (.mark (.leaveRun ctx req res))) : (g.executor.Run ctx req).All P :=
  Prog.All.perform henter fun _ => Prog.All.bind_returns ((hx.run _ _).mono hP) hQ fun _ hres =>
    Prog.All.perform (hleave _ hres) fun _ => trivial

omit hx in
theorem runCase_all {P : Op → Prop} (hrun : ∀ req, (g.executor.Run ctx req).All P) (r : CaseRunner)
    (tc : CaseData) : (runCase g ctx r tc).All P := by
  refine Prog.All.bind (Prog.All.bind (hrun _) fun _ => trivial) fun ran => ?_
  match ran with
  | .error e => trivial
  | .ok runResult =>
    show Prog.All _ (ite (_ ≠ Verdict.ok) _ _)
    split
    · trivial
    · refine Prog.All.bind (Prog.All.bind (hrun _) fun _ => trivial) fun checked => ?_
      cases checked <;> trivial

omit hx in
theorem caseThread_all {P : Op → Prop} (hrun : ∀ ctx req, (g.executor.Run ctx req).All P)
    (hbegin : P .caseBegin) (hend : ∀ res, P (.caseEnd res)) : (caseThread g).All P :=
  Prog.All.perform hbegin fun _ => Prog.All.bind (runCase_all (hrun _) _ _) fun _ =>
    ⟨hend _, fun _ => trivial⟩

theorem caseThread_ofCase : (caseThread g).All Op.OfCase :=
  caseThread_all (fun _ _ => Run_all hx (fun _ he => he.ofCase) (Prog.returns_true _) trivial
    fun _ _ => trivial) trivial fun _ => trivial

variable {requests : ℕ → Ctx × JudgeRequest} {judgeMax execMax : ℕ} {cpus : List ℕ}
  {c : Config Op Op.Ans Tid State JudgeAns}
  (h : Reachable semantics (.start (State.new judgeMax execMax cpus) (judgeCalls g requests)) c)

include h

/-- Cases are started by the goroutine of their request. -/
theorem goCases_by_judge {i : Tid} {batch : Batch} (hdid : Did c.trace i (.goCases batch) ()) :
    i = .judge i.request := by
  cases i with
  | judge j => rfl
  | case j n =>
    have hall := ((h.own_after (.case j n)).all (caseThread_ofCase hx)).1 _ (mem_own.mpr hdid)
    exact absurd hall id

/-- A case begins with what its request started. -/
theorem case_begun {j n : ℕ} {ctx' : Ctx} {runner : CaseRunner} {data : CaseData}
    (hdid : Did c.trace (.case j n) .caseBegin (ctx', runner, data)) :
    ∃ batch, Did c.trace (.judge j) (.goCases batch) () ∧ batch.ctx = ctx' ∧ batch.runner = runner ∧
      batch.cases[n]? = some data := by
  obtain ⟨i, batch, hi, hgo, hrest⟩ := (slotInv_reachable h).begun j n ctx' runner data hdid
  have hjudge := goCases_by_judge hx h hgo
  rw [hi] at hjudge
  subst hjudge
  exact ⟨batch, hgo, hrest⟩

/-- Without a batch that has its case, the goroutine of a case does nothing. -/
theorem case_idle {j n : ℕ}
    (hnone : ∀ batch, Did c.trace (.judge j) (.goCases batch) () → batch.cases[n]? = none) :
    own (.case j n) c.trace = [] := by
  have hafter := h.own_after (.case j n)
  cases hown : own (.case j n) c.trace with
  | nil => rfl
  | cons ev rest =>
    rw [hown] at hafter
    cases hafter with
    | @op e k r tr q hafter =>
      obtain ⟨ctx', runner, data⟩ : Ctx × CaseRunner × CaseData := r
      have hdid : Did c.trace (.case j n) .caseBegin (ctx', runner, data) :=
        mem_own.mp (hown ▸ List.mem_cons_self)
      obtain ⟨batch, hgo, -, -, hdata⟩ := case_begun hx h hdid
      exact absurd (hdata.symm.trans (hnone batch hgo)) (by simp)

end Calls

/-- How often a judge slot was refused. -/
def refusals (events : List (Event Op Op.Ans)) : ℕ :=
  events.countP fun ev =>
    match ev with
    | ⟨.judgeAcquire _, some _⟩ => true
    | _ => false

end Afterglow.Engine
