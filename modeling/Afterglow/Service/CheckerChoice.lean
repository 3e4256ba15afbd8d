import Afterglow.Model.Path
import Afterglow.Service.Checker

/-!
# Which checker a request names

Reference: `resolveChecker`, `validateCheckerShortName` and `validateExternalCheckerPath` in
`internal/service/checker.go`, and `External.Open` in `internal/resource/external.go`.
-/

namespace Afterglow.Engine

open Service

/-! ## Opening external files -/

/-- What `os.OpenInRoot` and the `Stat` of the file it opened yield. -/
inductive Opened
  | failed (e : Err)
  | statFailed (e : Err) (closed : Option Err)
  | irregular (closed : Option Err)
  | regular
deriving Repr, DecidableEq

/-- `External.Open`, without the file. -/
def externalOpen (openInRoot : String → Opened) (relPath : String) : Except Err Unit :=
  if validPath relPath.toList = false then .error (.wrap ("open " ++ relPath) (.text "invalid argument"))
  else
    match openInRoot relPath with
    | .failed e => .error (.wrap ("open external resource " ++ quote relPath) e)
    | .statFailed e closed =>
      let err := Err.wrap ("stat external resource " ++ quote relPath) e
      .error ((joinErrors (some err) closed).getD err)
    | .irregular closed =>
      let err := Err.text ("external resource must be a regular file: " ++ relPath)
      .error ((joinErrors (some err) closed).getD err)
    | .regular => .ok ()

/-- A valid path is only rejected by the operating system. -/
theorem externalOpen_regular {openInRoot : String → Opened} {relPath : String}
    (hvalid : validPath relPath.toList = true) (hopen : openInRoot relPath = .regular) :
    externalOpen openInRoot relPath = .ok () := by
  rw [externalOpen, if_neg (by simp [hvalid]), hopen]

/-! ## External checkers -/

/-- The path is accepted exactly if it is relative, stays inside the root and ends at a `.cpp` file; then
it is replaced by the directories entered on the way. -/
theorem validateExternalCheckerPath_ok {path : List Char} {value : String} :
    validateExternalCheckerPath path = .ok value ↔ path.head? ≠ some '/' ∧
      ∃ top rest, walk path = some (top :: rest) ∧ ".cpp".toList <:+ top ∧
        value = String.ofList (joinPath (top :: rest).reverse) := by
  unfold validateExternalCheckerPath
  by_cases hrel : path.head? = some '/'
  · obtain ⟨hdot, hlocal⟩ := isLocalPath_cleanPath_rooted hrel
    refine iff_of_false ?_ (by simp [hrel])
    rw [if_neg hdot, hlocal]
    split <;> simp
  -- a walk that leaves the root cleans to a path that is not local
  cases hwalk : walk path with
  | none =>
    obtain ⟨hdot, hlocal⟩ := isLocalPath_cleanPath_of_walk hrel hwalk
    refine iff_of_false ?_ (by simp)
    rw [if_neg hdot, hlocal]
    split <;> simp
  | some entered =>
    obtain ⟨hclean, hproper⟩ := cleanPath_of_walk hrel hwalk
    cases entered with
    | nil =>
      refine iff_of_false ?_ (by simp)
      rw [hclean, if_pos rfl, if_pos rfl]
      split <;> simp
    | cons top rest =>
      rw [if_neg (by simp)] at hclean
      have hproper' : ∀ e ∈ (top :: rest).reverse, Proper e := fun e he => hproper e (List.mem_reverse.mp he)
      have hlocal := isLocalPath_of_proper hproper' (by simp)
      have hsuffix : ".cpp".toList <:+ joinPath (top :: rest).reverse ↔ ".cpp".toList <:+ top := by
        rw [List.reverse_cons]
        exact suffix_joinPath (by decide)
      have hdot : cleanPath path ≠ ['.'] := hclean ▸ joinPath_ne_dot hproper' (by simp)
      by_cases hcpp : ".cpp".toList <:+ top
      -- the name ends in `.cpp`, so the path is not blank
      · have hblank : trimSpace path ≠ [] := by
          intro hnil
          have hwithin := hcpp.isInfix.trans (infix_of_walk hwalk List.mem_cons_self)
          have hspace := trimSpace_eq_nil_iff.mp hnil 'p' (hwithin.mem (by decide))
          exact absurd hspace (by decide)
        have hends : ".cpp".toList.isSuffixOf (joinPath (top :: rest).reverse) = true := by
          rw [List.isSuffixOf_iff_suffix]
          exact hsuffix.mpr hcpp
        rw [if_neg hblank, if_neg hdot, hclean, hlocal, hends]
        constructor
        · intro h
          cases h
          exact ⟨hrel, top, rest, rfl, hcpp, rfl⟩
        · rintro ⟨-, top', rest', heq, -, rfl⟩
          cases heq
          rfl
      · refine iff_of_false ?_ ?_
        · have hends : ".cpp".toList.isSuffixOf (joinPath (top :: rest).reverse) = false := by
            rw [Bool.eq_false_iff, Ne, List.isSuffixOf_iff_suffix]
            exact fun h => hcpp (hsuffix.mp h)
          rw [if_neg hdot, hclean, hlocal, hends]
          split <;> simp
        · rintro ⟨-, top', rest', heq, hcpp', -⟩
          cases heq
          exact hcpp hcpp'

/-! ## Built-in checkers -/

/-- The characters of a short name. -/
def ShortNameChar (g : JudgeEngine) (c : Char) : Prop :=
  g.isLetter c = true ∨ g.isDigit c = true ∨ c = '_' ∨ c = '-'

/-- `unicode.IsLetter` and `unicode.IsDigit` classify the characters that would make a path of a name as
punctuation. -/
def Punctuates (g : JudgeEngine) : Prop :=
  ∀ c ∈ ['/', '\\', '.'], g.isLetter c = false ∧ g.isDigit c = false

theorem validateCheckerShortName_none {g : JudgeEngine} (hg : Punctuates g) {name : String} :
    validateCheckerShortName g name = none ↔ ∀ c ∈ name.toList, ShortNameChar g c := by
  unfold validateCheckerShortName
  have hnot : ∀ c, ShortNameChar g c → ¬ (c = '/' ∨ c = '\\' ∨ c = '.') := by
    rintro c hc hpath
    obtain ⟨hletter, hdigit⟩ := hg c (by simpa using hpath)
    rcases hc with hc | hc | rfl | rfl
    · exact absurd (hc.symm.trans hletter) (by decide)
    · exact absurd (hc.symm.trans hdigit) (by decide)
    · simp at hpath
    · simp at hpath
  split
  case isTrue hpath =>
    obtain ⟨c, hc, hpath⟩ := List.any_eq_true.mp hpath
    refine iff_of_false (by simp) fun hall => hnot c (hall c hc) (by simpa using hpath)
  case isFalse hpath =>
    split
    case isTrue hbad =>
      obtain ⟨c, hc, hbad⟩ := List.any_eq_true.mp hbad
      refine iff_of_false (by simp) fun hall => ?_
      rcases hall c hc with h | h | rfl | rfl <;> simp_all
    case isFalse hbad =>
      refine iff_of_true rfl fun c hc => ?_
      have hgood := List.any_eq_false.mp (Bool.eq_false_iff.mpr hbad) c hc
      unfold ShortNameChar
      by_contra hnone
      push Not at hnone
      simp_all

/-- The key of a built-in checker is a file of the directory `checkers`. -/
theorem builtinCheckerPath_valid {value : String} (hslash : '/' ∉ value.toList) :
    validPath (builtinCheckerPath value).toList = true ∧
      (builtinCheckerPath value).toList.splitOn '/' =
        ["checkers".toList, value.toList ++ ".cpp".toList] := by
  have hpath : (builtinCheckerPath value).toList =
      joinPath ["checkers".toList, value.toList ++ ".cpp".toList] := by
    simp [builtinCheckerPath, joinPath]
  have hfile : Proper (value.toList ++ ".cpp".toList) := by
    refine ⟨by simp, ?_, ?_, by simp [hslash]⟩
    · intro h
      have := congrArg List.length h
      simp at this
    · intro h
      have := congrArg List.length h
      simp at this
  have hproper : ∀ e ∈ ["checkers".toList, value.toList ++ ".cpp".toList], Proper e := by
    intro e he
    rcases List.mem_cons.mp he with rfl | he
    · exact ⟨by decide, by decide, by decide, by decide⟩
    · rw [List.mem_singleton.mp he]
      exact hfile
  rw [hpath]
  exact ⟨validPath_joinPath hproper (by simp),
    splitOn_joinPath (fun e he => (hproper e he).2.2.2) (by simp)⟩

/-! ## The choice -/

section Choice

variable {g : JudgeEngine} {raw inlineSource value : String}

/-- An inline checker. -/
theorem resolveChecker_inline : resolveChecker g raw inlineSource = .ok ⟨.inline, value⟩ ↔
    trimSpace inlineSource.toList ≠ [] ∧ trimSpace raw.toList = [] ∧ value = inlineSource := by
  unfold resolveChecker
  by_cases hinline : inlineSource = ""
  · have hblank : trimSpace inlineSource.toList = [] := by rw [hinline]; rfl
    refine iff_of_false ?_ (by simp [hblank])
    rw [if_neg (by simp [hinline])]
    split
    · simp
    split
    · cases validateExternalCheckerPath ((trimSpace raw.toList).drop externalPrefix.length) with
      | error e => simp [Except.map]
      | ok path => simp [Except.map]
    · split <;> simp
  · rw [if_pos hinline]
    split
    case isTrue hblank => simp [hblank]
    case isFalse hblank =>
      split
      case isTrue hname => simp [hname]
      case isFalse hname =>
        push Not at hname
        simp [hblank, hname, eq_comm]

/-- Without an inline source, the name decides. -/
theorem resolveChecker_name (h : inlineSource = "") (hne : trimSpace raw.toList ≠ []) :
    resolveChecker g raw inlineSource =
      if externalPrefix.toList.isPrefixOf (trimSpace raw.toList) then
        (validateExternalCheckerPath ((trimSpace raw.toList).drop externalPrefix.length)).map fun path =>
          ⟨.external, path⟩
      else
        match validateCheckerShortName g (String.ofList (trimSpace raw.toList)) with
        | some e => .error e
        | none => .ok ⟨.builtin, String.ofList (trimSpace raw.toList)⟩ := by
  have hno : ¬ inlineSource ≠ "" := by simp [h]
  unfold resolveChecker
  exact (if_neg hno).trans (if_neg hne)

/-- A choice other than the inline source is only made without one. -/
theorem inlineSource_eq_of_ok {kind : CheckerKind} (hkind : kind ≠ .inline)
    (h : resolveChecker g raw inlineSource = .ok ⟨kind, value⟩) : inlineSource = "" := by
  by_contra hinline
  unfold resolveChecker at h
  rw [if_pos hinline] at h
  split at h
  · cases h
  · split at h
    · cases h
    · cases h
      exact hkind rfl

/-- An external checker. -/
theorem resolveChecker_external : resolveChecker g raw inlineSource = .ok ⟨.external, value⟩ ↔
    inlineSource = "" ∧ ∃ path top rest, trimSpace raw.toList = externalPrefix.toList ++ path ∧
      path.head? ≠ some '/' ∧ walk path = some (top :: rest) ∧ ".cpp".toList <:+ top ∧
      value = String.ofList (joinPath (top :: rest).reverse) := by
  constructor
  · intro h
    have hinline := inlineSource_eq_of_ok (by simp) h
    refine ⟨hinline, ?_⟩
    by_cases hnil : trimSpace raw.toList = []
    · rw [resolveChecker, if_neg (by simp [hinline]), if_pos hnil] at h
      cases h
    rw [resolveChecker_name hinline hnil] at h
    split at h
    case isTrue hprefixed =>
      obtain ⟨path, hpath⟩ := List.isPrefixOf_iff_prefix.mp hprefixed
      have hdrop : (trimSpace raw.toList).drop externalPrefix.length = path := by
        rw [← hpath]
        rfl
      rw [hdrop] at h
      cases hvalid : validateExternalCheckerPath path with
      | error e =>
        rw [hvalid] at h
        cases h
      | ok normalized =>
        rw [hvalid] at h
        cases h
        obtain ⟨hrel, top, rest, hwalk, hcpp, heq⟩ := validateExternalCheckerPath_ok.mp hvalid
        exact ⟨path, top, rest, hpath.symm, hrel, hwalk, hcpp, heq⟩
    case isFalse =>
      split at h
      · cases h
      · cases h
  · rintro ⟨hinline, path, top, rest, hname, hrel, hwalk, hcpp, heq⟩
    have hvalid : validateExternalCheckerPath path = .ok value :=
      validateExternalCheckerPath_ok.mpr ⟨hrel, top, rest, hwalk, hcpp, heq⟩
    have hdrop : (externalPrefix.toList ++ path).drop externalPrefix.length = path := rfl
    rw [resolveChecker_name hinline (by rw [hname]; simp [externalPrefix]), hname,
      if_pos (List.isPrefixOf_iff_prefix.mpr (List.prefix_append _ _)), hdrop, hvalid]
    rfl

/-- What is read off an external path is proper. -/
theorem external_proper (h : resolveChecker g raw inlineSource = .ok ⟨.external, value⟩) :
    ∃ top rest, value = String.ofList (joinPath (top :: rest).reverse) ∧ ".cpp".toList <:+ top ∧
      ∀ e ∈ (top :: rest).reverse, Proper e := by
  obtain ⟨-, path, top, rest, -, hrel, hwalk, hcpp, heq⟩ := resolveChecker_external.mp h
  obtain ⟨-, hproper⟩ := cleanPath_of_walk hrel hwalk
  exact ⟨top, rest, heq, hcpp, fun e he => hproper e (List.mem_reverse.mp he)⟩

/-- Resolving a resolved path changes nothing. -/
theorem resolveChecker_again (h : resolveChecker g raw inlineSource = .ok ⟨.external, value⟩) :
    resolveChecker g (externalPrefix ++ value) "" = .ok ⟨.external, value⟩ := by
  obtain ⟨top, rest, heq, hcpp, hproper⟩ := external_proper h
  have hpath : value.toList = joinPath (top :: rest).reverse := by rw [heq, String.toList_ofList]
  obtain ⟨-, hrel⟩ := head?_joinPath (fun e he => (hproper e he).2.2.2)
    (fun he => (hproper [] he).1 rfl) (by simp)
  obtain ⟨init, hinit⟩ : ".cpp".toList <:+ joinPath (top :: rest).reverse := by
    rw [List.reverse_cons]
    exact (suffix_joinPath (by decide)).mpr hcpp
  have hname : trimSpace (externalPrefix ++ value).toList =
      externalPrefix.toList ++ joinPath (top :: rest).reverse := by
    have hshape : externalPrefix.toList ++ joinPath (top :: rest).reverse =
        'e' :: ("xternal:".toList ++ init ++ ['.', 'c', 'p']) ++ ['p'] := by
      rw [← hinit]
      simp [externalPrefix]
    rw [String.toList_append, hpath, hshape]
    exact trimSpace_eq_self (by decide) (by decide)
  refine resolveChecker_external.mpr ⟨rfl, _, top, rest, hname, hrel, ?_, hcpp, heq⟩
  rw [walk_joinPath hproper (by simp), List.reverse_reverse]

/-- A built-in checker. -/
theorem resolveChecker_builtin (hg : Punctuates g) :
    resolveChecker g raw inlineSource = .ok ⟨.builtin, value⟩ ↔ inlineSource = "" ∧
      (trimSpace raw.toList = [] ∧ value = defaultCheckerName ∨
        trimSpace raw.toList ≠ [] ∧ ¬ externalPrefix.toList <+: trimSpace raw.toList ∧
          (∀ c ∈ trimSpace raw.toList, ShortNameChar g c) ∧
          value = String.ofList (trimSpace raw.toList)) := by
  by_cases hinline : inlineSource = ""
  · by_cases hnil : trimSpace raw.toList = []
    · rw [resolveChecker, if_neg (by simp [hinline]), if_pos hnil]
      constructor
      · intro h
        cases h
        exact ⟨hinline, .inl ⟨hnil, rfl⟩⟩
      · rintro ⟨-, ⟨-, rfl⟩ | ⟨hne, -⟩⟩
        · rfl
        · exact absurd hnil hne
    · rw [resolveChecker_name hinline hnil]
      by_cases hprefixed : externalPrefix.toList <+: trimSpace raw.toList
      · rw [if_pos (List.isPrefixOf_iff_prefix.mpr hprefixed)]
        refine iff_of_false ?_ (by simp [hnil, hprefixed])
        cases validateExternalCheckerPath ((trimSpace raw.toList).drop externalPrefix.length) with
        | error e => simp [Except.map]
        | ok path => simp [Except.map]
      · rw [if_neg fun h => hprefixed (List.isPrefixOf_iff_prefix.mp h)]
        have hvalid := @validateCheckerShortName_none g hg (String.ofList (trimSpace raw.toList))
        rw [String.toList_ofList] at hvalid
        split
        case h_1 e he =>
          rw [he] at hvalid
          refine iff_of_false (by simp) ?_
          simp [hnil, ← hvalid]
        case h_2 hnone =>
          rw [hnone] at hvalid
          constructor
          · intro h
            cases h
            exact ⟨hinline, .inr ⟨hnil, hprefixed, hvalid.mp rfl, rfl⟩⟩
          · rintro ⟨-, ⟨hnil', -⟩ | ⟨-, -, -, rfl⟩⟩
            · exact absurd hnil' hnil
            · rfl
  · refine iff_of_false ?_ (by simp [hinline])
    exact fun h => hinline (inlineSource_eq_of_ok (by simp) h)

/-- Checker references are confined and resolved exactly. An external reference is accepted exactly if its
path stays inside the resource root and ends at a `.cpp` file; it resolves to a valid path that no
spelling of `..` is left in, that `External.Open` leaves to the operating system, and that resolves to
itself. A built-in one is accepted exactly if it is blank or a short name, and its key is a file of the
directory `checkers`. An inline source is accepted exactly if it is not blank and no checker is named. -/
theorem resolveChecker_exact (hg : Punctuates g) (raw inlineSource : String) :
    (∀ value, resolveChecker g raw inlineSource = .ok ⟨.external, value⟩ ↔ inlineSource = "" ∧
      ∃ path top rest, trimSpace raw.toList = externalPrefix.toList ++ path ∧
        path.head? ≠ some '/' ∧ walk path = some (top :: rest) ∧ ".cpp".toList <:+ top ∧
        value = String.ofList (joinPath (top :: rest).reverse)) ∧
    (∀ value, resolveChecker g raw inlineSource = .ok ⟨.external, value⟩ →
      validPath value.toList = true ∧
      (∀ openInRoot, openInRoot value = .regular → externalOpen openInRoot value = .ok ()) ∧
      ['.', '.'] ∉ value.toList.splitOn '/' ∧
      resolveChecker g (externalPrefix ++ value) "" = .ok ⟨.external, value⟩) ∧
    (∀ value, resolveChecker g raw inlineSource = .ok ⟨.builtin, value⟩ ↔ inlineSource = "" ∧
      (trimSpace raw.toList = [] ∧ value = defaultCheckerName ∨
        trimSpace raw.toList ≠ [] ∧ ¬ externalPrefix.toList <+: trimSpace raw.toList ∧
          (∀ c ∈ trimSpace raw.toList, ShortNameChar g c) ∧
          value = String.ofList (trimSpace raw.toList))) ∧
    (∀ value, resolveChecker g raw inlineSource = .ok ⟨.builtin, value⟩ →
      validPath (builtinCheckerPath value).toList = true ∧
      ((builtinCheckerPath value).toList.splitOn '/').length = 2) ∧
    ∀ value, resolveChecker g raw inlineSource = .ok ⟨.inline, value⟩ ↔
      trimSpace inlineSource.toList ≠ [] ∧ trimSpace raw.toList = [] ∧ value = inlineSource := by
  refine ⟨fun value => resolveChecker_external, ?_, fun value => resolveChecker_builtin hg, ?_,
    fun value => resolveChecker_inline⟩
  · intro value h
    obtain ⟨top, rest, heq, hcpp, hproper⟩ := external_proper h
    have hpath : value.toList = joinPath (top :: rest).reverse := by rw [heq, String.toList_ofList]
    have hvalid : validPath value.toList = true := hpath ▸ validPath_joinPath hproper (by simp)
    refine ⟨hvalid, fun _ hopen => externalOpen_regular hvalid hopen, ?_, resolveChecker_again h⟩
    rw [hpath, splitOn_joinPath (fun e he => (hproper e he).2.2.2) (by simp)]
    exact fun he => (hproper _ he).2.2.1 rfl
  · intro value h
    have hslash : '/' ∉ value.toList := by
      obtain ⟨-, ⟨-, rfl⟩ | ⟨-, -, hchars, rfl⟩⟩ := (resolveChecker_builtin hg).mp h
      · decide
      · rw [String.toList_ofList]
        intro hmem
        obtain ⟨hletter, hdigit⟩ := hg '/' (by simp)
        simpa [ShortNameChar, hletter, hdigit] using hchars '/' hmem
    obtain ⟨hvalid, hsplit⟩ := builtinCheckerPath_valid hslash
    exact ⟨hvalid, by rw [hsplit]; rfl⟩

end Choice

/-- An engine that knows the letters and digits of ASCII. -/
def asciiEngine : JudgeEngine where
  executor := anyExecutor
  sha256 source := source
  testlibHeader := []
  hasExternal := true
  isLetter := Char.isAlpha
  isDigit := Char.isDigit

/-- A path that goes up and comes back is the checker it ends at. -/
theorem resolveChecker_exact_dotdot :
    resolveChecker asciiEngine " external:./a/..//b/x.cpp\n" "" = .ok ⟨.external, "b/x.cpp"⟩ ∧
      resolveChecker asciiEngine "external:b/x.cpp" "" = .ok ⟨.external, "b/x.cpp"⟩ := by
  have hpunctuates : Punctuates asciiEngine := by simp [Punctuates, asciiEngine]
  obtain ⟨hexternal, hagain, -⟩ :=
    resolveChecker_exact hpunctuates " external:./a/..//b/x.cpp\n" ""
  have hresolved : resolveChecker asciiEngine " external:./a/..//b/x.cpp\n" "" =
      .ok ⟨.external, "b/x.cpp"⟩ :=
    (hexternal _).mpr ⟨rfl, "./a/..//b/x.cpp".toList, "x.cpp".toList, ["b".toList], by decide, by decide,
      by decide, by decide, by decide⟩
  exact ⟨hresolved, (hagain _ hresolved).2.2.2⟩

end Afterglow.Engine
