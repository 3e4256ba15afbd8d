import Afterglow.Testlib.LineCheckers
import Afterglow.Testlib.SingleToken

/-!
# The bundled checkers together

Reference: `support/checkers`, all but `rcmp4.cpp`, `rcmp6.cpp` and `rcmp9.cpp`, which compare floating
point numbers.

What the checkers accept is described by `Accepts`, one case for each. Three results hold across the
bundle. An answer that some output satisfies is never blamed for another output. It satisfies itself,
except to `yesno`, which ignores what follows the first token of an answer but not of an output. And
`fcmp` is the strictest of the checkers that compare lines, up to bare carriage returns.
-/

namespace Afterglow.Testlib

/-- The checkers of the bundle that do not compare floating point numbers. -/
inductive Bundled
  | default
  | fcmp
  | hcmp
  | lcmp
  | ncmp
  | nyesno
  | wcmp
  | yesno
deriving Repr, DecidableEq

/-- `main` of a bundled checker. -/
def Bundled.main : Bundled → Bytes → Bytes → Bytes → Stop
  | .default => Testlib.main
  | .fcmp => Fcmp.main
  | .hcmp => Hcmp.main
  | .lcmp => Lcmp.main
  | .ncmp => Ncmp.main
  | .nyesno => Nyesno.main
  | .wcmp => Wcmp.main
  | .yesno => Yesno.main

/-- The lines of both files agree, and the output has nothing but blanks behind them. -/
def AcceptsLines (same : Bytes → Bytes → Prop) (ouf ans : Bytes) : Prop :=
  LinesAgree same (dropBom ouf) ans ∧ tokens (behindLines (answerLines ans).length (dropBom ouf)) = []

/-- The tokens of both files are good and agree. -/
def AcceptsTokens (good : Bytes → Prop) (same : Bytes → Bytes → Prop) (ouf ans : Bytes) : Prop :=
  (∀ t ∈ tokens ans, good t) ∧ (∀ u ∈ tokens (dropBom ouf), good u) ∧
    List.Forall₂ same (tokens ans) (tokens (dropBom ouf))

/-- The output is one good token that agrees with the one that the answer offers. -/
def AcceptsToken (offers : List Bytes → Bytes → Prop) (good : Bytes → Prop) (same : Bytes → Bytes → Prop)
    (ouf ans : Bytes) : Prop :=
  ∃ t u, offers (tokens ans) t ∧ tokens (dropBom ouf) = [u] ∧ good t ∧ good u ∧ same t u

/-- The outputs that a checker accepts for an answer. -/
def Bundled.Accepts : Bundled → Bytes → Bytes → Prop
  | .default => fun ouf ans => normalForm (dropBareCr ans) = normalForm (dropBareCr (dropBom ouf))
  | .fcmp => AcceptsLines (· = ·)
  | .hcmp => AcceptsToken Hcmp.Offers Hcmp.IsNumeral (· = ·)
  | .lcmp => AcceptsLines fun j p => Lcmp.words j = Lcmp.words p
  | .ncmp => AcceptsTokens IsLong (· = ·)
  | .nyesno => AcceptsTokens IsYesNo fun t u => upperCase t = upperCase u
  | .wcmp => AcceptsTokens (·.length ≤ maxTokenLength) (· = ·)
  | .yesno => AcceptsToken Yesno.Offers IsYesNo fun t u => upperCase t = upperCase u

/-- The part of the condition that is about the answer alone. -/
def Bundled.Usable : Bundled → Bytes → Prop
  | .default | .fcmp | .lcmp => fun _ => True
  | .hcmp => fun ans => ∃ t, Hcmp.Offers (tokens ans) t ∧ Hcmp.IsNumeral t
  | .ncmp => fun ans => ∀ t ∈ tokens ans, IsLong t
  | .nyesno => fun ans => ∀ t ∈ tokens ans, IsYesNo t
  | .wcmp => fun ans => ∀ t ∈ tokens ans, t.length ≤ maxTokenLength
  | .yesno => fun ans => ∃ t, Yesno.Offers (tokens ans) t ∧ IsYesNo t

/-! ## Every run -/

/-- What is known of a run of any of the checkers. -/
structure Bundled.Verdict (c : Bundled) (inf ouf ans : Bytes) (stop : Stop) : Prop where
  code : ∃ n ≤ 3, stop = .exit n
  accepts : stop = .exit 0 ↔ Sized inf ouf ans ∧ c.Accepts ouf ans
  fails : stop = .exit FAIL_EXIT_CODE → maxFileSize < inf.length ∨ maxFileSize < ans.length ∨ ¬ c.Usable ans

theorem Judges.verdict {c : Bundled} {good : Bytes → Prop} {same : Bytes → Bytes → Prop} {inf ouf ans : Bytes}
    {stop : Stop} (h : Judges good same inf ouf ans stop) (haccepts : c.Accepts = AcceptsTokens good same)
    (husable : c.Usable = fun ans => ∀ t ∈ tokens ans, good t) : c.Verdict inf ouf ans stop where
  code := h.code
  accepts := by rw [haccepts]; exact h.accepts
  fails := by
    intro hfail
    refine (h.fails hfail).imp_right (Or.imp_right ?_)
    rintro ⟨t, ht, hbad⟩
    rw [husable]
    exact fun hall => hbad (hall t ht)

theorem JudgesOne.verdict {c : Bundled} {offers : List Bytes → Bytes → Prop} {good : Bytes → Prop}
    {same : Bytes → Bytes → Prop} {inf ouf ans : Bytes} {stop : Stop}
    (h : JudgesOne offers good same inf ouf ans stop) (haccepts : c.Accepts = AcceptsToken offers good same)
    (husable : c.Usable = fun ans => ∃ t, offers (tokens ans) t ∧ good t) : c.Verdict inf ouf ans stop where
  code := h.code
  accepts := by rw [haccepts]; exact h.accepts
  fails := by rw [husable]; exact h.fails

theorem JudgesLines.verdict {c : Bundled} {same : Bytes → Bytes → Prop} {inf ouf ans : Bytes} {stop : Stop}
    (h : JudgesLines same inf ouf ans stop) (haccepts : c.Accepts = AcceptsLines same) :
    c.Verdict inf ouf ans stop where
  code := h.code
  accepts := by rw [haccepts]; exact h.accepts
  fails hfail := (h.fails hfail).imp_right .inl

/-- The default checker, also on files that are too large. -/
theorem default_verdict (inf ouf ans : Bytes) : Bundled.default.Verdict inf ouf ans (main inf ouf ans) := by
  by_cases hsized : Sized inf ouf ans
  · have heq := main_eq hsized.inf hsized.ouf hsized.ans
    refine ⟨?_, ?_, ?_⟩
    · rw [heq]
      split_ifs
      · exact ⟨0, by omega, rfl⟩
      · exact ⟨1, by omega, rfl⟩
    · rw [heq]
      show _ ↔ Sized inf ouf ans ∧ normalForm (dropBareCr ans) = normalForm (dropBareCr (dropBom ouf))
      split_ifs with hform
      · simp [hsized, hform]
      · simp [hform, WA_EXIT_CODE]
    · rw [heq]
      intro hfail
      split_ifs at hfail
      · exact absurd hfail (by decide)
      · exact absurd hfail (by decide)
  · obtain ⟨stop, hregister, hstop⟩ := registerTestlibCmd_error hsized
    have hmain : main inf ouf ans = stop := by
      simp [main, hregister, bind, Except.bind]
    rw [hmain]
    rcases hstop with ⟨rfl, hlarge⟩ | ⟨rfl, -⟩
    · exact ⟨⟨3, le_rfl, rfl⟩, iff_of_false (by decide) fun h => hsized h.1, fun _ => hlarge.imp_right .inl⟩
    · exact ⟨⟨2, by omega, rfl⟩, iff_of_false (by decide) fun h => hsized h.1, fun h => absurd h (by decide)⟩

/-- Every run of a bundled checker ends, accepts what `Accepts` says, and fails only for the sake of a
file that is too large or of an answer that it cannot use. -/
theorem Bundled.main_verdict (c : Bundled) (inf ouf ans : Bytes) :
    c.Verdict inf ouf ans (c.main inf ouf ans) := by
  cases c with
  | default => exact default_verdict inf ouf ans
  | fcmp => exact (compareByLine_judges Fcmp.same_iff inf ouf ans).verdict rfl
  | hcmp => exact (check_judgesOne Hcmp.body_leads inf ouf ans).verdict rfl rfl
  | lcmp => exact (compareByLine_judges Lcmp.compareWords_iff inf ouf ans).verdict rfl
  | ncmp => exact (check_judges Ncmp.body_leads inf ouf ans).verdict rfl rfl
  | nyesno => exact (check_judges Nyesno.body_leads inf ouf ans).verdict rfl rfl
  | wcmp => exact (check_judges Wcmp.body_leads inf ouf ans).verdict rfl rfl
  | yesno => exact (check_judgesOne Yesno.body_leads inf ouf ans).verdict rfl rfl

/-! ## One answer, several outputs -/

theorem Bundled.Accepts.usable {c : Bundled} {ouf ans : Bytes} (h : c.Accepts ouf ans) : c.Usable ans := by
  cases c with
  | default | fcmp | lcmp => trivial
  | hcmp | yesno =>
    obtain ⟨t, u, hoffers, -, hgood, -⟩ := h
    exact ⟨t, hoffers, hgood⟩
  | ncmp | nyesno | wcmp => exact h.1

/-- An answer that some output satisfies is not blamed for another output. -/
theorem Bundled.main_ne_fail (c : Bundled) {inf ouf ans : Bytes} (haccept : c.main inf ouf ans = .exit 0)
    (ouf' : Bytes) : ∃ n < 3, c.main inf ouf' ans = .exit n := by
  obtain ⟨hsized, haccepts⟩ := (c.main_verdict inf ouf ans).accepts.mp haccept
  have hverdict := c.main_verdict inf ouf' ans
  obtain ⟨n, hn, hexit⟩ := hverdict.code
  refine ⟨n, ?_, hexit⟩
  have hne : n ≠ 3 := by
    rintro rfl
    rcases hverdict.fails hexit with hlarge | hlarge | hbad
    · exact absurd hsized.inf (by omega)
    · exact absurd hsized.ans (by omega)
    · exact hbad haccepts.usable
  omega

/-- A file of at most two bytes can be opened. -/
theorem le_maxFileSize {b : Bytes} (h : b.length ≤ 2) : b.length ≤ maxFileSize := by
  unfold maxFileSize
  omega

/-- `fcmp` accepts the output `7` with a line feed for the answer `7` without one. -/
theorem fcmp_accepts_seven : Bundled.fcmp.main [] [55, 10] [55] = .exit 0 := by
  have hlines : answerLines [55] = [[55]] := by
    rw [answerLines_cons (by decide), answerLines_nil (by decide)]
    rfl
  refine (Bundled.fcmp.main_verdict [] [55, 10] [55]).accepts.mpr ⟨?_, ?_, ?_⟩
  · exact ⟨le_maxFileSize (by decide), le_maxFileSize (by decide), le_maxFileSize (by decide)⟩
  · rw [LinesAgree, hlines]
    exact .cons rfl .nil
  · rw [hlines]
    decide

/-- The answer `7` is not blamed for the output `8`. -/
theorem main_ne_fail_eight : Bundled.fcmp.main [] [55, 10] [55] = .exit 0 ∧
    ∃ n < 3, Bundled.fcmp.main [] [56] [55] = .exit n :=
  ⟨fcmp_accepts_seven, Bundled.fcmp.main_ne_fail fcmp_accepts_seven [56]⟩

/-- A file with a single line, which is empty, is at most a terminator. -/
theorem tokens_of_lineOf_nil {b : Bytes} (hline : (lineOf b).1 = []) (hrest : (lineOf b).2 = []) :
    tokens b = [] := by
  fun_induction lineOf b with
  | case1 => rfl
  | case2 b =>
    subst hrest
    exact tokens_cons_blank _ (by decide)
  | case3 => exact absurd hline (by simp)
  | case4 b =>
    subst hrest
    rw [tokens_cons_blank _ (by decide)]
    exact tokens_cons_blank _ (by decide)
  | case5 d b hd _ ih => exact absurd hline (by simp)
  | case6 c b hlf hcr ih => exact absurd hline (by simp)

/-- The lines of the answer, read as an output, are all there and leave blanks at most. -/
theorem acceptsLines_self {same : Bytes → Bytes → Prop} (hrefl : ∀ l, same l l) (b : Bytes) :
    LinesAgree same b b ∧ tokens (behindLines (answerLines b).length b) = [] := by
  fun_induction answerLines b with
  | case1 b h =>
    have hlines := answerLines_nil h
    refine ⟨by rw [LinesAgree, hlines]; exact .nil, ?_⟩
    show tokens b = []
    rcases h with rfl | ⟨hline, hrest⟩
    · rfl
    · exact tokens_of_lineOf_nil hline hrest
  | case2 b h ih =>
    rw [linesAgree_cons h]
    exact ⟨⟨hrefl _, ih.1⟩, ih.2⟩

/-- An answer without a byte order mark that some output satisfies satisfies itself. -/
theorem Bundled.main_self {c : Bundled} (hc : c ≠ .yesno) {inf ouf ans : Bytes}
    (haccept : c.main inf ouf ans = .exit 0) (hbom : ¬ utf8Bom <+: ans) : c.main inf ans ans = .exit 0 := by
  obtain ⟨hsized, haccepts⟩ := (c.main_verdict inf ouf ans).accepts.mp haccept
  have husable := haccepts.usable
  have hdrop : dropBom ans = ans := if_neg hbom
  refine (c.main_verdict inf ans ans).accepts.mpr ⟨⟨hsized.inf, hsized.ans, hsized.ans⟩, ?_⟩
  cases c with
  | default =>
    show normalForm _ = normalForm _
    rw [hdrop]
  | fcmp =>
    show AcceptsLines _ ans ans
    rw [AcceptsLines, hdrop]
    exact acceptsLines_self (by intro _; rfl) ans
  | lcmp =>
    show AcceptsLines _ ans ans
    rw [AcceptsLines, hdrop]
    exact acceptsLines_self (by intro _; rfl) ans
  | hcmp =>
    obtain ⟨t, hoffers, hgood⟩ := husable
    exact ⟨t, t, hoffers, by rw [hdrop]; exact hoffers, hgood, hgood, rfl⟩
  | ncmp | nyesno | wcmp =>
    refine ⟨husable, by rw [hdrop]; exact husable, ?_⟩
    rw [hdrop]
    exact List.forall₂_same.mpr fun _ _ => rfl
  | yesno => exact absurd rfl hc

/-- The answer `7` without a line feed. -/
theorem main_self_seven : Bundled.fcmp.main [] [55, 10] [55] = .exit 0 ∧
    Bundled.fcmp.main [] [55] [55] = .exit 0 :=
  ⟨fcmp_accepts_seven, Bundled.main_self (by decide) fcmp_accepts_seven (by decide)⟩

/-! ## The strictest checker -/

theorem tokens_append_blank (w : Bytes) {c : UInt8} (b : Bytes) (hc : blank c = true) :
    tokens (w ++ c :: b) = tokens w ++ tokens b := by
  rw [tokens, List.splitOnP_append_cons _ _ hc, List.filter_append]
  rfl

theorem noBareCr_lineOf {b : Bytes} (h : NoBareCr b) : NoBareCr (lineOf b).2 := by
  fun_induction lineOf b with
  | case1 => exact h
  | case2 b => exact h.2
  | case3 => trivial
  | case4 b => exact h.2.2
  | case5 d b hd _ ih => exact absurd (h.1 rfl) (by simpa using hd)
  | case6 c b hlf hcr ih => exact ih h.2

/-- No token stretches over a terminator. -/
theorem tokens_lineOf {b : Bytes} (h : NoBareCr b) : tokens b = tokens (lineOf b).1 ++ tokens (lineOf b).2 := by
  have hb := dropBareCr_of_noBareCr h
  have hrest := dropBareCr_of_noBareCr (noBareCr_lineOf h)
  obtain ⟨-, hline | hline | hline⟩ := dropBareCr_lineOf b
  · rw [hline.2, tokens_nil, List.append_nil, ← hline.1, hb]
  · conv_lhs => rw [← hb, hline, hrest]
    exact tokens_append_blank _ _ (by decide)
  · conv_lhs => rw [← hb, hline, hrest]
    rw [tokens_append_blank _ _ (by decide), tokens_cons_blank _ (by decide)]

theorem isTrailing_of_blank {c : UInt8} (hc : blank c = true) (hlf : c ≠ LF) : isTrailing c = true := by
  rw [blank, isBlanks, decide_eq_true_eq] at hc
  rcases hc with h | h | h | h
  · exact absurd (int_inj.mp h) hlf
  all_goals rw [int_inj.mp h]; decide

/-- The lines that the default checker keeps, from the first line or from a later one on. -/
def keptLines (isFirstLine : Bool) (b : Bytes) : List Bytes :=
  (normalizeLines isFirstLine ((dropBareCr b).splitOn LF)).rdropWhile List.isEmpty

theorem keptLines_true (b : Bytes) : keptLines true b = normalForm (dropBareCr b) := by
  rw [keptLines, normalForm, normalPieces_eq]

theorem keptLines_lineOf (isFirstLine : Bool) (b : Bytes) :
    keptLines isFirstLine b =
      if keptLines false (lineOf b).2 = [] then [normalizeLine (lineOf b).1 isFirstLine].rdropWhile List.isEmpty
      else normalizeLine (lineOf b).1 isFirstLine :: keptLines false (lineOf b).2 := by
  rw [keptLines, trim_pieces, rdropWhile_cons]
  rfl

/-- Of blanks the default checker keeps nothing, if none is a bare carriage return. -/
theorem keptLines_blanks (isFirstLine : Bool) {b : Bytes} (hb : tokens b = []) (hcr : NoBareCr b) :
    keptLines isFirstLine b = [] := by
  induction hn : b.length using Nat.strong_induction_on generalizing b isFirstLine with
  | _ n ih =>
    by_cases hnil : b = []
    · subst hnil
      cases isFirstLine <;> rfl
    rw [tokens_lineOf hcr, List.append_eq_nil_iff] at hb
    have hrest := ih _ (hn ▸ lineOf_length_lt hnil) false hb.2 (noBareCr_lineOf hcr) rfl
    have hline : ∀ c ∈ (lineOf b).1, isTrailing c = true := by
      intro c hc
      have hblank := List.dropWhile_eq_nil_iff.mp ((tokens_eq_nil_iff _).mp hb.1) c hc
      refine isTrailing_of_blank hblank ?_
      rintro rfl
      exact (dropBareCr_lineOf b).1 hc
    have hempty : normalizeLine (lineOf b).1 isFirstLine = [] := by
      rw [← List.nil_append (lineOf b).1, normalizeLine_append_blanks [] _ _ hline]
      cases isFirstLine <;> rfl
    rw [keptLines_lineOf, if_pos hrest, hempty]
    rfl

/-- Files with equal lines are equal to the default checker. -/
theorem keptLines_of_linesAgree (isFirstLine : Bool) {ouf ans : Bytes} (hcr : NoBareCr ouf)
    (hlines : LinesAgree (· = ·) ouf ans) (hrest : tokens (behindLines (answerLines ans).length ouf) = []) :
    keptLines isFirstLine ans = keptLines isFirstLine ouf := by
  fun_induction answerLines ans generalizing ouf isFirstLine with
  | case1 ans h =>
    rw [keptLines_blanks _ (show tokens ouf = [] from hrest) hcr]
    rcases h with rfl | ⟨hline, hend⟩
    · cases isFirstLine <;> rfl
    · rw [keptLines_lineOf, hline, hend]
      cases isFirstLine <;> rfl
  | case2 ans h ih =>
    rw [linesAgree_cons h] at hlines
    rw [keptLines_lineOf, keptLines_lineOf _ ouf, hlines.1, ih false (noBareCr_lineOf hcr) hlines.2 hrest]

/-- Files with equal lines have equal tokens. -/
theorem tokens_of_linesAgree {ouf ans : Bytes} (hans : NoBareCr ans) (houf : NoBareCr ouf)
    (hlines : LinesAgree (· = ·) ouf ans) (hrest : tokens (behindLines (answerLines ans).length ouf) = []) :
    tokens ans = tokens ouf := by
  fun_induction answerLines ans generalizing ouf with
  | case1 ans h =>
    rw [show tokens ouf = [] from hrest]
    rcases h with rfl | ⟨hline, hend⟩
    · rfl
    · exact tokens_of_lineOf_nil hline hend
  | case2 ans h ih =>
    rw [linesAgree_cons h] at hlines
    rw [tokens_lineOf hans, tokens_lineOf houf, hlines.1,
      ih (noBareCr_lineOf hans) (noBareCr_lineOf houf) hlines.2 hrest]

/-- What `fcmp` accepts of files without bare carriage returns, `lcmp` and the default checker accept as
well, and so does `wcmp` if it can read the tokens. -/
theorem fcmp_strictest {inf ouf ans : Bytes} (haccept : Bundled.fcmp.main inf ouf ans = .exit 0)
    (hans : NoBareCr ans) (houf : NoBareCr ouf) :
    Bundled.default.main inf ouf ans = .exit 0 ∧ Bundled.lcmp.main inf ouf ans = .exit 0 ∧
      ((∀ t ∈ tokens ans, t.length ≤ maxTokenLength) → Bundled.wcmp.main inf ouf ans = .exit 0) := by
  obtain ⟨hsized, hlines, hrest⟩ := (Bundled.fcmp.main_verdict inf ouf ans).accepts.mp haccept
  refine ⟨?_, ?_, ?_⟩
  · refine (Bundled.default.main_verdict inf ouf ans).accepts.mpr ⟨hsized, ?_⟩
    show normalForm _ = normalForm _
    rw [← keptLines_true, ← keptLines_true]
    exact keptLines_of_linesAgree true houf.dropBom hlines hrest
  · refine (Bundled.lcmp.main_verdict inf ouf ans).accepts.mpr ⟨hsized, hlines.imp ?_, hrest⟩
    rintro j p rfl
    rfl
  · intro hshort
    have htokens := tokens_of_linesAgree hans houf.dropBom hlines hrest
    refine (Bundled.wcmp.main_verdict inf ouf ans).accepts.mpr ⟨hsized, hshort, htokens ▸ hshort, ?_⟩
    rw [htokens]
    exact List.forall₂_same.mpr fun _ _ => rfl

theorem fcmp_strictest_seven : Bundled.fcmp.main [] [55, 10] [55] = .exit 0 ∧
    Bundled.default.main [] [55, 10] [55] = .exit 0 ∧ Bundled.lcmp.main [] [55, 10] [55] = .exit 0 ∧
      ((∀ t ∈ tokens [55], t.length ≤ maxTokenLength) → Bundled.wcmp.main [] [55, 10] [55] = .exit 0) :=
  ⟨fcmp_accepts_seven, fcmp_strictest fcmp_accepts_seven (by simp [NoBareCr, CR])
    (by simp [NoBareCr, CR])⟩

end Afterglow.Testlib
