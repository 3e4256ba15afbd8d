import Afterglow.Testlib.Stream
import Mathlib.Data.List.DropRight

/-!
# The default checker

Reference: `support/checkers/default.cpp`, and `registerTestlibCmd`, `InStream::init` and
`InStream::quit` of `support/testlib.h`, for a checker started with three existing files.

`main` is related to `normalForm`, the text up to trailing blanks, trailing empty lines and one byte
order mark. The two agree on texts without bare carriage returns. A bare carriage return is lost in
the line reader, and a second byte order mark of the output is removed as well, so `main` accepts
some pairs whose normal forms differ.
-/

namespace Afterglow.Testlib

/-! ## Ending a run -/

inductive TMode
  | input
  | output
  | answer
deriving Repr, DecidableEq

inductive TResult
  | ok
  | wa
  | pe
  | fail
  | dirt
  | points
  | unexpectedEof
  | partially (pctype : ℕ)
deriving Repr, DecidableEq

/-- `resultExitCode` of a plain build. -/
def resultExitCode : TResult → ℕ
  | .ok => 0
  | .wa => 1
  | .pe => 2
  | .fail => 3
  | .dirt => 4
  | .points => 7
  | .unexpectedEof => 2
  | .partially pctype => pctype

/-- `__testlib_shouldCheckDirt`. -/
def shouldCheckDirt : TResult → Bool
  | .ok | .points | .partially _ => true
  | _ => false

/-- `InStream::quit` on a stream of the given mode; `ouf` is the reader of the output stream, if it
is open. The source calls itself with `_fail` or `_dirt`, which then pass the tests before. -/
def quit (mode : TMode) (ouf : Option Reader) (result : TResult) : Stop :=
  let result := if result = .unexpectedEof then .pe else result
  if mode ≠ .output ∧ result ≠ .fail then
    .exit (resultExitCode .fail)
  else if shouldCheckDirt result then
    match ouf.map seekEof with
    | none | some (.ok (true, _)) => .exit (resultExitCode result)
    | some (.ok (false, _)) => .exit (resultExitCode .pe)
    | some (.error stop) => stop
  else
    .exit (resultExitCode (if result = .dirt then .pe else result))

/-! ## Opening the streams -/

/-- The default of `maxFileSize`, 128 MiB. -/
@[irreducible] def maxFileSize : ℕ := 128 * 1024 * 1024

/-- `InStream::init` of a file with the given contents. -/
def init (file : Bytes) (mode : TMode) : Except Stop Reader :=
  if file.length > maxFileSize then .error (quit mode none .pe) else .ok (Reader.new file)

/-- `registerTestlibCmd`: the readers of `ouf` and `ans`. -/
def registerTestlibCmd (inf ouf ans : Bytes) : Except Stop (Reader × Reader) := do
  let _ ← init inf .input
  let oufReader ← init ouf .output
  let (_, oufReader) ← skipBom oufReader
  let ansReader ← init ans .answer
  pure (oufReader, ansReader)

/-! ## `default.cpp` -/

def hasUtf8Bom (s : Bytes) : Bool :=
  s.length ≥ 3 ∧ s[0]? = some 0xEF ∧ s[1]? = some 0xBB ∧ s[2]? = some 0xBF

/-- The characters that `normalizeLine` removes from the end: space, `\t`, `\r`, `\f`, `\v`. -/
def isTrailing (ch : UInt8) : Bool := ch = 32 ∨ ch = 9 ∨ ch = 13 ∨ ch = 12 ∨ ch = 11

def normalizeLine (line : Bytes) (isFirstLine : Bool) : Bytes :=
  (if isFirstLine && hasUtf8Bom line then line.drop 3 else line).rdropWhile isTrailing

/-- `line.empty() && in.eof()`. -/
def emptyAtEof (line : Bytes) : Reading Bool := if line.isEmpty then eof else pure false

/-- The first loop of `readNormalizedLines`, for at most `n` rounds. -/
def readNormalizedLoop : ℕ → List Bytes → Reading (List Bytes)
  | 0, _ => throw .diverge
  | n + 1, lines => do
    let done ← eof
    if done then
      pure lines
    else
      let line ← readLine
      let last ← emptyAtEof line
      if last then
        pure lines
      else
        readNormalizedLoop n (lines ++ [normalizeLine line lines.isEmpty])

def readNormalizedLines : Reading (List Bytes) := do
  let r ← get
  let lines ← readNormalizedLoop (r.remaining + 1) []
  pure (lines.rdropWhile List.isEmpty)

/-- The comparison and the final `quitf`, which is `ouf.quit`. -/
def compareLines (expected found : List Bytes) (ouf : Reader) : Stop :=
  let common := min expected.length found.length
  if (List.range common).any (fun i => expected[i]? ≠ found[i]?) then quit .output (some ouf) .wa
  else if expected.length ≠ found.length then quit .output (some ouf) .wa
  else quit .output (some ouf) .ok

/-- `main`, on the contents of the three files. -/
def main (inf ouf ans : Bytes) : Stop :=
  let run : Except Stop Stop := do
    let (oufReader, ansReader) ← registerTestlibCmd inf ouf ans
    let (expected, _) ← readNormalizedLines ansReader
    let (found, oufReader) ← readNormalizedLines oufReader
    pure (compareLines expected found oufReader)
  match run with
  | .ok stop | .error stop => stop

/-! ## The normal form of a text -/

/-- Without one leading byte order mark. -/
def dropBom (b : Bytes) : Bytes := if utf8Bom <+: b then b.drop 3 else b

/-- The pieces of `lines`, the first without a byte order mark, without blanks at their ends and
without empty pieces at the end. -/
def normalPieces : List Bytes → List Bytes
  | [] => []
  | p :: ps => ((dropBom p :: ps).map (List.rdropWhile isTrailing)).rdropWhile List.isEmpty

/-- A text up to trailing blanks, trailing empty lines and one byte order mark. -/
def normalForm (b : Bytes) : List Bytes := normalPieces (b.splitOn LF)

/-- The text as the line reader passes it on. A bare carriage return, one not in front of a line feed,
is lost, and the byte behind it is kept unseen: of two in a row, the second stays. One at the very end
turns into `0xFF`, the byte of `EOFC`. -/
def dropBareCr : Bytes → Bytes
  | [] => []
  | c :: b =>
    if c = CR then
      match b with
      | [] => [0xFF]
      | d :: b => if d = LF then CR :: LF :: dropBareCr b else d :: dropBareCr b
    else c :: dropBareCr b

theorem dropBareCr_crlf (b : Bytes) : dropBareCr (CR :: LF :: b) = CR :: LF :: dropBareCr b := by
  rw [dropBareCr.eq_def]
  rfl

theorem dropBareCr_cr_cons {d : UInt8} (b : Bytes) (hd : d ≠ LF) :
    dropBareCr (CR :: d :: b) = d :: dropBareCr b := by
  rw [dropBareCr.eq_def]
  simp only [if_true, hd, if_false]

theorem dropBareCr_cons {c : UInt8} (b : Bytes) (hc : c ≠ CR) :
    dropBareCr (c :: b) = c :: dropBareCr b := by
  rw [dropBareCr.eq_def]
  simp only [hc, if_false]

/-! ## What the line loop reads -/

theorem rdropWhile_cons {α : Type} (p : α → Bool) (a : α) (l : List α) :
    (a :: l).rdropWhile p
      = if l.rdropWhile p = [] then [a].rdropWhile p else a :: l.rdropWhile p := by
  induction l using List.reverseRecOn with
  | nil => simp
  | append_singleton l z ih =>
    rw [← List.cons_append, List.rdropWhile_concat, List.rdropWhile_concat]
    by_cases hz : p z = true
    · rw [if_pos hz, if_pos hz, ih]
    · rw [if_neg hz, if_neg hz, if_neg (by simp), List.cons_append]

theorem hasUtf8Bom_iff (s : Bytes) : hasUtf8Bom s = true ↔ utf8Bom <+: s := by
  match s with
  | [] | [_] | [_, _] => simp [hasUtf8Bom, utf8Bom]
  | a :: b :: c :: s =>
    simp only [hasUtf8Bom, utf8Bom, List.cons_prefix_cons, List.nil_prefix, decide_eq_true_eq,
      List.length_cons, List.getElem?_cons_zero, List.getElem?_cons_succ, Option.some.injEq]
    constructor
    · rintro ⟨-, rfl, rfl, rfl⟩
      exact ⟨rfl, rfl, rfl, trivial⟩
    · rintro ⟨rfl, rfl, rfl, -⟩
      exact ⟨by omega, rfl, rfl, rfl⟩

theorem normalizeLine_eq (line : Bytes) (isFirstLine : Bool) :
    normalizeLine line isFirstLine
      = (if isFirstLine then dropBom line else line).rdropWhile isTrailing := by
  cases isFirstLine <;> simp [normalizeLine, dropBom, hasUtf8Bom_iff]

/-- A byte outside the mark does not complete it. -/
theorem utf8Bom_prefix_append {l : Bytes} {c : UInt8} {rest : Bytes} (hc : c ∉ utf8Bom) :
    utf8Bom <+: l ++ c :: rest ↔ utf8Bom <+: l := by
  constructor
  · intro h
    rcases Nat.lt_or_ge l.length 3 with hlt | hge
    · -- The byte would stand inside the mark.
      exfalso
      obtain ⟨t, ht⟩ := h
      apply hc
      have hget : (utf8Bom ++ t)[l.length]? = some c := by
        rw [ht]
        simp
      rw [List.getElem?_append_left hlt] at hget
      exact List.mem_of_getElem? hget
    · exact List.prefix_of_prefix_length_le h (List.prefix_append _ _) hge
  · intro h
    exact h.trans (List.prefix_append _ _)

theorem dropBom_append {l : Bytes} {c : UInt8} {rest : Bytes} (hc : c ∉ utf8Bom) :
    dropBom (l ++ c :: rest) = dropBom l ++ c :: rest := by
  unfold dropBom
  by_cases h : utf8Bom <+: l
  · rw [if_pos h, if_pos ((utf8Bom_prefix_append hc).mpr h)]
    exact List.drop_append_of_le_length h.length_le
  · rw [if_neg h, if_neg (fun h' => h ((utf8Bom_prefix_append hc).mp h'))]

/-- Blanks at the end of a line make no difference, also where they follow a partial mark. -/
theorem normalizeLine_append_blanks (l pad : Bytes) (isFirstLine : Bool)
    (hpad : ∀ c ∈ pad, isTrailing c = true) :
    normalizeLine (l ++ pad) isFirstLine = normalizeLine l isFirstLine := by
  induction pad using List.reverseRecOn with
  | nil => rw [List.append_nil]
  | append_singleton pad c ih =>
    have hc : isTrailing c = true := hpad c (by simp)
    have hbom : c ∉ utf8Bom := by
      intro hmem
      have hall : ∀ d ∈ utf8Bom, isTrailing d = false := by decide +kernel
      rw [hall c hmem] at hc
      contradiction
    rw [← ih (fun d hd => hpad d (by simp [hd])), ← List.append_assoc, normalizeLine_eq,
      normalizeLine_eq]
    cases isFirstLine with
    | true =>
      simp only [if_true]
      rw [dropBom_append hbom, List.rdropWhile_concat_pos _ _ _ hc]
    | false =>
      simp only [Bool.false_eq_true, if_false]
      rw [List.rdropWhile_concat_pos _ _ _ hc]

/-- `normalizeLine` along a list, the first line as the flag says. -/
def normalizeLines : Bool → List Bytes → List Bytes
  | _, [] => []
  | isFirstLine, l :: ls => normalizeLine l isFirstLine :: normalizeLines false ls

theorem normalizeLines_false (ls : List Bytes) :
    normalizeLines false ls = ls.map (List.rdropWhile isTrailing) := by
  induction ls with
  | nil => rfl
  | cons l ls ih => rw [normalizeLines, ih, normalizeLine_eq]; rfl

theorem normalPieces_eq (ls : List Bytes) :
    normalPieces ls = (normalizeLines true ls).rdropWhile List.isEmpty := by
  cases ls with
  | nil => rfl
  | cons l ls => rw [normalPieces, normalizeLines, normalizeLines_false, normalizeLine_eq]; rfl

/-- How a line read by `readLine` lies in the text without bare carriage returns. -/
theorem dropBareCr_lineOf (b : Bytes) : LF ∉ (lineOf b).1 ∧
    (dropBareCr b = (lineOf b).1 ∧ (lineOf b).2 = [] ∨
      dropBareCr b = (lineOf b).1 ++ LF :: dropBareCr (lineOf b).2 ∨
      dropBareCr b = (lineOf b).1 ++ CR :: LF :: dropBareCr (lineOf b).2) := by
  fun_induction lineOf b with
  | case1 => exact ⟨by simp, .inl ⟨rfl, rfl⟩⟩
  | case2 b => exact ⟨by simp, .inr (.inl (dropBareCr_cons b (by decide)))⟩
  | case3 => exact ⟨by decide, .inl ⟨rfl, rfl⟩⟩
  | case4 b => exact ⟨by simp, .inr (.inr (dropBareCr_crlf b))⟩
  | case5 d b hd _ ih =>
    simp only [dropBareCr_cr_cons b hd, List.mem_cons, not_or, List.cons_append, List.cons.injEq,
      true_and]
    exact ⟨⟨Ne.symm hd, ih.1⟩, ih.2⟩
  | case6 c b hlf hcr ih =>
    simp only [dropBareCr_cons b hcr, List.mem_cons, not_or, List.cons_append, List.cons.injEq,
      true_and]
    exact ⟨⟨Ne.symm hlf, ih.1⟩, ih.2⟩

/-- One round of the loop, on the pieces between line feeds. -/
theorem trim_pieces (b : Bytes) (isFirstLine : Bool) :
    (normalizeLines isFirstLine ((dropBareCr b).splitOn LF)).rdropWhile List.isEmpty
      = (normalizeLine (lineOf b).1 isFirstLine ::
          normalizeLines false ((dropBareCr (lineOf b).2).splitOn LF)).rdropWhile List.isEmpty := by
  obtain ⟨hlf, h | h | h⟩ := dropBareCr_lineOf b
  · rw [h.1, h.2, List.splitOn_eq_singleton hlf, normalizeLines]
    rw [rdropWhile_cons, rdropWhile_cons]
    rfl
  · rw [h, List.splitOn_append_cons_self_of_not_mem hlf, normalizeLines]
  · have hcr : LF ∉ (lineOf b).1 ++ [CR] := by
      simp only [List.mem_append, not_or]
      exact ⟨hlf, by decide⟩
    rw [h, ← List.singleton_append (x := CR), ← List.append_assoc,
      List.splitOn_append_cons_self_of_not_mem hcr, normalizeLines,
      normalizeLine_append_blanks _ _ _ (by decide +kernel)]

theorem emptyAtEof_yields {b : Bytes} {r : Reader} (line : Bytes) (h : Holds 2 b r) :
    Yields (emptyAtEof line) r fun last r' =>
      last = (line.isEmpty && b.isEmpty) ∧ Holds 2 b r' := by
  cases line with
  | nil => exact eof_yields h
  | cons c line => exact Yields.pure ⟨rfl, h⟩

theorem readNormalizedLoop_yields {b : Bytes} {r : Reader} (n : ℕ) (lines : List Bytes)
    (hn : b.length < n) (h : Holds 2 b r) :
    Yields (readNormalizedLoop n lines) r fun res r' => Holds 2 [] r' ∧ ∃ more, res = lines ++ more ∧
      more.rdropWhile List.isEmpty = (normalizeLines lines.isEmpty
        ((dropBareCr b).splitOn LF)).rdropWhile List.isEmpty := by
  induction n generalizing b r lines with
  | zero => omega
  | succ n ih =>
    refine Yields.bind ((eof_yields h).mono ?_)
    rintro done r₁ ⟨rfl, h₁⟩
    by_cases hb : b = []
    · subst hb
      rw [if_pos (by rfl)]
      refine Yields.pure ⟨h₁, [], by simp, ?_⟩
      cases lines.isEmpty <;> rfl
    rw [if_neg (by simpa using hb)]
    refine Yields.bind ((readLine_yields h₁).mono ?_)
    rintro line r₂ ⟨rfl, h₂⟩
    have hlt := lineOf_length_lt hb
    refine Yields.bind ((emptyAtEof_yields _ h₂).mono ?_)
    rintro last r₃ ⟨rfl, h₃⟩
    by_cases hend : (lineOf b).1 = [] ∧ (lineOf b).2 = []
    · -- An empty line in front of the end of the file is not pushed; it would be popped again.
      rw [if_pos (by simp [hend])]
      refine Yields.pure ⟨hend.2 ▸ h₃, [], by simp, ?_⟩
      rw [trim_pieces, hend.1, hend.2]
      cases lines.isEmpty <;> rfl
    · rw [if_neg (by simpa using hend)]
      refine (ih _ (by omega) h₃).mono ?_
      rintro res r₄ ⟨h₄, more, rfl, hmore⟩
      refine ⟨h₄, normalizeLine (lineOf b).1 lines.isEmpty :: more, by simp, ?_⟩
      have hfirst : (lines ++ [normalizeLine (lineOf b).1 lines.isEmpty]).isEmpty = false := by simp
      rw [hfirst] at hmore
      rw [trim_pieces, rdropWhile_cons _ _ more, hmore, ← rdropWhile_cons]

/-- `readNormalizedLines` computes the normal form of what the reader makes of the text, and reads
to the end. -/
theorem readNormalizedLines_yields {b : Bytes} {r : Reader} (h : Holds 2 b r) :
    Yields readNormalizedLines r fun lines r' =>
      lines = normalForm (dropBareCr b) ∧ Holds 2 [] r' := by
  refine Yields.bind (Yields.get ?_)
  refine Yields.bind ((readNormalizedLoop_yields _ [] (by rw [h.remaining]; omega) h).mono ?_)
  rintro lines r₁ ⟨h₁, more, rfl, hmore⟩
  refine Yields.pure ⟨?_, h₁⟩
  rw [normalForm, normalPieces_eq]
  exact hmore

/-! ## The exit code -/

/-- The comparison accepts equal lists only. -/
theorem compareLines_eq {expected found : List Bytes} {ouf : Reader} (h : Holds 2 [] ouf) :
    compareLines expected found ouf = .exit (if expected = found then 0 else WA_EXIT_CODE) := by
  have hok : quit .output (some ouf) .ok = .exit 0 := by
    obtain ⟨e, ouf', heof, rfl⟩ := seekEof_yields h
    simp [quit, shouldCheckDirt, heof, resultExitCode]
  have hwa : quit .output (some ouf) .wa = .exit WA_EXIT_CODE := by
    simp [quit, shouldCheckDirt, resultExitCode, WA_EXIT_CODE]
  rw [compareLines, hok, hwa]
  by_cases heq : expected = found
  · subst heq
    simp
  rw [if_neg heq]
  split_ifs with hdiff hlen
  · rfl
  · rfl
  · exfalso
    apply heq
    simp only [List.any_eq_true, List.mem_range, not_exists, not_and, decide_eq_true_eq,
      not_not] at hdiff hlen
    apply List.ext_getElem?
    intro i
    by_cases hi : i < min expected.length found.length
    · exact hdiff i hi
    · rw [List.getElem?_eq_none (by omega), List.getElem?_eq_none (by omega)]

theorem registerTestlibCmd_ok {inf ouf ans : Bytes} (hinf : inf.length ≤ maxFileSize)
    (houf : ouf.length ≤ maxFileSize) (hans : ans.length ≤ maxFileSize) :
    ∃ oufReader ansReader, registerTestlibCmd inf ouf ans = .ok (oufReader, ansReader) ∧
      Holds 2 (dropBom ouf) oufReader ∧ Holds 2 ans ansReader := by
  obtain ⟨_, oufReader, hskip, hholds⟩ := skipBom_yields (Reader.new_holds ouf)
  refine ⟨oufReader, Reader.new ans, ?_, hholds, (Reader.new_holds ans).mono (by omega)⟩
  simp only [registerTestlibCmd, init, gt_iff_lt, Nat.not_lt.mpr, hinf, houf, hans, if_false]
  show (do
    let (_, oufReader) ← skipBom (Reader.new ouf)
    pure (oufReader, Reader.new ans) : Except Stop _) = _
  rw [hskip]
  rfl

/-- What the checker computes: it compares the normal forms of the two texts as the reader sees
them. -/
theorem main_eq {inf ouf ans : Bytes} (hinf : inf.length ≤ maxFileSize)
    (houf : ouf.length ≤ maxFileSize) (hans : ans.length ≤ maxFileSize) :
    main inf ouf ans = .exit (if normalForm (dropBareCr ans) = normalForm (dropBareCr (dropBom ouf))
      then 0 else WA_EXIT_CODE) := by
  obtain ⟨oufReader, ansReader, hreg, hholdsOuf, hholdsAns⟩ := registerTestlibCmd_ok hinf houf hans
  obtain ⟨expected, ansReader', hexpected, rfl, -⟩ := readNormalizedLines_yields hholdsAns
  obtain ⟨found, oufReader', hfound, rfl, hend⟩ := readNormalizedLines_yields hholdsOuf
  rw [← compareLines_eq hend]
  simp only [main, hreg, hexpected, hfound, bind, Except.bind, pure, Except.pure]

/-- Too large an input file ends the run in `_fail`. -/
theorem main_inf_too_large {inf : Bytes} (ouf ans : Bytes) (hinf : maxFileSize < inf.length) :
    main inf ouf ans = .exit FAIL_EXIT_CODE := by
  simp [main, registerTestlibCmd, init, hinf, quit, resultExitCode, FAIL_EXIT_CODE, bind,
    Except.bind]

/-- Every carriage return stands in front of a line feed. -/
def NoBareCr : Bytes → Prop
  | [] => True
  | c :: b => (c = CR → b.head? = some LF) ∧ NoBareCr b

/-- Bytes other than a carriage return can be put in front. -/
theorem noBareCr_append {l b : Bytes} (hl : CR ∉ l) : NoBareCr (l ++ b) ↔ NoBareCr b := by
  induction l with
  | nil => rfl
  | cons c l ih =>
    rw [List.mem_cons, not_or] at hl
    rw [List.cons_append, NoBareCr, ih hl.2]
    exact ⟨fun h => h.2, fun h => ⟨fun hc => absurd hc.symm hl.1, h⟩⟩

theorem NoBareCr.dropBom {b : Bytes} (h : NoBareCr b) : NoBareCr (dropBom b) := by
  by_cases hbom : utf8Bom <+: b
  · obtain ⟨b', rfl⟩ := hbom
    rw [Testlib.dropBom, if_pos (List.prefix_append _ _)]
    exact (noBareCr_append (by decide)).mp h
  · rwa [Testlib.dropBom, if_neg hbom]

theorem dropBareCr_of_noBareCr {b : Bytes} (h : NoBareCr b) : dropBareCr b = b := by
  fun_induction dropBareCr b with
  | case1 => rfl
  | case2 => exact absurd (h.1 rfl) (by simp)
  | case3 b ih => rw [ih h.2.2]
  | case4 d b hd ih => exact absurd (h.1 rfl) (by simpa using hd)
  | case5 c b hc ih => rw [ih h.2]

/-- A prefix without line feeds belongs to the first piece. -/
theorem splitOn_append {l b q : Bytes} {qs : List Bytes} (hl : LF ∉ l)
    (hb : b.splitOn LF = q :: qs) : (l ++ b).splitOn LF = (l ++ q) :: qs := by
  induction l with
  | nil => exact hb
  | cons c l ih =>
    rw [List.mem_cons, not_or] at hl
    rw [List.cons_append, List.splitOn_cons_eq_if_modifyHead, if_neg (by simpa using Ne.symm hl.1),
      ih hl.2]
    rfl

theorem splitOn_head_prefix (b : Bytes) : ∃ q qs, b.splitOn LF = q :: qs ∧ q <+: b := by
  induction b with
  | nil => exact ⟨[], [], rfl, List.prefix_rfl⟩
  | cons c b ih =>
    obtain ⟨q, qs, hq, hpre⟩ := ih
    rw [List.splitOn_cons_eq_if_modifyHead]
    split
    · exact ⟨[], _, rfl, List.nil_prefix⟩
    · rw [hq]
      exact ⟨c :: q, qs, rfl, (List.prefix_cons_inj c).mpr hpre⟩

/-- A mark in front of a text that has none is not part of its normal form. -/
theorem normalForm_bom_append {b : Bytes} (h : ¬ utf8Bom <+: b) :
    normalForm (utf8Bom ++ b) = normalForm b := by
  obtain ⟨q, qs, hq, hpre⟩ := splitOn_head_prefix b
  have hbom : dropBom (utf8Bom ++ q) = q := by
    rw [dropBom, if_pos (List.prefix_append _ _)]
    rfl
  have hq' : dropBom q = q := if_neg fun h' => h (h'.trans hpre)
  rw [normalForm, normalForm, splitOn_append (by decide) hq, hq, normalPieces, normalPieces, hbom,
    hq']

theorem normalForm_dropBom {b : Bytes} (h : ¬ utf8Bom ++ utf8Bom <+: b) :
    normalForm (dropBom b) = normalForm b := by
  by_cases hbom : utf8Bom <+: b
  · obtain ⟨b', rfl⟩ := hbom
    have hb' : ¬ utf8Bom <+: b' := fun h' => h ((List.prefix_append_right_inj _).mpr h')
    rw [normalForm_bom_append hb', dropBom, if_pos (List.prefix_append _ _)]
    rfl
  · rw [dropBom, if_neg hbom]

/-- **Soundness.** Without bare carriage returns in either file, and without a second byte order mark
at the head of the output, only texts with equal normal forms are accepted. -/
theorem main_accepts_only_equal {ans ouf : Bytes} (hans : ans.length ≤ maxFileSize)
    (houf : ouf.length ≤ maxFileSize) (hcrAns : NoBareCr ans) (hcrOuf : NoBareCr ouf)
    (hbom : ¬ utf8Bom ++ utf8Bom <+: ouf) :
    ∀ inf, main inf ouf ans = .exit 0 → normalForm ans = normalForm ouf := by
  intro inf hexit
  have hinf : inf.length ≤ maxFileSize := by
    by_contra hlarge
    rw [main_inf_too_large _ _ (Nat.lt_of_not_le hlarge)] at hexit
    exact absurd hexit (by decide)
  rw [main_eq hinf houf hans] at hexit
  split at hexit
  · next heq =>
      calc normalForm ans
          = normalForm (dropBareCr ans) := by rw [dropBareCr_of_noBareCr hcrAns]
        _ = normalForm (dropBareCr (dropBom ouf)) := heq
        _ = normalForm (dropBom ouf) := by rw [dropBareCr_of_noBareCr hcrOuf.dropBom]
        _ = normalForm ouf := normalForm_dropBom hbom
  · exact absurd hexit (by decide)

/-- The answer `ab` and the output `ab` with a `CRLF` are accepted, and rightly so. -/
theorem main_accepts_only_equal_crlf :
    main [] [97, 98, 13, 10] [97, 98] = .exit 0 ∧
      normalForm [97, 98] = normalForm [97, 98, 13, 10] := by
  have hsize : ([97, 98, 13, 10] : Bytes).length ≤ maxFileSize := by
    unfold maxFileSize
    decide
  have hsize' : ([97, 98] : Bytes).length ≤ maxFileSize := le_trans (by decide) hsize
  have haccept : main [] [97, 98, 13, 10] [97, 98] = .exit 0 := by
    rw [main_eq (Nat.zero_le _) hsize hsize']
    decide
  refine ⟨haccept, ?_⟩
  exact main_accepts_only_equal hsize' hsize (by simp [NoBareCr, CR]) (by simp [NoBareCr, CR, LF])
    (by decide) [] haccept

/-- The answer `ab` and the output `a`, carriage return, `b` are accepted. -/
theorem main_accepts_bare_cr :
    ([97, 98] : Bytes).length ≤ maxFileSize ∧ ([97, 13, 98] : Bytes).length ≤ maxFileSize ∧
      main [] [97, 13, 98] [97, 98] = .exit 0 ∧ normalForm [97, 98] ≠ normalForm [97, 13, 98] := by
  have hsize : ([97, 13, 98] : Bytes).length ≤ maxFileSize := by
    unfold maxFileSize
    decide
  have hsize' : ([97, 98] : Bytes).length ≤ maxFileSize := le_trans (by decide) hsize
  refine ⟨hsize', hsize, ?_, by decide⟩
  rw [main_eq (Nat.zero_le _) hsize hsize']
  decide

-- A bare carriage return is harmless unless the other file makes up for the loss: with two of them
-- the output reads as `a`, carriage return, `b`.
example : normalForm (dropBareCr [97, 98]) ≠ normalForm (dropBareCr (dropBom [97, 13, 13, 98])) := by
  decide

end Afterglow.Testlib
