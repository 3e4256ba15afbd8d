import Afterglow.Testlib.Checker
import Afterglow.Testlib.Number

/-!
# The checkers that compare lines

Reference: `support/checkers/fcmp.cpp` and `lcmp.cpp`. The loop is driven by the lines of the answer. At
the end of the output `readString` returns empty lines without complaint, and what the loop leaves of the
output is only checked for tokens, by `quitf(_ok, …)`. So neither checker sees blank lines at the end.
-/

namespace Afterglow.Testlib

open Halting

/-! ## The text of both checkers -/

/-- The loop, for at most `n` rounds; `same` compares a line of the answer with one of the output. -/
def lineLoop (same : Bytes → Bytes → Bool) : ℕ → Checking Unit
  | 0 => throw .diverge
  | n + 1 => do
    let ends ← onAns fun _ => eof
    if ends then
      pure ()
    else
      let j ← onAns fun _ => readLine
      let last ← onAns fun _ => emptyAtEof j
      if last then
        pure ()
      else
        let p ← onOuf fun _ => readLine
        if same j p then
          lineLoop same n
        else
          quitf .wa

def compareByLine (same : Bytes → Bytes → Bool) : Checking Empty := do
  let s ← get
  lineLoop same (s.ans.remaining + 1)
  quitf .ok

namespace Fcmp

def body : Checking Empty := compareByLine fun j p => j = p

/-- `main`, on the contents of the three files. -/
def main (inf ouf ans : Bytes) : Stop := check body inf ouf ans

end Fcmp

namespace Lcmp

/-- The words that `>>` reads from a `stringstream`. -/
def words (s : Bytes) : List Bytes := (s.splitOnP isspace).filter fun w => !w.isEmpty

def compareWords (a b : Bytes) : Bool := words a = words b

def body : Checking Empty := compareByLine compareWords

@[inherit_doc Fcmp.main] def main (inf ouf ans : Bytes) : Stop := check body inf ouf ans

end Lcmp

/-! ## The lines that are compared -/

/-- The lines of the answer: an empty line in front of the end of the file does not count. -/
def answerLines (b : Bytes) : List Bytes :=
  if _h : b = [] ∨ (lineOf b).1 = [] ∧ (lineOf b).2 = [] then []
  else (lineOf b).1 :: answerLines (lineOf b).2
termination_by b.length
decreasing_by exact lineOf_length_lt (not_or.mp _h).1

/-- The first `n` lines of the output, empty ones behind its end. -/
def outputLines : ℕ → Bytes → List Bytes
  | 0, _ => []
  | n + 1, b => (lineOf b).1 :: outputLines n (lineOf b).2

/-- What is behind the first `n` lines of the output. -/
def behindLines : ℕ → Bytes → Bytes
  | 0, b => b
  | n + 1, b => behindLines n (lineOf b).2

/-- The lines of the answer agree with as many lines of the output. -/
def LinesAgree (same : Bytes → Bytes → Prop) (ouf ans : Bytes) : Prop :=
  List.Forall₂ same (answerLines ans) (outputLines (answerLines ans).length ouf)

theorem answerLines_nil {b : Bytes} (h : b = [] ∨ (lineOf b).1 = [] ∧ (lineOf b).2 = []) :
    answerLines b = [] := by
  rw [answerLines, dif_pos h]

theorem answerLines_cons {b : Bytes} (h : ¬ (b = [] ∨ (lineOf b).1 = [] ∧ (lineOf b).2 = [])) :
    answerLines b = (lineOf b).1 :: answerLines (lineOf b).2 := by
  rw [answerLines, dif_neg h]

theorem linesAgree_cons {same : Bytes → Bytes → Prop} {ouf ans : Bytes}
    (h : ¬ (ans = [] ∨ (lineOf ans).1 = [] ∧ (lineOf ans).2 = [])) :
    LinesAgree same ouf ans ↔
      same (lineOf ans).1 (lineOf ouf).1 ∧ LinesAgree same (lineOf ouf).2 (lineOf ans).2 := by
  rw [LinesAgree, answerLines_cons h, List.length_cons, outputLines, List.forall₂_cons]
  rfl

/-- The loop ends with a wrong answer, or behind lines that agree. -/
theorem lineLoop_leads {same : Bytes → Bytes → Bool} {ouf ans : Bytes} {s : Streams} {E : Stop → Prop} (n : ℕ)
    (hn : ans.length < n) (hans : Holds 2 ans s.ans) (houf : Holds 2 ouf s.ouf)
    (hwa : ¬ LinesAgree (fun j p => same j p = true) ouf ans → E (.exit WA_EXIT_CODE)) :
    Leads (lineLoop same n) s E fun _ s' => LinesAgree (fun j p => same j p = true) ouf ans ∧
      Holds 2 (behindLines (answerLines ans).length ouf) s'.ouf := by
  induction n generalizing ouf ans s with
  | zero => omega
  | succ n ih =>
    refine Leads.bind (Leads.zoom ((eof_yields hans).leads.mono ?_))
    rintro ends r₁ ⟨rfl, h₁⟩
    -- the loop ends in front of the end of the answer, or behind an empty line at it
    by_cases hnil : ans = []
    · rw [if_pos (by simpa using hnil)]
      have hlines := answerLines_nil (.inl hnil)
      exact Leads.pure ⟨by rw [LinesAgree, hlines]; exact .nil, by rw [hlines]; exact houf⟩
    rw [if_neg (by simpa using hnil)]
    refine Leads.bind (Leads.zoom ((readLine_yields h₁).leads.mono ?_))
    rintro j r₂ ⟨rfl, h₂⟩
    refine Leads.bind (Leads.zoom ((emptyAtEof_yields _ h₂).leads.mono ?_))
    rintro last r₃ ⟨rfl, h₃⟩
    by_cases hlast : (lineOf ans).1 = [] ∧ (lineOf ans).2 = []
    · rw [if_pos (by simpa using hlast)]
      have hlines := answerLines_nil (.inr hlast)
      exact Leads.pure ⟨by rw [LinesAgree, hlines]; exact .nil, by rw [hlines]; exact houf⟩
    rw [if_neg (by simpa using hlast)]
    have hmore := not_or.mpr ⟨hnil, hlast⟩
    have hlt := lineOf_length_lt hnil
    refine Leads.bind (Leads.zoom ((readLine_yields houf).leads.mono ?_))
    rintro p r₄ ⟨rfl, h₄⟩
    rw [linesAgree_cons hmore] at hwa ⊢
    rw [answerLines_cons hmore, List.length_cons, behindLines]
    by_cases hsame : same (lineOf ans).1 (lineOf ouf).1 = true
    · rw [if_pos hsame]
      refine (ih (by omega) h₃ h₄ fun hnot => hwa fun h => hnot h.2).mono ?_
      rintro _ s' ⟨hagree, hbehind⟩
      exact ⟨⟨hsame, hagree⟩, hbehind⟩
    · rw [if_neg hsame]
      refine quitf_leads ?_
      rw [quit_output_wa]
      exact hwa fun h => hsame h.1

/-- What a checker that reads by lines promises about a run: it accepts exactly if the lines agree and
nothing but blanks is left of the output, and it never blames the answer. -/
structure JudgesLines (same : Bytes → Bytes → Prop) (inf ouf ans : Bytes) (stop : Stop) : Prop where
  code : ∃ c ≤ 3, stop = .exit c
  accepts : stop = .exit 0 ↔ Sized inf ouf ans ∧ LinesAgree same (dropBom ouf) ans ∧
    tokens (behindLines (answerLines ans).length (dropBom ouf)) = []
  fails : stop = .exit FAIL_EXIT_CODE → maxFileSize < inf.length ∨ maxFileSize < ans.length
  malformed : stop = .exit PE_EXIT_CODE → maxFileSize < ouf.length ∨
    LinesAgree same (dropBom ouf) ans ∧ tokens (behindLines (answerLines ans).length (dropBom ouf)) ≠ []

theorem compareByLine_judges {same : Bytes → Bytes → Bool} {same' : Bytes → Bytes → Prop}
    (hsame : ∀ j p, same j p = true ↔ same' j p) (inf ouf ans : Bytes) :
    JudgesLines same' inf ouf ans (check (compareByLine same) inf ouf ans) := by
  obtain rfl : (fun j p => same j p = true) = same' := by
    funext j p
    exact propext (hsame j p)
  have hends : Sized inf ouf ans → Ends
      (LinesAgree (fun j p => same j p = true) (dropBom ouf) ans ∧
        tokens (behindLines (answerLines ans).length (dropBom ouf)) = []) False
      (LinesAgree (fun j p => same j p = true) (dropBom ouf) ans ∧
        tokens (behindLines (answerLines ans).length (dropBom ouf)) ≠ [])
      (check (compareByLine same) inf ouf ans) := by
    intro hsized
    refine check_of_sized hsized fun s hans houf => ?_
    refine Leads.bind (Leads.get (Leads.bind ((lineLoop_leads _ (by rw [hans.remaining]; omega) hans houf
      fun hdiffer => ?_).mono ?_)))
    · exact ⟨⟨1, by omega, rfl⟩, iff_of_false (by decide) fun h => hdiffer h.1, fun h => absurd h (by decide),
        fun h => absurd h (by decide)⟩
    rintro _ s' ⟨hagree, hbehind⟩
    have hfacing : Facing (tokens []) (tokens (behindLines (answerLines ans).length (dropBom ouf)))
        ⟨s'.ouf, Reader.new []⟩ :=
      ⟨⟨[], .inl ((Reader.new_holds []).mono (by omega)), rfl⟩, ⟨_, .inl hbehind, rfl⟩⟩
    refine quitf_leads ?_
    rw [hfacing.quit_ok]
    split_ifs with hrest
    · exact ⟨⟨0, by omega, rfl⟩, iff_of_true rfl ⟨hagree, hrest⟩, fun h => absurd h (by decide),
        fun h => absurd h (by decide)⟩
    · exact ⟨⟨2, by omega, rfl⟩, iff_of_false (by decide) fun h => hrest h.2, fun h => absurd h (by decide),
        fun _ => ⟨hagree, hrest⟩⟩
  obtain ⟨hcode, haccepts, hfails, hmalformed⟩ := check_ends hends
  exact ⟨hcode, haccepts, fun h => by simpa using hfails h, hmalformed⟩

theorem Fcmp.same_iff (j p : Bytes) : decide (j = p) = true ↔ j = p := decide_eq_true_iff

theorem Lcmp.compareWords_iff (j p : Bytes) : compareWords j p = true ↔ words j = words p :=
  decide_eq_true_iff

/-- `fcmp` accepts exactly the outputs with the lines of the answer, and blanks behind them. -/
theorem Fcmp.main_judges_lines (inf ouf ans : Bytes) :
    JudgesLines (· = ·) inf ouf ans (Fcmp.main inf ouf ans) :=
  compareByLine_judges Fcmp.same_iff inf ouf ans

/-- `lcmp` accepts exactly the outputs whose lines have the words of those of the answer, and blanks
behind them. -/
theorem Lcmp.main_judges_words (inf ouf ans : Bytes) :
    JudgesLines (fun j p => Lcmp.words j = Lcmp.words p) inf ouf ans (Lcmp.main inf ouf ans) :=
  compareByLine_judges Lcmp.compareWords_iff inf ouf ans

end Afterglow.Testlib
