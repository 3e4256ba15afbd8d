import Afterglow.Testlib.Checker
import Afterglow.Testlib.Number

/-!
# The checkers that compare tokens

Reference: `support/checkers/wcmp.cpp`, `ncmp.cpp` and `nyesno.cpp`. The messages and what
is only counted for them are left out.
-/

namespace Afterglow.Testlib

open Halting

/-! ## `wcmp.cpp` -/

namespace Wcmp

/-- The body of the loop. -/
def step : Checking Unit := do
  let j ← onAns readWordTo
  let p ← onOuf readWordTo
  if j ≠ p then
    quitf .wa
  else
    pure ()

def body : Checking Empty := do
  let s ← get
  lockstep step (s.ans.remaining + 1)
  let ansEnds ← onAns fun _ => seekEof
  let bothEnd ← if ansEnds then onOuf fun _ => seekEof else pure false
  if bothEnd then
    quitf .ok
  else
    let _ ← onAns fun _ => seekEof
    quitf .wa

/-- `main`, on the contents of the three files. -/
def main (inf ouf ans : Bytes) : Stop := check body inf ouf ans

theorem step_leads (t : Bytes) (ts : List Bytes) (u : Bytes) (us : List Bytes) (s : Streams)
    (h : Facing (t :: ts) (u :: us) s) :
    Leads step s (Fair (·.length ≤ maxTokenLength) (· = ·) (t :: ts) (u :: us)) fun _ s' =>
      Facing ts us s' ∧ t.length ≤ maxTokenLength ∧ u.length ≤ maxTokenLength ∧ t = u := by
  refine Leads.bind ((h.ansWord fun hlong => Fair.fail List.mem_cons_self (by omega)).mono ?_)
  rintro j s₁ ⟨rfl, ht, h₁⟩
  refine Leads.bind ((h₁.oufWord fun hlong => Fair.pe List.mem_cons_self (by omega)).mono ?_)
  rintro p s₂ ⟨rfl, hu, h₂⟩
  by_cases heq : j = p
  · rw [if_neg (not_not.mpr heq)]
    exact Leads.pure ⟨h₂, ht, hu, heq⟩
  · rw [if_pos heq]
    refine quitf_leads ?_
    rw [quit_output_wa]
    exact Fair.wa fun hall => heq (List.forall₂_cons.mp hall).1

theorem body_leads (ts us : List Bytes) (s : Streams) (h : Facing ts us s) :
    Leads body s (Fair (·.length ≤ maxTokenLength) (· = ·) ts us) fun _ _ => True := by
  refine Leads.bind (Leads.get (Leads.bind ((lockstep_leads step_leads _
    (Nat.lt_succ_of_le h.ans.length_le) h).mono ?_)))
  rintro _ s₁ ⟨ts', us', h₁, hend, hfair⟩
  refine Leads.bind (h₁.ansSeekEof.mono ?_)
  rintro e s₂ ⟨rfl, h₂⟩
  -- Both lists used up is the only way to accept.
  cases ts' with
  | nil =>
    refine Leads.bind (h₂.oufSeekEof.mono ?_)
    rintro e s₃ ⟨rfl, h₃⟩
    cases us' with
    | nil =>
      refine quitf_leads (hfair _ ?_)
      rw [h₃.quit_ok]
      exact Fair.ok
    | cons u us' =>
      refine Leads.bind (h₃.ansSeekEof.mono fun _ s₄ _ => quitf_leads (hfair _ ?_))
      rw [quit_output_wa]
      exact Fair.wa (by simp)
  | cons t ts' =>
    obtain rfl : us' = [] := by simpa using hend
    refine Leads.bind (Leads.pure (Leads.bind (h₂.ansSeekEof.mono fun _ s₄ _ => quitf_leads (hfair _ ?_))))
    rw [quit_output_wa]
    exact Fair.wa (by simp)

/-- `wcmp` accepts exactly the outputs with the tokens of the answer. -/
theorem main_judges_tokens (inf ouf ans : Bytes) :
    Judges (·.length ≤ maxTokenLength) (· = ·) inf ouf ans (main inf ouf ans) :=
  check_judges body_leads inf ouf ans

end Wcmp

/-! ## `ncmp.cpp` -/

namespace Ncmp

/-- The body of the loop. -/
def step : Checking Unit := do
  let j ← onAns readLong
  let p ← onOuf readLong
  if j ≠ p then
    quitf .wa
  else
    pure ()

def body : Checking Empty := compareInStep step readLong

@[inherit_doc Wcmp.main] def main (inf ouf ans : Bytes) : Stop := check body inf ouf ans

section Spec

variable {ts us : List Bytes} {s : Streams} {E : Stop → Prop}

theorem ansLong {t : Bytes} (h : Facing (t :: ts) us s) (hbad : ¬ IsLong t → E (.exit FAIL_EXIT_CODE)) :
    Leads (onAns readLong) s E fun v s' => IsLong t ∧ t = Decimal.ofInt v ∧ Facing ts us s' := by
  refine Leads.zoom ((h.ans.readLong .answer (by simp) ?_).mono ?_)
  · intro t' ts' hts hnot
    obtain ⟨rfl, rfl⟩ := List.cons.inj hts
    simpa using hbad hnot
  · rintro v r ⟨t', ts', hts, hv, ht, h'⟩
    obtain ⟨rfl, rfl⟩ := List.cons.inj hts
    exact ⟨⟨v, hv, ht⟩, ht, h', h.ouf⟩

theorem oufLong {u : Bytes} (h : Facing ts (u :: us) s) (hbad : ¬ IsLong u → E (.exit PE_EXIT_CODE)) :
    Leads (onOuf readLong) s E fun v s' => IsLong u ∧ u = Decimal.ofInt v ∧ Facing ts us s' := by
  refine Leads.zoom ((h.ouf.readLong .output (by simp) ?_).mono ?_)
  · intro u' us' hus hnot
    obtain ⟨rfl, rfl⟩ := List.cons.inj hus
    simpa using hbad hnot
  · rintro v r ⟨u', us', hus, hv, hu, h'⟩
    obtain ⟨rfl, rfl⟩ := List.cons.inj hus
    exact ⟨⟨v, hv, hu⟩, hu, h.ans, h'⟩

theorem step_leads (t : Bytes) (ts : List Bytes) (u : Bytes) (us : List Bytes) (s : Streams)
    (h : Facing (t :: ts) (u :: us) s) :
    Leads step s (Fair IsLong (· = ·) (t :: ts) (u :: us)) fun _ s' =>
      Facing ts us s' ∧ IsLong t ∧ IsLong u ∧ t = u := by
  refine Leads.bind ((ansLong h fun hbad => Fair.fail List.mem_cons_self hbad).mono ?_)
  rintro j s₁ ⟨ht, hj, h₁⟩
  refine Leads.bind ((oufLong h₁ fun hbad => Fair.pe List.mem_cons_self hbad).mono ?_)
  rintro p s₂ ⟨hu, hp, h₂⟩
  by_cases heq : j = p
  · rw [if_neg (not_not.mpr heq)]
    exact Leads.pure ⟨h₂, ht, hu, by rw [hj, hp, heq]⟩
  · rw [if_pos heq]
    refine quitf_leads ?_
    rw [quit_output_wa]
    refine Fair.wa fun hall => heq (Decimal.ofInt_injective ?_)
    rw [← hj, ← hp]
    exact (List.forall₂_cons.mp hall).1

theorem body_leads (ts us : List Bytes) (s : Streams) (h : Facing ts us s) :
    Leads body s (Fair IsLong (· = ·) ts us) fun _ _ => True :=
  compareInStep_leads step_leads (fun hs hbad => (ansLong hs hbad).mono fun _ _ h => h.2.2)
    (fun hs hbad => (oufLong hs hbad).mono fun _ _ h => h.2.2) ts us s h

end Spec

/-- `ncmp` accepts exactly the outputs with the numbers of the answer, written as the answer writes them:
a 64-bit integer has one numeral that `readLong` takes. -/
theorem main_judges_numbers (inf ouf ans : Bytes) : Judges IsLong (· = ·) inf ouf ans (main inf ouf ans) :=
  check_judges body_leads inf ouf ans

end Ncmp

/-! ## `nyesno.cpp` -/

/-- `upperCase`. -/
def upperCase (s : Bytes) : Bytes := s.map fun c => if 97 ≤ int c ∧ int c ≤ 122 then char (int c - 97 + 65) else c

def YES : Bytes := utf8 "YES"

def NO : Bytes := utf8 "NO"

/-- The tokens that `nyesno` and `yesno` know. -/
def IsYesNo (t : Bytes) : Prop := upperCase t = YES ∨ upperCase t = NO

instance (t : Bytes) : Decidable (IsYesNo t) := inferInstanceAs (Decidable (_ ∨ _))

theorem IsYesNo.length_le {t : Bytes} (h : IsYesNo t) : t.length ≤ maxTokenLength := by
  have hlength : t.length = (upperCase t).length := by rw [upperCase, List.length_map]
  have hshort : t.length ≤ 3 := by
    rw [hlength]
    rcases h with h | h
    · rw [h]
      decide
    · rw [h]
      decide
  refine hshort.trans ?_
  unfold maxTokenLength
  omega

namespace Nyesno

/-- The body of the loop. -/
def step : Checking Unit := do
  let ja := upperCase (← onAns readToken)
  let pa := upperCase (← onOuf readToken)
  if ja ≠ YES ∧ ja ≠ NO then
    quitf .fail
  else if pa ≠ YES ∧ pa ≠ NO then
    quitf .pe
  else if ja ≠ pa then
    quitf .wa
  else
    pure ()

def body : Checking Empty := compareInStep step readToken

@[inherit_doc Wcmp.main] def main (inf ouf ans : Bytes) : Stop := check body inf ouf ans

section Spec

variable {ts us : List Bytes} {s : Streams} {E : Stop → Prop}

theorem ansToken {t : Bytes} (h : Facing (t :: ts) us s) (hbad : ¬ IsYesNo t → E (.exit FAIL_EXIT_CODE)) :
    Leads (onAns readToken) s E fun w s' => w = t ∧ Facing ts us s' := by
  refine (h.ansWord fun hlong => hbad fun hgood => ?_).mono fun _ _ h => ⟨h.1, h.2.2⟩
  have := hgood.length_le
  omega

theorem oufToken {u : Bytes} (h : Facing ts (u :: us) s) (hbad : ¬ IsYesNo u → E (.exit PE_EXIT_CODE)) :
    Leads (onOuf readToken) s E fun w s' => w = u ∧ Facing ts us s' := by
  refine (h.oufWord fun hlong => hbad fun hgood => ?_).mono fun _ _ h => ⟨h.1, h.2.2⟩
  have := hgood.length_le
  omega

theorem step_leads (t : Bytes) (ts : List Bytes) (u : Bytes) (us : List Bytes) (s : Streams)
    (h : Facing (t :: ts) (u :: us) s) :
    Leads step s (Fair IsYesNo (fun t u => upperCase t = upperCase u) (t :: ts) (u :: us)) fun _ s' =>
      Facing ts us s' ∧ IsYesNo t ∧ IsYesNo u ∧ upperCase t = upperCase u := by
  refine Leads.bind ((ansToken h fun hbad => Fair.fail List.mem_cons_self hbad).mono ?_)
  rintro _ s₁ ⟨rfl, h₁⟩
  refine Leads.bind ((oufToken h₁ fun hbad => Fair.pe List.mem_cons_self hbad).mono ?_)
  rintro _ s₂ ⟨rfl, h₂⟩
  dsimp only
  split_ifs with hja hpa hdiffer
  · refine quitf_leads ?_
    rw [quit_output_fail]
    exact Fair.fail List.mem_cons_self (not_or.mpr hja)
  · refine quitf_leads ?_
    rw [quit_output_pe]
    exact Fair.pe List.mem_cons_self (not_or.mpr hpa)
  · refine quitf_leads ?_
    rw [quit_output_wa]
    exact Fair.wa fun hall => hdiffer (List.forall₂_cons.mp hall).1
  · refine Leads.pure ⟨h₂, ?_, ?_, not_not.mp hdiffer⟩
    · by_contra hbad
      exact hja (not_or.mp hbad)
    · by_contra hbad
      exact hpa (not_or.mp hbad)

theorem body_leads (ts us : List Bytes) (s : Streams) (h : Facing ts us s) :
    Leads body s (Fair IsYesNo (fun t u => upperCase t = upperCase u) ts us) fun _ _ => True :=
  compareInStep_leads step_leads (fun hs hbad => (ansToken hs hbad).mono fun _ _ h => h.2)
    (fun hs hbad => (oufToken hs hbad).mono fun _ _ h => h.2) ts us s h

end Spec

/-- `nyesno` accepts exactly the outputs that say what the answer says, in any case. -/
theorem main_judges_answers (inf ouf ans : Bytes) :
    Judges IsYesNo (fun t u => upperCase t = upperCase u) inf ouf ans (main inf ouf ans) :=
  check_judges body_leads inf ouf ans

end Nyesno

end Afterglow.Testlib
