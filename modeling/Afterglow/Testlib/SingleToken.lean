import Afterglow.Testlib.Pattern
import Afterglow.Testlib.TokenCheckers

/-!
# The checkers that compare a single token

Reference: `support/checkers/yesno.cpp` and `hcmp.cpp`. Neither uses `seekEof` before it reads, so a
missing token is found by the reader. The output may hold nothing else: `quitf(_ok, …)` sees to that.
Of the answer, `yesno` ignores what follows the token and `hcmp` does not.
-/

namespace Afterglow.Testlib

open Halting

/-- What a checker of single tokens promises: `offers` says which token the answer offers. -/
structure FairOne (offers : List Bytes → Bytes → Prop) (good : Bytes → Prop) (same : Bytes → Bytes → Prop)
    (ts us : List Bytes) (stop : Stop) : Prop where
  code : ∃ c ≤ 3, stop = .exit c
  accepts : stop = .exit 0 ↔ ∃ t u, offers ts t ∧ us = [u] ∧ good t ∧ good u ∧ same t u
  fails : stop = .exit FAIL_EXIT_CODE → ¬ ∃ t, offers ts t ∧ good t
  malformed : stop = .exit PE_EXIT_CODE → ¬ ∃ u, us = [u] ∧ good u

section FairOne

variable {offers : List Bytes → Bytes → Prop} {good : Bytes → Prop} {same : Bytes → Bytes → Prop}
  {ts us : List Bytes}

theorem FairOne.fail (hbad : ¬ ∃ t, offers ts t ∧ good t) :
    FairOne offers good same ts us (.exit FAIL_EXIT_CODE) where
  code := ⟨3, le_rfl, rfl⟩
  accepts := iff_of_false (by decide) fun ⟨t, _, ht, _, hgood, _⟩ => hbad ⟨t, ht, hgood⟩
  fails _ := hbad
  malformed h := absurd h (by decide)

theorem FairOne.pe (hbad : ¬ ∃ u, us = [u] ∧ good u) : FairOne offers good same ts us (.exit PE_EXIT_CODE) where
  code := ⟨2, by omega, rfl⟩
  accepts := iff_of_false (by decide) fun ⟨_, u, _, hu, _, hgood, _⟩ => hbad ⟨u, hu, hgood⟩
  fails h := absurd h (by decide)
  malformed _ := hbad

theorem FairOne.wa (hbad : ¬ ∃ t u, offers ts t ∧ us = [u] ∧ good t ∧ good u ∧ same t u) :
    FairOne offers good same ts us (.exit WA_EXIT_CODE) where
  code := ⟨1, by omega, rfl⟩
  accepts := iff_of_false (by decide) hbad
  fails h := absurd h (by decide)
  malformed h := absurd h (by decide)

theorem FairOne.ok {t u : Bytes} (ht : offers ts t) (hu : us = [u]) (hgood : good t) (hgood' : good u)
    (hsame : same t u) : FairOne offers good same ts us (.exit 0) where
  code := ⟨0, by omega, rfl⟩
  accepts := iff_of_true rfl ⟨t, u, ht, hu, hgood, hgood', hsame⟩
  fails h := absurd h (by decide)
  malformed h := absurd h (by decide)

end FairOne

/-- What a checker of single tokens promises about a run. -/
structure JudgesOne (offers : List Bytes → Bytes → Prop) (good : Bytes → Prop) (same : Bytes → Bytes → Prop)
    (inf ouf ans : Bytes) (stop : Stop) : Prop where
  code : ∃ c ≤ 3, stop = .exit c
  accepts : stop = .exit 0 ↔ Sized inf ouf ans ∧
    ∃ t u, offers (tokens ans) t ∧ tokens (dropBom ouf) = [u] ∧ good t ∧ good u ∧ same t u
  fails : stop = .exit FAIL_EXIT_CODE →
    maxFileSize < inf.length ∨ maxFileSize < ans.length ∨ ¬ ∃ t, offers (tokens ans) t ∧ good t
  malformed : stop = .exit PE_EXIT_CODE → maxFileSize < ouf.length ∨ ¬ ∃ u, tokens (dropBom ouf) = [u] ∧ good u

theorem check_judgesOne {offers : List Bytes → Bytes → Prop} {good : Bytes → Prop}
    {same : Bytes → Bytes → Prop} {body : Checking Empty}
    (hbody : ∀ ts us s, Facing ts us s → Leads body s (FairOne offers good same ts us) fun _ _ => True)
    (inf ouf ans : Bytes) : JudgesOne offers good same inf ouf ans (check body inf ouf ans) := by
  obtain ⟨hcode, haccepts, hfails, hmalformed⟩ := check_ends fun hsized =>
    have hfair := check_facing hbody hsized
    ⟨hfair.code, hfair.accepts, hfair.fails, hfair.malformed⟩
  exact ⟨hcode, haccepts, hfails, hmalformed⟩

section Word

variable {ts us : List Bytes} {s : Streams} {E : Stop → Prop}

/-- A word of the answer that may be missing. -/
theorem Facing.ansWord? (h : Facing ts us s) (hnone : ts = [] → E (.exit FAIL_EXIT_CODE))
    (hlong : ∀ t ts', ts = t :: ts' → maxTokenLength < t.length → E (.exit FAIL_EXIT_CODE)) :
    Leads (onAns readWord) s E fun t s' =>
      t.length ≤ maxTokenLength ∧ ∃ ts', ts = t :: ts' ∧ Facing ts' us s' := by
  refine Leads.zoom ((h.ans.readWordTo .answer (by simpa using hnone) ?_).mono ?_)
  · intro t ts' hts hmax
    simpa using hlong t ts' hts hmax
  · rintro t r ⟨hlen, ts', hts, h'⟩
    exact ⟨hlen, ts', hts, h', h.ouf⟩

/-- A word of the output that may be missing. -/
theorem Facing.oufWord? (h : Facing ts us s) (hnone : us = [] → E (.exit PE_EXIT_CODE))
    (hlong : ∀ u us', us = u :: us' → maxTokenLength < u.length → E (.exit PE_EXIT_CODE)) :
    Leads (onOuf readWord) s E fun u s' =>
      u.length ≤ maxTokenLength ∧ ∃ us', us = u :: us' ∧ Facing ts us' s' := by
  refine Leads.zoom ((h.ouf.readWordTo .output (by simpa using hnone) ?_).mono ?_)
  · intro u us' hus hmax
    simpa using hlong u us' hus hmax
  · rintro u r ⟨hlen, us', hus, h'⟩
    exact ⟨hlen, us', hus, h.ans, h'⟩

end Word

/-! ## `yesno.cpp` -/

namespace Yesno

def body : Checking Empty := do
  let ja := upperCase (← onAns readWord)
  let pa := upperCase (← onOuf readWord)
  if ja ≠ YES ∧ ja ≠ NO then
    quitf .fail
  else if pa ≠ YES ∧ pa ≠ NO then
    quitf .pe
  else if ja ≠ pa then
    quitf .wa
  else
    quitf .ok

@[inherit_doc Wcmp.main] def main (inf ouf ans : Bytes) : Stop := check body inf ouf ans

/-- The answer offers its first token. -/
def Offers (ts : List Bytes) (t : Bytes) : Prop := ts.head? = some t

theorem body_leads (ts us : List Bytes) (s : Streams) (h : Facing ts us s) :
    Leads body s (FairOne Offers IsYesNo (fun t u => upperCase t = upperCase u) ts us) fun _ _ => True := by
  refine Leads.bind ((h.ansWord? ?_ ?_).mono ?_)
  · rintro rfl
    exact FairOne.fail (by simp [Offers])
  · rintro t ts' rfl hlong
    refine FairOne.fail ?_
    rintro ⟨t', ht', hgood⟩
    obtain rfl : t = t' := Option.some.inj ht'
    have := hgood.length_le
    omega
  rintro t s₁ ⟨-, ts', rfl, h₁⟩
  refine Leads.bind ((h₁.oufWord? ?_ ?_).mono ?_)
  · rintro rfl
    exact FairOne.pe (by simp)
  · rintro u us' rfl hlong
    refine FairOne.pe ?_
    rintro ⟨u', hu', hgood⟩
    obtain ⟨rfl, -⟩ := List.cons.inj hu'
    have := hgood.length_le
    omega
  rintro u s₂ ⟨-, us', rfl, h₂⟩
  dsimp only
  split_ifs with hja hpa hdiffer
  · refine quitf_leads ?_
    rw [quit_output_fail]
    refine FairOne.fail ?_
    rintro ⟨t', ht', hgood⟩
    obtain rfl : t = t' := Option.some.inj ht'
    exact not_or.mpr hja hgood
  · refine quitf_leads ?_
    rw [quit_output_pe]
    refine FairOne.pe ?_
    rintro ⟨u', hu', hgood⟩
    obtain ⟨rfl, -⟩ := List.cons.inj hu'
    exact not_or.mpr hpa hgood
  · refine quitf_leads ?_
    rw [quit_output_wa]
    refine FairOne.wa ?_
    rintro ⟨t', u', ht', hu', -, -, hsame⟩
    obtain rfl : t = t' := Option.some.inj ht'
    obtain ⟨rfl, -⟩ := List.cons.inj hu'
    exact hdiffer hsame
  · refine quitf_leads ?_
    have ht : IsYesNo t := by
      by_contra hbad
      exact hja (not_or.mp hbad)
    have hu : IsYesNo u := by
      by_contra hbad
      exact hpa (not_or.mp hbad)
    rw [h₂.quit_ok]
    -- what follows the token is found here
    split_ifs with hrest
    · rw [hrest]
      exact FairOne.ok rfl rfl ht hu (not_not.mp hdiffer)
    · refine FairOne.pe ?_
      rintro ⟨u', hu', -⟩
      exact hrest (List.cons.inj hu').2

/-- `yesno` accepts exactly the outputs of one token that says what the first token of the answer says,
in any case. -/
theorem main_judges_answer (inf ouf ans : Bytes) :
    JudgesOne Offers IsYesNo (fun t u => upperCase t = upperCase u) inf ouf ans (main inf ouf ans) :=
  check_judgesOne body_leads inf ouf ans

end Yesno

/-! ## `hcmp.cpp` -/

namespace Hcmp

/-- The global `pnum`; `none` would end the program before `main`. -/
@[irreducible] def pnum : Option Pattern := Pattern.new (utf8 "0|-?[1-9][0-9]*")

def isNumeric (p : Bytes) : Bool := pnum.any fun pattern => pattern.matches p

def body : Checking Empty := do
  let ja ← onAns readWord
  let pa ← onOuf readWord
  if ¬ isNumeric ja then
    quitf .fail
  else
    let ansEnds ← onAns fun _ => seekEof
    if ¬ ansEnds then
      quitf .fail
    else if ¬ isNumeric pa then
      quitf .pe
    else if ja ≠ pa then
      quitf .wa
    else
      quitf .ok

@[inherit_doc Wcmp.main] def main (inf ouf ans : Bytes) : Stop := check body inf ouf ans

/-- The digits `1` to `9` and `0` to `9`. -/
def nonzeros : Bytes := [49, 50, 51, 52, 53, 54, 55, 56, 57]

@[inherit_doc nonzeros] def digits : Bytes := 48 :: nonzeros

def number : Pattern :=
  .mk [.mk [] [48] 1 1, .mk [.mk [.mk [] digits 0 INT_MAX] nonzeros 1 1] [45] 0 1] [] 0 0

theorem new_number : Pattern.new (utf8 "0|-?[1-9][0-9]*") = some number := rfl

theorem pnum_eq : pnum = some number := by
  unfold pnum
  exact new_number

/-! ### The numerals -/

theorem mem_digits {c : UInt8} : c ∈ digits ↔ Decimal.isDigit c = true := by
  rw [Decimal.isDigit_iff]
  simp only [digits, nonzeros, List.mem_cons, List.not_mem_nil, or_false, ← UInt8.toNat_inj, UInt8.reduceToNat]
  omega

theorem mem_nonzeros {c : UInt8} : c ∈ nonzeros ↔ Decimal.isDigit c = true ∧ c ≠ 48 := by
  rw [Decimal.isDigit_iff]
  simp only [nonzeros, List.mem_cons, List.not_mem_nil, or_false, ne_eq, ← UInt8.toNat_inj, UInt8.reduceToNat]
  omega

theorem repeats_one {chars w : Bytes} : Pattern.Repeats chars 1 1 w ↔ ∃ c ∈ chars, w = [c] := by
  constructor
  · intro h
    have hleast := h.least (by omega)
    have hmost := h.most
    obtain ⟨c, rfl⟩ := List.length_eq_one_iff.mp (show w.length = 1 by omega)
    exact ⟨c, h.chars c List.mem_cons_self, rfl⟩
  · rintro ⟨c, hc, rfl⟩
    exact ⟨by simpa using hc, fun _ => by simp, by simp⟩

/-- The part of the pattern behind the sign. -/
theorem denotes_unsigned {w : Bytes} :
    Pattern.Denotes (.mk [.mk [] digits 0 INT_MAX] nonzeros 1 1) w ↔
      ∃ d ds, d ∈ nonzeros ∧ (∀ c ∈ ds, c ∈ digits) ∧ ds.length ≤ INT_MAX.toNat ∧ w = d :: ds := by
  constructor
  · intro h
    cases h with
    | next hw hchild hv =>
      obtain ⟨d, hd, rfl⟩ := repeats_one.mp hw
      obtain rfl := List.mem_singleton.mp hchild
      cases hv with
      | last hds => exact ⟨d, _, hd, hds.chars, hds.most, rfl⟩
      | next _ hnone _ => simp at hnone
  · rintro ⟨d, ds, hd, hds, hlen, rfl⟩
    exact Pattern.Denotes.next (w := [d]) (repeats_one.mpr ⟨d, hd, rfl⟩) List.mem_cons_self
      (.last ⟨hds, fun _ => by omega, hlen⟩)

theorem number_deterministic : Pattern.Deterministic number := by
  refine .mk (.inl rfl) ?_
  intro child hchild
  rcases List.mem_cons.mp hchild with rfl | hchild
  · exact .mk (.inl rfl) (by simp)
  obtain rfl := List.mem_singleton.mp hchild
  refine .mk (.inr ?_) ?_
  · intro child hchild c v hv
    obtain rfl := List.mem_singleton.mp hchild
    obtain ⟨d, ds, hd, -, -, heq⟩ := denotes_unsigned.mp hv
    obtain ⟨rfl, -⟩ := List.cons.inj heq
    rintro hminus
    obtain rfl := List.mem_singleton.mp hminus
    exact absurd hd (by decide)
  · intro child hchild
    obtain rfl := List.mem_singleton.mp hchild
    refine .mk (.inl rfl) ?_
    intro child hchild
    obtain rfl := List.mem_singleton.mp hchild
    exact .mk (.inr (by simp)) (by simp)

/-- The words of the pattern. -/
theorem denotes_number {w : Bytes} : Pattern.Denotes number w ↔
    w = [48] ∨ ∃ sign d ds, (sign = [] ∨ sign = [45]) ∧ d ∈ nonzeros ∧ (∀ c ∈ ds, c ∈ digits) ∧
      ds.length ≤ INT_MAX.toNat ∧ w = sign ++ d :: ds := by
  have hnil : ∀ w : Bytes, Pattern.Repeats [] 0 0 w → w = [] := by
    intro w hw
    exact List.length_eq_zero_iff.mp (Nat.le_zero.mp hw.most)
  constructor
  · intro h
    cases h with
    | next hw hchild hv =>
      rw [hnil _ hw, List.nil_append]
      rcases List.mem_cons.mp hchild with rfl | hchild
      · cases hv with
        | last hw' =>
          obtain ⟨c, hc, rfl⟩ := repeats_one.mp hw'
          rw [List.mem_singleton.mp hc]
          exact .inl rfl
        | next _ hnone _ => simp at hnone
      · obtain rfl := List.mem_singleton.mp hchild
        cases hv with
        | @next _ _ _ _ _ sign v hsign hchild' hv' =>
          obtain rfl := List.mem_singleton.mp hchild'
          obtain ⟨d, ds, hd, hds, hlen, rfl⟩ := denotes_unsigned.mp hv'
          refine .inr ⟨sign, d, ds, ?_, hd, hds, hlen, rfl⟩
          have hmost := hsign.most
          match sign with
          | [] => exact .inl rfl
          | [c] =>
            have := hsign.chars c List.mem_cons_self
            rw [List.mem_singleton.mp this]
            exact .inr rfl
          | _ :: _ :: _ => simp at hmost
  · rintro (rfl | ⟨sign, d, ds, hsign, hd, hds, hlen, rfl⟩)
    · exact Pattern.Denotes.next (w := []) ⟨by simp, by omega, by simp⟩ List.mem_cons_self
        (.last (repeats_one.mpr ⟨48, by simp, rfl⟩))
    · refine Pattern.Denotes.next (w := []) ⟨by simp, by omega, by simp⟩
        (List.mem_cons_of_mem _ List.mem_cons_self) (.next ?_ List.mem_cons_self
          (denotes_unsigned.mpr ⟨d, ds, hd, hds, hlen, rfl⟩))
      rcases hsign with rfl | rfl
      · exact ⟨by simp, fun _ => by simp, by simp⟩
      · exact ⟨by simp, fun _ => by simp, by simp⟩

/-- The numerals of the integers, in the form of the pattern. -/
theorem exists_ofInt_iff {w : Bytes} : (∃ v, w = Decimal.ofInt v) ↔
    w = [48] ∨ ∃ sign d ds, (sign = [] ∨ sign = [45]) ∧ d ∈ nonzeros ∧ (∀ c ∈ ds, c ∈ digits) ∧
      w = sign ++ d :: ds := by
  constructor
  · rintro ⟨v, rfl⟩
    by_cases hzero : v = 0
    · subst hzero
      exact .inl rfl
    obtain ⟨d, ds, hnum⟩ := List.exists_cons_of_ne_nil (Decimal.ofNat_ne_nil v.natAbs)
    have hhead := Decimal.head?_ofNat (show v.natAbs ≠ 0 by omega)
    have hdigit : ∀ c ∈ d :: ds, Decimal.isDigit c = true := by
      rw [← hnum]
      exact fun c hc => Decimal.isDigit_of_mem_ofNat hc
    rw [hnum, List.head?_cons] at hhead
    have hd : d ∈ nonzeros := mem_nonzeros.mpr ⟨hdigit d List.mem_cons_self, fun h => hhead (by rw [h])⟩
    have hds : ∀ c ∈ ds, c ∈ digits := fun c hc => mem_digits.mpr (hdigit c (List.mem_cons_of_mem _ hc))
    rw [Decimal.ofInt, hnum]
    split_ifs
    · exact .inr ⟨[45], d, ds, .inr rfl, hd, hds, rfl⟩
    · exact .inr ⟨[], d, ds, .inl rfl, hd, hds, rfl⟩
  · rintro (rfl | ⟨sign, d, ds, hsign, hd, hds, rfl⟩)
    · exact ⟨0, rfl⟩
    have hdigit : ∀ c ∈ d :: ds, Decimal.isDigit c = true :=
      List.forall_mem_cons.mpr ⟨(mem_nonzeros.mp hd).1, fun c hc => mem_digits.mp (hds c hc)⟩
    have hhead : (d :: ds).head? ≠ some 48 := fun h => (mem_nonzeros.mp hd).2 (Option.some.inj h)
    have hself := Decimal.ofNat_value hdigit (by simp) fun h => absurd h hhead
    have hne : Decimal.value (d :: ds) ≠ 0 := by
      intro hvalue
      rw [hvalue] at hself
      exact hhead (by rw [← hself]; rfl)
    rcases hsign with rfl | rfl
    · exact ⟨Decimal.value (d :: ds), by rw [Decimal.ofInt_natCast, hself]; rfl⟩
    · exact ⟨-Decimal.value (d :: ds), by rw [Decimal.ofInt_neg hne, hself]; rfl⟩

/-- The token is the numeral of an integer of any size. -/
structure IsNumeral (t : Bytes) : Prop where
  numeral : ∃ v, t = Decimal.ofInt v
  length_le : t.length ≤ maxTokenLength

theorem isNumeric_iff {w : Bytes} (hlen : w.length ≤ maxTokenLength) :
    isNumeric w = true ↔ IsNumeral w := by
  have hmax : maxTokenLength ≤ INT_MAX.toNat := by
    unfold maxTokenLength INT_MAX
    omega
  have hmatch : isNumeric w = true ↔ Pattern.Denotes number w := by
    rw [isNumeric, pnum_eq]
    exact ⟨Pattern.denotes_of_matches _ (Pattern.proper_of_construct new_number),
      fun hw => Pattern.matches_of_denotes hw number_deterministic⟩
  rw [hmatch, denotes_number]
  constructor
  · rintro (h | ⟨sign, d, ds, hsign, hd, hds, -, h⟩)
    · exact ⟨exists_ofInt_iff.mpr (.inl h), hlen⟩
    · exact ⟨exists_ofInt_iff.mpr (.inr ⟨sign, d, ds, hsign, hd, hds, h⟩), hlen⟩
  · intro hnum
    refine (exists_ofInt_iff.mp hnum.numeral).imp_right ?_
    rintro ⟨sign, d, ds, hsign, hd, hds, rfl⟩
    refine ⟨sign, d, ds, hsign, hd, hds, ?_, rfl⟩
    simp only [List.length_append, List.length_cons] at hlen
    omega

/-! ### The verdict -/

/-- The answer offers its only token. -/
def Offers (ts : List Bytes) (t : Bytes) : Prop := ts = [t]

theorem body_leads (ts us : List Bytes) (s : Streams) (h : Facing ts us s) :
    Leads body s (FairOne Offers IsNumeral (· = ·) ts us) fun _ _ => True := by
  refine Leads.bind ((h.ansWord? ?_ ?_).mono ?_)
  · rintro rfl
    exact FairOne.fail (by simp [Offers])
  · rintro t ts' rfl hlong
    refine FairOne.fail ?_
    rintro ⟨t', ht', hgood⟩
    obtain ⟨rfl, -⟩ := List.cons.inj ht'
    have := hgood.length_le
    omega
  rintro t s₁ ⟨ht, ts', rfl, h₁⟩
  refine Leads.bind ((h₁.oufWord? ?_ ?_).mono ?_)
  · rintro rfl
    exact FairOne.pe (by simp)
  · rintro u us' rfl hlong
    refine FairOne.pe ?_
    rintro ⟨u', hu', hgood⟩
    obtain ⟨rfl, -⟩ := List.cons.inj hu'
    have := hgood.length_le
    omega
  rintro u s₂ ⟨hu, us', rfl, h₂⟩
  -- the answer is at fault if it has a second token or its first is no numeral
  have hfail : ¬ (ts' = [] ∧ IsNumeral t) → ¬ ∃ t', Offers (t :: ts') t' ∧ IsNumeral t' := by
    rintro hnot ⟨t', ht', hgood⟩
    obtain ⟨rfl, hts⟩ := List.cons.inj ht'
    exact hnot ⟨hts, hgood⟩
  by_cases hja : isNumeric t = true
  swap
  · rw [if_pos hja]
    refine quitf_leads ?_
    rw [quit_output_fail]
    exact FairOne.fail (hfail fun hgood => hja ((isNumeric_iff ht).mpr hgood.2))
  rw [if_neg (not_not.mpr hja)]
  refine Leads.bind (h₂.ansSeekEof.mono ?_)
  rintro e s₃ ⟨rfl, h₃⟩
  by_cases hts : ts' = []
  swap
  · rw [if_pos (by simpa using hts)]
    refine quitf_leads ?_
    rw [quit_output_fail]
    exact FairOne.fail (hfail fun hgood => hts hgood.1)
  rw [if_neg (by simpa using hts), hts]
  split_ifs with hpa hdiffer
  · refine quitf_leads ?_
    rw [quit_output_wa]
    refine FairOne.wa ?_
    rintro ⟨t', u', ht', hu', -, -, hsame⟩
    obtain ⟨rfl, -⟩ := List.cons.inj ht'
    obtain ⟨rfl, -⟩ := List.cons.inj hu'
    exact hdiffer hsame
  · refine quitf_leads ?_
    rw [h₃.quit_ok]
    split_ifs with hrest
    · rw [hrest]
      exact FairOne.ok rfl rfl ((isNumeric_iff ht).mp hja) ((isNumeric_iff hu).mp hpa) (not_not.mp hdiffer)
    · refine FairOne.pe ?_
      rintro ⟨u', hu', -⟩
      exact hrest (List.cons.inj hu').2
  · refine quitf_leads ?_
    rw [quit_output_pe]
    refine FairOne.pe ?_
    rintro ⟨u', hu', hgood⟩
    obtain ⟨rfl, -⟩ := List.cons.inj hu'
    exact hpa ((isNumeric_iff hu).mpr hgood)

/-- `hcmp` accepts exactly the outputs that repeat the only token of the answer, the numeral of an
integer. -/
theorem main_judges_numeral (inf ouf ans : Bytes) :
    JudgesOne Offers IsNumeral (· = ·) inf ouf ans (main inf ouf ans) :=
  check_judgesOne body_leads inf ouf ans

end Hcmp

end Afterglow.Testlib
