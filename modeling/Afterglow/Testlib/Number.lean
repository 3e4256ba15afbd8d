import Afterglow.Decimal
import Afterglow.Testlib.Token

/-!
# Reading numbers from an input stream of testlib

Reference: `support/testlib.h`, `stringToLongLong` and `InStream::readLong`, in non-strict mode.

A token is read as a number exactly if it is the numeral that would be written for a 64-bit integer:
no sign but a minus, no leading zeros, no negative zero, in range.
-/

namespace Afterglow.Testlib

open Halting

/-! ## `stringToLongLong` -/

/-- `isspace` in the C locale. -/
def isspace (c : UInt8) : Bool := c = 32 ∨ 9 ≤ c.toNat ∧ c.toNat ≤ 13

/-- The integer at the start of a text, as `strtoll` and `sscanf` read it before they see to its range:
white space, a sign and digits. -/
def scanInt (str : Bytes) : Option ℤ :=
  let str := str.dropWhile isspace
  let minus := str.head? = some 45
  let digits := (if minus ∨ str.head? = some 43 then str.tail else str).takeWhile Decimal.isDigit
  if digits = [] then none
  else some (if minus then -(Decimal.value digits) else Decimal.value digits)

/-- `std::stoll`; `none` is an exception. -/
def stoll (str : Bytes) : Option ℤ := (scanInt str).filter fun result => -2 ^ 63 ≤ result ∧ result < 2 ^ 63

/-- The loop of `stringToLongLong`: the number of leading zeros, if there are only digits. -/
def scanDigits : Bytes → ℕ → Bool → Option ℕ
  | [], zeroes, _ => some zeroes
  | c :: rest, zeroes, processingZeroes =>
    let leading := decide (c = 48) && processingZeroes
    if int c < 48 ∨ int c > 57 then none
    else scanDigits rest (if leading then zeroes + 1 else zeroes) leading

/-- The value that `stringToLongLong` returns; where it is `none` the source quits with `_pe`. -/
def longLong? (buffer : Bytes) : Option ℤ :=
  if 0 ∈ buffer then none
  else if buffer.length = 0 ∨ buffer.length > 20 then none
  else
    let has_minus := decide (buffer.length > 1 ∧ buffer.head? = some 45)
    match scanDigits (if has_minus then buffer.tail else buffer) 0 true with
    | none => none
    | some zeroes =>
      match stoll buffer with
      | none => none
      | some result =>
        if zeroes > 0 ∧ (result ≠ 0 ∨ has_minus = true) ∨ zeroes > 1 then none else some result

/-- `stringToLongLong`, for a stream of the given mode. -/
def stringToLongLong (mode : TMode) (buffer : Bytes) : Except Stop ℤ :=
  match longLong? buffer with
  | none => .error (quit mode none .pe)
  | some result => .ok result

/-- `readLong`. -/
def readLong (mode : TMode) : Reading ℤ := do
  let atEnd ← seekEof
  if atEnd then
    throw (quit mode none .unexpectedEof)
  else
    let token ← readWordTo mode
    stringToLongLong mode token

/-! ## Which tokens are numbers -/

/-- The range of `long long`. -/
def LongLong (v : ℤ) : Prop := -2 ^ 63 ≤ v ∧ v < 2 ^ 63

theorem int_digit_iff (c : UInt8) : (int c < 48 ∨ int c > 57) ↔ Decimal.isDigit c = false := by
  have h := c.toNat_lt
  rw [← Bool.not_eq_true, Decimal.isDigit_iff]
  unfold int
  split <;> omega

/-- The zeros in front of a run of digits, as the source counts them. -/
def leadingZeros (w : Bytes) : ℕ := (w.takeWhile (· = 48)).length

theorem leadingZeros_cons (c : UInt8) (w : Bytes) :
    leadingZeros (c :: w) = if c = 48 then leadingZeros w + 1 else 0 := by
  by_cases hc : c = 48
  · simp [leadingZeros, hc]
  · simp [leadingZeros, hc]

theorem leadingZeros_eq_zero_iff (w : Bytes) : leadingZeros w = 0 ↔ w.head? ≠ some 48 := by
  cases w with
  | nil => simp [leadingZeros]
  | cons c w => simp [leadingZeros_cons]

/-- The loop counts the zeros in front. -/
theorem scanDigits_eq (w : Bytes) (zeroes : ℕ) (processingZeroes : Bool) :
    scanDigits w zeroes processingZeroes = if w.all Decimal.isDigit then
      some (if processingZeroes then zeroes + leadingZeros w else zeroes) else none := by
  induction w generalizing zeroes processingZeroes with
  | nil => simp [scanDigits, leadingZeros]
  | cons c w ih =>
    rw [scanDigits, ih, leadingZeros_cons]
    by_cases hc : Decimal.isDigit c = true
    · rw [if_neg (by rw [int_digit_iff, hc]; simp), List.all_cons, hc, Bool.true_and]
      congr 2
      by_cases hzero : c = 48
      · cases processingZeroes with
        | true =>
          simp [hzero]
          omega
        | false => simp
      · cases processingZeroes <;> simp [hzero]
    · rw [if_pos ((int_digit_iff c).mpr (by simpa using hc)), List.all_cons]
      simp [hc]

/-- A text that starts neither with white space nor with a sign. -/
theorem scanInt_digits {w : Bytes} (hw : w ≠ []) (hdigit : ∀ c ∈ w, Decimal.isDigit c = true) :
    scanInt w = some (Decimal.value w : ℤ) := by
  obtain ⟨c, w', rfl⟩ := List.exists_cons_of_ne_nil hw
  have hc := Decimal.isDigit_iff.mp (hdigit c List.mem_cons_self)
  have hspace : ¬ isspace c = true := by
    simp only [isspace, decide_eq_true_eq, ← UInt8.toNat_inj, UInt8.reduceToNat]
    omega
  have hminus : c ≠ 45 := by
    rintro rfl
    simp at hc
  have hplus : c ≠ 43 := by
    rintro rfl
    simp at hc
  have hall : (c :: w').takeWhile Decimal.isDigit = c :: w' := List.takeWhile_eq_self_iff.mpr hdigit
  simp only [scanInt, List.dropWhile_cons_of_neg hspace, List.head?_cons, Option.some.injEq, hminus, hplus,
    or_self, if_false, hall, reduceCtorEq]

theorem scanInt_minus {w : Bytes} (hw : w ≠ []) (hdigit : ∀ c ∈ w, Decimal.isDigit c = true) :
    scanInt (45 :: w) = some (-(Decimal.value w : ℤ)) := by
  have hspace : ¬ isspace 45 = true := by decide
  have hall : w.takeWhile Decimal.isDigit = w := List.takeWhile_eq_self_iff.mpr hdigit
  simp only [scanInt, List.dropWhile_cons_of_neg hspace, List.head?_cons, true_or, if_true, List.tail_cons, hall,
    hw, if_false]

theorem stoll_digits {w : Bytes} (hw : w ≠ []) (hdigit : ∀ c ∈ w, Decimal.isDigit c = true) :
    stoll w = if (Decimal.value w : ℤ) < 2 ^ 63 then some (Decimal.value w : ℤ) else none := by
  rw [stoll, scanInt_digits hw hdigit, Option.filter_some]
  congr 1
  simp only [decide_eq_true_eq, eq_iff_iff, and_iff_right_iff_imp]
  omega

theorem stoll_minus {w : Bytes} (hw : w ≠ []) (hdigit : ∀ c ∈ w, Decimal.isDigit c = true) :
    stoll (45 :: w) =
      if -2 ^ 63 ≤ -(Decimal.value w : ℤ) then some (-(Decimal.value w : ℤ)) else none := by
  rw [stoll, scanInt_minus hw hdigit, Option.filter_some]
  congr 1
  simp only [decide_eq_true_eq, eq_iff_iff, and_iff_left_iff_imp]
  omega

/-- The condition on the zeros in front says that the digits are a numeral. -/
theorem zeros_iff {w : Bytes} (hw : w ≠ []) (hdigit : ∀ c ∈ w, Decimal.isDigit c = true) :
    ¬ (leadingZeros w > 0 ∧ (Decimal.value w : ℤ) ≠ 0 ∨ leadingZeros w > 1) ↔
      Decimal.ofNat (Decimal.value w) = w := by
  constructor
  · intro hzeros
    apply Decimal.ofNat_value hdigit hw
    intro hhead
    obtain ⟨c, w', rfl⟩ := List.exists_cons_of_ne_nil hw
    obtain rfl : c = 48 := Option.some.inj hhead
    have hcount : leadingZeros (48 :: w') = leadingZeros w' + 1 := by simp [leadingZeros_cons]
    have hvalue : Decimal.value (48 :: w') = Decimal.value w' := rfl
    rw [hcount, hvalue] at hzeros
    by_contra hne
    have hw' : w' ≠ [] := fun h => hne (by rw [h])
    have hnext : w'.head? ≠ some 48 := (leadingZeros_eq_zero_iff w').mp (by omega)
    have hself : Decimal.ofNat (Decimal.value w') = w' :=
      Decimal.ofNat_value (fun c hc => hdigit c (List.mem_cons_of_mem _ hc)) hw'
        (fun h => absurd h hnext)
    rw [show Decimal.value w' = 0 by omega] at hself
    apply hnext
    rw [← hself]
    rfl
  · intro hself hzeros
    by_cases hvalue : Decimal.value w = 0
    · rw [hvalue] at hself
      rw [hvalue, ← hself] at hzeros
      exact absurd hzeros (by decide)
    · have hhead := Decimal.head?_ofNat hvalue
      rw [hself] at hhead
      have := (leadingZeros_eq_zero_iff w).mpr hhead
      omega

/-- A token of digits. -/
theorem longLong?_digits {w : Bytes} (hw : w ≠ [])
    (hdigit : ∀ c ∈ w, Decimal.isDigit c = true) (v : ℤ) :
    longLong? w = some v ↔
      w.length ≤ 20 ∧ v = Decimal.value w ∧ v < 2 ^ 63 ∧ Decimal.ofNat (Decimal.value w) = w := by
  have hnul : (0 : UInt8) ∉ w := fun h => absurd (hdigit 0 h) (by decide)
  have hminus : ¬ (w.length > 1 ∧ w.head? = some 45) := by
    rintro ⟨-, hhead⟩
    exact absurd (hdigit 45 (List.mem_of_mem_head? hhead)) (by decide)
  have hall : w.all Decimal.isDigit = true := List.all_eq_true.mpr hdigit
  have hlen : w.length ≠ 0 := fun h => hw (List.length_eq_zero_iff.mp h)
  rw [← zeros_iff hw hdigit, longLong?, if_neg hnul]
  simp only [hminus, decide_false, Bool.false_eq_true, if_false, scanDigits_eq, hall, if_true, Nat.zero_add,
    stoll_digits hw hdigit, hlen, false_or, or_false]
  by_cases hlong : w.length > 20
  · rw [if_pos hlong]
    simp
    omega
  rw [if_neg hlong]
  by_cases hmax : (Decimal.value w : ℤ) < 2 ^ 63
  · rw [if_pos hmax]
    dsimp only
    split_ifs with hzeros
    · exact iff_of_false (by simp) fun h => h.2.2.2 hzeros
    · simp only [Option.some.injEq]
      constructor
      · rintro rfl
        exact ⟨by omega, rfl, hmax, hzeros⟩
      · rintro ⟨-, rfl, -, -⟩
        rfl
  · rw [if_neg hmax]
    simp only [reduceCtorEq, false_iff]
    rintro ⟨-, rfl, h, -⟩
    exact hmax h

/-- A minus and digits. -/
theorem longLong?_minus {w : Bytes} (hw : w ≠ [])
    (hdigit : ∀ c ∈ w, Decimal.isDigit c = true) (v : ℤ) :
    longLong? (45 :: w) = some v ↔ w.length ≤ 19 ∧ v = -Decimal.value w ∧ -2 ^ 63 ≤ v ∧
      w.head? ≠ some 48 := by
  have hnul : (0 : UInt8) ∉ 45 :: w := by
    intro h
    rcases List.mem_cons.mp h with h | h
    · exact absurd h (by decide)
    · exact absurd (hdigit 0 h) (by decide)
  have hall : w.all Decimal.isDigit = true := List.all_eq_true.mpr hdigit
  have hpos : w.length > 0 := List.length_pos_iff.mpr hw
  rw [← leadingZeros_eq_zero_iff, longLong?, if_neg hnul]
  simp only [List.length_cons, List.head?_cons, and_true, List.tail_cons,
    show w.length + 1 > 1 by omega, show ¬ w.length + 1 = 0 by omega, decide_true, if_true, scanDigits_eq,
    hall, Nat.zero_add, stoll_minus hw hdigit, false_or, or_true]
  by_cases hlong : w.length + 1 > 20
  · rw [if_pos hlong]
    simp
    omega
  rw [if_neg hlong]
  by_cases hmin : -2 ^ 63 ≤ -(Decimal.value w : ℤ)
  · rw [if_pos hmin]
    dsimp only
    split_ifs with hzeros
    · simp
      omega
    · simp only [Option.some.injEq]
      constructor
      · rintro rfl
        exact ⟨by omega, rfl, hmin, by omega⟩
      · rintro ⟨-, rfl, -, -⟩
        rfl
  · rw [if_neg hmin]
    simp only [reduceCtorEq, false_iff]
    rintro ⟨-, rfl, h, -⟩
    exact hmin h

/-- Anything but digits behind an optional minus is no number. -/
theorem longLong?_eq_none {w : Bytes}
    (h : (if w.length > 1 ∧ w.head? = some 45 then w.tail else w).all Decimal.isDigit = false) :
    longLong? w = none := by
  rw [longLong?]
  simp only [scanDigits_eq, decide_eq_true_eq, h, Bool.false_eq_true, if_false, ite_self]

/-- The tokens that are numbers are the numerals of the 64-bit integers. -/
theorem longLong?_eq_some_iff {w : Bytes} {v : ℤ} :
    longLong? w = some v ↔ LongLong v ∧ w = Decimal.ofInt v := by
  constructor
  · intro h
    have hw : w ≠ [] := by
      rintro rfl
      exact absurd h (by simp [longLong?])
    have hdigits : (if w.length > 1 ∧ w.head? = some 45 then w.tail else w).all Decimal.isDigit = true := by
      by_contra hnot
      rw [longLong?_eq_none (by simpa using hnot)] at h
      exact absurd h (by simp)
    -- the digits are those behind a minus sign, if there is one
    split_ifs at hdigits with hminus
    · obtain ⟨c, w', rfl⟩ := List.exists_cons_of_ne_nil hw
      obtain rfl : c = 45 := Option.some.inj hminus.2
      have hw' : w' ≠ [] := by
        rintro rfl
        exact absurd hminus.1 (by decide)
      rw [List.tail_cons, List.all_eq_true] at hdigits
      obtain ⟨-, rfl, hmin, hzero⟩ := (longLong?_minus hw' hdigits v).mp h
      have hself := Decimal.ofNat_value hdigits hw' fun h => absurd h hzero
      have hne : Decimal.value w' ≠ 0 := by
        intro hvalue
        rw [hvalue] at hself
        apply hzero
        rw [← hself]
        rfl
      refine ⟨⟨hmin, by omega⟩, ?_⟩
      rw [Decimal.ofInt_neg hne, hself]
    · rw [List.all_eq_true] at hdigits
      obtain ⟨-, rfl, hmax, hself⟩ := (longLong?_digits hw hdigits v).mp h
      refine ⟨⟨by omega, hmax⟩, ?_⟩
      rw [Decimal.ofInt_natCast, hself]
  · rintro ⟨⟨hmin, hmax⟩, rfl⟩
    have hlength : (Decimal.ofNat v.natAbs).length ≤ 19 := Decimal.length_ofNat_le (by omega) (by omega)
    by_cases hneg : v < 0
    · have hne : v.natAbs ≠ 0 := by omega
      rw [Decimal.ofInt, if_pos hneg]
      refine (longLong?_minus (Decimal.ofNat_ne_nil _) (fun c hc => Decimal.isDigit_of_mem_ofNat hc) v).mpr
        ⟨hlength, ?_, hmin, Decimal.head?_ofNat hne⟩
      rw [Decimal.value_ofNat]
      omega
    · rw [Decimal.ofInt, if_neg hneg]
      refine (longLong?_digits (Decimal.ofNat_ne_nil _) (fun c hc => Decimal.isDigit_of_mem_ofNat hc) v).mpr
        ⟨by omega, ?_, hmax, ?_⟩
      · rw [Decimal.value_ofNat]
        omega
      · rw [Decimal.value_ofNat]

/-! ## `readLong` -/

section ReadLong

variable {r : Reader} {mode : TMode} {E : Stop → Prop} {ts : List Bytes}

/-- The token is a number. -/
def IsLong (t : Bytes) : Prop := ∃ v, LongLong v ∧ t = Decimal.ofInt v

theorem IsLong.longLong? {t : Bytes} (h : IsLong t) : ∃ v, longLong? t = some v := by
  obtain ⟨v, hv⟩ := h
  exact ⟨v, longLong?_eq_some_iff.mpr hv⟩

/-- Numbers are short. -/
theorem IsLong.length_le {t : Bytes} (h : IsLong t) : t.length ≤ maxTokenLength := by
  obtain ⟨v, hv⟩ := h.longLong?
  have hlength : t.length ≤ 20 := by
    by_contra hlong
    have hnone : Testlib.longLong? t = none := by
      rw [Testlib.longLong?]
      simp only [show t.length > 20 by omega, or_true, if_true, ite_self]
    rw [hnone] at hv
    exact absurd hv (by simp)
  refine hlength.trans ?_
  unfold maxTokenLength
  omega

/-- `readLong` reads the next token, if it is a number. -/
theorem Ahead.readLong (mode : TMode) (h : Ahead ts r) (heof : ts = [] → E (quit mode none .unexpectedEof))
    (hbad : ∀ t ts', ts = t :: ts' → ¬ IsLong t → E (quit mode none .pe)) :
    Leads (readLong mode) r E fun v r' =>
      ∃ t ts', ts = t :: ts' ∧ LongLong v ∧ t = Decimal.ofInt v ∧ Ahead ts' r' := by
  refine Leads.bind (h.seekEof.mono ?_)
  rintro e r₁ ⟨rfl, h₁⟩
  by_cases hnil : ts = []
  · rw [if_pos (by simpa using hnil)]
    exact Leads.throw (heof hnil)
  rw [if_neg (by simpa using hnil)]
  refine Leads.bind ((h₁.readWordTo mode heof ?_).mono ?_)
  · intro t ts' hts hlong
    refine hbad t ts' hts fun hgood => ?_
    have := hgood.length_le
    omega
  · rintro t r₂ ⟨-, ts', hts, h₂⟩
    cases hvalue : longLong? t with
    | none =>
      have hnot : ¬ IsLong t := by
        intro hlong
        obtain ⟨v, hv⟩ := hlong.longLong?
        rw [hvalue] at hv
        exact absurd hv (by simp)
      rw [stringToLongLong, hvalue]
      exact Leads.lift_error (hbad t ts' hts hnot)
    | some v =>
      obtain ⟨hv, ht⟩ := longLong?_eq_some_iff.mp hvalue
      rw [stringToLongLong, hvalue]
      exact Leads.lift_ok ⟨t, ts', hts, hv, ht, h₂⟩

/-- `stringToLongLong` takes exactly the numerals of the 64-bit integers, and takes them for what they are;
anything else is a presentation error of the stream. -/
theorem stringToLongLong_exact (mode : TMode) (w : Bytes) :
    (∀ v, stringToLongLong mode w = .ok v ↔ LongLong v ∧ w = Decimal.ofInt v) ∧
      (¬ IsLong w → stringToLongLong mode w = .error (quit mode none .pe)) := by
  rw [stringToLongLong]
  constructor
  · intro v
    rw [← longLong?_eq_some_iff]
    cases longLong? w <;> simp
  · intro hnot
    cases hvalue : longLong? w with
    | none => rfl
    | some v => exact absurd ⟨v, longLong?_eq_some_iff.mp hvalue⟩ hnot

end ReadLong

end Afterglow.Testlib
