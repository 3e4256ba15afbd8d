import Afterglow.Testlib.Reader

/-!
# Reading lines from an input stream of testlib

Reference: `support/testlib.h`, the members of `InStream` that the default checker reaches, in
non-strict mode.

A loop of the source runs for at most as many rounds as the model allows it, and ends in `diverge`
when these do not suffice. The results below show that they always do.
-/

namespace Afterglow.Testlib

/-! ## The members of `InStream` -/

/-- `isBlanks`, on the `int` that `curChar` returns. -/
def isBlanks (c : ℤ) : Bool := c = int LF ∨ c = int CR ∨ c = int SPACE ∨ c = int TAB

/-- The loop of `skipBlanks`, for at most `n` rounds. -/
def skipBlanksLoop : ℕ → Reading Unit
  | 0 => throw .diverge
  | n + 1 => do
    let c ← curChar
    if isBlanks c then
      skipChar
      skipBlanksLoop n
    else
      pure ()

def skipBlanks : Reading Unit := do
  let r ← get
  skipBlanksLoop (r.remaining + 1)

def seekEof : Reading Bool := do
  skipBlanks
  eof

def eoln : Reading Bool := do
  let c ← nextChar
  if c = EOFC then
    pure true
  else if c = int CR then
    let c ← nextChar
    if c ≠ int LF then
      unreadChar c
      unreadChar (int CR)
      pure false
    else
      pure true
  else if c = int LF then
    pure true
  else
    unreadChar c
    pure false

/-- The part of the loop body of `readStringTo` that deals with a carriage return: whether the loop
goes on. The carriage return is only put back in front of a line feed. -/
def passCr (cur : ℤ) : Reading Bool := do
  if cur = int CR then
    let cur ← nextChar
    let next ← curChar
    if next = int LF then
      unreadChar cur
      pure false
    else
      pure true
  else
    pure true

/-- The loop of `readStringTo`, for at most `n` rounds. -/
def readStringLoop : ℕ → Bytes → Reading Bytes
  | 0, _ => throw .diverge
  | n + 1, result => do
    let cur ← curChar
    if cur = int LF ∨ cur = EOFC then
      pure result
    else
      let more ← passCr cur
      if more then
        let c ← nextChar
        readStringLoop n (result ++ [char c])
      else
        pure result

def readStringTo : Reading Bytes := do
  let r ← get
  let result ← readStringLoop (r.remaining + 1) []
  let _ ← eoln
  pure result

/-- `readLine` of a non-strict stream. -/
def readLine : Reading Bytes := readStringTo

def utf8Bom : Bytes := [0xEF, 0xBB, 0xBF]

/-- `skipBom` once `done` has been skipped, last byte first, and `rest` is still to come. -/
def skipBomLoop (done : Bytes) : Bytes → Reading Unit
  | [] => pure ()
  | c :: rest => do
    let cur ← curChar
    if char cur = c then
      skipChar
      skipBomLoop (c :: done) rest
    else
      done.forM fun c => unreadChar (int c)

def skipBom : Reading Unit := skipBomLoop [] utf8Bom

/-! ## The line that is read -/

/-- What one `readLine` makes of the bytes ahead: the line, and the bytes behind its terminator. A
carriage return that is not part of a terminator is lost; before the end of the file it turns into
the byte of `EOFC`. -/
def lineOf : Bytes → Bytes × Bytes
  | [] => ([], [])
  | c :: b =>
    if c = LF then ([], b)
    else if c = CR then
      match b with
      | [] => ([0xFF], [])
      | d :: b => if d = LF then ([], b) else (d :: (lineOf b).1, (lineOf b).2)
    else (c :: (lineOf b).1, (lineOf b).2)

@[simp] theorem lineOf_nil : lineOf [] = ([], []) := rfl

@[simp] theorem lineOf_lf (b : Bytes) : lineOf (LF :: b) = ([], b) := by
  rw [lineOf.eq_def]
  rfl

@[simp] theorem lineOf_cr_nil : lineOf [CR] = ([0xFF], []) := rfl

@[simp] theorem lineOf_crlf (b : Bytes) : lineOf (CR :: LF :: b) = ([], b) := by
  rw [lineOf.eq_def]
  rfl

theorem lineOf_cr_cons {d : UInt8} (b : Bytes) (hd : d ≠ LF) :
    lineOf (CR :: d :: b) = (d :: (lineOf b).1, (lineOf b).2) := by
  rw [lineOf.eq_def]
  simp only [show CR ≠ LF by decide, if_false, if_true, hd]

theorem lineOf_cons {c : UInt8} (b : Bytes) (hlf : c ≠ LF) (hcr : c ≠ CR) :
    lineOf (c :: b) = (c :: (lineOf b).1, (lineOf b).2) := by
  rw [lineOf.eq_def]
  simp only [hlf, hcr, if_false]

theorem lineOf_length_le (b : Bytes) : (lineOf b).2.length ≤ b.length := by
  fun_induction lineOf b <;> simp_all <;> omega

/-- Reading a line makes progress. -/
theorem lineOf_length_lt {b : Bytes} (hb : b ≠ []) : (lineOf b).2.length < b.length := by
  have hle := lineOf_length_le
  fun_cases lineOf b with
  | case1 => exact absurd rfl hb
  | case2 b => simp
  | case3 => simp
  | case4 b =>
      simp only [List.length_cons]
      omega
  | case5 d b =>
      have := hle b
      simp only [List.length_cons]
      omega
  | case6 c b =>
      have := hle b
      simp only [List.length_cons]
      omega

/-- The terminator at which the loop of `readStringTo` stops, in front of `rest`. -/
inductive Terminated (rest : Bytes) : Bytes → Prop
  | eof (h : rest = []) : Terminated rest []
  | lf : Terminated rest (LF :: rest)
  | crlf : Terminated rest (CR :: LF :: rest)

section Yields

variable {b : Bytes} {r : Reader}

theorem passCr_yields {c : UInt8} (h : Holds 2 (c :: b) r) :
    Yields (passCr (int c)) r fun more r' =>
      (more = false ∧ c = CR ∧ (∃ b', b = LF :: b') ∧ Holds 2 (c :: b) r') ∨
      (more = true ∧ c = CR ∧ (¬ ∃ b', b = LF :: b') ∧ Holds 1 b r') ∨
      (more = true ∧ c ≠ CR ∧ Holds 2 (c :: b) r') := by
  by_cases hc : c = CR
  · rw [passCr, if_pos (by rw [hc])]
    refine Yields.bind ((nextChar_yields h).mono ?_)
    rintro cur r₁ ⟨rfl, h₁⟩
    refine Yields.bind ((curChar_yields h₁).mono ?_)
    rintro next r₂ ⟨rfl, h₂, -⟩
    by_cases hb : ∃ b', b = LF :: b'
    · obtain ⟨b', rfl⟩ := hb
      rw [List.tail_cons, if_pos (by rw [firstChar_cons])]
      refine Yields.bind ((unreadChar_yields h₂ (by have := two_lt_MAX_UNREAD_COUNT; omega)).mono ?_)
      intro _ r₃ h₃
      exact Yields.pure (.inl ⟨rfl, hc, ⟨b', rfl⟩, h₃⟩)
    · have hne : firstChar b ≠ int LF := by
        cases b with
        | nil => exact (int_ne_EOFC LF).symm
        | cons d b =>
          intro hd
          exact hb ⟨b, by rw [int_inj.mp hd]⟩
      rw [List.tail_cons, if_neg hne]
      exact Yields.pure (.inr (.inl ⟨rfl, hc, hb, h₂⟩))
  · rw [passCr, if_neg (by simpa using hc)]
    exact Yields.pure (.inr (.inr ⟨rfl, hc, h⟩))

theorem readStringLoop_yields (n : ℕ) (result : Bytes) (hn : b.length < n) (h : Holds 2 b r) :
    Yields (readStringLoop n result) r fun line r' =>
      line = result ++ (lineOf b).1 ∧ ∃ b', Terminated (lineOf b).2 b' ∧ Holds 2 b' r' := by
  induction n generalizing b r result with
  | zero => omega
  | succ n ih =>
    refine Yields.bind ((curChar_yields h).mono ?_)
    rintro cur r₁ ⟨rfl, h₁, -⟩
    cases b with
    | nil =>
      rw [if_pos (.inr rfl)]
      exact Yields.pure ⟨by simp, [], .eof rfl, h₁⟩
    | cons c b =>
      rw [List.length_cons] at hn
      by_cases hlf : c = LF
      · subst hlf
        rw [if_pos (.inl rfl)]
        exact Yields.pure ⟨by simp, LF :: b, by rw [lineOf_lf]; exact .lf, h₁⟩
      rw [if_neg (by simp [hlf, int_ne_EOFC])]
      refine Yields.bind ((passCr_yields h₁).mono ?_)
      rintro more r₂ (⟨rfl, rfl, ⟨b', rfl⟩, h₂⟩ | ⟨rfl, rfl, hb, h₂⟩ | ⟨rfl, hcr, h₂⟩)
      · exact Yields.pure ⟨by simp, CR :: LF :: b', by rw [lineOf_crlf]; exact .crlf, h₂⟩
      · -- The carriage return is gone; the character behind it is taken whatever it is.
        refine Yields.bind ((nextChar_yields h₂).mono ?_)
        rintro next r₃ ⟨rfl, h₃⟩
        refine (ih (b := b.tail) _ ?_ (h₃.mono (by omega))).mono ?_
        · rw [List.length_tail]
          omega
        rintro line r₄ ⟨rfl, b', hb', h₄⟩
        cases b with
        | nil => exact ⟨by simp [firstChar]; rfl, b', hb', h₄⟩
        | cons d b =>
          have hd : d ≠ LF := fun hd => hb ⟨b, by rw [hd]⟩
          rw [lineOf_cr_cons b hd]
          exact ⟨by simp, b', hb', h₄⟩
      · refine Yields.bind ((nextChar_yields h₂).mono ?_)
        rintro next r₃ ⟨rfl, h₃⟩
        refine (ih (b := b) _ (by omega) (h₃.mono (by omega))).mono ?_
        rintro line r₄ ⟨rfl, b', hb', h₄⟩
        rw [lineOf_cons b hlf hcr]
        exact ⟨by simp, b', hb', h₄⟩

theorem eoln_yields {rest : Bytes} (hb : Terminated rest b) (h : Holds 2 b r) :
    Yields eoln r fun e r' => e = true ∧ Holds 2 rest r' := by
  refine Yields.bind ((nextChar_yields h).mono ?_)
  rintro c r₁ ⟨rfl, h₁⟩
  cases hb with
  | eof hrest =>
    rw [if_pos (firstChar_eq_EOFC.mpr rfl), hrest]
    exact Yields.pure ⟨rfl, h₁.mono (by omega)⟩
  | lf =>
    rw [firstChar_cons, if_neg (int_ne_EOFC LF), if_neg (by decide), if_pos rfl]
    exact Yields.pure ⟨rfl, h₁.mono (by omega)⟩
  | crlf =>
    rw [firstChar_cons, if_neg (int_ne_EOFC CR), if_pos rfl]
    refine Yields.bind ((nextChar_yields h₁).mono ?_)
    rintro c r₂ ⟨rfl, h₂⟩
    rw [List.tail_cons, firstChar_cons, if_neg (not_not.mpr rfl)]
    exact Yields.pure ⟨rfl, h₂.mono (by omega)⟩

theorem readLine_yields (h : Holds 2 b r) :
    Yields readLine r fun line r' => line = (lineOf b).1 ∧ Holds 2 (lineOf b).2 r' := by
  refine Yields.bind (Yields.get ?_)
  refine Yields.bind ((readStringLoop_yields _ [] (by rw [h.remaining]; omega) h).mono ?_)
  rintro line r₁ ⟨rfl, b', hb', h₁⟩
  refine Yields.bind ((eoln_yields hb' h₁).mono ?_)
  rintro _ r₂ ⟨-, h₂⟩
  exact Yields.pure ⟨rfl, h₂⟩

/-- Nothing is left over at the end of the file. -/
theorem seekEof_yields (h : Holds 2 [] r) : Yields seekEof r fun e _ => e = true := by
  have hblanks : Yields skipBlanks r fun _ r' => Holds 2 [] r' := by
    refine Yields.bind (Yields.get (Yields.bind ((curChar_yields h).mono ?_)))
    rintro cur r₁ ⟨rfl, h₁, -⟩
    rw [if_neg (by decide)]
    exact Yields.pure h₁
  refine Yields.bind (hblanks.mono ?_)
  intro _ r₁ h₁
  refine (eof_yields h₁).mono ?_
  rintro e r₂ ⟨rfl, -⟩
  rfl

/-- Putting back what `skipBom` has skipped. -/
theorem unreadAll_yields (k : ℕ) (done : Bytes) (hk : k + done.length ≤ 2) (h : Holds k b r) :
    Yields (done.forM fun c => unreadChar (int c)) r fun _ r' => Holds 2 (done.reverse ++ b) r' := by
  induction done generalizing k b r with
  | nil => exact Yields.pure (h.mono (by simpa using hk))
  | cons c done ih =>
    rw [List.length_cons] at hk
    refine Yields.bind ((unreadChar_yields h (by have := two_lt_MAX_UNREAD_COUNT; omega)).mono ?_)
    intro _ r₁ h₁
    refine (ih (k + 1) (by omega) h₁).mono ?_
    intro _ r₂ h₂
    rw [List.reverse_cons, List.append_assoc]
    exact h₂

theorem skipBomLoop_yields (rest done : Bytes) (hlen : done.length + rest.length = 3)
    (hrest : 0xFF ∉ rest) (h : Holds 0 b r) :
    Yields (skipBomLoop done rest) r fun _ r' =>
      Holds 2 (if rest <+: b then b.drop rest.length else done.reverse ++ b) r' := by
  induction rest generalizing done b r with
  | nil => exact Yields.pure (by simpa using h.mono (by omega))
  | cons c rest ih =>
    rw [List.length_cons] at hlen
    refine Yields.bind ((curChar_yields h).mono ?_)
    rintro cur r₁ ⟨rfl, h₁, hlt⟩
    cases b with
    | nil =>
      have hc : char (firstChar []) ≠ c := fun hc => hrest (by rw [← hc]; exact List.mem_cons_self)
      rw [if_neg hc, if_neg (by simp)]
      exact unreadAll_yields 0 done (by omega) h₁
    | cons d b =>
      rw [firstChar_cons, char_int]
      by_cases hd : d = c
      · subst hd
        rw [if_pos rfl]
        refine Yields.bind ((skipChar_yields (h₁.mono (Nat.zero_le 1)) (hlt (by simp))).mono ?_)
        intro _ r₂ h₂
        refine (ih (d :: done) ?_ ?_ h₂).mono ?_
        · rw [List.length_cons]
          omega
        · exact fun hmem => hrest (List.mem_cons_of_mem d hmem)
        · intro _ r₃ h₃
          simpa [List.prefix_cons_inj] using h₃
      · have hpre : ¬ c :: rest <+: d :: b := by
          intro hpre
          exact hd (List.cons_prefix_cons.mp hpre).1.symm
        rw [if_neg hd, if_neg hpre]
        exact unreadAll_yields 0 done (by omega) h₁

/-- `skipBom` drops one byte order mark, and nothing else. -/
theorem skipBom_yields (h : Holds 0 b r) :
    Yields skipBom r fun _ r' => Holds 2 (if utf8Bom <+: b then b.drop 3 else b) r' :=
  skipBomLoop_yields utf8Bom [] rfl (by decide) h

end Yields

end Afterglow.Testlib
