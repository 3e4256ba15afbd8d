import Afterglow.Halting
import Afterglow.Testlib.DefaultChecker

/-!
# Reading tokens from an input stream of testlib

Reference: `support/testlib.h`, `InStream::skipBlanks`, `seekEof`, `readWordTo`, `readWord`,
`readToken`, `readTokenTo`, in non-strict mode.

To a checker that reads tokens a file is the list of its maximal runs of non-blank bytes. A token that
ends at the end of the file puts `EOFC` back, which leaves a mark in the buffer; `At` covers the reader
with and without the mark.
-/

namespace Afterglow.Testlib

open Halting

/-! ## The members of `InStream` -/

/-- The default of `maxTokenLength`, 32 MiB. -/
@[irreducible] def maxTokenLength : ℕ := 32 * 1024 * 1024

/-- The loop of `readWordTo`, for at most `n` rounds; `cur` is the character read last. -/
def readWordLoop (mode : TMode) : ℕ → ℤ → Bytes → Reading (ℤ × Bytes)
  | 0, _, _ => throw .diverge
  | n + 1, cur, result =>
    if isBlanks cur ∨ cur = EOFC then
      pure (cur, result)
    else
      let result := result ++ [char cur]
      if result.length > maxTokenLength then
        throw (quit mode none .pe)
      else do
        let cur ← nextChar
        readWordLoop mode n cur result

/-- `readWordTo` on a stream of the given mode. -/
def readWordTo (mode : TMode) : Reading Bytes := do
  skipBlanks
  let cur ← nextChar
  if cur = EOFC then
    throw (quit mode none .unexpectedEof)
  else if isBlanks cur then
    throw (quit mode none .pe)
  else
    let r ← get
    let (cur, result) ← readWordLoop mode (r.remaining + 2) cur []
    unreadChar cur
    if result.length = 0 then
      throw (quit mode none .unexpectedEof)
    else
      pure result

/-- `readWord` and `readToken` are `readWordTo`. -/
def readWord (mode : TMode) : Reading Bytes := readWordTo mode

@[inherit_doc readWord] def readToken (mode : TMode) : Reading Bytes := readWord mode

/-! ## The tokens of a text -/

/-- `isBlanks` of a byte. -/
def blank (c : UInt8) : Bool := isBlanks (int c)

def solid (c : UInt8) : Bool := !blank c

theorem isBlanks_int (c : UInt8) : isBlanks (int c) = blank c := rfl

/-- The maximal runs of non-blank bytes. -/
def tokens (b : Bytes) : List Bytes := (b.splitOnP blank).filter fun w => !w.isEmpty

@[simp] theorem tokens_nil : tokens [] = [] := rfl

theorem tokens_cons_blank {c : UInt8} (b : Bytes) (hc : blank c = true) : tokens (c :: b) = tokens b := by
  rw [tokens, List.splitOnP_cons_eq_if_modifyHead, if_pos hc]
  rfl

theorem tokens_dropWhile_blank (b : Bytes) : tokens (b.dropWhile blank) = tokens b := by
  induction b with
  | nil => rfl
  | cons c b ih =>
    by_cases hc : blank c = true
    · rw [List.dropWhile_cons_of_pos hc, ih, tokens_cons_blank b hc]
    · rw [List.dropWhile_cons_of_neg hc]

/-- A run of non-blank bytes in front of a blank or of the end is a token. -/
theorem tokens_append {w b : Bytes} (hw : w ≠ []) (hblank : ∀ c ∈ w, blank c = false)
    (hb : ∀ c, b.head? = some c → blank c = true) : tokens (w ++ b) = w :: tokens b := by
  cases b with
  | nil => simp [tokens, List.splitOnP_eq_singleton hblank, hw]
  | cons c b =>
    have hc : blank c = true := hb c rfl
    rw [tokens_cons_blank b hc]
    simp [tokens, List.splitOnP_append_cons_of_forall_mem hblank c hc, hw]

/-- The first token of a text that starts with it. -/
theorem tokens_cons {c : UInt8} (b : Bytes) (hc : blank c = false) :
    tokens (c :: b) = (c :: b).takeWhile solid ::
      tokens ((c :: b).dropWhile solid) := by
  have hsplit := List.takeWhile_append_dropWhile (p := solid) (l := c :: b)
  have hfirst : (c :: b).takeWhile solid ≠ [] := by
    rw [List.takeWhile_cons_of_pos (by simpa [solid] using hc)]
    simp
  have hnext : ∀ d, ((c :: b).dropWhile solid).head? = some d → blank d = true := by
    intro d hd
    have hhead := List.head?_dropWhile_not solid (c :: b)
    rw [hd] at hhead
    simpa [solid] using hhead
  have hrun : ∀ d ∈ (c :: b).takeWhile solid, blank d = false := by
    intro d hd
    simpa [solid] using List.mem_takeWhile_imp hd
  rw [← tokens_append hfirst hrun hnext, hsplit]

theorem tokens_eq_nil_iff (b : Bytes) : tokens b = [] ↔ b.dropWhile blank = [] := by
  rw [← tokens_dropWhile_blank]
  cases hb : b.dropWhile blank with
  | nil => simp
  | cons c b' =>
    have hc : blank c = false := by
      have hhead := List.head?_dropWhile_not blank b
      rw [hb] at hhead
      simpa using hhead
    simp [tokens_cons b' hc]

theorem length_tokens_le (b : Bytes) : (tokens b).length ≤ b.length := by
  induction hn : b.length using Nat.strong_induction_on generalizing b with
  | _ n ih =>
    cases b with
    | nil => simp
    | cons c b =>
      rw [List.length_cons] at hn
      by_cases hc : blank c = true
      · have := ih b.length (by omega) b rfl
        rw [tokens_cons_blank b hc]
        omega
      · have hsolid : solid c = true := by simpa [solid] using hc
        have hle := (List.dropWhile_suffix (p := solid) (l := b)).length_le
        have := ih _ (by omega) (b.dropWhile solid) rfl
        rw [tokens_cons b (by simpa using hc), List.dropWhile_cons_of_pos hsolid, List.length_cons]
        omega

/-! ## The reader in front of tokens -/

/-- The reader stands at a mark for the end of the file. -/
structure AtEnd (r : Reader) : Prop where
  lt : r.bufferPos < r.bufferSize
  isEof : r.isEof r.bufferPos = true

/-- The reader stands in front of the bytes `b`. -/
def At (b : Bytes) (r : Reader) : Prop := Holds 2 b r ∨ b = [] ∧ AtEnd r

section At

variable {b : Bytes} {r : Reader}

theorem AtEnd.refill (h : AtEnd r) : refill r = .ok (true, r) := by
  have hlt := h.lt
  show (if r.bufferPos ≥ r.bufferSize then _ else _ : Reading Bool) r = _
  rw [if_neg (by omega)]
  rfl

theorem AtEnd.curChar (h : AtEnd r) : Yields curChar r fun c r' => c = EOFC ∧ r' = r := by
  refine Yields.bind ⟨true, r, h.refill, Yields.bind (Yields.get (Yields.pure ⟨?_, rfl⟩))⟩
  rw [if_pos h.isEof]

theorem AtEnd.nextChar (h : AtEnd r) : Yields nextChar r fun c r' => c = EOFC ∧ r' = r := by
  refine Yields.bind ⟨true, r, h.refill, Yields.bind (Yields.get ?_)⟩
  rw [if_pos h.isEof]
  exact Yields.pure ⟨rfl, rfl⟩

theorem At.curChar (h : At b r) : Yields curChar r fun c r' =>
    c = firstChar b ∧ At b r' ∧ (b ≠ [] → Holds 2 b r' ∧ r'.bufferPos < r'.bufferSize) := by
  rcases h with h | ⟨rfl, h⟩
  · refine (curChar_yields h).mono ?_
    rintro c r' ⟨rfl, h', hlt⟩
    exact ⟨rfl, .inl h', fun hb => ⟨h', hlt hb⟩⟩
  · refine h.curChar.mono ?_
    rintro c r' ⟨rfl, rfl⟩
    exact ⟨rfl, .inr ⟨rfl, h⟩, fun hb => absurd rfl hb⟩

theorem At.eof (h : At b r) : Yields eof r fun e r' => e = b.isEmpty ∧ At b r' := by
  rcases h with h | ⟨rfl, h⟩
  · refine (eof_yields h).mono ?_
    rintro e r' ⟨rfl, h'⟩
    exact ⟨rfl, .inl h'⟩
  · refine Yields.bind ⟨true, r, h.refill, Yields.bind (h.curChar.mono ?_)⟩
    rintro c r' ⟨rfl, rfl⟩
    exact Yields.pure ⟨rfl, .inr ⟨rfl, h⟩⟩

theorem skipBlanksLoop_yields (n : ℕ) (hn : b.length < n) (h : At b r) :
    Yields (skipBlanksLoop n) r fun _ r' => At (b.dropWhile blank) r' := by
  induction n generalizing b r with
  | zero => omega
  | succ n ih =>
    refine Yields.bind (h.curChar.mono ?_)
    rintro cur r₁ ⟨rfl, h₁, hlt⟩
    cases b with
    | nil =>
      rw [if_neg (by decide)]
      exact Yields.pure h₁
    | cons c b =>
      rw [List.length_cons] at hn
      by_cases hc : blank c = true
      · rw [firstChar_cons, isBlanks_int, if_pos hc, List.dropWhile_cons_of_pos hc]
        obtain ⟨hholds, hpos⟩ := hlt (by simp)
        refine Yields.bind ((skipChar_yields (k := 2) (hholds.mono (by omega)) hpos).mono ?_)
        intro _ r₂ h₂
        exact ih (by omega) (.inl h₂)
      · rw [firstChar_cons, isBlanks_int, if_neg hc, List.dropWhile_cons_of_neg hc]
        exact Yields.pure h₁

theorem At.skipBlanks (h : At b r) :
    Yields skipBlanks r fun _ r' => At (b.dropWhile blank) r' := by
  refine Yields.bind (Yields.get ?_)
  rcases h with h | ⟨rfl, h⟩
  · exact skipBlanksLoop_yields _ (by rw [h.remaining]; omega) (.inl h)
  · exact skipBlanksLoop_yields _ (by simp) (.inr ⟨rfl, h⟩)

theorem At.seekEof (h : At b r) : Yields seekEof r fun e r' =>
    e = (tokens b).isEmpty ∧ At (b.dropWhile blank) r' := by
  refine Yields.bind (h.skipBlanks.mono ?_)
  intro _ r₁ h₁
  refine h₁.eof.mono ?_
  rintro e r₂ ⟨rfl, h₂⟩
  refine ⟨?_, h₂⟩
  rw [Bool.eq_iff_iff, List.isEmpty_iff, List.isEmpty_iff, tokens_eq_nil_iff]

/-- Putting back the character behind a token: a blank, or the mark for the end. -/
theorem unread_next (h : Holds 1 b.tail r) : Yields (unreadChar (firstChar b)) r fun _ r' => At b r' := by
  cases b with
  | cons c b =>
    refine (unreadChar_yields h (by have := two_lt_MAX_UNREAD_COUNT; omega)).mono ?_
    exact fun _ _ h' => .inl h'
  | nil =>
    have hroom := h.room
    have hmax := two_lt_MAX_UNREAD_COUNT
    have hsize := h.le
    refine Yields.bind (Yields.get ?_)
    rw [if_neg (by omega)]
    refine Yields.set (.inr ⟨rfl, ?_, ?_⟩)
    · show r.bufferPos - 1 < r.bufferSize
      omega
    · simp [firstChar]

end At

section Word

variable {b : Bytes} {r : Reader} {mode : TMode} {E : Stop → Prop}

theorem Yields.leads {α : Type} {m : Reading α} {Q : α → Reader → Prop} (h : Yields m r Q) :
    Leads m r E Q := by
  obtain ⟨a, r', hm, hQ⟩ := h
  rw [Leads, hm]
  exact hQ

/-- The loop collects the token that `cur` starts, unless it is too long. -/
theorem readWordLoop_leads (n : ℕ) (result : Bytes) (hn : b.length < n)
    (hlen : result.length ≤ maxTokenLength) (h : Holds 1 b.tail r)
    (hlong : maxTokenLength < (result ++ b.takeWhile solid).length →
      E (quit mode none .pe)) :
    Leads (readWordLoop mode n (firstChar b) result) r E fun p r' =>
      p = (firstChar (b.dropWhile solid), result ++ b.takeWhile solid) ∧
        p.2.length ≤ maxTokenLength ∧ Holds 1 (b.dropWhile solid).tail r' := by
  induction n generalizing b r result with
  | zero => omega
  | succ n ih =>
    cases b with
    | nil =>
      rw [readWordLoop, if_pos (.inr rfl)]
      exact Leads.pure ⟨by simp, by simpa using hlen, h⟩
    | cons c b =>
      rw [List.length_cons] at hn
      by_cases hc : blank c = true
      · have hsolid : ¬ solid c = true := by simp [solid, hc]
        rw [readWordLoop, if_pos (.inl hc), List.takeWhile_cons_of_neg hsolid,
          List.dropWhile_cons_of_neg hsolid]
        exact Leads.pure ⟨by simp, by simpa using hlen, h⟩
      · have hsolid : solid c = true := by simpa [solid] using hc
        rw [List.takeWhile_cons_of_pos hsolid, ← List.singleton_append, ← List.append_assoc] at hlong
        rw [readWordLoop, firstChar_cons, isBlanks_int, if_neg (by simp [hc, int_ne_EOFC]), char_int,
          List.takeWhile_cons_of_pos hsolid, List.dropWhile_cons_of_pos hsolid]
        rw [List.tail_cons] at h
        show Leads (ite ((result ++ [c]).length > maxTokenLength) _ _) _ _ _
        by_cases hmax : (result ++ [c]).length > maxTokenLength
        · rw [if_pos hmax]
          refine Leads.throw (hlong ?_)
          rw [List.length_append]
          omega
        · rw [if_neg hmax]
          refine Leads.bind ((nextChar_yields (k := 1) (h.mono (by omega))).leads.mono ?_)
          rintro cur r₁ ⟨rfl, h₁⟩
          refine (ih (result ++ [c]) (by omega) (by omega) h₁ hlong).mono ?_
          rintro p r₂ ⟨rfl, hp, h₂⟩
          exact ⟨by simp, hp, h₂⟩

/-- The reader stands in front of the tokens `ts`. -/
def Ahead (ts : List Bytes) (r : Reader) : Prop := ∃ b, At b r ∧ tokens b = ts

/-- There are no more tokens than the loops allow rounds. -/
theorem Ahead.length_le {ts : List Bytes} (h : Ahead ts r) : ts.length ≤ r.remaining := by
  obtain ⟨b, hat | ⟨rfl, -⟩, rfl⟩ := h
  · rw [hat.remaining]
    exact length_tokens_le b
  · exact Nat.zero_le _

theorem Ahead.seekEof {ts : List Bytes} (h : Ahead ts r) :
    Leads seekEof r E fun e r' => e = ts.isEmpty ∧ Ahead ts r' := by
  obtain ⟨b, hat, rfl⟩ := h
  refine hat.seekEof.leads.mono ?_
  rintro e r' ⟨rfl, hat'⟩
  exact ⟨rfl, _, hat', tokens_dropWhile_blank b⟩

/-- `readWordTo` reads the next token, if there is one and it is not too long. -/
theorem Ahead.readWordTo {ts : List Bytes} (mode : TMode) (h : Ahead ts r)
    (heof : ts = [] → E (quit mode none .unexpectedEof))
    (hlong : ∀ t ts', ts = t :: ts' → maxTokenLength < t.length → E (quit mode none .pe)) :
    Leads (readWordTo mode) r E fun w r' =>
      w.length ≤ maxTokenLength ∧ ∃ ts', ts = w :: ts' ∧ Ahead ts' r' := by
  obtain ⟨b, hat, rfl⟩ := h
  refine Leads.bind (hat.skipBlanks.leads.mono ?_)
  intro _ r₁ h₁
  rw [← tokens_dropWhile_blank] at heof hlong ⊢
  have hhead := List.head?_dropWhile_not blank b
  cases hb : b.dropWhile blank with
  | nil =>
    rw [hb] at h₁ heof
    -- behind the last token there are only blanks, up to the end of the file
    have hnext : Yields nextChar r₁ fun c _ => c = EOFC := by
      rcases h₁ with h₁ | ⟨-, h₁⟩
      · exact (nextChar_yields (k := 1) h₁).mono fun _ _ h => h.1
      · exact h₁.nextChar.mono fun _ _ h => h.1
    refine Leads.bind (hnext.leads.mono ?_)
    rintro cur r₂ rfl
    rw [if_pos rfl]
    exact Leads.throw (heof rfl)
  | cons c b' =>
    rw [hb] at h₁ hhead hlong
    have hc : blank c = false := by simpa using hhead
    have hholds : Holds 2 (c :: b') r₁ := h₁.resolve_right (by simp)
    rw [tokens_cons b' hc] at hlong ⊢
    refine Leads.bind ((nextChar_yields (k := 1) hholds).leads.mono ?_)
    rintro cur r₂ ⟨rfl, h₂⟩
    rw [firstChar_cons, if_neg (int_ne_EOFC c), isBlanks_int, if_neg (by simp [hc])]
    refine Leads.bind (Leads.get ?_)
    -- the loop has a round for each character that remains
    have hfuel : (c :: b').length < r₂.remaining + 2 := by
      rw [h₂.remaining, List.tail_cons, List.length_cons]
      omega
    refine Leads.bind ((readWordLoop_leads (b := c :: b') _ [] hfuel (Nat.zero_le _) h₂ ?_).mono ?_)
    · intro hmax
      exact hlong _ _ rfl hmax
    · rintro p r₃ ⟨rfl, hlen, h₃⟩
      refine Leads.bind ((unread_next h₃).leads.mono ?_)
      intro _ r₄ h₄
      have hne : ([] ++ (c :: b').takeWhile solid).length ≠ 0 := by
        rw [List.takeWhile_cons_of_pos (by simp [solid, hc])]
        simp
      rw [if_neg hne]
      exact Leads.pure ⟨hlen, _, rfl, _, h₄, rfl⟩

end Word

end Afterglow.Testlib
