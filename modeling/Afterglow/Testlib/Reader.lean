import Afterglow.Model.Basic
import Mathlib.Data.UInt

/-!
# The buffered file reader of testlib

Reference: `support/testlib.h`, class `BufferedFileInputStreamReader`.

A `char` is a byte; where the source widens it to `int` it is sign-extended by `int`, so the byte
`0xFF` is `-1` and differs from `EOFC = 255`. The line counter is left out: only messages of a
validator read it. The cells of a fresh buffer are written before they are read.
-/

namespace Afterglow.Testlib

/-- How a run ends: with an exit code, or not at all. -/
inductive Stop
  | exit (code : ℕ)
  | diverge
deriving Repr, DecidableEq

/-- A `char` widened to `int`. -/
def int (c : UInt8) : ℤ := if c.toNat < 128 then c.toNat else c.toNat - 256

/-- An `int` narrowed to `char`. -/
def char (v : ℤ) : UInt8 := UInt8.ofNat (v % 256).toNat

def LF : UInt8 := 10
def CR : UInt8 := 13
def TAB : UInt8 := 9
def SPACE : UInt8 := 32
def EOFC : ℤ := 255

/-- `WA_EXIT_CODE`, `PE_EXIT_CODE` and `FAIL_EXIT_CODE` of a plain build. -/
def WA_EXIT_CODE : ℕ := 1
@[inherit_doc WA_EXIT_CODE] def PE_EXIT_CODE : ℕ := 2
@[inherit_doc WA_EXIT_CODE] def FAIL_EXIT_CODE : ℕ := 3

@[irreducible] def BUFFER_SIZE : ℕ := 2000000
@[irreducible] def MAX_UNREAD_COUNT : ℕ := BUFFER_SIZE / 2

theorem two_lt_MAX_UNREAD_COUNT : 2 < MAX_UNREAD_COUNT := by
  unfold MAX_UNREAD_COUNT BUFFER_SIZE
  decide

theorem MAX_UNREAD_COUNT_lt_BUFFER_SIZE : MAX_UNREAD_COUNT < BUFFER_SIZE := by
  unfold MAX_UNREAD_COUNT BUFFER_SIZE
  decide

/-- The fields of `BufferedFileInputStreamReader`; `file` is what `fread` has not returned yet. -/
structure Reader where
  file : Bytes
  buffer : ℕ → UInt8
  isEof : ℕ → Bool
  bufferPos : ℕ
  bufferSize : ℕ

/-- The constructor. -/
def Reader.new (file : Bytes) : Reader where
  file := file
  buffer := fun _ => 0
  isEof := fun _ => false
  bufferPos := MAX_UNREAD_COUNT
  bufferSize := MAX_UNREAD_COUNT

/-- The number of bytes between the position and the end of the file; it bounds the loops. -/
def Reader.remaining (r : Reader) : ℕ := (r.bufferSize - r.bufferPos) + r.file.length

/-- Code that works on one reader and may halt the process. -/
abbrev Reading := StateT Reader (Except Stop)

/-! ## The reader -/

def refill : Reading Bool := do
  let r ← get
  if r.bufferPos ≥ r.bufferSize then
    let data := r.file.take (BUFFER_SIZE - MAX_UNREAD_COUNT)
    let isRead := fun i => MAX_UNREAD_COUNT ≤ i ∧ i < MAX_UNREAD_COUNT + data.length
    set { r with
      file := r.file.drop (BUFFER_SIZE - MAX_UNREAD_COUNT)
      buffer := fun i => if isRead i then data.getD (i - MAX_UNREAD_COUNT) 0 else r.buffer i
      isEof := fun i => if isRead i then false else r.isEof i
      bufferSize := MAX_UNREAD_COUNT + data.length
      bufferPos := MAX_UNREAD_COUNT }
    pure (decide (data.length > 0))
  else
    pure true

def increment : Reading UInt8 := do
  let r ← get
  set { r with bufferPos := r.bufferPos + 1 }
  pure (r.buffer r.bufferPos)

def curChar : Reading ℤ := do
  if ← refill then
    let r ← get
    pure (if r.isEof r.bufferPos then EOFC else int (r.buffer r.bufferPos))
  else
    pure EOFC

def nextChar : Reading ℤ := do
  if ← refill then
    let r ← get
    if r.isEof r.bufferPos then
      pure EOFC
    else
      let c ← increment
      pure (int c)
  else
    pure EOFC

def skipChar : Reading Unit := do
  let _ ← increment

def unreadChar (c : ℤ) : Reading Unit := do
  let r ← get
  if r.bufferPos = 0 then
    throw (.exit FAIL_EXIT_CODE)
  else
    set { r with
      bufferPos := r.bufferPos - 1
      isEof := Function.update r.isEof (r.bufferPos - 1) (decide (c = EOFC))
      buffer := Function.update r.buffer (r.bufferPos - 1) (char c) }

def eof : Reading Bool := do
  if ← refill then
    let c ← curChar
    pure (decide (EOFC = c))
  else
    pure true

/-! ## Bytes and integers -/

theorem int_ne_EOFC (c : UInt8) : int c ≠ EOFC := by
  have h := c.toNat_lt
  unfold int EOFC
  split <;> omega

@[simp] theorem char_int (c : UInt8) : char (int c) = c := by
  have h := c.toNat_lt
  have key : (int c % 256).toNat = c.toNat := by
    unfold int
    split <;> omega
  rw [char, key, UInt8.ofNat_toNat]

@[simp] theorem int_inj {c d : UInt8} : int c = int d ↔ c = d := by
  constructor
  · intro h
    rw [← char_int c, h, char_int]
  · intro h
    rw [h]

/-! ## What a call does on the bytes still to be read -/

/-- The call returns normally, and `Q` holds of its value and of the reader it leaves. -/
def Yields {α : Type} (m : Reading α) (r : Reader) (Q : α → Reader → Prop) : Prop :=
  ∃ a r', m r = .ok (a, r') ∧ Q a r'

section Yields

variable {α β : Type} {m : Reading α} {r : Reader} {Q Q' : α → Reader → Prop}

theorem Yields.pure {a : α} (h : Q a r) : Yields (Pure.pure a) r Q :=
  ⟨a, r, rfl, h⟩

theorem Yields.bind {f : α → Reading β} {P : β → Reader → Prop}
    (h : Yields m r fun a r' => Yields (f a) r' P) : Yields (m >>= f) r P := by
  obtain ⟨a, r', hm, b, r'', hf, hP⟩ := h
  refine ⟨b, r'', ?_, hP⟩
  show StateT.bind m f r = _
  simp only [StateT.bind, hm]
  exact hf

theorem Yields.get {P : Reader → Reader → Prop} (h : P r r) : Yields get r P :=
  ⟨r, r, rfl, h⟩

theorem Yields.set {r' : Reader} {P : PUnit → Reader → Prop} (h : P ⟨⟩ r') :
    Yields (set r') r P :=
  ⟨⟨⟩, r', rfl, h⟩

theorem Yields.mono (h : Yields m r Q) (hQ : ∀ a r', Q a r' → Q' a r') : Yields m r Q' := by
  obtain ⟨a, r', hm, ha⟩ := h
  exact ⟨a, r', hm, hQ a r' ha⟩

end Yields

/-- The reader stands in front of the bytes `b`, and at least `MAX_UNREAD_COUNT - k` characters can
be put back. -/
structure Holds (k : ℕ) (b : Bytes) (r : Reader) : Prop where
  le : r.bufferPos ≤ r.bufferSize
  pending : (List.range' r.bufferPos (r.bufferSize - r.bufferPos)).map r.buffer ++ r.file = b
  isEof : ∀ i, r.bufferPos ≤ i → i < r.bufferSize → r.isEof i = false
  room : MAX_UNREAD_COUNT ≤ r.bufferPos + k

theorem Reader.new_holds (b : Bytes) : Holds 0 b (Reader.new b) where
  le := le_rfl
  pending := by simp [Reader.new]
  isEof := fun _ _ _ => rfl
  room := by simp [Reader.new]

section Holds

variable {k k' : ℕ} {b : Bytes} {c : UInt8} {r : Reader}

theorem Holds.mono (h : Holds k b r) (hk : k ≤ k') : Holds k' b r :=
  ⟨h.le, h.pending, h.isEof, by have := h.room; omega⟩

theorem Holds.remaining (h : Holds k b r) : r.remaining = b.length := by
  rw [← h.pending, Reader.remaining]
  simp

/-- A reader whose buffer is not used up shows the next byte at its position. -/
theorem Holds.uncons (h : Holds k b r) (hlt : r.bufferPos < r.bufferSize) :
    b = r.buffer r.bufferPos ::
      ((List.range' (r.bufferPos + 1) (r.bufferSize - (r.bufferPos + 1))).map r.buffer ++ r.file)
      := by
  rw [← h.pending]
  have hn : r.bufferSize - r.bufferPos = (r.bufferSize - (r.bufferPos + 1)) + 1 := by omega
  rw [hn, List.range'_succ, List.map_cons, List.cons_append]

/-- What `refill` leaves: in front of a byte the buffer is not used up, and at the end of the file
every character of the margin can be put back. -/
theorem refill_yields (h : Holds k b r) :
    Yields refill r fun more r' => (more = !b.isEmpty) ∧ Holds k b r' ∧
      (b ≠ [] → r'.bufferPos < r'.bufferSize) ∧ (b = [] → r'.bufferPos = MAX_UNREAD_COUNT) := by
  refine Yields.bind (Yields.get ?_)
  by_cases hge : r.bufferPos ≥ r.bufferSize
  · have hfile : r.file = b := by
      rw [← h.pending, Nat.sub_eq_zero_of_le hge]
      rfl
    subst hfile
    rw [if_pos hge]
    -- a new buffer: the margin for characters put back, then as much of the file as fits
    set data := r.file.take (BUFFER_SIZE - MAX_UNREAD_COUNT) with hdata
    have hpos : 0 < data.length ↔ r.file ≠ [] := by
      have := MAX_UNREAD_COUNT_lt_BUFFER_SIZE
      rw [hdata, List.length_take, ← List.length_pos_iff]
      omega
    refine Yields.bind (Yields.set (Yields.pure ⟨?_, ⟨by simp, ?_, ?_, by simp⟩, ?_, fun _ => rfl⟩))
    · rw [Bool.eq_iff_iff]
      simpa using hpos
    · have hwin : (List.range' MAX_UNREAD_COUNT data.length).map
          (fun i => if MAX_UNREAD_COUNT ≤ i ∧ i < MAX_UNREAD_COUNT + data.length
            then data.getD (i - MAX_UNREAD_COUNT) 0 else r.buffer i) = data := by
        apply List.ext_getElem
        · simp
        · intro i hi hi'
          simp only [List.getElem_map, List.getElem_range', one_mul]
          rw [if_pos (by omega), Nat.add_sub_cancel_left]
          simp [hi']
      simp only [Nat.add_sub_cancel_left]
      rw [hwin, hdata, List.take_append_drop]
    · intro i hi hi'
      exact if_pos ⟨hi, hi'⟩
    · intro hne
      have := hpos.mpr hne
      show MAX_UNREAD_COUNT < MAX_UNREAD_COUNT + data.length
      omega
  · have hlt : r.bufferPos < r.bufferSize := by omega
    rw [if_neg hge]
    have hne : b ≠ [] := by simp [h.uncons hlt]
    exact Yields.pure ⟨by simp [hne], h, fun _ => hlt, fun h => absurd h hne⟩

/-- The `int` that stands for the next byte, `EOFC` at the end. -/
def firstChar : Bytes → ℤ
  | [] => EOFC
  | c :: _ => int c

@[simp] theorem firstChar_cons : firstChar (c :: b) = int c := rfl

@[simp] theorem firstChar_eq_EOFC : firstChar b = EOFC ↔ b = [] := by
  cases b with
  | nil => simp [firstChar]
  | cons c b => simp [int_ne_EOFC]

theorem curChar_yields (h : Holds k b r) :
    Yields curChar r fun c r' =>
      c = firstChar b ∧ Holds k b r' ∧ (b ≠ [] → r'.bufferPos < r'.bufferSize) := by
  refine Yields.bind ((refill_yields h).mono ?_)
  rintro more r' ⟨rfl, h', hlt, -⟩
  cases b with
  | nil => exact Yields.pure ⟨rfl, h', hlt⟩
  | cons c b =>
    have hlt' := hlt (by simp)
    obtain ⟨hc, -⟩ := List.cons.inj (h'.uncons hlt')
    refine Yields.bind (Yields.get (Yields.pure ⟨?_, h', hlt⟩))
    simp [h'.isEof _ le_rfl hlt', ← hc]

/-- Moving past the byte at the position. -/
theorem Holds.advance (h : Holds (k + 1) (c :: b) r) (hlt : r.bufferPos < r.bufferSize) :
    r.buffer r.bufferPos = c ∧ Holds k b { r with bufferPos := r.bufferPos + 1 } := by
  obtain ⟨hc, hb⟩ := List.cons.inj (h.uncons hlt)
  refine ⟨hc.symm, hlt, hb.symm, ?_, ?_⟩
  · intro i hi hi'
    exact h.isEof i (Nat.le_of_succ_le hi) hi'
  · have := h.room
    show MAX_UNREAD_COUNT ≤ r.bufferPos + 1 + k
    omega

theorem skipChar_yields (h : Holds (k + 1) (c :: b) r) (hlt : r.bufferPos < r.bufferSize) :
    Yields skipChar r fun _ r' => Holds k b r' :=
  ⟨(), _, rfl, (h.advance hlt).2⟩

theorem nextChar_yields (h : Holds (k + 1) b r) :
    Yields nextChar r fun c r' => c = firstChar b ∧ Holds k b.tail r' := by
  refine Yields.bind ((refill_yields h).mono ?_)
  rintro more r' ⟨rfl, h', hlt, hend⟩
  cases b with
  | nil =>
    refine Yields.pure ⟨rfl, h'.le, h'.pending, h'.isEof, ?_⟩
    have := hend rfl
    omega
  | cons c b =>
    have hlt' := hlt (by simp)
    obtain ⟨hc, hadv⟩ := h'.advance hlt'
    refine Yields.bind (Yields.get ?_)
    rw [h'.isEof _ le_rfl hlt']
    refine ⟨_, _, rfl, ?_, hadv⟩
    rw [hc, firstChar_cons]

theorem unreadChar_yields (h : Holds k b r) (hk : k < MAX_UNREAD_COUNT) :
    Yields (unreadChar (int c)) r fun _ r' => Holds (k + 1) (c :: b) r' := by
  have hroom := h.room
  have hle := h.le
  refine Yields.bind (Yields.get ?_)
  rw [if_neg (by omega)]
  refine Yields.set ⟨?_, ?_, ?_, ?_⟩
  · show r.bufferPos - 1 ≤ r.bufferSize
    omega
  · have hn : r.bufferSize - (r.bufferPos - 1) = (r.bufferSize - r.bufferPos) + 1 := by omega
    have hpos : r.bufferPos - 1 + 1 = r.bufferPos := by omega
    have hrest : (List.range' r.bufferPos (r.bufferSize - r.bufferPos)).map
        (Function.update r.buffer (r.bufferPos - 1) c)
          = (List.range' r.bufferPos (r.bufferSize - r.bufferPos)).map r.buffer := by
      apply List.map_congr_left
      intro i hi
      have := (List.mem_range'_1.mp hi).1
      exact Function.update_of_ne (by omega) _ _
    simp only [hn, List.range'_succ, hpos, List.map_cons, Function.update_self, char_int]
    rw [hrest, List.cons_append, h.pending]
  · intro i hi hi'
    by_cases hi0 : i = r.bufferPos - 1
    · rw [hi0]
      simp [int_ne_EOFC]
    · show Function.update r.isEof (r.bufferPos - 1) _ i = false
      rw [Function.update_of_ne hi0]
      exact h.isEof i (by simp only at hi; omega) hi'
  · show MAX_UNREAD_COUNT ≤ r.bufferPos - 1 + (k + 1)
    omega

theorem eof_yields (h : Holds k b r) :
    Yields eof r fun e r' => e = b.isEmpty ∧ Holds k b r' := by
  refine Yields.bind ((refill_yields h).mono ?_)
  rintro more r' ⟨rfl, h', -⟩
  cases b with
  | nil => exact Yields.pure ⟨rfl, h'⟩
  | cons c b =>
    refine Yields.bind ((curChar_yields h').mono ?_)
    rintro cur r'' ⟨rfl, h'', -⟩
    exact Yields.pure ⟨by simp [(int_ne_EOFC c).symm], h''⟩

end Holds

end Afterglow.Testlib
