import Afterglow.Testlib.Pattern

/-!
# Patterns as they are written

Reference: `support/testlib.h`, the comment in front of class `pattern`, and its constructor.

A `Regex` is an expression of the kind that the comment describes: sets of characters with a count, one
after the other, and alternatives, in parentheses unless they are the whole expression. A group can only be
the last part of a sequence; anywhere else the constructor takes the parenthesis for a character and fails
on the rest. `text` writes an expression down, with a backslash in front of every character that might mean
something, and `Language` says what it means.

Sets and counts are read back as they are written. The constructor looks for backslashes in front of every
character that it meets: `Stands` says what is ahead of it, with an even number of them behind, and `Quiet`
that there is no command in a text.
-/

namespace Afterglow.Testlib

namespace Pattern

/-! ## Expressions -/

/-- An item of a set. A null character cannot be written in one, nor start a range. -/
inductive Item
  | literal (c : UInt8) (h : c ≠ 0)
  | range (first last : UInt8) (h : first ≠ 0) (hle : int first ≤ int last)

/-- A set of characters. -/
inductive CharSet
  | literal (c : UInt8)
  | set (negative : Bool) (items : List Item)

/-- How often a set is repeated. The numbers fit into an `int`. -/
inductive Count
  | once
  | optional
  | star
  | plus
  | exactly (n : ℕ) (h : n ≤ INT_MAX)
  | between (least most : ℕ) (hle : least ≤ most) (h : most ≤ INT_MAX)

/-- An expression, and whether there are bars in it that are not in parentheses. -/
inductive Regex : Bool → Type
  | last (set : CharSet) (count : Count) : Regex false
  | next (set : CharSet) (count : Count) (r : Regex false) : Regex false
  | group {barred : Bool} (r : Regex barred) : Regex false
  | bar {barred : Bool} (r₁ : Regex false) (r₂ : Regex barred) : Regex true

/-! ### What they mean -/

def Item.Has : Item → UInt8 → Prop
  | .literal c _, d => d = c
  | .range first last _ _, d => int first ≤ int d ∧ int d ≤ int last

/-- A negative set never has the last of all characters. -/
def CharSet.Has : CharSet → UInt8 → Prop
  | .literal c, d => d = c
  | .set false items, d => ∃ item ∈ items, item.Has d
  | .set true items, d => d ≠ 255 ∧ ¬ ∃ item ∈ items, item.Has d

def Count.least : Count → ℕ
  | .once | .plus => 1
  | .optional | .star => 0
  | .exactly n _ => n
  | .between least _ _ _ => least

/-- There may be no upper bound. -/
def Count.most : Count → Option ℕ
  | .once | .optional => some 1
  | .star | .plus => none
  | .exactly n _ => some n
  | .between _ most _ _ => some most

/-- The repetitions of a set. -/
structure Repeated (set : CharSet) (count : Count) (w : Bytes) : Prop where
  chars : ∀ c ∈ w, set.Has c
  least : count.least ≤ w.length
  most : ∀ m ∈ count.most, w.length ≤ m

/-- The words of an expression. -/
def Regex.Language {barred : Bool} : Regex barred → Bytes → Prop
  | .last set count, w => Repeated set count w
  | .next set count r, w => ∃ u v, w = u ++ v ∧ Repeated set count u ∧ r.Language v
  | .group r, w => r.Language w
  | .bar r₁ r₂, w => r₁.Language w ∨ r₂.Language w

/-- No repetition can run into what follows it: its length is fixed, or what follows starts with another
character. -/
def Regex.Unambiguous {barred : Bool} : Regex barred → Prop
  | .last _ _ => True
  | .next set count r =>
    (count.most = some count.least ∨ ∀ c v, r.Language (c :: v) → ¬ set.Has c) ∧ r.Unambiguous
  | .group r => r.Unambiguous
  | .bar r₁ r₂ => r₁.Unambiguous ∧ r₂.Unambiguous

/-! ### How they are written -/

/-- The characters that a pattern may read as commands: space, `()*+,-?[\]^{|}`. -/
def special : Bytes := [32, 40, 41, 42, 43, 44, 45, 63, 91, 92, 93, 94, 123, 124, 125]

def escape (c : UInt8) : Bytes := if c ∈ special then [92, c] else [c]

def Item.text : Item → Bytes
  | .literal c _ => escape c
  | .range first last _ _ => escape first ++ 45 :: escape last

def CharSet.text : CharSet → Bytes
  | .literal c => escape c
  | .set negative items => 91 :: (if negative then [94] else []) ++ items.flatMap Item.text ++ [93]

def Count.text : Count → Bytes
  | .once => []
  | .optional => [63]
  | .star => [42]
  | .plus => [43]
  | .exactly n _ => 123 :: Decimal.ofNat n ++ [125]
  | .between least most _ _ => 123 :: Decimal.ofNat least ++ 44 :: Decimal.ofNat most ++ [125]

def Regex.text {barred : Bool} : Regex barred → Bytes
  | .last set count => set.text ++ count.text
  | .next set count r => set.text ++ count.text ++ r.text
  | .group r => 40 :: r.text ++ [41]
  | .bar r₁ r₂ => r₁.text ++ 124 :: r₂.text

/-! ### The patterns they stand for -/

def Item.bytes : Item → Bytes
  | .literal c _ => [c]
  | .range first last _ _ => charRange first last

def CharSet.bytes : CharSet → Bytes
  | .literal c => [c]
  | .set negative items =>
    if negative then ((List.range 255).map fun code : ℕ => char code).filter (· ∉ items.flatMap Item.bytes)
    else items.flatMap Item.bytes

/-- The upper bound as an `int`. -/
def Count.limit (count : Count) : ℤ := count.most.elim INT_MAX fun m => m

mutual

def Regex.pattern {barred : Bool} : Regex barred → Pattern
  | .last set count => .mk [] set.bytes count.least count.limit
  | .next set count r => .mk [r.pattern] set.bytes count.least count.limit
  | .group r => .mk [r.pattern] [] 0 0
  | .bar r₁ r₂ => .mk (r₁.pattern :: r₂.branches) [] 0 0

/-- The patterns between the bars. -/
def Regex.branches {barred : Bool} : Regex barred → List Pattern
  | .last set count => [.mk [] set.bytes count.least count.limit]
  | .next set count r => [.mk [r.pattern] set.bytes count.least count.limit]
  | .group r => [.mk [r.pattern] [] 0 0]
  | .bar r₁ r₂ => r₁.pattern :: r₂.branches

end

/-! ## Where the constructor stands in a text -/

/-- At `pos` there is `t` to be read, and no backslash in front of it escapes its first character. -/
def Stands (s : Bytes) (pos : ℕ) (t : Bytes) : Prop :=
  ∃ pre, s = pre ++ t ∧ pos = pre.length ∧ (pre.reverse.takeWhile (· = 92)).length % 2 = 0

namespace Stands

variable {s t : Bytes} {pos : ℕ}

theorem start (s : Bytes) : Stands s 0 s := ⟨[], rfl, rfl, rfl⟩

theorem length (h : Stands s pos t) : s.length = pos + t.length := by
  obtain ⟨pre, rfl, rfl, -⟩ := h
  exact List.length_append

theorem getElem? (h : Stands s pos t) : s[pos]? = t.head? := by
  obtain ⟨pre, rfl, rfl, -⟩ := h
  rw [List.getElem?_append_right le_rfl, Nat.sub_self, List.head?_eq_getElem?]

/-- A command is what it looks like. -/
theorem isCommandChar (h : Stands s pos t) (value : UInt8) :
    isCommandChar s pos value = decide (t.head? = some value) := by
  have hget := h.getElem?
  obtain ⟨pre, rfl, rfl, hslashes⟩ := h
  rw [Pattern.isCommandChar, hget, List.take_left]
  cases t <;> simp [hslashes]

/-- A character other than a backslash. -/
theorem cons {c : UInt8} (h : Stands s pos (c :: t)) (hc : c ≠ 92) :
    Stands s (pos + 1) t ∧ getChar s pos = (c, pos + 1) := by
  have hget := h.getElem?
  obtain ⟨pre, rfl, rfl, -⟩ := h
  refine ⟨⟨pre ++ [c], by simp, by simp, by simp [hc]⟩, ?_⟩
  rw [getChar, hget, List.head?_cons, if_neg (by simpa using hc)]
  simp

/-- An escaped character is read as itself, and none of its bytes is a command. -/
theorem escape {c : UInt8} (h : Stands s pos (escape c ++ t)) :
    Stands s (pos + (Pattern.escape c).length) t ∧ getChar s pos = (c, pos + (Pattern.escape c).length) ∧
      ∀ value ∈ special, value ≠ 92 → ∀ i, pos ≤ i → i < pos + (Pattern.escape c).length →
        Pattern.isCommandChar s i value = false := by
  unfold Pattern.escape at h ⊢
  by_cases hc : c ∈ special
  · rw [if_pos hc] at h ⊢
    have hcommand := h.isCommandChar
    have hget := h.getElem?
    obtain ⟨pre, rfl, rfl, hslashes⟩ := h
    refine ⟨⟨pre ++ [92, c], by simp, by simp, ?_⟩, ?_, ?_⟩
    · by_cases hslash : c = 92
      · subst hslash
        simp only [List.reverse_append, List.reverse_cons, List.reverse_nil, List.nil_append,
          List.cons_append, decide_true, List.takeWhile_cons_of_pos, List.length_cons]
        omega
      · simp [hslash]
    · rw [getChar, hget]
      simp
    · intro value hvalue hne i hle hlt
      obtain rfl | rfl : i = pre.length ∨ i = pre.length + 1 := by
        simp only [List.length_cons, List.length_nil] at hlt
        omega
      · rw [hcommand]
        simpa using Ne.symm hne
      · -- the backslash in front makes it odd
        have htake : (pre ++ ([92, c] ++ t)).take (pre.length + 1) = pre ++ [92] := by
          simp [List.take_append]
        have hodd : ((pre ++ [92]).reverse.takeWhile (· = 92)).length % 2 = 1 := by
          simp only [List.reverse_append, List.reverse_singleton, List.singleton_append, decide_true,
            List.takeWhile_cons_of_pos, List.length_cons]
          omega
        rw [Pattern.isCommandChar, htake, decide_eq_false_iff_not]
        rintro ⟨-, heven, -⟩
        omega
  · rw [if_neg hc] at h ⊢
    have hslash : c ≠ 92 := by
      rintro rfl
      exact hc (by decide)
    obtain ⟨hnext, hchar⟩ := h.cons hslash
    refine ⟨hnext, hchar, ?_⟩
    intro value hvalue hne i hle hlt
    obtain rfl : i = pos := by
      simp only [List.length_singleton] at hlt
      omega
    rw [h.isCommandChar]
    simp only [List.singleton_append, List.head?_cons, Option.some.injEq, decide_eq_false_iff_not]
    rintro rfl
    exact hc hvalue

end Stands

/-! ## Texts without commands -/

/-- Wherever `t` stands, none of its bytes is one of these commands. -/
def Quiet (values t : Bytes) : Prop :=
  ∀ s pos t', Stands s pos (t ++ t') → Stands s (pos + t.length) t' ∧
    ∀ value ∈ values, ∀ i, pos ≤ i → i < pos + t.length → isCommandChar s i value = false

section Quiet

variable {values t t' : Bytes}

theorem Quiet.nil : Quiet values [] := fun s pos t' h => ⟨h, fun value _ i hle hlt => by
  rw [List.length_nil] at hlt
  omega⟩

theorem Quiet.append (h : Quiet values t) (h' : Quiet values t') : Quiet values (t ++ t') := by
  intro s pos rest hat
  rw [List.append_assoc] at hat
  obtain ⟨hmid, hquiet⟩ := h s pos _ hat
  obtain ⟨hend, hquiet'⟩ := h' s _ rest hmid
  rw [List.length_append, ← Nat.add_assoc]
  refine ⟨hend, fun value hvalue i hle hlt => ?_⟩
  by_cases hi : i < pos + t.length
  · exact hquiet value hvalue i hle hi
  · exact hquiet' value hvalue i (by omega) hlt

theorem Quiet.mono {values' : Bytes} (h : Quiet values t) (hsub : ∀ value ∈ values', value ∈ values) :
    Quiet values' t := by
  intro s pos t' hat
  obtain ⟨hend, hquiet⟩ := h s pos t' hat
  exact ⟨hend, fun value hvalue => hquiet value (hsub value hvalue)⟩

theorem Quiet.flatMap {α : Type} {f : α → Bytes} {l : List α} (h : ∀ a, Quiet values (f a)) :
    Quiet values (l.flatMap f) := by
  induction l with
  | nil => exact .nil
  | cons a l ih => exact (h a).append ih

/-- A byte that is not among the commands. -/
theorem Quiet.byte {c : UInt8} (hslash : c ≠ 92) (hc : c ∉ values) : Quiet values [c] := by
  intro s pos t' hat
  refine ⟨(hat.cons hslash).1, fun value hvalue i hle hlt => ?_⟩
  obtain rfl : i = pos := by
    simp only [List.length_singleton] at hlt
    omega
  rw [hat.isCommandChar]
  simp only [List.singleton_append, List.head?_cons, Option.some.injEq, decide_eq_false_iff_not]
  rintro rfl
  exact hc hvalue

theorem Quiet.bytes (h : ∀ c ∈ t, c ≠ 92 ∧ c ∉ values) : Quiet values t := by
  induction t with
  | nil => exact .nil
  | cons c t ih =>
    obtain ⟨hslash, hc⟩ := h c List.mem_cons_self
    exact (Quiet.byte hslash hc).append (ih fun c' hc' => h c' (List.mem_cons_of_mem _ hc'))

/-- What is looked for outside of sets and counts: spaces, parentheses and bars. -/
def outer : Bytes := [32, 40, 41, 124]

theorem Quiet.escape (c : UInt8) : Quiet outer (escape c) := by
  intro s pos t' hat
  obtain ⟨hend, -, hquiet⟩ := hat.escape
  refine ⟨hend, fun value hvalue => ?_⟩
  have hspecial : value ∈ special ∧ value ≠ 92 := by
    simp only [outer, List.mem_cons, List.not_mem_nil, or_false] at hvalue
    rcases hvalue with rfl | rfl | rfl | rfl <;> decide
  exact hquiet value hspecial.1 hspecial.2

theorem Quiet.digits (n : ℕ) : Quiet outer (Decimal.ofNat n) := by
  refine .bytes fun c hc => ?_
  have hdigit := Decimal.isDigit_iff.mp (Decimal.isDigit_of_mem_ofNat hc)
  refine ⟨?_, fun hmem => ?_⟩
  · rintro rfl
    simp at hdigit
  · simp only [outer, List.mem_cons, List.not_mem_nil, or_false] at hmem
    rcases hmem with rfl | rfl | rfl | rfl <;> simp at hdigit

theorem Item.quiet (item : Item) : Quiet outer item.text := by
  cases item with
  | literal c _ => exact .escape c
  | range first last _ _ =>
    exact (Quiet.escape first).append (.append (t := [45]) (.bytes (by simp [outer])) (.escape last))

theorem CharSet.quiet (set : CharSet) : Quiet outer set.text := by
  cases set with
  | literal c => exact .escape c
  | set negative items =>
    have hopen : Quiet outer (91 :: if negative then [94] else []) := by
      cases negative with
      | false => exact .bytes (by simp [outer])
      | true => exact .append (t := [91]) (.bytes (by simp [outer])) (.bytes (t := [94]) (by simp [outer]))
    exact (hopen.append (.flatMap Item.quiet)).append (.bytes (by simp [outer]))

theorem Count.quiet (count : Count) : Quiet outer count.text := by
  have hopen : Quiet outer [123] := .bytes (by simp [outer])
  have hclose : Quiet outer [125] := .bytes (by simp [outer])
  cases count with
  | once => exact .nil
  | optional | star | plus => exact .bytes (by simp [Count.text, outer])
  | exactly n _ => exact (hopen.append (.digits n)).append hclose
  | between least most _ _ =>
    exact ((hopen.append (.digits least)).append (.append (t := [44]) (.bytes (by simp [outer]))
      (.digits most))).append hclose

/-- There is no space in an expression that is not escaped. -/
theorem Regex.quiet {barred : Bool} (r : Regex barred) : Quiet [32] r.text := by
  have hset : ∀ set : CharSet, Quiet [32] set.text := fun set => set.quiet.mono (by simp [outer])
  have hcount : ∀ count : Count, Quiet [32] count.text := fun count => count.quiet.mono (by simp [outer])
  induction r with
  | last set count => exact (hset set).append (hcount count)
  | next set count r ih => exact ((hset set).append (hcount count)).append ih
  | group r ih =>
    exact (Quiet.append (t := [40]) (.bytes (by simp)) ih).append (.bytes (by simp))
  | bar r₁ r₂ ih₁ ih₂ => exact ih₁.append (.append (t := [124]) (.bytes (by simp)) ih₂)

end Quiet

/-! ## Reading sets -/

section Sets

variable {s t result : Bytes} {pos n : ℕ} {prev c last : UInt8}

theorem escape_length_pos (c : UInt8) : 0 < (escape c).length := by
  unfold escape
  split <;> simp

/-- What is written for a character does not start with a command. -/
theorem Stands.escape_ne (h : Stands s pos (Pattern.escape c ++ t)) {value : UInt8} (hvalue : value ∈ special)
    (hslash : value ≠ 92) : Pattern.isCommandChar s pos value = false :=
  h.escape.2.2 value hvalue hslash pos le_rfl (Nat.lt_add_of_pos_right (escape_length_pos c))

/-- The characters of a set so far, with the one that might still start a range. -/
def flush (result : Bytes) (prev : UInt8) : Bytes := if prev ≠ 0 then result ++ [prev] else result

theorem scanSet_literal (h : Stands s pos (escape c ++ t)) :
    scanSet s (n + 1) result prev pos = scanSet s n (flush result prev) c (pos + (escape c).length) := by
  have hlt : pos < s.length := by
    have hpos := escape_length_pos c
    rw [h.length, List.length_append]
    omega
  rw [scanSet, h.escape_ne (by decide) (by decide), h.escape_ne (by decide) (by decide), h.escape.2.1,
    if_pos ⟨hlt, by simp⟩, if_neg (by simp)]
  rfl

theorem scanSet_range (h : Stands s pos (45 :: escape last ++ t)) (ht : t ≠ []) (hprev : prev ≠ 0)
    (hle : int prev ≤ int last) : scanSet s (n + 1) result prev pos =
      scanSet s n (result ++ charRange prev last) 0 (pos + 1 + (escape last).length) := by
  obtain ⟨hlast, -⟩ := h.cons (by decide)
  have hlength := h.length
  have hpos := escape_length_pos last
  have ht' := List.length_pos_iff.mpr ht
  rw [List.cons_append, List.length_cons, List.length_append] at hlength
  have hclose : Pattern.isCommandChar s pos 93 = false := by rw [h.isCommandChar]; simp
  have hdash : Pattern.isCommandChar s pos 45 = true := by rw [h.isCommandChar]; simp
  rw [scanSet, if_pos ⟨by omega, by simp [hclose]⟩, if_pos ⟨hdash, hprev⟩,
    if_neg (by rw [hlast.escape_ne (by decide) (by decide)]; simp; omega), hlast.escape.2.1]
  simp only [if_neg (not_lt.mpr hle)]

/-- The items are read one after the other. -/
theorem scanSet_items (items : List Item) (h : Stands s pos (items.flatMap Item.text ++ 93 :: t))
    (hn : (items.flatMap Item.text).length < n) :
    ∃ result' prev', scanSet s n result prev pos =
        some (result', prev', pos + (items.flatMap Item.text).length) ∧
      flush result' prev' = flush result prev ++ items.flatMap Item.bytes := by
  induction items generalizing result prev pos n with
  | nil =>
    obtain ⟨n, rfl⟩ := Nat.exists_eq_succ_of_ne_zero (by omega : n ≠ 0)
    have hclose : Pattern.isCommandChar s pos 93 = true := by rw [h.isCommandChar]; simp
    exact ⟨result, prev, by rw [scanSet, if_neg (by simp [hclose])]; rfl, by simp⟩
  | cons item items ih =>
    rw [List.flatMap_cons, List.append_assoc] at h
    rw [List.flatMap_cons, List.length_append] at hn
    cases item with
    | literal c hc =>
      have hlength : (Item.literal c hc).text.length = (escape c).length := rfl
      have hpos := escape_length_pos c
      obtain ⟨n, rfl⟩ := Nat.exists_eq_succ_of_ne_zero (by omega : n ≠ 0)
      obtain ⟨result', prev', hscan, hflush⟩ := @ih (flush result prev) _ n c h.escape.1 (by omega)
      refine ⟨result', prev', ?_, ?_⟩
      · rw [scanSet_literal h, hscan, List.flatMap_cons, List.length_append, ← Nat.add_assoc]
        rfl
      · rw [hflush, List.flatMap_cons, flush, if_pos hc, List.append_assoc]
        rfl
    | range first last hfirst hle =>
      have hlength : (Item.range first last hfirst hle).text.length =
          (escape first).length + (1 + (escape last).length) := by
        simp [Item.text]
        omega
      have hpos := escape_length_pos first
      -- two rounds: the first bound, then the dash with the last
      obtain ⟨n, rfl⟩ := Nat.exists_eq_add_of_le (by omega : 2 ≤ n)
      have hat : Stands s pos
          (escape first ++ (45 :: escape last ++ (items.flatMap Item.text ++ 93 :: t))) := by
        simpa only [Item.text, List.append_assoc] using h
      have hdash := hat.escape.1
      have hrest := ((hdash.cons (by decide)).1).escape.1
      obtain ⟨result', prev', hscan, hflush⟩ :=
        @ih (flush result prev ++ charRange first last) _ n 0 hrest (by omega)
      refine ⟨result', prev', ?_, ?_⟩
      · rw [show 2 + n = n + 1 + 1 by omega, scanSet_literal hat, scanSet_range hdash (by simp) hfirst hle,
          hscan, List.flatMap_cons, List.length_append, hlength]
        congr 3
        omega
      · rw [hflush, List.flatMap_cons, ← List.append_assoc]
        rfl

/-- A set is read as it is written. -/
theorem scanCharSet_text (set : CharSet) (h : Stands s pos (set.text ++ t)) :
    scanCharSet s pos = some (set.bytes, pos + set.text.length) := by
  have hlength := h.length
  cases set with
  | literal c =>
    have hpos := escape_length_pos c
    rw [List.length_append, show (CharSet.literal c).text.length = (escape c).length from rfl] at hlength
    rw [scanCharSet, if_neg (by omega), h.escape_ne (by decide) (by decide), if_neg (by simp), h.escape.2.1]
    rfl
  | set negative items =>
    have hat : Stands s pos
        (91 :: ((if negative then [94] else []) ++ (items.flatMap Item.text ++ 93 :: t))) := by
      simpa [CharSet.text] using h
    obtain ⟨hinside, -⟩ := hat.cons (by decide)
    have hopen : Pattern.isCommandChar s pos 91 = true := by rw [hat.isCommandChar]; simp
    have hnegative : Pattern.isCommandChar s (pos + 1) 94 = negative ∧
        Stands s (if negative then pos + 2 else pos + 1) (items.flatMap Item.text ++ 93 :: t) := by
      cases negative with
      | true => exact ⟨by rw [hinside.isCommandChar]; simp, (hinside.cons (by decide)).1⟩
      | false =>
        -- a hat in front of the first item would be escaped
        refine ⟨?_, hinside⟩
        cases items with
        | nil => rw [hinside.isCommandChar]; simp
        | cons item items =>
          cases item with
          | literal c hc =>
            exact Stands.escape_ne (t := items.flatMap Item.text ++ 93 :: t)
              (by simpa [Item.text] using hinside) (by decide) (by decide)
          | range first last _ _ =>
            exact Stands.escape_ne (t := 45 :: escape last ++ (items.flatMap Item.text ++ 93 :: t))
              (by simpa [Item.text] using hinside) (by decide) (by decide)
    obtain ⟨hnegative, hitems⟩ := hnegative
    have hfuel : (items.flatMap Item.text).length < s.length + 1 := by
      have := hitems.length
      rw [List.length_append] at this
      omega
    obtain ⟨result, prev, hscan, hflush⟩ := @scanSet_items s t [] _ _ 0 items hitems hfuel
    have hclose : Pattern.isCommandChar s ((if negative then pos + 2 else pos + 1) +
        (items.flatMap Item.text).length) 93 = true := by
      have hend : Stands s _ (93 :: t) := (Quiet.flatMap Item.quiet s _ _ hitems).1
      rw [hend.isCommandChar]
      simp
    rw [scanCharSet, if_neg (by rw [hat.length]; simp), if_pos hopen, hnegative]
    simp only [hscan, hclose, not_true_eq_false, if_false]
    rw [show (if prev ≠ 0 then result ++ [prev] else result) = items.flatMap Item.bytes from hflush]
    cases negative with
    | true =>
      simp [CharSet.bytes, CharSet.text]
      omega
    | false =>
      simp [CharSet.bytes, CharSet.text]
      omega

end Sets

/-! ## Reading counts -/

section Counts

variable {s t part : Bytes} {parts : List Bytes} {pos : ℕ}

theorem scanD_ofNat {n : ℕ} (h : n ≤ INT_MAX) : scanD (Decimal.ofNat n) = some (n : ℤ) := by
  have hmax : INT_MAX = 2147483647 := rfl
  rw [scanD, scanInt_digits (Decimal.ofNat_ne_nil n) fun c => Decimal.isDigit_of_mem_ofNat,
    Decimal.value_ofNat, Option.map_some, min_eq_right (by omega), max_eq_right (by omega),
    Int.bmod_eq_of_le_mul_two (by omega) (by omega)]

theorem scanParts_digits {ds : Bytes} (hdigit : ∀ c ∈ ds, Decimal.isDigit c = true)
    (h : Stands s pos (ds ++ t)) (n : ℕ) : scanParts s (n + ds.length) parts part pos =
        scanParts s n parts (part ++ ds) (pos + ds.length) ∧ Stands s (pos + ds.length) t := by
  induction ds generalizing part pos with
  | nil => simpa using h
  | cons c ds ih =>
    have hc := Decimal.isDigit_iff.mp (hdigit c List.mem_cons_self)
    have hne : ∀ value : UInt8, value ∈ ([92, 125, 44] : Bytes) → c ≠ value := by
      rintro value hvalue rfl
      simp only [List.mem_cons, List.not_mem_nil, or_false] at hvalue
      rcases hvalue with rfl | rfl | rfl <;> simp at hc
    have hclose : isCommandChar s pos 125 = false := by rw [h.isCommandChar]; simpa using hne 125 (by simp)
    have hcomma : isCommandChar s pos 44 = false := by rw [h.isCommandChar]; simpa using hne 44 (by simp)
    obtain ⟨hnext, hchar⟩ := h.cons (hne 92 (by simp))
    obtain ⟨hrest, hat⟩ :=
      @ih (part ++ [c]) (pos + 1) (fun c' hc' => hdigit c' (List.mem_cons_of_mem _ hc')) hnext
    have hlt : pos < s.length := by
      rw [h.length, List.cons_append, List.length_cons]
      omega
    rw [List.length_cons, show pos + (ds.length + 1) = pos + 1 + ds.length by omega]
    refine ⟨?_, hat⟩
    rw [← Nat.add_assoc, scanParts, if_pos ⟨hlt, by simp [hclose]⟩, if_neg (by simp [hcomma]), hchar, hrest,
      List.append_assoc]
    rfl

theorem scanParts_comma (h : Stands s pos (44 :: t)) (n : ℕ) :
    scanParts s (n + 1) parts part pos = scanParts s n (parts ++ [part]) [] (pos + 1) := by
  have hlt : pos < s.length := by
    rw [h.length, List.length_cons]
    omega
  rw [scanParts, h.isCommandChar, h.isCommandChar, if_pos ⟨hlt, by simp⟩, if_pos (by simp)]

theorem scanParts_close (h : Stands s pos (125 :: t)) (n : ℕ) :
    scanParts s n parts part pos = (parts, part, pos) := by
  cases n with
  | zero => rfl
  | succ n => rw [scanParts, h.isCommandChar, if_neg (by simp)]

/-- Numbers in braces, once the braces have been read. -/
theorem scanCounts_braces {u : Bytes} {pos' : ℕ} {least most : ℤ} (h : Stands s pos (123 :: u))
    (hparts : scanParts s s.length [] [] (pos + 1) = (parts, part, pos')) (hend : Stands s pos' (125 :: t))
    (hpart : part ≠ []) (hnil : [] ∉ parts)
    (hnumbers : (parts ++ [part]).mapM scanD = some [least] ∧ most = least ∨
      (parts ++ [part]).mapM scanD = some [least, most] ∧ least ≤ most) :
    scanCounts s pos = some (least, most, pos' + 1) := by
  have hopen : isCommandChar s pos 123 = true := by rw [h.isCommandChar]; simp
  have hclose : isCommandChar s pos' 125 = true := by rw [hend.isCommandChar]; simp
  have hnil' : [] ∉ parts ++ [part] := by simpa [hnil] using hpart.symm
  unfold scanCounts
  rw [if_neg (by rw [h.length]; simp), if_pos hopen, hparts]
  simp only [if_pos hpart, hclose, not_true_eq_false, if_false, if_neg hnil']
  rcases hnumbers with ⟨hone, rfl⟩ | ⟨htwo, hle⟩
  · simp only [hone]
  · simp only [htwo, if_neg (not_lt.mpr hle)]

/-- A count is read as it is written, whatever follows that is not a count. -/
theorem scanCounts_text (count : Count) (h : Stands s pos (count.text ++ t))
    (ht : ∀ value ∈ ([123, 63, 42, 43] : Bytes), t.head? ≠ some value) :
    scanCounts s pos = some ((count.least : ℤ), count.limit, pos + count.text.length) := by
  have hcommand := h.isCommandChar
  have hlength := h.length
  cases count with
  -- nothing is written, so what follows must not be a count
  | once =>
    simp only [List.mem_cons, List.not_mem_nil, or_false, forall_eq_or_imp, forall_eq] at ht
    obtain ⟨hbrace, hoptional, hstar, hplus⟩ := ht
    rw [Count.text, List.nil_append] at hcommand
    unfold scanCounts
    simp only [hcommand, hbrace, hoptional, hstar, hplus, decide_false, Bool.false_eq_true, if_false]
    split <;> rfl
  | optional | star | plus =>
    rw [List.length_append] at hlength
    rw [Count.text, List.singleton_append] at hcommand
    unfold scanCounts
    rw [if_neg (by simp [Count.text] at hlength; omega)]
    simp only [hcommand, List.head?_cons]
    rfl
  | exactly n hn =>
    have hat : Stands s pos (123 :: (Decimal.ofNat n ++ 125 :: t)) := by simpa [Count.text] using h
    obtain ⟨hdigits, -⟩ := hat.cons (by decide)
    obtain ⟨k, hk⟩ : ∃ k, s.length = k + (Decimal.ofNat n).length := Nat.exists_eq_add_of_le' (by
      rw [hdigits.length, List.length_append]
      omega)
    obtain ⟨hread, hend⟩ := scanParts_digits (fun c => Decimal.isDigit_of_mem_ofNat) hdigits k
    have hparts : scanParts s s.length [] [] (pos + 1) =
        ([], Decimal.ofNat n, pos + 1 + (Decimal.ofNat n).length) := by
      rw [hk, hread, scanParts_close hend]
      rfl
    have hnumber : ([] ++ [Decimal.ofNat n]).mapM scanD = some [(n : ℤ)] := by simp [scanD_ofNat hn]
    rw [scanCounts_braces hat hparts hend (Decimal.ofNat_ne_nil n) (by simp) (.inl ⟨hnumber, rfl⟩)]
    simp [Count.text, Count.least, Count.limit, Count.most]
    omega
  | between least most hle hn =>
    have hat : Stands s pos (123 :: (Decimal.ofNat least ++ 44 :: (Decimal.ofNat most ++ 125 :: t))) := by
      simpa [Count.text] using h
    obtain ⟨hdigits, -⟩ := hat.cons (by decide)
    -- rounds for both numbers and the comma
    obtain ⟨k, hk⟩ : ∃ k, s.length = k + (Decimal.ofNat most).length + 1 + (Decimal.ofNat least).length :=
      ⟨s.length - ((Decimal.ofNat most).length + 1 + (Decimal.ofNat least).length), by
        have := hdigits.length
        simp only [List.length_append, List.length_cons] at this
        omega⟩
    obtain ⟨hread, hcomma⟩ := scanParts_digits (fun c => Decimal.isDigit_of_mem_ofNat) hdigits
      (k + (Decimal.ofNat most).length + 1)
    obtain ⟨hdigits', -⟩ := hcomma.cons (by decide)
    obtain ⟨hread', hend⟩ := scanParts_digits (fun c => Decimal.isDigit_of_mem_ofNat) hdigits' k
    have hparts : scanParts s s.length [] [] (pos + 1) = ([Decimal.ofNat least], Decimal.ofNat most,
        pos + 1 + (Decimal.ofNat least).length + 1 + (Decimal.ofNat most).length) := by
      rw [hk, hread, scanParts_comma hcomma, hread', scanParts_close hend]
      rfl
    have hleast : scanD (Decimal.ofNat least) = some (least : ℤ) := scanD_ofNat (by omega)
    have hnumbers : ([Decimal.ofNat least] ++ [Decimal.ofNat most]).mapM scanD =
        some [(least : ℤ), (most : ℤ)] := by
      simp [hleast, scanD_ofNat hn]
    rw [scanCounts_braces hat hparts hend (Decimal.ofNat_ne_nil most)
      (by simpa using (Decimal.ofNat_ne_nil least).symm) (.inr ⟨hnumbers, by omega⟩)]
    simp [Count.text, Count.least, Count.limit, Count.most]
    omega

end Counts

end Pattern

end Afterglow.Testlib
