import Afterglow.Testlib.Number

/-!
# The patterns of testlib

Reference: `support/testlib.h`, class `pattern`, without the generation of random strings.

A pattern is a tree: each node repeats a set of characters and goes on with one of its children.
`matches` repeats greedily and never takes a character back, so it accepts words of the language of the
pattern only, but not all of them. It accepts all of them where no repetition can run into what follows
it.

Lengths and positions are natural numbers here. The source counts some of them in an `int`, which makes no
difference for texts of up to `INT_MAX` bytes.
-/

namespace Afterglow.Testlib

/-- `INT_MAX`. -/
def INT_MAX : ℤ := 2147483647

/-- The members of `pattern`; `least` and `most` are its `from` and `to`. -/
inductive Pattern
  | mk (children : List Pattern) (chars : Bytes) (least most : ℤ)

namespace Pattern

/-! ## Matching -/

/-- `__pattern_greedyMatch`, on the text from the position on. The characters are sorted, so the binary
search finds a member. -/
def greedyMatch (s : Bytes) (chars : Bytes) : ℕ := (s.takeWhile (· ∈ chars)).length

/-- The text behind the repetition of a node. -/
def rest (chars : Bytes) (least most : ℤ) (s : Bytes) : Option Bytes :=
  if most > 0 then
    let size := greedyMatch s chars
    if size < least then none
    else some (s.drop (if size > most then most.toNat else size))
  else some s

mutual

/-- `matches`, on the text from the position on. -/
def «matches» : Pattern → Bytes → Bool
  | .mk children chars least most, s =>
    match rest chars least most s with
    | none => false
    | some s => if children.length > 0 then matchesAny children s else s.isEmpty

/-- The loop over the children. -/
def matchesAny : List Pattern → Bytes → Bool
  | [], _ => false
  | child :: children, s => if «matches» child s then true else matchesAny children s

end

/-! ## Reading a pattern -/

/-- `__pattern_isCommandChar`. -/
def isCommandChar (s : Bytes) (pos : ℕ) (value : UInt8) : Bool :=
  let slashes := ((s.take pos).reverse.takeWhile (· = 92)).length
  pos < s.length ∧ slashes % 2 = 0 ∧ s[pos]? = some value

/-- `__pattern_getChar`: the character and the position behind it. -/
def getChar (s : Bytes) (pos : ℕ) : UInt8 × ℕ :=
  let pos := if s[pos]? = some 92 then pos + 2 else pos + 1
  (s.getD (pos - 1) 0, pos)

/-- The `%d` of `sscanf`: the value is read as a `long`, where it saturates, and stored in an `int`. -/
def scanD (str : Bytes) : Option ℤ :=
  (scanInt str).map fun value => Int.bmod (max (-2 ^ 63) (min (2 ^ 63 - 1) value)) (2 ^ 32)

/-- The loop of `__pattern_scanCounts` between the braces, for at most `n` rounds. -/
def scanParts (s : Bytes) : ℕ → List Bytes → Bytes → ℕ → List Bytes × Bytes × ℕ
  | 0, parts, part, pos => (parts, part, pos)
  | n + 1, parts, part, pos =>
    if pos < s.length ∧ ¬ isCommandChar s pos 125 then
      if isCommandChar s pos 44 then scanParts s n (parts ++ [part]) [] (pos + 1)
      else scanParts s n parts (part ++ [(getChar s pos).1]) (getChar s pos).2
    else (parts, part, pos)

/-- `__pattern_scanCounts`: both counts and the position behind them. -/
def scanCounts (s : Bytes) (pos : ℕ) : Option (ℤ × ℤ × ℕ) :=
  if pos ≥ s.length then some (1, 1, pos)
  else if isCommandChar s pos 123 then
    let (parts, part, pos) := scanParts s s.length [] [] (pos + 1)
    let parts := if part ≠ [] then parts ++ [part] else parts
    if ¬ isCommandChar s pos 125 then none
    else if [] ∈ parts then none
    else
      match parts.mapM scanD with
      | some [number] => some (number, number, pos + 1)
      | some [least, most] => if least > most then none else some (least, most, pos + 1)
      | _ => none
  else if isCommandChar s pos 63 then some (0, 1, pos + 1)
  else if isCommandChar s pos 42 then some (0, INT_MAX, pos + 1)
  else if isCommandChar s pos 43 then some (1, INT_MAX, pos + 1)
  else some (1, 1, pos)

/-- The characters from `prev` to `next`. -/
def charRange (prev next : UInt8) : Bytes :=
  (List.range (int next - int prev + 1).toNat).map fun i : ℕ => char (int prev + i)

/-- The loop of `__pattern_scanCharSet` inside the brackets, for at most `n` rounds. -/
def scanSet (s : Bytes) : ℕ → Bytes → UInt8 → ℕ → Option (Bytes × UInt8 × ℕ)
  | 0, _, _, _ => none
  | n + 1, result, prev, pos =>
    if pos < s.length ∧ ¬ isCommandChar s pos 93 then
      if isCommandChar s pos 45 ∧ prev ≠ 0 then
        if pos + 2 = s.length ∨ isCommandChar s (pos + 1) 93 then scanSet s n (result ++ [prev]) 45 (pos + 1)
        else
          let (next, pos) := getChar s (pos + 1)
          if int prev > int next then none else scanSet s n (result ++ charRange prev next) 0 pos
      else
        let (next, pos) := getChar s pos
        scanSet s n (if prev ≠ 0 then result ++ [prev] else result) next pos
    else some (result, prev, pos)

/-- `__pattern_scanCharSet`: the characters and the position behind the set. -/
def scanCharSet (s : Bytes) (pos : ℕ) : Option (Bytes × ℕ) :=
  if pos ≥ s.length then none
  else if isCommandChar s pos 91 then
    let negative := isCommandChar s (pos + 1) 94
    match scanSet s (s.length + 1) [] 0 (if negative then pos + 2 else pos + 1) with
    | none => none
    | some (result, prev, pos) =>
      let result := if prev ≠ 0 then result ++ [prev] else result
      if ¬ isCommandChar s pos 93 then none
      else
        let all := (List.range 255).map fun code : ℕ => char code
        some (if negative then all.filter (· ∉ result) else result, pos + 1)
  else some ([(getChar s pos).1], (getChar s pos).2)

/-- What the constructor knows of the parentheses and bars up to a position. -/
structure Groups where
  opened : ℤ := 0
  firstClose : Option ℕ := none
  seps : List ℕ := []

/-- One round of the loop of the constructor over the characters. -/
def scanGroup (s : Bytes) (g : Groups) (i : ℕ) : Option Groups :=
  if isCommandChar s i 40 then some { g with opened := g.opened + 1 }
  else if isCommandChar s i 41 then
    some { g with
      opened := g.opened - 1
      firstClose := if g.opened - 1 = 0 ∧ g.firstClose = none then some i else g.firstClose }
  else if g.opened < 0 then none
  else if isCommandChar s i 124 ∧ g.opened = 0 then some { g with seps := g.seps ++ [i] }
  else some g

/-- The parts of `s` between the positions `seps`, from `last` on. -/
def alternatives (s : Bytes) : ℕ → List ℕ → List Bytes
  | _, [] => []
  | last, sep :: seps => (s.drop last).take (sep - last) :: alternatives s (sep + 1) seps

/-- The constructor; `none` where it fails. The children are built from shorter strings, so `n` need only
exceed the length. -/
def construct : ℕ → Bytes → Option Pattern
  | 0, _ => none
  | n + 1, s => do
    let s := ((List.range s.length).filter fun i => ¬ isCommandChar s i 32).map fun i => s.getD i 0
    let g ← (List.range s.length).foldlM (scanGroup s) {}
    if g.opened ≠ 0 then
      none
    else if g.seps = [] ∧ g.firstClose.map (· + 1) = some s.length ∧ isCommandChar s 0 40
        ∧ isCommandChar s (s.length - 1) 41 then
      let child ← construct n ((s.drop 1).take (s.length - 2))
      some (.mk [child] [] 0 0)
    else if g.seps ≠ [] then
      let children ← (alternatives s 0 (g.seps ++ [s.length])).mapM (construct n)
      some (.mk children [] 0 0)
    else
      let (chars, pos) ← scanCharSet s 0
      let (least, most, pos) ← scanCounts s pos
      if pos < s.length then
        let child ← construct n (s.drop pos)
        some (.mk [child] chars least most)
      else
        some (.mk [] chars least most)

/-- `pattern(s)`. -/
def new (s : Bytes) : Option Pattern := construct (s.length + 1) s

/-! ## The language of a pattern -/

/-- The words that a node repeats. -/
structure Repeats (chars : Bytes) (least most : ℤ) (w : Bytes) : Prop where
  chars : ∀ c ∈ w, c ∈ chars
  least : 0 < most → least ≤ w.length
  most : w.length ≤ most.toNat

/-- The words of a pattern, as a regular expression. -/
inductive Denotes : Pattern → Bytes → Prop
  | last {chars : Bytes} {least most : ℤ} {w : Bytes} (hw : Repeats chars least most w) :
      Denotes (.mk [] chars least most) w
  | next {children : List Pattern} {child : Pattern} {chars : Bytes} {least most : ℤ} {w v : Bytes}
      (hw : Repeats chars least most w) (hchild : child ∈ children) (h : Denotes child v) :
      Denotes (.mk children chars least most) (w ++ v)

/-- The counts of every node are in order. -/
inductive Proper : Pattern → Prop
  | mk {children : List Pattern} {chars : Bytes} {least most : ℤ} (hle : least ≤ most)
      (h : ∀ child ∈ children, Proper child) : Proper (.mk children chars least most)

/-- No repetition runs into what follows it: it has a fixed length, or what follows starts with another
character. -/
inductive Deterministic : Pattern → Prop
  | mk {children : List Pattern} {chars : Bytes} {least most : ℤ}
      (hnext : least = most ∨ ∀ child ∈ children, ∀ c v, Denotes child (c :: v) → c ∉ chars)
      (h : ∀ child ∈ children, Deterministic child) : Deterministic (.mk children chars least most)

theorem matchesAny_iff {children : List Pattern} {s : Bytes} :
    matchesAny children s = true ↔ ∃ child ∈ children, «matches» child s = true := by
  induction children with
  | nil => simp [matchesAny]
  | cons child children ih =>
    rw [matchesAny]
    by_cases hchild : «matches» child s = true
    · simp [hchild]
    · simp [hchild, ih]

theorem matches_iff_rest {children : List Pattern} {chars : Bytes} {least most : ℤ} {s : Bytes} :
    «matches» (.mk children chars least most) s = true ↔ ∃ s', rest chars least most s = some s' ∧
      (children = [] ∧ s' = [] ∨ ∃ child ∈ children, «matches» child s' = true) := by
  rw [«matches»]
  cases hrest : rest chars least most s with
  | none => simp
  | some s' =>
    cases children with
    | nil => simp
    | cons child children =>
      simp only [List.length_cons, show children.length + 1 > 0 by omega, if_true, matchesAny_iff]
      simp

section Rest

variable {chars : Bytes} {least most : ℤ} {s s' w v : Bytes}

/-- The characters that are repeated, in front of the rest. -/
theorem append_drop_greedyMatch (s chars : Bytes) :
    s.takeWhile (· ∈ chars) ++ s.drop (greedyMatch s chars) = s :=
  List.prefix_iff_eq_append.mp (List.takeWhile_prefix _)

/-- What a node takes is a repetition. -/
theorem repeats_of_rest (hle : least ≤ most) (h : rest chars least most s = some s') :
    ∃ w, s = w ++ s' ∧ Repeats chars least most w := by
  unfold rest at h
  by_cases hmost : most > 0
  · rw [if_pos hmost] at h
    dsimp only at h
    split_ifs at h with hleast hsize
    · -- cut off at `most`
      obtain rfl := Option.some.inj h
      have hlength : most.toNat ≤ (s.takeWhile (· ∈ chars)).length := by
        unfold greedyMatch at hsize
        omega
      have htake : (s.take most.toNat).length = most.toNat := by
        have := (List.takeWhile_prefix (l := s) (· ∈ chars)).length_le
        rw [List.length_take]
        omega
      refine ⟨s.take most.toNat, (List.take_append_drop _ _).symm, ?_, by omega, by omega⟩
      intro c hc
      have hpre : s.take most.toNat <+: s.takeWhile (· ∈ chars) :=
        List.prefix_of_prefix_length_le (List.take_prefix _ _) (List.takeWhile_prefix _) (by omega)
      simpa using List.mem_takeWhile_imp (hpre.mem hc)
    · obtain rfl := Option.some.inj h
      unfold greedyMatch at hleast hsize
      refine ⟨s.takeWhile (· ∈ chars), (append_drop_greedyMatch s chars).symm, ?_, by omega, by omega⟩
      intro c hc
      simpa using List.mem_takeWhile_imp hc
  · rw [if_neg hmost] at h
    obtain rfl := Option.some.inj h
    exact ⟨[], rfl, by simp, fun h => absurd h hmost, by simp⟩

/-- A repetition that cannot run into the rest is what the node takes. -/
theorem rest_append (hw : Repeats chars least most w) (hnext : least = most ∨ ∀ c v', v = c :: v' → c ∉ chars) :
    rest chars least most (w ++ v) = some v := by
  have hlength := hw.most
  unfold rest
  by_cases hmost : most > 0
  · have hleast := hw.least hmost
    have hsize : w.length ≤ greedyMatch (w ++ v) chars := by
      rw [greedyMatch, List.takeWhile_append_of_pos (by simpa using hw.chars), List.length_append]
      omega
    rw [if_pos hmost]
    dsimp only
    rw [if_neg (by omega), Option.some.injEq]
    have hdrop : (if (greedyMatch (w ++ v) chars : ℤ) > most then most.toNat else greedyMatch (w ++ v) chars)
        = w.length := by
      rcases hnext with heq | hnext
      · split_ifs <;> omega
      · have hexact : greedyMatch (w ++ v) chars = w.length := by
          rw [greedyMatch, List.takeWhile_append_of_pos (by simpa using hw.chars), List.length_append]
          cases v with
          | nil => simp
          | cons c v =>
            rw [List.takeWhile_cons_of_neg (by simpa using hnext c v rfl)]
            rfl
        rw [hexact, if_neg (by omega)]
    rw [hdrop, List.drop_left]
  · have hnil : w = [] := List.length_eq_zero_iff.mp (by omega)
    rw [if_neg hmost, hnil]
    rfl

end Rest

/-- A pattern only matches words of its language. -/
theorem denotes_of_matches (p : Pattern) (hp : Proper p) {s : Bytes} (h : «matches» p s = true) :
    Denotes p s := by
  match p, hp with
  | .mk children chars least most, .mk hle hchildren =>
    obtain ⟨s', hrest, hnext⟩ := matches_iff_rest.mp h
    obtain ⟨w, rfl, hw⟩ := repeats_of_rest hle hrest
    rcases hnext with ⟨rfl, rfl⟩ | ⟨child, hchild, hmatch⟩
    · rw [List.append_nil]
      exact .last hw
    · exact .next hw hchild (denotes_of_matches child (hchildren child hchild) hmatch)
termination_by sizeOf p
decreasing_by
  have := List.sizeOf_lt_of_mem hchild
  simp only [Pattern.mk.sizeOf_spec]
  omega

/-- Where no repetition runs into what follows it, a pattern matches all words of its language. -/
theorem matches_of_denotes {p : Pattern} {s : Bytes} (h : Denotes p s) (hp : Deterministic p) :
    «matches» p s = true := by
  induction h with
  | @last chars least most w hw =>
    refine matches_iff_rest.mpr ⟨[], ?_, .inl ⟨rfl, rfl⟩⟩
    have hrest := rest_append (v := []) hw (.inr fun c v' h => by simp at h)
    rwa [List.append_nil] at hrest
  | @next children child chars least most w v hw hchild hv ih =>
    cases hp with
    | mk hnext hchildren =>
      refine matches_iff_rest.mpr ⟨v, rest_append hw (hnext.imp_right ?_), .inr ⟨child, hchild, ?_⟩⟩
      · rintro h c v' rfl
        exact h child hchild c v' hv
      · exact ih (hchildren child hchild)

/-! ## What the constructor builds -/

/-- The counts that are read are in order. -/
theorem scanCounts_le {s : Bytes} {pos pos' : ℕ} {least most : ℤ}
    (h : scanCounts s pos = some (least, most, pos')) : least ≤ most := by
  unfold scanCounts at h
  dsimp only at h
  split_ifs at h <;> try (split at h <;> try split_ifs at h)
  all_goals simp only [Option.some.injEq, Prod.mk.injEq, reduceCtorEq] at h
  all_goals
    obtain ⟨rfl, rfl, -⟩ := h
    first | omega | decide

theorem forall_of_mapM {α β : Type} {f : α → Option β} {P : β → Prop} (hf : ∀ a b, f a = some b → P b)
    {l : List α} {l' : List β} (h : l.mapM f = some l') : ∀ b ∈ l', P b := by
  induction l generalizing l' with
  | nil =>
    obtain rfl : [] = l' := by simpa using h
    simp
  | cons a l ih =>
    rw [List.mapM_cons] at h
    simp only [Option.bind_eq_bind, Option.bind_eq_some_iff, Option.pure_def, Option.some.injEq] at h
    obtain ⟨b, hb, bs, hbs, rfl⟩ := h
    exact List.forall_mem_cons.mpr ⟨hf a b hb, ih hbs⟩

/-- The counts of every pattern that is built are in order. -/
theorem proper_of_construct {n : ℕ} {s : Bytes} {p : Pattern} (h : construct n s = some p) : Proper p := by
  induction n generalizing s p with
  | zero => exact absurd h (by simp [construct])
  | succ n ih =>
    rw [construct] at h
    simp only [Option.bind_eq_bind, Option.bind_eq_some_iff] at h
    obtain ⟨g, -, h⟩ := h
    split_ifs at h with hopened hgroup hseps
    · obtain ⟨child, hchild, h⟩ := Option.bind_eq_some_iff.mp h
      obtain rfl := Option.some.inj h
      exact .mk le_rfl (by simpa using ih hchild)
    · obtain ⟨children, hchildren, h⟩ := Option.bind_eq_some_iff.mp h
      obtain rfl := Option.some.inj h
      exact .mk le_rfl (forall_of_mapM (fun _ _ => ih) hchildren)
    · obtain ⟨⟨chars, pos⟩, -, h⟩ := Option.bind_eq_some_iff.mp h
      obtain ⟨⟨least, most, pos'⟩, hcounts, h⟩ := Option.bind_eq_some_iff.mp h
      have hle := scanCounts_le hcounts
      dsimp only at h
      split_ifs at h
      · obtain ⟨child, hchild, h⟩ := Option.bind_eq_some_iff.mp h
        obtain rfl := Option.some.inj h
        exact .mk hle (by simpa using ih hchild)
      · obtain rfl := Option.some.inj h
        exact .mk hle (by simp)

end Pattern

end Afterglow.Testlib
