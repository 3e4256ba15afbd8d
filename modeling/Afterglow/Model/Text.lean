import Mathlib.Data.List.DropRight
import Afterglow.Model.Basic

/-!
# Go text functions

The functions of `strings`, `path/filepath` and `io/fs` that the engine calls, on Unix, as their
documentation defines them. Request fields are texts; program output is a byte string that need not
be valid UTF-8, so `TrimSpace` comes in both forms.
-/

namespace Afterglow

/-! ## White space -/

/-- `unicode.IsSpace`. -/
def isSpace (c : Char) : Bool :=
  c ∈ ['\t', '\n', '\x0b', '\x0c', '\r', ' ', '\u0085', '\u00a0', '\u1680', '\u2028', '\u2029',
    '\u202f', '\u205f', '\u3000'] ∨ ('\u2000' ≤ c ∧ c ≤ '\u200a')

/-- `strings.TrimSpace` of a text. -/
def trimSpace (s : List Char) : List Char := (s.dropWhile isSpace).rdropWhile isSpace

/-- A text is trimmed away exactly if it is all white space. -/
theorem trimSpace_eq_nil_iff {s : List Char} : trimSpace s = [] ↔ ∀ c ∈ s, isSpace c = true := by
  rw [trimSpace, List.rdropWhile_eq_nil_iff]
  constructor
  · intro h c hc
    rw [← List.takeWhile_append_dropWhile (p := isSpace) (l := s)] at hc
    rcases List.mem_append.mp hc with hc | hc
    · exact List.mem_takeWhile_imp hc
    · exact h c hc
  · intro h c hc
    exact h c ((List.dropWhile_suffix _).mem hc)

/-- A text that neither begins nor ends with white space stays as it is. -/
theorem trimSpace_eq_self {first last : Char} {middle : List Char} (hfirst : isSpace first = false)
    (hlast : isSpace last = false) :
    trimSpace (first :: middle ++ [last]) = first :: middle ++ [last] := by
  rw [trimSpace, List.cons_append, List.dropWhile_cons_of_neg (by simp [hfirst]), ← List.cons_append,
    List.rdropWhile_concat_neg _ _ _ (by simp [hlast])]

/-- The UTF-8 encodings of the characters that `unicode.IsSpace` accepts. -/
def spaceEncodings : List Bytes :=
  [[9], [10], [11], [12], [13], [32], [0xC2, 0x85], [0xC2, 0xA0], [0xE1, 0x9A, 0x80]] ++
    (List.range 11).map (fun k => [0xE2, 0x80, UInt8.ofNat (0x80 + k)]) ++
    [[0xE2, 0x80, 0xA8], [0xE2, 0x80, 0xA9], [0xE2, 0x80, 0xAF], [0xE2, 0x81, 0x9F],
      [0xE3, 0x80, 0x80]]

/-- Drop encodings of `spaces` from the front, for at most `n` rounds. -/
def dropSpaces (spaces : List Bytes) : ℕ → Bytes → Bytes
  | 0, b => b
  | n + 1, b =>
    match spaces.find? (·.isPrefixOf b) with
    | none => b
    | some e => dropSpaces spaces n (b.drop e.length)

/-- `strings.TrimSpace` of a byte string. Every round drops a byte, so the length bounds them. -/
def trimSpaceBytes (b : Bytes) : Bytes :=
  let front := dropSpaces spaceEncodings b.length b
  (dropSpaces (spaceEncodings.map List.reverse) front.length front.reverse).reverse

/-- `strings.TrimSpace` leaves nothing: the string has no character that is not white space. -/
def Blank (b : Bytes) : Prop := trimSpaceBytes b = []

instance (b : Bytes) : Decidable (Blank b) := inferInstanceAs (Decidable (trimSpaceBytes b = []))

/-- What was dropped from the front is made of encodings. -/
theorem dropSpaces_spec (spaces : List Bytes) (n : ℕ) (b : Bytes) :
    ∃ es : List Bytes, (∀ e ∈ es, e ∈ spaces) ∧ b = es.flatten ++ dropSpaces spaces n b := by
  induction n generalizing b with
  | zero => exact ⟨[], by simp, rfl⟩
  | succ n ih =>
    rw [dropSpaces]
    split
    case h_1 => exact ⟨[], by simp, rfl⟩
    case h_2 e hfind =>
      have hpre : e <+: b := by simpa using List.find?_some hfind
      obtain ⟨rest, rfl⟩ := hpre
      obtain ⟨es, hes, hrest⟩ := ih rest
      refine ⟨e :: es, ?_, ?_⟩
      · intro e' he'
        rcases List.mem_cons.mp he' with rfl | he'
        · exact List.mem_of_find?_eq_some hfind
        · exact hes e' he'
      · rw [List.drop_left, List.flatten_cons, List.append_assoc, ← hrest]

/-- No encoding is a proper prefix of another, so that a text is read as encodings in one way. -/
theorem spaceEncodings_prefix_free :
    ∀ e ∈ spaceEncodings, ∀ e' ∈ spaceEncodings, e <+: e' → e = e' := by decide

theorem spaceEncodings_ne_nil : ∀ e ∈ spaceEncodings, e ≠ [] := by decide

/-- A sequence of encodings is dropped completely. -/
theorem dropSpaces_flatten {es : List Bytes} (hes : ∀ e ∈ es, e ∈ spaceEncodings) {n : ℕ}
    (hn : es.flatten.length ≤ n) : dropSpaces spaceEncodings n es.flatten = [] := by
  induction es generalizing n with
  | nil =>
    cases n with
    | zero => rfl
    | succ n => rfl
  | cons e es ih =>
    have he : e ∈ spaceEncodings := hes e List.mem_cons_self
    have hpos : 0 < e.length := List.length_pos_of_ne_nil (spaceEncodings_ne_nil e he)
    rw [List.flatten_cons, List.length_append] at hn
    obtain ⟨n, rfl⟩ := Nat.exists_eq_add_of_le' (by omega : 1 ≤ n)
    rw [List.flatten_cons, dropSpaces]
    split
    case h_1 hfind =>
      have hnone := List.find?_eq_none.mp hfind e he
      simp at hnone
    case h_2 e' hfind =>
      have he' := List.mem_of_find?_eq_some hfind
      have hpre' : e' <+: e ++ es.flatten := by simpa using List.find?_some hfind
      have heq : e' = e := by
        rcases List.prefix_or_prefix_of_prefix hpre' (List.prefix_append e es.flatten) with h | h
        · exact spaceEncodings_prefix_free e' he' e he h
        · exact (spaceEncodings_prefix_free e he e' he' h).symm
      rw [heq, List.drop_left]
      exact ih (fun e he => hes e (List.mem_cons_of_mem _ he)) (by omega)

/-- A blank string is a sequence of encodings of white space. -/
theorem blank_iff {b : Bytes} :
    Blank b ↔ ∃ es : List Bytes, (∀ e ∈ es, e ∈ spaceEncodings) ∧ b = es.flatten := by
  constructor
  · intro h
    obtain ⟨es, hes, hfront⟩ := dropSpaces_spec spaceEncodings b.length b
    rw [Blank, trimSpaceBytes] at h
    generalize dropSpaces spaceEncodings b.length b = front at h hfront
    obtain ⟨es', hes', hback⟩ :=
      dropSpaces_spec (spaceEncodings.map List.reverse) front.length front.reverse
    rw [List.reverse_eq_nil_iff.mp h, List.append_nil] at hback
    refine ⟨es ++ (es'.map List.reverse).reverse, ?_, ?_⟩
    · intro e he
      rcases List.mem_append.mp he with he | he
      · exact hes e he
      · obtain ⟨e', he', rfl⟩ := List.mem_map.mp (List.mem_reverse.mp he)
        obtain ⟨e, he, rfl⟩ := List.mem_map.mp (hes' e' he')
        rwa [List.reverse_reverse]
    · rw [List.flatten_append, ← List.reverse_flatten, ← hback, List.reverse_reverse]
      exact hfront
  · rintro ⟨es, hes, rfl⟩
    rw [Blank, trimSpaceBytes, dropSpaces_flatten hes (Nat.le_refl _)]
    rfl

/-- A string with a byte that no white space is encoded with is not blank. -/
theorem not_blank_of_mem {b : Bytes} {x : UInt8} (hx : ∀ e ∈ spaceEncodings, x ∉ e) (h : x ∈ b) :
    ¬ Blank b := by
  rw [blank_iff]
  rintro ⟨es, hes, rfl⟩
  obtain ⟨e, he, hxe⟩ := List.mem_flatten.mp h
  exact hx e (hes e he) hxe

/-- A newline is an encoding of its own and occurs in no other. -/
theorem eq_newline_of_mem : ∀ e ∈ spaceEncodings, 10 ∈ e → e = [10] := by decide

/-- Lines are blank one by one. -/
theorem blank_of_append_newline {a b : Bytes} (h : Blank (a ++ 10 :: b)) : Blank a ∧ Blank b := by
  obtain ⟨es, hes, heq⟩ := blank_iff.mp h
  simp only [blank_iff]
  clear h
  induction es generalizing a with
  | nil => simp at heq
  | cons e es ih =>
    have he := hes e List.mem_cons_self
    have hrest : ∀ e ∈ es, e ∈ spaceEncodings := fun e he => hes e (List.mem_cons_of_mem _ he)
    rw [List.flatten_cons] at heq
    rcases List.append_eq_append_iff.mp heq with ⟨c, rfl, hc⟩ | ⟨c, rfl, hc⟩
    · -- The newline comes after a part of `e`, which is all of it.
      cases c with
      | nil =>
        obtain ⟨-, hb⟩ := @ih [] hrest hc
        exact ⟨⟨[a], by simpa using he, by simp⟩, hb⟩
      | cons x c =>
        obtain ⟨rfl, rfl⟩ := List.cons.inj hc
        have hnewline := eq_newline_of_mem _ he (by simp)
        obtain ⟨rfl, rfl⟩ : a = [] ∧ c = [] := by
          cases a with
          | nil => exact ⟨rfl, by simpa using hnewline⟩
          | cons y a => simp at hnewline
        exact ⟨⟨[], by simp, rfl⟩, es, hrest, rfl⟩
    · obtain ⟨⟨es', hes', rfl⟩, hb⟩ := @ih c hrest hc.symm
      refine ⟨⟨e :: es', ?_, rfl⟩, hb⟩
      intro e' he'
      rcases List.mem_cons.mp he' with rfl | he'
      · exact he
      · exact hes' e' he'

/-- `cmp.Or` on strings: the first that is not empty. -/
def cmpOr : List Bytes → Bytes
  | [] => []
  | b :: rest => if b = [] then cmpOr rest else b

/-- `strings.Contains`. -/
def containsBytes (b sub : Bytes) : Bool := b.tails.any (sub.isPrefixOf ·)

/-- `strings.Join`. -/
def joinBytes (sep : Bytes) (parts : List Bytes) : Bytes := sep.intercalate parts

theorem joinBytes_cons {sep part : Bytes} {parts : List Bytes} (h : parts ≠ []) :
    joinBytes sep (part :: parts) = part ++ sep ++ joinBytes sep parts :=
  List.intercalate_cons_of_ne_nil h

/-- Every part is in the joined list. -/
theorem infix_intercalate {α : Type} {sep part : List α} {parts : List (List α)} (h : part ∈ parts) :
    part <:+: sep.intercalate parts := by
  induction parts with
  | nil => cases h
  | cons first parts ih =>
    by_cases hnil : parts = []
    · subst hnil
      obtain rfl := List.mem_singleton.mp h
      exact ⟨[], [], by simp⟩
    · rw [List.intercalate_cons_of_ne_nil hnil]
      rcases List.mem_cons.mp h with rfl | h
      · exact ⟨[], sep ++ sep.intercalate parts, by simp⟩
      · obtain ⟨s, t, hst⟩ := ih h
        exact ⟨first ++ sep ++ s, t, by simp [← hst]⟩

theorem infix_joinBytes {sep part : Bytes} {parts : List Bytes} (h : part ∈ parts) :
    part <:+: joinBytes sep parts := infix_intercalate h

/-- Joined lines are blank only if each of them is. -/
theorem blank_of_blank_joinBytes {part : Bytes} {parts : List Bytes} (hpart : part ∈ parts)
    (h : Blank (joinBytes [10] parts)) : Blank part := by
  induction parts with
  | nil => cases hpart
  | cons first parts ih =>
    by_cases hnil : parts = []
    · subst hnil
      rw [joinBytes, List.intercalate_singleton] at h
      rwa [List.mem_singleton.mp hpart]
    · rw [joinBytes_cons hnil, List.append_assoc] at h
      obtain ⟨hfirst, hrest⟩ := blank_of_append_newline h
      rcases List.mem_cons.mp hpart with rfl | hpart
      · exact hfirst
      · exact ih hpart hrest

/-! ## Quoting -/

/-- The escape of a character in `strconv.Quote`; characters outside ASCII are taken to be printable.
-/
def quoteChar (c : Char) : List Char :=
  match c with
  | '"' => ['\\', '"']
  | '\\' => ['\\', '\\']
  | '\x07' => ['\\', 'a']
  | '\x08' => ['\\', 'b']
  | '\x0c' => ['\\', 'f']
  | '\n' => ['\\', 'n']
  | '\r' => ['\\', 'r']
  | '\t' => ['\\', 't']
  | '\x0b' => ['\\', 'v']
  | c =>
    if c.toNat < 0x20 ∨ c.toNat = 0x7f then
      ['\\', 'x', Nat.digitChar (c.toNat / 16), Nat.digitChar (c.toNat % 16)]
    else [c]

/-- The verb `%q` on a string. -/
def quote (s : String) : String := "\"" ++ String.ofList (s.toList.flatMap quoteChar) ++ "\""

/-! ## Paths -/

/-- One element of a path against the elements already kept, last first, as `filepath.Clean` does
it. -/
def cleanStep (rooted : Bool) (kept : List (List Char)) (element : List Char) : List (List Char) :=
  if element = [] ∨ element = ['.'] then kept
  else if element = ['.', '.'] then
    match kept with
    | top :: rest => if top = ['.', '.'] then element :: kept else rest
    | [] => if rooted then [] else [element]
  else element :: kept

/-- `filepath.Clean`. -/
def cleanPath (path : List Char) : List Char :=
  let rooted := path.head? = some '/'
  let kept := ((path.splitOn '/').foldl (cleanStep rooted) []).reverse
  let cleaned := (if rooted then ['/'] else []) ++ ['/'].intercalate kept
  if cleaned = [] then ['.'] else cleaned

/-- `filepath.IsLocal`. -/
def isLocalPath (path : List Char) : Bool :=
  if path.head? = some '/' ∨ path = [] then false
  else
    let hasDots := (path.splitOn '/').any fun part => part = ['.'] ∨ part = ['.', '.']
    let path := if hasDots then cleanPath path else path
    !(path = ['.', '.'] ∨ ['.', '.', '/'].isPrefixOf path)

/-- `fs.ValidPath`, on a text. -/
def validPath (name : List Char) : Bool :=
  name = ['.'] ∨ (name.splitOn '/').all fun elem => elem ≠ [] ∧ elem ≠ ['.'] ∧ elem ≠ ['.', '.']

end Afterglow
