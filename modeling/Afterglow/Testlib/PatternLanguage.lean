import Afterglow.Testlib.PatternText

/-!
# The language of a written pattern

Reference: `support/testlib.h`, the constructor of class `pattern` and `pattern::matches`.

The constructor reads an expression back as it is written (`construct_text`): it counts parentheses to find
the bars between alternatives, and goes on with the part behind the first set. The pattern it makes denotes
the words of the expression, so `matches` accepts words of the expression only, and all of them where being
greedy does no harm.
-/

namespace Afterglow.Testlib

namespace Pattern

/-! ## Reading groups -/

/-- The positions of the bars that are not in parentheses, in an expression that starts at `pos`. -/
def Regex.bars {barred : Bool} : Regex barred → ℕ → List ℕ
  | .bar r₁ r₂, pos => (pos + r₁.text.length) :: r₂.bars (pos + r₁.text.length + 1)
  | _, _ => []

theorem Regex.bars_eq_nil (r : Regex false) (pos : ℕ) : r.bars pos = [] := by
  cases r <;> rfl

/-- The loop of the constructor over the `len` bytes at `pos`. -/
def scanGroups (s : Bytes) (g : Groups) (pos len : ℕ) : Option Groups :=
  (List.range' pos len).foldlM (scanGroup s) g

section Groups

variable {s t : Bytes} {pos : ℕ} {g g' : Groups}

theorem scanGroups_append {a b : ℕ} (h : scanGroups s g pos a = some g') :
    scanGroups s g pos (a + b) = scanGroups s g' (pos + a) b := by
  rw [scanGroups, ← List.range'_append_1, List.foldlM_append,
    show List.foldlM (scanGroup s) g _ = some g' from h]
  rfl

theorem scanGroups_one : scanGroups s g pos 1 = scanGroup s g pos := by
  rw [scanGroups, List.range'_one, List.foldlM_cons]
  cases scanGroup s g pos <;> rfl

theorem foldlM_of_fixed {α β : Type} {f : β → α → Option β} {b : β} {l : List α}
    (h : ∀ a ∈ l, f b a = some b) : l.foldlM f b = some b := by
  induction l with
  | nil => rfl
  | cons a l ih =>
    rw [List.foldlM_cons, h a List.mem_cons_self]
    exact ih fun a' ha' => h a' (List.mem_cons_of_mem _ ha')

theorem scanGroups_quiet {t' : Bytes} (ht : Quiet outer t) (h : Stands s pos (t ++ t')) (hg : 0 ≤ g.opened) :
    scanGroups s g pos t.length = some g := by
  obtain ⟨-, hquiet⟩ := ht s pos t' h
  have hstep : ∀ i ∈ List.range' pos t.length, scanGroup s g i = some g := by
    intro i hi
    obtain ⟨hle, hlt⟩ := List.mem_range'_1.mp hi
    have hnone : ∀ value ∈ outer, isCommandChar s i value = false :=
      fun value hvalue => hquiet value hvalue i hle hlt
    rw [scanGroup, hnone 40 (by decide), hnone 41 (by decide), hnone 124 (by decide), if_neg (by simp),
      if_neg (by simp), if_neg (by omega), if_neg (by simp)]
  exact foldlM_of_fixed hstep

theorem scanGroup_open (h : Stands s pos (40 :: t)) :
    scanGroup s g pos = some { g with opened := g.opened + 1 } := by
  rw [scanGroup, h.isCommandChar, if_pos (by simp)]

theorem scanGroup_close (h : Stands s pos (41 :: t)) : scanGroup s g pos = some { g with
    opened := g.opened - 1
    firstClose := if g.opened - 1 = 0 ∧ g.firstClose = none then some pos else g.firstClose } := by
  rw [scanGroup, h.isCommandChar, h.isCommandChar, if_neg (by simp), if_pos (by simp)]

theorem scanGroup_bar (h : Stands s pos (124 :: t)) (hg : 0 ≤ g.opened) :
    scanGroup s g pos = some (if g.opened = 0 then { g with seps := g.seps ++ [pos] } else g) := by
  rw [scanGroup, h.isCommandChar, h.isCommandChar, h.isCommandChar, if_neg (by simp), if_neg (by simp),
    if_neg (by omega)]
  simp only [List.head?_cons, decide_true, true_and]
  split <;> rfl

/-- A group leaves only its last parenthesis behind. -/
theorem scanGroups_group {barred : Bool} {r : Regex barred} (h : Stands s pos ((Regex.group r).text ++ t))
    (hinside : scanGroups s { g with opened := g.opened + 1 } (pos + 1) r.text.length =
      some { g with opened := g.opened + 1 }) :
    scanGroups s g pos (Regex.group r).text.length = some { g with
      firstClose := if g.opened = 0 ∧ g.firstClose = none then some (pos + (r.text.length + 1))
        else g.firstClose } := by
  have hat : Stands s pos (40 :: (r.text ++ 41 :: t)) := by simpa [Regex.text] using h
  obtain ⟨hnext, -⟩ := hat.cons (by decide)
  obtain ⟨hclose, -⟩ := r.quiet s _ _ hnext
  have hlength : (Regex.group r).text.length = 1 + (r.text.length + 1) := by
    simp [Regex.text]
    omega
  rw [hlength, scanGroups_append (scanGroups_one.trans (scanGroup_open hat)), scanGroups_append hinside,
    scanGroups_one, scanGroup_close hclose]
  simp only [Int.add_sub_cancel, show pos + 1 + r.text.length = pos + (r.text.length + 1) by omega]

/-- Behind an expression as many parentheses are open as in front of it. Inside of others it leaves no
trace; outside of any it leaves its bars. -/
theorem scanGroups_text {barred : Bool} (r : Regex barred) (h : Stands s pos (r.text ++ t))
    (hg : 0 ≤ g.opened) :
    ∃ g', scanGroups s g pos r.text.length = some g' ∧ g'.opened = g.opened ∧ (0 < g.opened → g' = g) ∧
      (g.opened = 0 → g'.seps = g.seps ++ r.bars pos) := by
  induction r generalizing pos g t with
  | last set count =>
    exact ⟨g, scanGroups_quiet (set.quiet.append count.quiet) h hg, rfl, fun _ => rfl,
      fun _ => by simp [Regex.bars]⟩
  | next set count r ih =>
    have hquiet := set.quiet.append count.quiet
    rw [Regex.text, List.append_assoc] at h
    obtain ⟨g', hscan, hopened, hinside, houtside⟩ := ih (hquiet s pos _ h).1 hg
    refine ⟨g', ?_, hopened, hinside, fun hzero => ?_⟩
    · rw [Regex.text, List.length_append, scanGroups_append (scanGroups_quiet hquiet h hg), hscan]
    · rw [houtside hzero, r.bars_eq_nil]
      rfl
  | group r ih =>
    have hat : Stands s (pos + 1) (r.text ++ 41 :: t) :=
      (Stands.cons (by simpa [Regex.text] using h) (by decide)).1
    -- inside of the group there is at least its own parenthesis open
    obtain ⟨g', hscan, -, hinside, -⟩ := ih (g := { g with opened := g.opened + 1 }) hat
      (by dsimp only; omega)
    rw [hinside (by dsimp only; omega)] at hscan
    refine ⟨_, scanGroups_group h hscan, rfl, fun hpos => ?_, fun _ => by simp [Regex.bars]⟩
    rw [if_neg (by omega)]
  | bar r₁ r₂ ih₁ ih₂ =>
    rw [Regex.text, List.append_assoc] at h
    have hbar := (r₁.quiet s pos _ h).1
    have hrest : Stands s (pos + r₁.text.length + 1) (r₂.text ++ t) := (hbar.cons (by decide)).1
    obtain ⟨g₁, hscan₁, hopened₁, hinside₁, houtside₁⟩ := ih₁ h hg
    have hstep := scanGroup_bar hbar (hopened₁.symm ▸ hg)
    obtain ⟨g₂, hscan₂, hopened₂, hinside₂, houtside₂⟩ := ih₂
      (g := if g₁.opened = 0 then { g₁ with seps := g₁.seps ++ [pos + r₁.text.length] } else g₁) hrest
      (by split <;> simpa [hopened₁] using hg)
    refine ⟨g₂, ?_, ?_, fun hpos => ?_, fun hzero => ?_⟩
    · rw [Regex.text, List.length_append, scanGroups_append hscan₁, List.length_cons, Nat.add_comm _ 1,
        scanGroups_append (scanGroups_one.trans hstep), hscan₂]
    · rw [hopened₂]
      split <;> exact hopened₁
    · obtain rfl := hinside₁ hpos
      rw [if_neg (by omega)] at hinside₂
      exact hinside₂ hpos
    · have hzero₁ : g₁.opened = 0 := hopened₁.trans hzero
      rw [if_pos hzero₁] at houtside₂
      rw [houtside₂ hzero₁, houtside₁ hzero, r₁.bars_eq_nil, Regex.bars, List.append_nil, List.append_assoc]
      rfl

end Groups

/-! ## Reading expressions -/

/-- The texts between the bars. -/
def Regex.texts {barred : Bool} : Regex barred → List Bytes
  | .bar r₁ r₂ => r₁.text :: r₂.texts
  | r => [r.text]

theorem Regex.texts_eq (r : Regex false) : r.texts = [r.text] := by
  cases r <;> rfl

theorem Regex.branches_eq (r : Regex false) : r.branches = [r.pattern] := by
  cases r <;> rfl

section Construct

variable {s t t' : Bytes} {pos : ℕ}

theorem Stands.take (h : Stands s pos (t ++ t')) : (s.drop pos).take t.length = t := by
  obtain ⟨pre, rfl, rfl, -⟩ := h
  rw [List.drop_left, List.take_left]

/-- The text is cut at its bars. -/
theorem alternatives_text {barred : Bool} (r : Regex barred) (h : Stands s pos (r.text ++ t)) :
    alternatives s pos (r.bars pos ++ [pos + r.text.length]) = r.texts := by
  have hone : ∀ {r : Regex false} {pos : ℕ} {t : Bytes}, Stands s pos (r.text ++ t) →
      alternatives s pos [pos + r.text.length] = [r.text] := by
    intro r pos t h
    rw [alternatives, Nat.add_sub_cancel_left, h.take]
    rfl
  induction r generalizing pos t with
  | last set count => exact hone h
  | next set count r ih => exact hone h
  | group r ih => exact hone h
  | bar r₁ r₂ ih₁ ih₂ =>
    rw [Regex.text, List.append_assoc] at h
    have hrest : Stands s (pos + r₁.text.length + 1) (r₂.text ++ t) :=
      ((r₁.quiet s pos _ h).1.cons (by decide)).1
    have hlength : pos + (Regex.bar r₁ r₂).text.length = pos + r₁.text.length + 1 + r₂.text.length := by
      simp only [Regex.text, List.length_append, List.length_cons]
      omega
    rw [hlength, Regex.bars, List.cons_append, alternatives, Nat.add_sub_cancel_left, h.take, ih₂ hrest]
    rfl

/-- Nothing is dropped from the text as a space. -/
theorem Regex.unspaced {barred : Bool} (r : Regex barred) :
    ((List.range r.text.length).filter fun i => ¬ isCommandChar r.text i 32).map (fun i => r.text.getD i 0) =
      r.text := by
  obtain ⟨-, hquiet⟩ := r.quiet r.text 0 [] (by simpa using Stands.start r.text)
  rw [List.filter_eq_self.mpr]
  · refine List.ext_getElem (by simp) fun i hi hi' => ?_
    simp [hi']
  · intro i hi
    have hnone := hquiet 32 (by decide) i (Nat.zero_le i) (by simpa using List.mem_range.mp hi)
    simp [hnone]

/-- A set does not start like a count, nor like a group. -/
theorem CharSet.head_ne (set : CharSet) (t : Bytes) {value : UInt8}
    (hvalue : value ∈ ([40, 123, 63, 42, 43] : Bytes)) : (set.text ++ t).head? ≠ some value := by
  have hspecial : value ∈ special ∧ value ≠ 91 ∧ value ≠ 92 := by
    simp only [List.mem_cons, List.not_mem_nil, or_false] at hvalue
    rcases hvalue with rfl | rfl | rfl | rfl | rfl <;> decide
  obtain ⟨hmem, hset, hslash⟩ := hspecial
  cases set with
  | literal c =>
    simp only [CharSet.text, escape]
    split
    · simpa using hslash.symm
    · next hc =>
      simp only [List.singleton_append, List.head?_cons, ne_eq, Option.some.injEq]
      rintro rfl
      exact hc hmem
  | set negative items => simpa [CharSet.text] using hset.symm

theorem CharSet.text_length_pos (set : CharSet) : 0 < set.text.length := by
  cases set with
  | literal c => exact escape_length_pos c
  | set negative items => simp [CharSet.text]

theorem Regex.text_ne_nil {barred : Bool} (r : Regex barred) : r.text ≠ [] := by
  have hset : ∀ set : CharSet, set.text ≠ [] := fun set => List.length_pos_iff.mp set.text_length_pos
  cases r <;> simp [Regex.text, hset]

/-- What is written behind a count does not look like one. -/
theorem Regex.head_ne {barred : Bool} (r : Regex barred) :
    ∀ value ∈ ([123, 63, 42, 43] : Bytes), r.text.head? ≠ some value := by
  intro value hvalue
  have hset : ∀ (set : CharSet) (t : Bytes), (set.text ++ t).head? ≠ some value :=
    fun set t => set.head_ne t (List.mem_cons_of_mem _ hvalue)
  induction r with
  | last set count => exact hset set _
  | next set count r ih => rw [Regex.text, List.append_assoc]; exact hset set _
  | group r ih =>
    rintro heq
    simp only [Regex.text, List.cons_append, List.head?_cons, Option.some.injEq] at heq
    subst heq
    simp at hvalue
  | bar r₁ r₂ ih₁ ih₂ =>
    cases r₁ with
    | last set count => rw [Regex.text, Regex.text, List.append_assoc]; exact hset set _
    | next set count r => rw [Regex.text, Regex.text, List.append_assoc, List.append_assoc]; exact hset set _
    | group r => simpa [Regex.text] using ih₁

/-- A set with its count, and the pattern of what follows. -/
theorem construct_set (set : CharSet) (count : Count) {rest : Bytes} {g : Groups} (n : ℕ)
    (hs : s = set.text ++ count.text ++ rest)
    (hspace : ((List.range s.length).filter fun i => ¬ isCommandChar s i 32).map (fun i => s.getD i 0) = s)
    (hscan : (List.range s.length).foldlM (scanGroup s) {} = some g) (hopened : g.opened = 0)
    (hseps : g.seps = [])
    (hrest : ∀ value ∈ ([123, 63, 42, 43] : Bytes), rest.head? ≠ some value) :
    construct (n + 1) s = if rest = [] then some (.mk [] set.bytes count.least count.limit)
      else (construct n rest).map fun child => .mk [child] set.bytes count.least count.limit := by
  have hat : Stands s 0 (set.text ++ (count.text ++ rest)) := by
    rw [← List.append_assoc, ← hs]
    exact .start s
  have hset := (set.quiet s 0 _ hat).1
  have hgroup : isCommandChar s 0 40 = false := by
    rw [hat.isCommandChar]
    simpa using set.head_ne (count.text ++ rest) (by decide)
  have hlength : s.length = 0 + set.text.length + count.text.length + rest.length := by
    rw [hs]
    simp only [List.length_append]
    omega
  have hdrop : s.drop (0 + set.text.length + count.text.length) = rest := by
    rw [hs, Nat.zero_add, ← List.length_append, List.drop_left]
  rw [construct, hspace, hscan]
  simp only [Option.bind_eq_bind, Option.bind_some, hopened, hseps, hgroup, ne_eq, not_true_eq_false,
    if_false, Bool.false_eq_true, false_and, and_false, scanCharSet_text set hat,
    scanCounts_text count hset hrest, hdrop]
  by_cases hnil : rest = []
  · rw [if_neg (by simp [hlength, hnil]), if_pos hnil]
  · have hpos := List.length_pos_iff.mpr hnil
    rw [if_pos (by omega), if_neg hnil]
    cases construct n rest <;> rfl

/-- The loop over a whole expression ends with all groups closed, at its bars. -/
theorem Regex.scanGroups_eq {barred : Bool} (r : Regex barred) :
    ∃ g, (List.range r.text.length).foldlM (scanGroup r.text) {} = some g ∧ g.opened = 0 ∧
      g.seps = r.bars 0 := by
  obtain ⟨g, hscan, hopened, -, hseps⟩ := scanGroups_text (g := {}) r
    (by simpa using Stands.start r.text : Stands r.text 0 (r.text ++ [])) le_rfl
  rw [scanGroups, ← List.range_eq_range'] at hscan
  exact ⟨g, hscan, hopened, by simpa using hseps rfl⟩

/-- A group is the pattern between its parentheses. -/
theorem construct_group {barred : Bool} (r : Regex barred) (n : ℕ) :
    construct (n + 1) (Regex.group r).text = (construct n r.text).map fun child => .mk [child] [] 0 0 := by
  have hat : Stands (Regex.group r).text 0 (40 :: (r.text ++ 41 :: [])) := Stands.start _
  have hinside := (hat.cons (by decide)).1
  have hclose := (r.quiet _ _ _ hinside).1
  -- inside of the parentheses nothing is noted, so the first to close is the last character
  obtain ⟨g, hscan, -, hsame, -⟩ := scanGroups_text (g := { opened := 1 }) r hinside (by decide)
  rw [hsame (by decide)] at hscan
  have hscan := scanGroups_group (g := {}) (t := []) (by simpa using Stands.start (Regex.group r).text) hscan
  have hlength : (Regex.group r).text.length = 0 + 1 + r.text.length + 1 := by
    simp [Regex.text]
    omega
  have hend : Option.map (· + 1) (if True ∧ True then some (0 + (r.text.length + 1)) else none) =
      some (Regex.group r).text.length := by
    simp only [and_self, if_true, Option.map_some, hlength, Option.some.injEq]
    omega
  have hopenChar : isCommandChar (Regex.group r).text 0 40 = true := by
    rw [hat.isCommandChar]
    simp
  have hcloseChar : isCommandChar (Regex.group r).text ((Regex.group r).text.length - 1) 41 = true := by
    rw [hlength, Nat.add_sub_cancel, hclose.isCommandChar]
    simp
  have htake : ((Regex.group r).text.drop 1).take ((Regex.group r).text.length - 2) = r.text := by
    rw [hlength, show 0 + 1 + r.text.length + 1 - 2 = r.text.length by omega]
    exact hinside.take
  rw [scanGroups, ← List.range_eq_range'] at hscan
  rw [construct, Regex.unspaced, hscan]
  simp only [Option.bind_eq_bind, Option.bind_some, ne_eq, not_true_eq_false, if_false, htake, hopenChar,
    hcloseChar]
  rw [if_pos ⟨trivial, hend, trivial, trivial⟩]
  cases construct n r.text <;> rfl

/-- Alternatives are the patterns between their bars. -/
theorem construct_bar {barred : Bool} (r₁ : Regex false) (r₂ : Regex barred) (n : ℕ) :
    construct (n + 1) (Regex.bar r₁ r₂).text =
      ((Regex.bar r₁ r₂).texts.mapM (construct n)).map fun children => .mk children [] 0 0 := by
  obtain ⟨g, hscan, hopened, hseps⟩ := (Regex.bar r₁ r₂).scanGroups_eq
  have hcut := alternatives_text (.bar r₁ r₂)
    (by simpa using Stands.start (Regex.bar r₁ r₂).text :
      Stands (Regex.bar r₁ r₂).text 0 ((Regex.bar r₁ r₂).text ++ []))
  rw [Nat.zero_add, ← hseps] at hcut
  have hbars : g.seps ≠ [] := by
    rw [hseps]
    simp [Regex.bars]
  rw [construct, Regex.unspaced, hscan]
  simp only [Option.bind_eq_bind, Option.bind_some, hopened, ne_eq, not_true_eq_false, if_false, hbars,
    false_and, not_false_eq_true, if_true, hcut]
  cases (Regex.bar r₁ r₂).texts.mapM (construct n) <;> rfl

/-- The constructor reads an expression as it is written. -/
theorem construct_text {barred : Bool} (r : Regex barred) :
    (∀ n, r.text.length < n → construct n r.text = some r.pattern) ∧
      ∀ n, r.text.length < n → r.texts.mapM (construct n) = some r.branches := by
  have hone : ∀ {r : Regex false}, (∀ n, r.text.length < n → construct n r.text = some r.pattern) →
      ∀ n, r.text.length < n → r.texts.mapM (construct n) = some r.branches := by
    intro r h n hn
    rw [r.texts_eq, r.branches_eq, List.mapM_cons, h n hn]
    rfl
  -- the fuel is longer than the text, which gets shorter with each part
  have hfuel : ∀ {n k : ℕ}, k < n → ∃ m, n = m + 1 := fun {n} {k} hlt => ⟨n - 1, by omega⟩
  induction r with
  | last set count =>
    refine (and_iff_left_of_imp hone).mpr fun n hn => ?_
    obtain ⟨n, rfl⟩ := hfuel hn
    obtain ⟨g, hscan, hopened, hseps⟩ := (Regex.last set count).scanGroups_eq
    exact construct_set (s := (Regex.last set count).text) set count n (List.append_nil _).symm
      (Regex.last set count).unspaced hscan hopened hseps (by simp)
  | next set count r ih =>
    refine (and_iff_left_of_imp hone).mpr fun n hn => ?_
    obtain ⟨n, rfl⟩ := hfuel hn
    obtain ⟨g, hscan, hopened, hseps⟩ := (Regex.next set count r).scanGroups_eq
    have hlt : r.text.length < n := by
      have hpos := set.text_length_pos
      rw [Regex.text, List.length_append, List.length_append] at hn
      omega
    have hset := construct_set (s := (Regex.next set count r).text) set count n rfl
      (Regex.next set count r).unspaced hscan hopened hseps r.head_ne
    rw [hset, if_neg r.text_ne_nil, ih.1 n hlt]
    rfl
  | group r ih =>
    refine (and_iff_left_of_imp hone).mpr fun n hn => ?_
    obtain ⟨n, rfl⟩ := hfuel hn
    have hlt : r.text.length < n := by
      simp only [Regex.text, List.length_append, List.length_cons] at hn
      omega
    rw [construct_group, ih.1 n hlt]
    rfl
  | bar r₁ r₂ ih₁ ih₂ =>
    have hmap : ∀ n, r₁.text.length < n → r₂.text.length < n →
        (Regex.bar r₁ r₂).texts.mapM (construct n) = some (Regex.bar r₁ r₂).branches := by
      intro n h₁ h₂
      rw [Regex.texts, List.mapM_cons, ih₁.1 n h₁, Option.bind_eq_bind, Option.bind_some, ih₂.2 n h₂]
      rfl
    have hlength : (Regex.bar r₁ r₂).text.length = r₁.text.length + (r₂.text.length + 1) := by
      simp [Regex.text]
    refine ⟨fun n hn => ?_, fun n hn => hmap n (by omega) (by omega)⟩
    obtain ⟨n, rfl⟩ := hfuel hn
    rw [construct_bar, hmap n (by omega) (by omega)]
    rfl

end Construct

/-! ## What is matched -/

section Language

variable {w : Bytes}

theorem int_char {v : ℤ} (hle : -128 ≤ v) (hlt : v < 128) : int (char v) = v := by
  have key : (char v).toNat = (v % 256).toNat := by
    rw [char, UInt8.toNat_ofNat']
    omega
  rw [int, key]
  split <;> omega

theorem mem_charRange {first last c : UInt8} :
    c ∈ charRange first last ↔ int first ≤ int c ∧ int c ≤ int last := by
  have hint : ∀ d : UInt8, -128 ≤ int d ∧ int d < 128 := by
    intro d
    have := d.toNat_lt
    unfold int
    split <;> omega
  have hfirst := hint first
  have hlast := hint last
  simp only [charRange, List.mem_map, List.mem_range]
  constructor
  · rintro ⟨i, hi, rfl⟩
    rw [int_char (by omega) (by omega)]
    omega
  · rintro ⟨hle, hle'⟩
    refine ⟨(int c - int first).toNat, by omega, ?_⟩
    rw [show int first + ((int c - int first).toNat : ℤ) = int c by omega, char_int]

theorem Item.mem_bytes {item : Item} {c : UInt8} : c ∈ item.bytes ↔ item.Has c := by
  cases item with
  | literal d _ => simp [Item.bytes, Item.Has]
  | range first last _ _ => exact mem_charRange

theorem CharSet.mem_bytes {set : CharSet} {c : UInt8} : c ∈ set.bytes ↔ set.Has c := by
  cases set with
  | literal d => simp [CharSet.bytes, CharSet.Has]
  | set negative items =>
    have hitems : c ∈ items.flatMap Item.bytes ↔ ∃ item ∈ items, item.Has c := by
      simp only [List.mem_flatMap, Item.mem_bytes]
    have hall : c ∈ (List.range 255).map (fun code : ℕ => char code) ↔ c ≠ 255 := by
      have hlt := c.toNat_lt
      simp only [List.mem_map, List.mem_range, ← UInt8.toNat_inj, ne_eq]
      constructor
      · rintro ⟨code, hcode, heq⟩
        rw [char, UInt8.toNat_ofNat'] at heq
        simp only [UInt8.reduceToNat]
        omega
      · intro hne
        simp only [UInt8.reduceToNat] at hne
        refine ⟨c.toNat, by omega, ?_⟩
        rw [char, UInt8.toNat_ofNat']
        omega
    cases negative with
    | false => exact hitems
    | true =>
      rw [CharSet.bytes, if_pos rfl, List.mem_filter, hall, decide_eq_true_iff, hitems]
      rfl

theorem Count.least_le_limit (count : Count) : (count.least : ℤ) ≤ count.limit := by
  have hmax : INT_MAX = 2147483647 := rfl
  cases count <;> simp [Count.least, Count.limit, Count.most, hmax]
  assumption

/-- The counts of a pattern mean the repetitions of the expression. -/
theorem Repeated.of_repeats {set : CharSet} {count : Count}
    (h : Repeats set.bytes count.least count.limit w) : Repeated set count w := by
  have hle := count.least_le_limit
  refine ⟨fun c hc => CharSet.mem_bytes.mp (h.chars c hc), ?_, fun m hm => ?_⟩
  · by_cases hlimit : 0 < count.limit
    · exact_mod_cast h.least hlimit
    · omega
  · have hmost := h.most
    have hlimit : count.limit = m := by rw [Count.limit, hm]; rfl
    omega

theorem Repeated.repeats {set : CharSet} {count : Count} (h : Repeated set count w)
    (hw : w.length ≤ INT_MAX) : Repeats set.bytes count.least count.limit w := by
  refine ⟨fun c hc => CharSet.mem_bytes.mpr (h.chars c hc), fun _ => by exact_mod_cast h.least, ?_⟩
  cases hmost : count.most with
  | none =>
    rw [Count.limit, hmost, Option.elim_none]
    omega
  | some m =>
    rw [Count.limit, hmost]
    exact h.most m hmost

/-- A node without characters of its own is a choice between its children. -/
theorem denotes_choice {children : List Pattern} (hne : children ≠ []) :
    Denotes (.mk children [] 0 0) w ↔ ∃ child ∈ children, Denotes child w := by
  constructor
  · intro h
    cases h with
    | last _ => exact absurd rfl hne
    | next hw hchild hv =>
      obtain rfl := List.length_eq_zero_iff.mp (Nat.le_zero.mp hw.most)
      exact ⟨_, hchild, hv⟩
  · rintro ⟨child, hchild, hv⟩
    exact Denotes.next (w := []) ⟨by simp, by simp, by simp⟩ hchild hv

theorem Regex.branches_ne_nil {barred : Bool} (r : Regex barred) : r.branches ≠ [] := by
  cases r <;> simp [Regex.branches]

/-- A pattern denotes what one of its branches does. -/
theorem Regex.denotes_branches {barred : Bool} (r : Regex barred) :
    (∃ p ∈ r.branches, Denotes p w) ↔ Denotes r.pattern w := by
  cases r with
  | bar r₁ r₂ => exact (denotes_choice (Regex.bar r₁ r₂).branches_ne_nil).symm
  | _ => simp [Regex.branches, Regex.pattern]

/-- The pattern of an expression denotes words of its language only. -/
theorem Regex.language_of_denotes {barred : Bool} (r : Regex barred) (h : Denotes r.pattern w) :
    r.Language w := by
  induction r generalizing w with
  | last set count =>
    cases h with
    | last hw => exact .of_repeats hw
    | next _ hchild _ => simp at hchild
  | next set count r ih =>
    cases h with
    | next hw hchild hv =>
      obtain rfl := List.mem_singleton.mp hchild
      exact ⟨_, _, rfl, .of_repeats hw, ih hv⟩
  | group r ih =>
    obtain ⟨p, hp, hdenotes⟩ := (denotes_choice (by simp)).mp h
    obtain rfl := List.mem_singleton.mp hp
    exact ih hdenotes
  | bar r₁ r₂ ih₁ ih₂ =>
    obtain ⟨p, hp, hdenotes⟩ := (denotes_choice (by simp)).mp h
    rcases List.mem_cons.mp hp with rfl | hp
    · exact .inl (ih₁ hdenotes)
    · exact .inr (ih₂ (r₂.denotes_branches.mp ⟨p, hp, hdenotes⟩))

/-- It denotes all of them that are no longer than an `int` can count. -/
theorem Regex.denotes_of_language {barred : Bool} (r : Regex barred) (hw : w.length ≤ INT_MAX)
    (h : r.Language w) : Denotes r.pattern w := by
  induction r generalizing w with
  | last set count => exact .last (Repeated.repeats h hw)
  | next set count r ih =>
    obtain ⟨u, v, rfl, hu, hv⟩ := h
    rw [List.length_append] at hw
    exact .next (hu.repeats (by omega)) List.mem_cons_self (ih (by omega) hv)
  | group r ih => exact (denotes_choice (by simp)).mpr ⟨_, List.mem_cons_self, ih hw h⟩
  | bar r₁ r₂ ih₁ ih₂ =>
    refine (denotes_choice (by simp)).mpr ?_
    rcases h with h | h
    · exact ⟨_, List.mem_cons_self, ih₁ hw h⟩
    · obtain ⟨p, hp, hdenotes⟩ := r₂.denotes_branches.mpr (ih₂ hw h)
      exact ⟨p, List.mem_cons_of_mem _ hp, hdenotes⟩

theorem Regex.deterministic {barred : Bool} (r : Regex barred) (h : r.Unambiguous) :
    Deterministic r.pattern ∧ ∀ p ∈ r.branches, Deterministic p := by
  have hone : ∀ {p : Pattern}, Deterministic p → Deterministic p ∧ ∀ p' ∈ [p], Deterministic p' :=
    fun hp => ⟨hp, by simpa using hp⟩
  induction r with
  | last set count => exact hone (.mk (.inr (by simp)) (by simp))
  | next set count r ih =>
    obtain ⟨hnext, hr⟩ := h
    refine hone (.mk ?_ (by simpa using (ih hr).1))
    rcases hnext with hfixed | hother
    · left
      rw [Count.limit, hfixed]
      rfl
    · right
      intro child hchild c v hdenotes
      obtain rfl := List.mem_singleton.mp hchild
      exact fun hmem => hother c v (r.language_of_denotes hdenotes) (CharSet.mem_bytes.mp hmem)
  | group r ih => exact hone (.mk (.inl rfl) (by simpa using (ih h).1))
  | bar r₁ r₂ ih₁ ih₂ =>
    have hall : ∀ p ∈ (Regex.bar r₁ r₂).branches, Deterministic p :=
      List.forall_mem_cons.mpr ⟨(ih₁ h.1).1, (ih₂ h.2).2⟩
    exact ⟨.mk (.inl rfl) hall, hall⟩

end Language

/-- Patterns match what they say. The constructor accepts every expression as it is written, and the pattern
it makes of it only matches words of the expression; it matches all of them where no repetition can run into
what follows it. Expressions and words are no longer than an `int` can count. -/
theorem matches_written {barred : Bool} (r : Regex barred) : r.text.length ≤ INT_MAX →
    ∃ p, new r.text = some p ∧ ∀ w : Bytes, w.length ≤ INT_MAX →
      («matches» p w = true → r.Language w) ∧ (r.Unambiguous → («matches» p w = true ↔ r.Language w)) := by
  intro _
  have hnew : new r.text = some r.pattern := (construct_text r).1 _ (Nat.lt_succ_self _)
  refine ⟨r.pattern, hnew, fun w hw => ?_⟩
  have hsound : «matches» r.pattern w = true → r.Language w := fun h =>
    r.language_of_denotes (denotes_of_matches _ (proper_of_construct hnew) h)
  refine ⟨hsound, fun hr => ⟨hsound, fun h => ?_⟩⟩
  exact matches_of_denotes (r.denotes_of_language hw h) (r.deterministic hr).1

/-- The numerals, which are written `0|\-?[1-9][0-9]*`. -/
def numerals : Regex true :=
  .bar (.last (.literal 48) .once) (.next (.literal 45) .optional
    (.next (.set false [.range 49 57 (by decide) (by decide)]) .once
      (.last (.set false [.range 48 57 (by decide) (by decide)]) .star)))

theorem repeated_once {set : CharSet} {w : Bytes} : Repeated set .once w ↔ ∃ c, set.Has c ∧ w = [c] := by
  constructor
  · intro h
    have hleast : 1 ≤ w.length := h.least
    have hmost : w.length ≤ 1 := h.most 1 rfl
    obtain ⟨c, rfl⟩ := List.length_eq_one_iff.mp (by omega : w.length = 1)
    exact ⟨c, h.chars c List.mem_cons_self, rfl⟩
  · rintro ⟨c, hc, rfl⟩
    refine ⟨by simpa using hc, le_rfl, fun m hm => ?_⟩
    cases hm
    exact le_rfl

theorem numerals_unambiguous : numerals.Unambiguous := by
  refine ⟨trivial, .inr ?_, .inl rfl, trivial⟩
  rintro c v ⟨u, v', heq, hu, -⟩ rfl
  obtain ⟨d, ⟨item, hitem, hd⟩, rfl⟩ := repeated_once.mp hu
  obtain ⟨rfl, -⟩ := List.cons.inj heq
  obtain rfl := List.mem_singleton.mp hitem
  exact absurd hd.1 (by decide)

/-- A numeral is matched, and nothing that starts with a zero but the zero. -/
theorem matches_written_numerals : numerals.text = utf8 "0|\\-?[1-9][0-9]*" ∧
    ∃ p, new numerals.text = some p ∧ «matches» p (utf8 "-42") = true ∧ «matches» p (utf8 "042") ≠ true := by
  obtain ⟨p, hnew, hmatches⟩ := matches_written numerals (by decide)
  refine ⟨by decide, p, hnew, ?_, fun h => ?_⟩
  · refine ((hmatches _ (by decide)).2 numerals_unambiguous).mpr (.inr ⟨[45], [52, 50], rfl, ?_, ?_⟩)
    · exact ⟨by simp [CharSet.Has], by decide, fun m hm => by cases hm; decide⟩
    · refine ⟨[52], [50], rfl, repeated_once.mpr ⟨52, ⟨_, List.mem_cons_self, by decide, by decide⟩, rfl⟩, ?_⟩
      refine ⟨fun c hc => ⟨_, List.mem_cons_self, ?_⟩, by decide, fun m hm => by cases hm⟩
      obtain rfl := List.mem_singleton.mp hc
      exact ⟨by decide, by decide⟩
  · rcases (hmatches _ (by decide)).1 h with hzero | ⟨u, v, heq, hu, v₁, v₂, rfl, hv, -⟩
    · exact absurd (hzero.most 1 rfl) (by decide)
    · obtain ⟨d, ⟨item, hitem, hd⟩, rfl⟩ := repeated_once.mp hv
      obtain rfl := List.mem_singleton.mp hitem
      cases u with
      | nil =>
        obtain ⟨rfl, -⟩ := List.cons.inj heq
        exact absurd hd.1 (by decide)
      | cons c u =>
        obtain ⟨rfl, -⟩ := List.cons.inj heq
        exact absurd (hu.chars _ List.mem_cons_self) (by simp [CharSet.Has])

/-- The comment warns of this one. -/
example : (new (utf8 "[0-9]?1")).map (fun p => «matches» p (utf8 "1")) = some false := by decide +kernel

end Pattern

end Afterglow.Testlib
