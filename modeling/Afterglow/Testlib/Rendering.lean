import Afterglow.Testlib.DefaultChecker

/-!
# Renderings of a list of lines

A rendering fixes what the default checker is meant to ignore: padding at the ends of lines, the line
terminators, blank lines at the end, a missing last terminator and a byte order mark. All renderings
of a list of lines are the same text to the checker.
-/

namespace Afterglow.Testlib

/-- What stands behind a line: a run over space, tab, form feed and vertical tab, and `LF` or `CRLF`.
-/
structure Ending where
  pad : Bytes
  crlf : Bool
  blank : ∀ c ∈ pad, c = 32 ∨ c = 9 ∨ c = 12 ∨ c = 11

def Ending.terminator (e : Ending) : Bytes := if e.crlf then [CR, LF] else [LF]

/-- The text of the lines with their endings; `cut` omits the last terminator. -/
def render (cut : Bool) : List (Bytes × Ending) → Bytes
  | [] => []
  | [(l, e)] => l ++ (e.pad ++ if cut then [] else e.terminator)
  | (l, e) :: next :: rest => l ++ (e.pad ++ (e.terminator ++ render cut (next :: rest)))

/-- A byte string that renders `lines`: with one ending for each line, further blank lines, possibly
no last terminator and possibly a byte order mark in front. -/
def Renders (lines : List Bytes) (r : Bytes) : Prop :=
  ∃ (bom cut : Bool) (ends extra : List Ending), ends.length = lines.length ∧
    r = (if bom then utf8Bom else []) ++ render cut (lines.zip ends ++ extra.map ([], ·))

/-- Lines as they are rendered: no `CR` or `LF`, and no byte order mark at the start. -/
structure Renderable (lines : List Bytes) : Prop where
  cr : ∀ l ∈ lines, CR ∉ l
  lf : ∀ l ∈ lines, LF ∉ l
  bom : ∀ l, lines.head? = some l → ¬ utf8Bom <+: l

section Ending

variable (e : Ending)

theorem Ending.isTrailing {c : UInt8} (hc : c ∈ e.pad) : isTrailing c = true := by
  rcases e.blank c hc with rfl | rfl | rfl | rfl <;> decide

theorem Ending.cr_notMem : CR ∉ e.pad := by
  intro h
  exact absurd (e.blank CR h) (by decide)

theorem Ending.lf_notMem : LF ∉ e.pad := by
  intro h
  exact absurd (e.blank LF h) (by decide)

/-- The terminated line is the first piece. -/
theorem normalizeLines_terminated (l b : Bytes) (isFirstLine : Bool) (hl : LF ∉ l) :
    normalizeLines isFirstLine ((l ++ (e.pad ++ (e.terminator ++ b))).splitOn LF)
      = normalizeLine l isFirstLine :: normalizeLines false (b.splitOn LF) := by
  cases hcrlf : e.crlf with
  | true =>
    have hlf : LF ∉ l ++ (e.pad ++ [CR]) := by
      simp only [List.mem_append, not_or]
      exact ⟨hl, e.lf_notMem, by decide⟩
    have heq : l ++ (e.pad ++ (e.terminator ++ b)) = (l ++ (e.pad ++ [CR])) ++ LF :: b := by
      simp [Ending.terminator, hcrlf]
    rw [heq, List.splitOn_append_cons_self_of_not_mem hlf, normalizeLines,
      normalizeLine_append_blanks]
    intro c hc
    rcases List.mem_append.mp hc with hc | hc
    · exact e.isTrailing hc
    · rw [List.mem_singleton.mp hc]
      decide
  | false =>
    have hlf : LF ∉ l ++ e.pad := by
      simp only [List.mem_append, not_or]
      exact ⟨hl, e.lf_notMem⟩
    have heq : l ++ (e.pad ++ (e.terminator ++ b)) = (l ++ e.pad) ++ LF :: b := by
      simp [Ending.terminator, hcrlf]
    rw [heq, List.splitOn_append_cons_self_of_not_mem hlf, normalizeLines,
      normalizeLine_append_blanks]
    exact fun c hc => e.isTrailing hc

end Ending

/-- The normal form of a text in terms of the lines that it renders. -/
theorem trim_render (cut isFirstLine : Bool) (w : List (Bytes × Ending))
    (hlf : ∀ x ∈ w, LF ∉ x.1) :
    (normalizeLines isFirstLine ((render cut w).splitOn LF)).rdropWhile List.isEmpty
      = (normalizeLines isFirstLine (w.map Prod.fst)).rdropWhile List.isEmpty := by
  induction w generalizing isFirstLine with
  | nil => cases isFirstLine <;> rfl
  | cons x w ih =>
    obtain ⟨l, e⟩ := x
    have hl : LF ∉ l := hlf (l, e) (by simp)
    cases w with
    | nil =>
      cases cut with
      | true =>
        have hlf : LF ∉ l ++ e.pad := by
          simp only [List.mem_append, not_or]
          exact ⟨hl, e.lf_notMem⟩
        simp only [render, if_true, List.append_nil]
        rw [List.splitOn_eq_singleton hlf, normalizeLines,
          normalizeLine_append_blanks _ _ _ (fun c hc => e.isTrailing hc)]
        rfl
      | false =>
        have hterm := normalizeLines_terminated e l [] isFirstLine hl
        simp only [render, Bool.false_eq_true, if_false]
        rw [List.append_nil] at hterm
        rw [hterm, rdropWhile_cons, List.map_singleton, normalizeLines, rdropWhile_cons]
        rfl
    | cons next w =>
      rw [render, normalizeLines_terminated e _ _ _ hl, rdropWhile_cons,
        ih false (fun x hx => hlf x (by simp [hx])), ← rdropWhile_cons]
      rfl

theorem noBareCr_render (cut : Bool) (w : List (Bytes × Ending)) (hcr : ∀ x ∈ w, CR ∉ x.1) :
    NoBareCr (render cut w) := by
  have hterm : ∀ (e : Ending) (b : Bytes), NoBareCr b → NoBareCr (e.terminator ++ b) := by
    intro e b hb
    unfold Ending.terminator
    split
    · exact ⟨fun _ => rfl, fun h => absurd h (by decide), hb⟩
    · exact ⟨fun h => absurd h (by decide), hb⟩
  induction w with
  | nil => trivial
  | cons x w ih =>
    obtain ⟨l, e⟩ := x
    have hl : CR ∉ l := hcr (l, e) (by simp)
    cases w with
    | nil =>
      rw [render, noBareCr_append hl, noBareCr_append e.cr_notMem]
      cases cut with
      | true => trivial
      | false => simpa using hterm e [] trivial
    | cons next w =>
      rw [render, noBareCr_append hl, noBareCr_append e.cr_notMem]
      exact hterm e _ (ih fun x hx => hcr x (by simp [hx]))

/-- What follows a line does not complete a byte order mark. -/
theorem not_bom_prefix_render (cut : Bool) (w : List (Bytes × Ending))
    (hbom : ∀ x, w.head? = some x → ¬ utf8Bom <+: x.1) : ¬ utf8Bom <+: render cut w := by
  have hend : ∀ (e : Ending) (b : Bytes), (∀ c, b.head? = some c → c ∉ utf8Bom) →
      ∀ c, (e.pad ++ b).head? = some c → c ∉ utf8Bom := by
    intro e b hb c hc
    cases hpad : e.pad with
    | nil =>
      rw [hpad] at hc
      exact hb c hc
    | cons d pad =>
      rw [hpad] at hc
      obtain rfl : d = c := Option.some.inj hc
      rcases e.blank d (by simp [hpad]) with rfl | rfl | rfl | rfl <;> decide
  have hterm : ∀ (e : Ending) (b : Bytes) (c : UInt8),
      (e.terminator ++ b).head? = some c → c ∉ utf8Bom := by
    intro e b c hc
    unfold Ending.terminator at hc
    split at hc
    · obtain rfl : CR = c := Option.some.inj hc
      decide
    · obtain rfl : LF = c := Option.some.inj hc
      decide
  have hstep : ∀ l b : Bytes, ¬ utf8Bom <+: l → (∀ c, b.head? = some c → c ∉ utf8Bom) →
      ¬ utf8Bom <+: l ++ b := by
    intro l b hl hb
    cases b with
    | nil => simpa using hl
    | cons c b => exact fun h => hl ((utf8Bom_prefix_append (hb c rfl)).mp h)
  match w with
  | [] => exact fun h => absurd (List.prefix_nil.mp h) (by decide)
  | [(l, e)] =>
    rw [render]
    refine hstep _ _ (hbom _ rfl) (hend e _ ?_)
    cases cut with
    | true => simp
    | false => simpa using hterm e []
  | (l, e) :: next :: w =>
    rw [render]
    exact hstep _ _ (hbom _ rfl) (hend e _ (hterm e _))

/-- Blank lines at the end are dropped. -/
theorem trim_append_empty (isFirstLine : Bool) (lines : List Bytes) (n : ℕ) :
    (normalizeLines isFirstLine (lines ++ List.replicate n [])).rdropWhile List.isEmpty
      = (normalizeLines isFirstLine lines).rdropWhile List.isEmpty := by
  induction lines generalizing isFirstLine with
  | nil =>
    rw [List.nil_append, normalizeLines, List.rdropWhile_nil, List.rdropWhile_eq_nil_iff]
    induction n generalizing isFirstLine with
    | zero => simp [normalizeLines]
    | succ n ih =>
      intro l hl
      rw [List.replicate_succ, normalizeLines, List.mem_cons] at hl
      rcases hl with rfl | hl
      · cases isFirstLine <;> rfl
      · exact ih false l hl
  | cons l lines ih =>
    rw [List.cons_append, normalizeLines, normalizeLines, rdropWhile_cons, ih, ← rdropWhile_cons]

/-- All renderings have the normal form of their lines, for either of the two streams. -/
theorem Renders.normalForm_eq {lines : List Bytes} (hlines : Renderable lines) {r : Bytes}
    (h : Renders lines r) :
    normalForm (dropBareCr r) = normalPieces lines ∧
      normalForm (dropBareCr (dropBom r)) = normalPieces lines := by
  obtain ⟨bom, cut, ends, extra, hlen, rfl⟩ := h
  -- the lines with their endings, and empty lines behind them
  set w := lines.zip ends ++ extra.map ([], ·) with hw
  have hfst : w.map Prod.fst = lines ++ List.replicate extra.length [] := by
    rw [hw, List.map_append, List.map_fst_zip (by omega), List.map_map]
    congr 1
    exact List.map_const'
  have hmem : ∀ x ∈ w, x.1 ∈ lines ∨ x.1 = [] := by
    intro x hx
    have : x.1 ∈ w.map Prod.fst := List.mem_map_of_mem hx
    rw [hfst, List.mem_append] at this
    exact this.imp_right List.eq_of_mem_replicate
  have hcr : NoBareCr (render cut w) := by
    apply noBareCr_render
    intro x hx
    rcases hmem x hx with hx | hx
    · exact hlines.cr _ hx
    · simp [hx]
  have hhead : ¬ utf8Bom <+: render cut w := by
    apply not_bom_prefix_render
    intro x hx
    have hx' : (w.map Prod.fst).head? = some x.1 := by simp [hx]
    rw [hfst] at hx'
    cases lines with
    | nil =>
      have hnil := List.eq_of_mem_replicate (List.mem_of_mem_head? hx')
      rw [hnil]
      decide
    | cons l lines => exact hlines.bom _ hx'
  have hnormal : normalForm (render cut w) = normalPieces lines := by
    have hlf : ∀ x ∈ w, LF ∉ x.1 := by
      intro x hx
      rcases hmem x hx with hx | hx
      · exact hlines.lf _ hx
      · simp [hx]
    rw [normalForm, normalPieces_eq, trim_render cut true w hlf, hfst, trim_append_empty,
      normalPieces_eq]
  cases bom with
  | true =>
    have hdrop : dropBom (utf8Bom ++ render cut w) = render cut w :=
      if_pos (List.prefix_append _ _)
    have hcr' : NoBareCr (utf8Bom ++ render cut w) := (noBareCr_append (by decide)).mpr hcr
    simp only [if_true]
    rw [hdrop, dropBareCr_of_noBareCr hcr, dropBareCr_of_noBareCr hcr', normalForm_bom_append hhead]
    exact ⟨hnormal, hnormal⟩
  | false =>
    have hdrop : dropBom (render cut w) = render cut w := if_neg hhead
    simp only [Bool.false_eq_true, if_false, List.nil_append]
    rw [hdrop, dropBareCr_of_noBareCr hcr]
    exact ⟨hnormal, hnormal⟩

/-- The checker ignores rendering, of the output and of the answer, and accepts any two renderings of
the same lines. -/
theorem main_ignores_rendering {lines : List Bytes} (hlines : Renderable lines) {r₁ r₂ : Bytes}
    (h₁ : Renders lines r₁) (h₂ : Renders lines r₂) (inf x : Bytes)
    (hinf : inf.length ≤ maxFileSize) (hr₁ : r₁.length ≤ maxFileSize)
    (hr₂ : r₂.length ≤ maxFileSize) (hx : x.length ≤ maxFileSize) :
    main inf r₁ x = main inf r₂ x ∧ main inf x r₁ = main inf x r₂ ∧ main inf r₂ r₁ = .exit 0 := by
  obtain ⟨hans₁, houf₁⟩ := h₁.normalForm_eq hlines
  obtain ⟨hans₂, houf₂⟩ := h₂.normalForm_eq hlines
  refine ⟨?_, ?_, ?_⟩
  · rw [main_eq hinf hr₁ hx, main_eq hinf hr₂ hx, houf₁, houf₂]
  · rw [main_eq hinf hx hr₁, main_eq hinf hx hr₂, hans₁, hans₂]
  · rw [main_eq hinf hr₂ hr₁, hans₁, houf₂, if_pos rfl]

/-- The line `a`, once with a byte order mark and a `CRLF`, once padded and followed by a blank
line without a terminator, against the text `b`. -/
theorem main_ignores_rendering_one_line :
    main [] (utf8Bom ++ [97, 13, 10]) [98] = main [] [97, 32, 10, 9] [98] ∧
      main [] [98] (utf8Bom ++ [97, 13, 10]) = main [] [98] [97, 32, 10, 9] ∧
      main [] [97, 32, 10, 9] (utf8Bom ++ [97, 13, 10]) = .exit 0 := by
  have hlines : Renderable [[97]] := by
    refine ⟨by decide, by decide, ?_⟩
    intro l hl
    obtain rfl : [97] = l := Option.some.inj hl
    decide
  have h₁ : Renders [[97]] (utf8Bom ++ [97, 13, 10]) :=
    ⟨true, false, [⟨[], true, by decide +kernel⟩], [], rfl, rfl⟩
  have h₂ : Renders [[97]] [97, 32, 10, 9] :=
    ⟨false, true, [⟨[32], false, by decide +kernel⟩], [⟨[9], false, by decide +kernel⟩], rfl, rfl⟩
  have hsize : ∀ b : Bytes, b.length ≤ 6 → b.length ≤ maxFileSize := by
    intro b hb
    unfold maxFileSize
    omega
  exact main_ignores_rendering hlines h₁ h₂ [] [98] (hsize _ (by decide)) (hsize _ (by decide))
    (hsize _ (by decide)) (hsize _ (by decide))

end Afterglow.Testlib
