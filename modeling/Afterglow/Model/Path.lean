import Mathlib.Tactic.ByContra
import Afterglow.Model.Text

/-!
# Lexical paths

`filepath.Clean`, `filepath.IsLocal` and `fs.ValidPath` agree on what a path inside a root is: read off its
elements onto a stack, `..` never finds the stack empty. `walk` is this reading, and everything about the
three functions is stated in terms of it.
-/

namespace Afterglow

/-! ## Elements -/

/-- An element that names an entry of a directory. -/
def Proper (element : List Char) : Prop :=
  element ≠ [] ∧ element ≠ ['.'] ∧ element ≠ ['.', '.'] ∧ '/' ∉ element

theorem slash_notMem_of_mem_splitOn {path element : List Char} (h : element ∈ path.splitOn '/') :
    '/' ∉ element := by
  induction path generalizing element with
  | nil =>
    rw [List.splitOn_nil, List.mem_singleton] at h
    rw [h]
    exact List.not_mem_nil
  | cons c path ih =>
    rw [List.splitOn_cons_eq_if_modifyHead] at h
    split at h
    case isTrue =>
      rcases List.mem_cons.mp h with rfl | h
      · exact List.not_mem_nil
      · exact ih h
    case isFalse hc =>
      obtain ⟨first, rest, hsplit⟩ := List.exists_cons_of_ne_nil (List.splitOn_ne_nil '/' path)
      rw [hsplit, List.modifyHead_cons] at h
      rcases List.mem_cons.mp h with rfl | h
      · have hfirst := @ih first (by rw [hsplit]; exact List.mem_cons_self)
        simp only [beq_iff_eq] at hc
        simp [hfirst, Ne.symm hc]
      · exact ih (by rw [hsplit]; exact List.mem_cons_of_mem _ h)

/-- Elements joined to a path. -/
def joinPath (elements : List (List Char)) : List Char := ['/'].intercalate elements

theorem splitOn_joinPath {elements : List (List Char)} (hslash : ∀ e ∈ elements, '/' ∉ e)
    (hne : elements ≠ []) : (joinPath elements).splitOn '/' = elements :=
  List.splitOn_intercalate '/' hslash hne

theorem joinPath_cons (first : List Char) (rest : List (List Char)) :
    ∃ tail, joinPath (first :: rest) = first ++ tail ∧ (tail = [] ∨ ∃ tail', tail = '/' :: tail') := by
  cases rest with
  | nil => exact ⟨[], by simp [joinPath], .inl rfl⟩
  | cons second rest =>
    refine ⟨'/' :: joinPath (second :: rest), ?_, .inr ⟨_, rfl⟩⟩
    rw [joinPath, List.intercalate_cons_cons]
    simp [joinPath]

/-- A path of elements that are not empty is relative and not empty. -/
theorem head?_joinPath {elements : List (List Char)} (hslash : ∀ e ∈ elements, '/' ∉ e)
    (hempty : [] ∉ elements) (hne : elements ≠ []) :
    joinPath elements ≠ [] ∧ (joinPath elements).head? ≠ some '/' := by
  obtain ⟨first, rest, rfl⟩ := List.exists_cons_of_ne_nil hne
  obtain ⟨tail, htail, -⟩ := joinPath_cons first rest
  cases first with
  | nil => exact absurd List.mem_cons_self hempty
  | cons c first =>
    have hc : c ≠ '/' := by
      rintro rfl
      exact hslash _ List.mem_cons_self List.mem_cons_self
    rw [htail]
    simp [hc]

/-- The last element ends in an extension exactly if the path does. -/
theorem suffix_joinPath {elements : List (List Char)} {last ext : List Char} (hext : '/' ∉ ext) :
    ext <:+ joinPath (elements ++ [last]) ↔ ext <:+ last := by
  induction elements with
  | nil => simp [joinPath]
  | cons first rest ih =>
    have hne : rest ++ [last] ≠ [] := by simp
    rw [List.cons_append, joinPath, List.intercalate_cons_of_ne_nil hne]
    constructor
    · intro h
      refine ih.mp ?_
      by_contra hshort
      -- Otherwise the extension reaches back over the slash.
      have hlong : '/' :: joinPath (rest ++ [last]) <:+ ext := by
        have hsuffix : '/' :: joinPath (rest ++ [last]) <:+
            first ++ ['/'] ++ ['/'].intercalate (rest ++ [last]) := ⟨first, by simp [joinPath]⟩
        rcases List.suffix_or_suffix_of_suffix h hsuffix with hle | hle
        · rcases List.suffix_cons_iff.mp hle with rfl | hle
          · exact List.suffix_rfl
          · exact absurd hle hshort
        · exact hle
      exact hext (hlong.mem List.mem_cons_self)
    · intro h
      exact (ih.mpr h).trans (List.suffix_append _ _)

/-! ## Reading a path -/

/-- One element against the entered directories, last first; `none` when it leaves the root. -/
def walkStep (entered : List (List Char)) (element : List Char) : Option (List (List Char)) :=
  if element = [] ∨ element = ['.'] then some entered
  else if element = ['.', '.'] then
    match entered with
    | [] => none
    | _ :: rest => some rest
  else some (element :: entered)

/-- The elements of a path, read off one by one. -/
def walk (path : List Char) : Option (List (List Char)) := (path.splitOn '/').foldlM walkStep []

theorem mem_of_foldlM_walkStep {elements entered entered' : List (List Char)} {e : List Char}
    (h : elements.foldlM walkStep entered = some entered') (he : e ∈ entered') :
    e ∈ elements ∨ e ∈ entered := by
  induction elements generalizing entered with
  | nil =>
    cases h
    exact .inr he
  | cons element rest ih =>
    rw [List.foldlM_cons] at h
    obtain ⟨next, hstep, hrest⟩ := Option.bind_eq_some_iff.mp h
    rcases ih hrest with hmem | hmem
    · exact .inl (List.mem_cons_of_mem _ hmem)
    · unfold walkStep at hstep
      split at hstep
      · cases hstep
        exact .inr hmem
      · split at hstep
        · cases entered with
          | nil => cases hstep
          | cons top below =>
            cases hstep
            exact .inr (List.mem_cons_of_mem _ hmem)
        · cases hstep
          rcases List.mem_cons.mp hmem with rfl | hmem
          · exact .inl List.mem_cons_self
          · exact .inr hmem

/-- What was entered is a part of the path. -/
theorem infix_of_walk {path e : List Char} {entered : List (List Char)} (h : walk path = some entered)
    (he : e ∈ entered) : e <:+: path := by
  rcases mem_of_foldlM_walkStep h he with he | he
  · have hinfix : e <:+: ['/'].intercalate (path.splitOn '/') := infix_intercalate he
    rwa [List.intercalate_splitOn] at hinfix
  · cases he

/-- What `filepath.Clean` keeps of the elements of a relative path. -/
def kept (elements : List (List Char)) : List (List Char) := elements.foldl (cleanStep false) []

theorem cleanStep_of_walkStep {entered entered' : List (List Char)} {element : List Char}
    (hproper : ∀ e ∈ entered, Proper e) (hslash : '/' ∉ element)
    (h : walkStep entered element = some entered') :
    cleanStep false entered element = entered' ∧ ∀ e ∈ entered', Proper e := by
  unfold walkStep at h
  unfold cleanStep
  split at h
  case isTrue hskip =>
    cases h
    exact ⟨if_pos hskip, hproper⟩
  case isFalse hskip =>
    rw [if_neg hskip]
    push Not at hskip
    split at h
    case isTrue hup =>
      rw [if_pos hup]
      cases entered with
      | nil => cases h
      | cons top rest =>
        cases h
        have htop := (hproper top List.mem_cons_self).2.2.1
        exact ⟨if_neg htop, fun e he => hproper e (List.mem_cons_of_mem _ he)⟩
    case isFalse hup =>
      cases h
      refine ⟨if_neg hup, ?_⟩
      intro e he
      rcases List.mem_cons.mp he with rfl | he
      · exact ⟨hskip.1, hskip.2, hup, hslash⟩
      · exact hproper e he

/-- A `..` at the bottom stays there. -/
theorem cleanStep_bottom {below : List (List Char)} (element : List Char)
    (h : below.getLast? = some ['.', '.']) :
    (cleanStep false below element).getLast? = some ['.', '.'] := by
  unfold cleanStep
  split
  · exact h
  · cases below with
    | nil => cases h
    | cons top rest =>
      split
      · dsimp only
        split
        · rw [List.getLast?_cons_cons]
          exact h
        case isFalse htop =>
          cases rest with
          | nil =>
            simp only [List.getLast?_singleton, Option.some.injEq] at h
            exact absurd h htop
          | cons second rest => rwa [List.getLast?_cons_cons] at h
      · rw [List.getLast?_cons_cons]
        exact h

theorem foldl_cleanStep_bottom {below : List (List Char)} (elements : List (List Char))
    (h : below.getLast? = some ['.', '.']) :
    (elements.foldl (cleanStep false) below).getLast? = some ['.', '.'] := by
  induction elements generalizing below with
  | nil => exact h
  | cons element rest ih => exact ih (cleanStep_bottom element h)

/-- Either the reading succeeds and `filepath.Clean` keeps what it entered, or a `..` is left at the
bottom. -/
theorem kept_walk {elements entered : List (List Char)} (hslash : ∀ e ∈ elements, '/' ∉ e)
    (hproper : ∀ e ∈ entered, Proper e) :
    (∃ entered', elements.foldlM walkStep entered = some entered' ∧
      elements.foldl (cleanStep false) entered = entered' ∧ ∀ e ∈ entered', Proper e) ∨
    elements.foldlM walkStep entered = none ∧
      (elements.foldl (cleanStep false) entered).getLast? = some ['.', '.'] := by
  induction elements generalizing entered with
  | nil => exact .inl ⟨entered, rfl, rfl, hproper⟩
  | cons element rest ih =>
    have hrest : ∀ e ∈ rest, '/' ∉ e := fun e he => hslash e (List.mem_cons_of_mem _ he)
    rw [List.foldlM_cons, List.foldl_cons]
    cases hstep : walkStep entered element with
    | some entered' =>
      obtain ⟨hclean, hproper'⟩ :=
        cleanStep_of_walkStep hproper (hslash element List.mem_cons_self) hstep
      rw [hclean]
      exact ih hrest hproper'
    | none =>
      refine .inr ⟨rfl, ?_⟩
      have hbottom : (cleanStep false entered element).getLast? = some ['.', '.'] := by
        unfold walkStep at hstep
        unfold cleanStep
        split at hstep
        · cases hstep
        case isFalse hskip =>
          split at hstep
          case isTrue hup =>
            cases entered with
            | nil => rw [if_neg hskip, if_pos hup, hup]; rfl
            | cons top rest => cases hstep
          · cases hstep
      exact foldl_cleanStep_bottom rest hbottom

/-- The elements that `filepath.Clean` keeps are not empty and have no slash. -/
theorem mem_foldl_cleanStep {elements below : List (List Char)} {e : List Char}
    (hslash : ∀ e ∈ elements, '/' ∉ e) (hbelow : ∀ e ∈ below, e ≠ [] ∧ '/' ∉ e)
    (he : e ∈ elements.foldl (cleanStep false) below) : e ≠ [] ∧ '/' ∉ e := by
  induction elements generalizing below with
  | nil => exact hbelow e he
  | cons element rest ih =>
    refine ih (fun e he => hslash e (List.mem_cons_of_mem _ he)) ?_ he
    have hnew : element ≠ [] → ∀ e ∈ element :: below, e ≠ [] ∧ '/' ∉ e := by
      intro hne e he
      rcases List.mem_cons.mp he with rfl | he
      · exact ⟨hne, hslash _ List.mem_cons_self⟩
      · exact hbelow e he
    unfold cleanStep
    split
    · exact hbelow
    case isFalse hskip =>
      push Not at hskip
      split
      · cases below with
        | nil => exact hnew hskip.1
        | cons top below =>
          dsimp only
          split
          · exact hnew hskip.1
          · exact fun e he => hbelow e (List.mem_cons_of_mem _ he)
      · exact hnew hskip.1

/-- `filepath.Clean` of a relative path. -/
theorem cleanPath_relative {path : List Char} (h : path.head? ≠ some '/') :
    cleanPath path =
      if kept (path.splitOn '/') = [] then ['.'] else joinPath (kept (path.splitOn '/')).reverse := by
  have hrel : decide (path.head? = some '/') = false := by simpa using h
  unfold cleanPath
  simp only [hrel, if_neg h, List.nil_append]
  change (if joinPath (kept (path.splitOn '/')).reverse = [] then ['.']
    else joinPath (kept (path.splitOn '/')).reverse) = _
  by_cases hnil : kept (path.splitOn '/') = []
  · rw [if_pos hnil, hnil]
    rfl
  · have hslash : ∀ e ∈ (kept (path.splitOn '/')).reverse, e ≠ [] ∧ '/' ∉ e := fun e he =>
      mem_foldl_cleanStep (fun e he => slash_notMem_of_mem_splitOn he) (by simp) (List.mem_reverse.mp he)
    have hne := (head?_joinPath (fun e he => (hslash e he).2) (fun he => (hslash [] he).1 rfl)
      (by simpa using hnil)).1
    rw [if_neg hne, if_neg hnil]

/-! ## Local paths -/

/-- A path that begins with `..` is not local. -/
theorem isLocalPath_of_dotdot {rest : List (List Char)} (hslash : ∀ e ∈ rest, '/' ∉ e) :
    isLocalPath (joinPath (['.', '.'] :: rest)) = false := by
  have hslash' : ∀ e ∈ ['.', '.'] :: rest, '/' ∉ e := by
    intro e he
    rcases List.mem_cons.mp he with rfl | he
    · decide
    · exact hslash e he
  have hsplit : (joinPath (['.', '.'] :: rest)).splitOn '/' = ['.', '.'] :: rest :=
    splitOn_joinPath hslash' (by simp)
  obtain ⟨tail, htail, -⟩ := joinPath_cons ['.', '.'] rest
  have hrel : (joinPath (['.', '.'] :: rest)).head? ≠ some '/' := by simp [htail]
  have hne : joinPath (['.', '.'] :: rest) ≠ [] := by simp [htail]
  -- Cleaning it once more leaves it with the `..` in front.
  have hbottom : (kept (['.', '.'] :: rest)).getLast? = some ['.', '.'] :=
    foldl_cleanStep_bottom rest rfl
  obtain ⟨entered, hentered⟩ : ∃ entered, kept (['.', '.'] :: rest) = entered ++ [['.', '.']] := by
    exact List.getLast?_eq_some_iff.mp hbottom
  have hclean : cleanPath (joinPath (['.', '.'] :: rest)) =
      joinPath (['.', '.'] :: entered.reverse) := by
    rw [cleanPath_relative hrel, hsplit, hentered, if_neg (by simp), List.reverse_append]
    rfl
  obtain ⟨tail', htail', hshape⟩ := joinPath_cons ['.', '.'] entered.reverse
  unfold isLocalPath
  rw [if_neg (by simp [hrel, hne]), hsplit]
  simp only [List.any_cons, decide_true, or_true, Bool.true_or, if_true, hclean, htail']
  rcases hshape with rfl | ⟨tail'', rfl⟩
  · simp
  · simp

/-- A path of proper elements is local. -/
theorem isLocalPath_of_proper {elements : List (List Char)} (hproper : ∀ e ∈ elements, Proper e)
    (hne : elements ≠ []) : isLocalPath (joinPath elements) = true := by
  have hslash : ∀ e ∈ elements, '/' ∉ e := fun e he => (hproper e he).2.2.2
  obtain ⟨hempty, hrel⟩ := head?_joinPath hslash (fun he => (hproper [] he).1 rfl) hne
  have hsplit := splitOn_joinPath hslash hne
  have hdots : (elements.any fun part => decide (part = ['.'] ∨ part = ['.', '.'])) = false := by
    rw [List.any_eq_false]
    intro e he
    simp [(hproper e he).2.1, (hproper e he).2.2.1]
  unfold isLocalPath
  rw [if_neg (by simp [hrel, hempty]), hsplit]
  simp only [hdots, Bool.false_eq_true, if_false]
  obtain ⟨first, rest, rfl⟩ := List.exists_cons_of_ne_nil hne
  have hfirst := (hproper first List.mem_cons_self).2.2.1
  have hnot : joinPath (first :: rest) ≠ ['.', '.'] ∧ ¬ ['.', '.', '/'] <+: joinPath (first :: rest) := by
    constructor
    · intro heq
      rw [heq] at hsplit
      cases hsplit
      exact hfirst rfl
    · rintro ⟨tail, heq⟩
      have hdots : ['.', '.', '/'] ++ tail = ['.', '.'] ++ '/' :: tail := rfl
      rw [← heq, hdots, List.splitOn_append_cons_self_of_not_mem (by decide)] at hsplit
      cases hsplit
      exact hfirst rfl
  simpa using hnot

theorem joinPath_ne_dot {elements : List (List Char)} (hproper : ∀ e ∈ elements, Proper e)
    (hne : elements ≠ []) : joinPath elements ≠ ['.'] := by
  intro heq
  have hsplit := splitOn_joinPath (fun e he => (hproper e he).2.2.2) hne
  rw [heq] at hsplit
  cases hsplit
  exact (hproper _ List.mem_cons_self).2.1 rfl

/-- A path of proper elements is valid, and reading it enters them all. -/
theorem validPath_joinPath {elements : List (List Char)} (hproper : ∀ e ∈ elements, Proper e)
    (hne : elements ≠ []) : validPath (joinPath elements) = true := by
  have hsplit := splitOn_joinPath (fun e he => (hproper e he).2.2.2) hne
  unfold validPath
  rw [hsplit, decide_eq_true_eq]
  refine .inr (List.all_eq_true.mpr fun e he => ?_)
  simp [(hproper e he).1, (hproper e he).2.1, (hproper e he).2.2.1]

theorem foldlM_walkStep_proper {elements entered : List (List Char)} (hproper : ∀ e ∈ elements, Proper e) :
    elements.foldlM walkStep entered = some (elements.reverse ++ entered) := by
  induction elements generalizing entered with
  | nil => rfl
  | cons element rest ih =>
    obtain ⟨hempty, hdot, hdots, -⟩ := hproper element List.mem_cons_self
    have hstep : walkStep entered element = some (element :: entered) := by
      unfold walkStep
      rw [if_neg (by simp [hempty, hdot]), if_neg hdots]
    rw [List.foldlM_cons, hstep]
    change rest.foldlM walkStep (element :: entered) = _
    rw [ih fun e he => hproper e (List.mem_cons_of_mem _ he)]
    simp

theorem walk_joinPath {elements : List (List Char)} (hproper : ∀ e ∈ elements, Proper e)
    (hne : elements ≠ []) : walk (joinPath elements) = some elements.reverse := by
  rw [walk, splitOn_joinPath (fun e he => (hproper e he).2.2.2) hne, foldlM_walkStep_proper hproper,
    List.append_nil]

/-- Cleaning a relative path, if reading it stays inside the root. -/
theorem cleanPath_of_walk {path : List Char} {entered : List (List Char)}
    (hrel : path.head? ≠ some '/') (h : walk path = some entered) :
    (cleanPath path = if entered = [] then ['.'] else joinPath entered.reverse) ∧
      ∀ e ∈ entered, Proper e := by
  obtain ⟨entered', hwalk, hkept, hproper⟩ | ⟨hnone, -⟩ :=
    @kept_walk (path.splitOn '/') [] (fun e he => slash_notMem_of_mem_splitOn he) (by simp)
  · rw [walk, hwalk] at h
    cases h
    rw [cleanPath_relative hrel, kept, hkept]
    exact ⟨rfl, hproper⟩
  · rw [walk, hnone] at h
    cases h

/-- Cleaning a relative path, if reading it leaves the root. -/
theorem isLocalPath_cleanPath_of_walk {path : List Char} (hrel : path.head? ≠ some '/')
    (h : walk path = none) : cleanPath path ≠ ['.'] ∧ isLocalPath (cleanPath path) = false := by
  have hslash : ∀ e ∈ path.splitOn '/', '/' ∉ e := fun e he => slash_notMem_of_mem_splitOn he
  obtain ⟨entered', hwalk, -⟩ | ⟨-, hbottom⟩ := @kept_walk _ [] hslash (by simp)
  · rw [walk, hwalk] at h
    cases h
  · obtain ⟨entered, hentered⟩ : ∃ entered, kept (path.splitOn '/') = entered ++ [['.', '.']] := by
      exact List.getLast?_eq_some_iff.mp hbottom
    have hclean : cleanPath path = joinPath (['.', '.'] :: entered.reverse) := by
      rw [cleanPath_relative hrel, hentered, if_neg (by simp), List.reverse_append]
      rfl
    obtain ⟨tail, htail, -⟩ := joinPath_cons ['.', '.'] entered.reverse
    refine ⟨by rw [hclean, htail]; simp, ?_⟩
    rw [hclean]
    refine isLocalPath_of_dotdot fun e he => ?_
    have hmem : e ∈ kept (path.splitOn '/') := by
      rw [hentered]
      exact List.mem_append_left _ (List.mem_reverse.mp he)
    exact (mem_foldl_cleanStep hslash (by simp) hmem).2

/-- A rooted path stays rooted when it is cleaned, so it is not local. -/
theorem isLocalPath_cleanPath_rooted {path : List Char} (h : path.head? = some '/') :
    cleanPath path ≠ ['.'] ∧ isLocalPath (cleanPath path) = false := by
  obtain ⟨tail, hclean⟩ : ∃ tail, cleanPath path = '/' :: tail := by
    unfold cleanPath
    simp only [h, if_true]
    exact ⟨_, by rw [if_neg (by simp)]; rfl⟩
  rw [hclean]
  exact ⟨by simp, by simp [isLocalPath]⟩

end Afterglow
