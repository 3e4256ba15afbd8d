import Mathlib.Data.List.Nodup
import Mathlib.Data.List.Perm.Subperm
import Mathlib.Data.Set.Card

/-!
# Capacities

Two ways to hand out a limited resource, seen from the local states of the threads that may hold it. A
counting semaphore knows how many units are out (`Counted`); a pool knows which of its tokens are
(`Dealt`). Each operation moves one thread at a time.
-/

namespace Afterglow.Concurrency

variable {ι L τ : Type} [DecidableEq ι]

/-! ## Counting semaphores -/

/-- Exactly `n` threads are in a local state that satisfies `p`. -/
def Counted (p : L → Prop) (ℓ : ι → L) (n : ℕ) : Prop := {i | p (ℓ i)}.encard = n

section Counted

variable {p : L → Prop} {ℓ : ι → L} {i : ι} {l : L} {n : ℕ}

/-- A thread joins the holders. -/
theorem Counted.acquire (h : Counted p ℓ n) (hi : ¬ p (ℓ i)) (hl : p l) :
    Counted p (Function.update ℓ i l) (n + 1) := by
  have hset : {j | p (Function.update ℓ i l j)} = insert i {j | p (ℓ j)} := by
    ext j
    by_cases hj : j = i
    · simp [hj, hl]
    · simp [hj]
  rw [Counted, hset, Set.encard_insert_of_notMem (s := {j | p (ℓ j)}) hi, h]
  rfl

/-- A holder leaves. -/
theorem Counted.release (h : Counted p ℓ n) (hi : p (ℓ i)) (hl : ¬ p l) :
    0 < n ∧ Counted p (Function.update ℓ i l) (n - 1) := by
  have hset : {j | p (Function.update ℓ i l j)} = {j | p (ℓ j)} \ {i} := by
    ext j
    by_cases hj : j = i
    · simp [hj, hl]
    · simp [hj]
  have hcard := Set.encard_sdiff_singleton_add_one (s := {j | p (ℓ j)}) (a := i) hi
  rw [h] at hcard
  cases n with
  | zero => exact absurd hcard (by simp)
  | succ n =>
    refine ⟨Nat.succ_pos n, ?_⟩
    rw [Counted, hset, Nat.add_sub_cancel]
    exact ENat.add_left_injective_of_ne_top ENat.one_ne_top hcard

/-- A thread moves on without acquiring or releasing. -/
theorem Counted.stay (h : Counted p ℓ n) (hl : p l ↔ p (ℓ i)) :
    Counted p (Function.update ℓ i l) n := by
  have hset : {j | p (Function.update ℓ i l j)} = {j | p (ℓ j)} := by
    ext j
    by_cases hj : j = i
    · simp [hj, hl]
    · simp [hj]
  rw [Counted, hset]
  exact h

omit [DecidableEq ι] in
theorem Counted.exists_holder (h : Counted p ℓ n) (hn : 0 < n) : ∃ i, p (ℓ i) := by
  have hne : {i | p (ℓ i)}.encard ≠ 0 := by
    rw [h]
    exact_mod_cast hn.ne'
  exact Set.nonempty_of_encard_ne_zero hne

omit [DecidableEq ι] in
theorem counted_zero (h : ∀ i, ¬ p (ℓ i)) : Counted p ℓ 0 := by
  simp [Counted, h]

end Counted

/-! ## Pools of distinct tokens -/

/-- Every token is either free or held by exactly one thread. -/
structure Dealt (tokens free : List τ) (held : ι → Option τ) : Prop where
  nodup : free.Nodup
  mem : ∀ t, t ∈ tokens ↔ t ∈ free ∨ ∃ i, held i = some t
  apart : ∀ i t, held i = some t → t ∉ free
  inj : ∀ i j t, held i = some t → held j = some t → i = j

section Dealt

variable {tokens free : List τ} {held : ι → Option τ} {i : ι} {t : τ}

omit [DecidableEq ι] in
theorem dealt_start (h : tokens.Nodup) : Dealt tokens tokens fun _ : ι => none where
  nodup := h
  mem := by simp
  apart := by simp
  inj := by simp

/-- A thread takes the first free token. -/
theorem Dealt.take (h : Dealt tokens (t :: free) held) (hi : held i = none) :
    Dealt tokens free (Function.update held i (some t)) := by
  obtain ⟨hfree, hnodup⟩ := List.nodup_cons.mp h.nodup
  refine ⟨hnodup, ?_, ?_, ?_⟩
  · intro t'
    rw [h.mem, List.mem_cons]
    constructor
    · rintro ((rfl | hmem) | ⟨j, hj⟩)
      · exact .inr ⟨i, Function.update_self _ _ _⟩
      · exact .inl hmem
      · have hne : j ≠ i := by
          rintro rfl
          exact absurd (hj.symm.trans hi) (by simp)
        exact .inr ⟨j, by rw [Function.update_of_ne hne, hj]⟩
    · rintro (hmem | ⟨j, hj⟩)
      · exact .inl (.inr hmem)
      · by_cases hij : j = i
        · rw [hij, Function.update_self] at hj
          exact .inl (.inl (Option.some.inj hj).symm)
        · rw [Function.update_of_ne hij] at hj
          exact .inr ⟨j, hj⟩
  · intro j t' hj hmem
    by_cases hij : j = i
    · rw [hij, Function.update_self] at hj
      obtain rfl := Option.some.inj hj
      exact hfree hmem
    · rw [Function.update_of_ne hij] at hj
      exact h.apart j t' hj (List.mem_cons_of_mem _ hmem)
  · intro j j' t' hj hj'
    have hnew : ∀ k, held k ≠ some t := fun k hk => h.apart k t hk (List.mem_cons_self)
    grind [h.inj, Function.update_apply]

/-- A holder puts its token back. -/
theorem Dealt.put (h : Dealt tokens free held) (hi : held i = some t) :
    Dealt tokens (free ++ [t]) (Function.update held i none) := by
  have hother : ∀ j t', Function.update held i none j = some t' → j ≠ i ∧ held j = some t' := by
    grind [Function.update_apply]
  refine ⟨?_, ?_, ?_, ?_⟩
  · rw [List.nodup_append_comm, List.singleton_append, List.nodup_cons]
    exact ⟨h.apart i t hi, h.nodup⟩
  · intro t'
    rw [h.mem, List.mem_append, List.mem_singleton]
    constructor
    · rintro (hmem | ⟨j, hj⟩)
      · exact .inl (.inl hmem)
      · by_cases hij : j = i
        · subst hij
          exact .inl (.inr (Option.some.inj (hj.symm.trans hi)))
        · exact .inr ⟨j, by rw [Function.update_of_ne hij, hj]⟩
    · rintro ((hmem | rfl) | ⟨j, hj⟩)
      · exact .inl hmem
      · exact .inr ⟨i, hi⟩
      · exact .inr ⟨j, (hother j t' hj).2⟩
  · intro j t' hj hmem
    obtain ⟨hne, hj'⟩ := hother j t' hj
    rcases List.mem_append.mp hmem with hmem | hmem
    · exact h.apart j t' hj' hmem
    · obtain rfl := List.mem_singleton.mp hmem
      exact hne (h.inj j i t' hj' hi)
  · intro j j' t' hj hj'
    exact h.inj j j' t' (hother j t' hj).2 (hother j' t' hj').2

/-- A thread moves on with the token it has. -/
theorem Dealt.stay {q : L → Option τ} {ℓ : ι → L} {l : L} (h : Dealt tokens free fun j => q (ℓ j))
    (hl : q l = q (ℓ i)) : Dealt tokens free fun j => q (Function.update ℓ i l j) := by
  have hsame : (fun j => q (Function.update ℓ i l j)) = fun j => q (ℓ j) := by
    funext j
    by_cases hj : j = i
    · simp [hj, hl]
    · simp [hj]
  rw [hsame]
  exact h

omit [DecidableEq ι] in
/-- There is room for a token that is out. -/
theorem Dealt.length_lt (h : Dealt tokens free held) (hi : held i = some t) :
    free.length < tokens.length := by
  have hnodup : (t :: free).Nodup := List.nodup_cons.mpr ⟨h.apart i t hi, h.nodup⟩
  have hsub : t :: free ⊆ tokens := by
    intro t' hmem
    rcases List.mem_cons.mp hmem with rfl | hmem
    · exact (h.mem _).mpr (.inr ⟨i, hi⟩)
    · exact (h.mem _).mpr (.inl hmem)
  exact (List.subperm_of_subset hnodup hsub).length_le

omit [DecidableEq ι] in
/-- If no token is free, some thread holds one. -/
theorem Dealt.exists_holder (h : Dealt tokens [] held) (htokens : tokens ≠ []) :
    ∃ i t, held i = some t := by
  obtain ⟨t, ht⟩ := List.exists_mem_of_ne_nil tokens htokens
  rcases (h.mem t).mp ht with hmem | ⟨i, hi⟩
  · exact absurd hmem (by simp)
  · exact ⟨i, t, hi⟩

end Dealt

end Afterglow.Concurrency
