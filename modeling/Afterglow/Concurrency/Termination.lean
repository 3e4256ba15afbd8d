import Mathlib.Data.DFinsupp.WellFounded
import Afterglow.Concurrency.System

/-!
# Runs that end

Every answer brings a program closer to its return, because programs are well-founded trees. A run in
which only finitely many threads take part is therefore finite, however the threads are interleaved and
whatever the answers are. There need not be a bound on its length.
-/

namespace Afterglow.Concurrency

variable {E : Type} {R : E → Type} {ι S : Type} {α : ι → Type}

namespace Prog

/-- `q` is what is left of `p` after an answer. -/
def Next {β : Type} (q p : Prog E R β) : Prop := ∃ e k r, p = .op e k ∧ q = k r

theorem next_wellFounded {β : Type} : WellFounded (Next : Prog E R β → Prog E R β → Prop) := by
  refine ⟨fun p => ?_⟩
  induction p with
  | ret a =>
    refine ⟨_, ?_⟩
    rintro q ⟨e, k, r, hp, -⟩
    cases hp
  | op e k ih =>
    refine ⟨_, ?_⟩
    rintro q ⟨e', k', r, hp, rfl⟩
    cases hp
    exact ih r

end Prog

section Closer

variable {n : ℕ} (threads : Fin n → ι)

/-- The listed threads are closer to their returns: the first of them that moved did so by an answer. -/
def Closer : ((m : Fin n) → Prog E R (α (threads m))) → ((m : Fin n) → Prog E R (α (threads m))) → Prop :=
  Pi.Lex (· < ·) fun {_} => Prog.Next

theorem closer_wellFounded : WellFounded (@Closer E R ι α n threads) :=
  Pi.Lex.wellFounded _ fun _ => Prog.next_wellFounded

/-- A step of a listed thread. -/
theorem closer_advance [DecidableEq ι] (c : Config E R ι S α) {i : ι} (hi : ∃ m, threads m = i) {e : E}
    {k : R e → Prog E R (α i)} (hprog : c.prog i = .op e k) (r : R e) (s : S) :
    Closer threads (fun m => (c.advance i e r s (k r)).prog (threads m)) fun m => c.prog (threads m) := by
  -- a thread may be listed more than once, and its first place counts
  obtain ⟨first, hfirst, hmin⟩ : ∃ first, threads first = i ∧ ∀ m < first, threads m ≠ i := by
    obtain ⟨m, hm⟩ := hi
    have hne : (Finset.univ.filter fun m => threads m = i).Nonempty := ⟨m, by simp [hm]⟩
    refine ⟨_, (Finset.mem_filter.mp (Finset.min'_mem _ hne)).2, ?_⟩
    intro m' hlt heq
    exact absurd (Finset.min'_le _ m' (by simp [heq])) (not_le.mpr hlt)
  subst hfirst
  refine ⟨first, ?_, e, k, r, hprog, ?_⟩
  · intro m hlt
    exact Function.update_of_ne (hmin m hlt) _ _
  · exact Function.update_self _ _ _

end Closer

/-- Where only listed threads move, there is no infinite run. -/
theorem no_infinite_run [DecidableEq ι] {sem : Semantics E R ι S} {c₀ : Config E R ι S α} (threads : List ι)
    (hmoves : ∀ c i e k r s, Reachable sem c₀ c → c.prog i = .op e k → sem.act i c.shared e r s →
      i ∈ threads) :
    ¬ ∃ run : ℕ → Config E R ι S α, run 0 = c₀ ∧ ∀ t, Step sem (run t) (run (t + 1)) := by
  rintro ⟨run, hstart, hsteps⟩
  have hreach : ∀ t, Reachable sem c₀ (run t) := by
    intro t
    induction t with
    | zero => exact hstart ▸ Relation.ReflTransGen.refl
    | succ t ih => exact ih.tail (hsteps t)
  have hcloser : ∀ t, Closer threads.get (fun m => (run (t + 1)).prog (threads.get m))
      fun m => (run t).prog (threads.get m) := by
    intro t
    generalize hnext : run (t + 1) = next
    have hstep := hsteps t
    rw [hnext] at hstep
    obtain ⟨hprog, hact⟩ := hstep
    have hlisted := List.mem_iff_get.mp (hmoves _ _ _ _ _ _ (hreach t) hprog hact)
    exact closer_advance threads.get (run t) hlisted hprog _ _
  exact (wellFounded_iff_isEmpty_descending_chain.mp (closer_wellFounded threads.get)).false
    ⟨fun t m => (run t).prog (threads.get m), hcloser⟩

end Afterglow.Concurrency
