import Afterglow.Engine.Op

/-!
# The slots of cases

`runAllCases` hands a batch to the goroutines of its cases and collects their results in a slice.
Whatever programs run, what is read from these slots was put there: a case begins with what its request
started, and `wg.Wait` returns what the cases ended with.
-/

namespace Afterglow.Engine

open Concurrency

/-- What the slots hold and what was read from them is in the trace. -/
structure SlotInv (s : State) (tr : Trace) : Prop where
  batch : ∀ j b, s.batches j = some b → ∃ i, i.request = j ∧ Did tr i (.goCases b) ()
  result : ∀ j n res, s.results j n = some res → Did tr (.case j n) (.caseEnd res) ()
  ended : ∀ j n res, Did tr (.case j n) (.caseEnd res) () → (s.results j n).isSome
  begun : ∀ j n ctx runner data, Did tr (.case j n) .caseBegin (ctx, runner, data) →
    ∃ i b, i.request = j ∧ Did tr i (.goCases b) () ∧ b.ctx = ctx ∧ b.runner = runner ∧
      b.cases[n]? = some data
  waited : ∀ i r, Did tr i .wgWait r → ∃ i' b, i'.request = i.request ∧ Did tr i' (.goCases b) () ∧
    r.length = b.cases.length ∧
    ∀ n res, r[n]? = some res → Did tr (.case i.request n) (.caseEnd res) ()

/-- The operations on slots. -/
def Op.SlotQuiet : Op → Prop
  | .goCases _ | .caseBegin | .caseEnd _ | .wgWait => False
  | _ => True

theorem act_slot_quiet {i : Tid} {s s' : State} {e : Op} {r : e.Ans} (he : e.SlotQuiet)
    (h : act i s e r s') : s'.batches = s.batches ∧ s'.results = s.results := by
  unfold act at h
  split at h
  all_goals first | exact absurd he id | grind [State.setDir]

section Steps

variable {s s' : State} {tr : Trace} {i : Tid} {e : Op} {r : e.Ans}

/-- A longer trace, given what its last entry brings along. -/
theorem SlotInv.snoc (inv : SlotInv s tr)
    (hbatch : ∀ j b, s'.batches j = some b →
      s.batches j = some b ∨ i.request = j ∧ e = .goCases b)
    (hresult : ∀ j n res, s'.results j n = some res →
      s.results j n = some res ∨ i = .case j n ∧ e = .caseEnd res)
    (hkept : ∀ j n, (s.results j n).isSome → (s'.results j n).isSome)
    (hended : ∀ j n res, i = .case j n → e = .caseEnd res → (s'.results j n).isSome)
    (hbegun : ∀ j n ctx runner data, i = .case j n →
      (⟨e, r⟩ : Event Op Op.Ans) = ⟨.caseBegin, (ctx, runner, data)⟩ →
      ∃ i' b, i'.request = j ∧ Did tr i' (.goCases b) () ∧ b.ctx = ctx ∧ b.runner = runner ∧
        b.cases[n]? = some data)
    (hwaited : ∀ rs, (⟨e, r⟩ : Event Op Op.Ans) = ⟨.wgWait, rs⟩ →
      ∃ i' b, i'.request = i.request ∧ Did tr i' (.goCases b) () ∧ rs.length = b.cases.length ∧
        ∀ n res, rs[n]? = some res → Did tr (.case i.request n) (.caseEnd res) ()) :
    SlotInv s' (tr ++ [⟨⟨e, r⟩, i⟩]) where
  batch j b hb := by
    rcases hbatch j b hb with hb | ⟨hi, rfl⟩
    · obtain ⟨i', hi', hdid⟩ := inv.batch j b hb
      exact ⟨i', hi', hdid.append _⟩
    · exact ⟨i, hi, did_last _ _ _ _⟩
  result j n res hres := by
    rcases hresult j n res hres with hres | ⟨rfl, rfl⟩
    · exact (inv.result j n res hres).append _
    · exact did_last _ _ _ _
  ended j n res hdid := by
    rcases did_snoc.mp hdid with hdid | heq
    · exact hkept j n (inv.ended j n res hdid)
    · exact hended j n res (congrArg Entry.who heq).symm (congrArg (fun en => en.op) heq).symm
  begun j n ctx runner data hdid := by
    rcases did_snoc.mp hdid with hdid | heq
    · obtain ⟨i', b, hi', hgo, hrest⟩ := inv.begun j n ctx runner data hdid
      exact ⟨i', b, hi', hgo.append _, hrest⟩
    · obtain ⟨i', b, hi', hgo, hrest⟩ := hbegun j n ctx runner data (congrArg Entry.who heq).symm
        (congrArg Entry.toEvent heq).symm
      exact ⟨i', b, hi', hgo.append _, hrest⟩
  waited i' rs hdid := by
    rcases did_snoc.mp hdid with hdid | heq
    · obtain ⟨i'', b, hi'', hgo, hlen, hres⟩ := inv.waited i' rs hdid
      exact ⟨i'', b, hi'', hgo.append _, hlen, fun n res hn => (hres n res hn).append _⟩
    · obtain rfl : i' = i := congrArg Entry.who heq
      obtain ⟨i'', b, hi'', hgo, hlen, hres⟩ := hwaited rs (congrArg Entry.toEvent heq).symm
      exact ⟨i'', b, hi'', hgo.append _, hlen, fun n res hn => (hres n res hn).append _⟩

theorem SlotInv.step (inv : SlotInv s tr) (hact : act i s e r s') :
    SlotInv s' (tr ++ [⟨⟨e, r⟩, i⟩]) := by
  by_cases hquiet : e.SlotQuiet
  · obtain ⟨hbatches, hresults⟩ := act_slot_quiet hquiet hact
    refine inv.snoc ?_ ?_ ?_ ?_ ?_ ?_
    · intro j b hb
      exact .inl (hbatches ▸ hb)
    · intro j n res hres
      exact .inl (hresults ▸ hres)
    · intro j n hres
      exact hresults ▸ hres
    · rintro j n res - rfl
      exact absurd hquiet id
    · rintro j n ctx runner data - ⟨⟩
      exact absurd hquiet id
    · rintro rs ⟨⟩
      exact absurd hquiet id
  cases e with
  | goCases batch =>
    obtain rfl : s' = _ := hact
    refine inv.snoc ?_ (fun j n res hres => .inl hres) (fun j n hres => hres) (by simp) (by simp)
      (by simp)
    intro j b hb
    by_cases hj : j = i.request
    · subst hj
      simp only [Function.update_self] at hb
      obtain rfl := Option.some.inj hb
      exact .inr ⟨rfl, rfl⟩
    · exact .inl ((Function.update_of_ne hj _ _).symm.trans hb)
  | caseBegin =>
    obtain ⟨rfl, j, n, batch, rfl, hbatch, hctx, hrunner, hdata⟩ := hact
    refine inv.snoc (fun j b hb => .inl hb) (fun j n res hres => .inl hres) (fun j n hres => hres)
      (by simp) ?_ (by simp)
    rintro j' n' ctx runner data heq ⟨⟩
    obtain ⟨rfl, rfl⟩ := Tid.case.inj heq
    obtain ⟨i', hi', hgo⟩ := inv.batch j batch hbatch
    exact ⟨i', batch, hi', hgo, hctx, hrunner, hdata⟩
  | caseEnd res =>
    obtain ⟨j, n, rfl, rfl⟩ := hact
    -- only the entry of this case is set
    have hslot : ∀ j' n', ¬ (j' = j ∧ n' = n) →
        Function.update s.results j (Function.update (s.results j) n (some res)) j' n' =
          s.results j' n' := by
      intro j' n' hne
      by_cases hj : j' = j
      · subst hj
        rw [Function.update_self, Function.update_of_ne (fun hn => hne ⟨rfl, hn⟩)]
      · rw [Function.update_of_ne hj]
    refine inv.snoc (fun j b hb => .inl hb) ?_ ?_ ?_ (by simp) (by simp)
    · intro j' n' res' hres'
      by_cases heq : j' = j ∧ n' = n
      · obtain ⟨rfl, rfl⟩ := heq
        simp only [Function.update_self] at hres'
        obtain rfl := Option.some.inj hres'
        exact .inr ⟨rfl, rfl⟩
      · exact .inl ((hslot j' n' heq).symm.trans hres')
    · intro j' n' hsome
      by_cases heq : j' = j ∧ n' = n
      · obtain ⟨rfl, rfl⟩ := heq
        simp
      · simp only [hslot j' n' heq]
        exact hsome
    · intro j' n' res' heq _
      obtain ⟨rfl, rfl⟩ := Tid.case.inj heq
      simp
  | wgWait =>
    obtain ⟨rfl, batch, hbatch, hlen, hget⟩ := hact
    refine inv.snoc (fun j b hb => .inl hb) (fun j n res hres => .inl hres) (fun j n hres => hres)
      (by simp) (by simp) ?_
    rintro rs ⟨⟩
    -- the waiter takes exactly the results that the cases have set
    obtain ⟨i', hi', hgo⟩ := inv.batch i.request batch hbatch
    exact ⟨i', batch, hi', hgo, hlen, fun n res hn => inv.result _ n res (hget n res hn)⟩
  | _ => exact absurd trivial hquiet

end Steps

/-- The slots of any system of engine programs. -/
theorem slotInv_reachable {α : Tid → Type} {p : (i : Tid) → EProg (α i)} {judgeMax execMax : ℕ}
    {cpus : List ℕ} {c : Config Op Op.Ans Tid State α}
    (h : Reachable semantics (.start (State.new judgeMax execMax cpus) p) c) :
    SlotInv c.shared c.trace := by
  refine h.induct (P := fun c => SlotInv c.shared c.trace) ?_ ?_
  · constructor <;> simp [Config.start, State.new, Did]
  · intro c i e k r s _ inv _ hact
    exact inv.step hact

end Afterglow.Engine
