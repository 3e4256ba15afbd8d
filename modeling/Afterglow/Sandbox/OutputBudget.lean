import Mathlib.Algebra.BigOperators.Group.Finset.Basic
import Mathlib.Algebra.BigOperators.Ring.Finset
import Mathlib.Algebra.Order.BigOperators.Group.Finset
import Mathlib.Algebra.Order.Ring.Int
import Mathlib.Data.Fintype.BigOperators
import Afterglow.Sandbox.OutputLimiter

/-!
# The output budget is kept under every interleaving

The invariant counts granted bytes that are not yet appended as spent: the buffers and the bytes
outstanding always add up to `used`. A thread only ever touches the writer whose mutex it holds, so
each step is checked on one writer (`BudgetInv.touch`) and the rest is frame.
-/

namespace Afterglow.Sandbox

open Concurrency

variable {ω ι : Type} [DecidableEq ω]

/-! ## The invariant -/

/-- The phase of the thread that holds the mutex of `w`. -/
def phaseOf (b : Budget ω ι) (ℓ : ι → Phase ω) (w : ω) : Phase ω :=
  ((b.writers w).mu.map ℓ).getD .idle

/-- What writer `w` costs the budget: its buffer and the bytes on their way into it. -/
def charge (b : Budget ω ι) (ℓ : ι → Phase ω) (w : ω) : ℤ :=
  (b.writers w).buf.length + (phaseOf b ℓ w).outstanding

/-- A writer with no call in the middle of its bookkeeping: all bytes `out` written to it are kept,
or it is flagged, has dropped some of them, and the budget is spent. -/
def Settled (l : OutputLimiter) (x : LimitedWriter ι) (out : Bytes) : Prop :=
  if x.overflowed then x.buf <+: out ∧ x.buf.length < out.length ∧ l.used = l.limit
  else x.buf = out

/-- A writer's state in each phase of the call that holds its mutex. -/
def WriterOk (l : OutputLimiter) (x : LimitedWriter ι) (out : Bytes) : Phase ω → Prop
  | .idle | .closing _ => Settled l x out
  | .checking _ p => ∃ old, out = old ++ p ∧ Settled l x old
  | .reserving _ p => x.overflowed = false ∧ out = x.buf ++ p
  | .granted _ p n => x.overflowed = false ∧ out = x.buf ++ p ∧ 0 ≤ n ∧ n ≤ p.length ∧
      (n < p.length → l.used = l.limit)
  | .appended _ p n => x.overflowed = false ∧
      (∃ old, out = old ++ p ∧ x.buf = old ++ p.take n.toNat) ∧ 0 ≤ n ∧ n ≤ p.length ∧
      (n < p.length → l.used = l.limit)
  | .flagged _ => x.overflowed = true ∧ Settled l x out

variable [Fintype ω]

/-- The budget invariant. -/
structure BudgetInv (limit : ℤ) (b : Budget ω ι) (tr : List (Entry (WriteOp ω) WriteOp.Ans ι))
    (ℓ : ι → Phase ω) : Prop where
  limit_eq : b.limiter.limit = limit
  used_le : b.limiter.used ≤ limit
  mu_iff : ∀ w i, (b.writers w).mu = some i ↔ (ℓ i).writer = some w
  sum_charge : ∑ w, charge b ℓ w = b.limiter.used
  writer_ok : ∀ w, WriterOk b.limiter (b.writers w) (written w tr) (phaseOf b ℓ w)
  closes_eq : b.limiter.closes = if b.limiter.once then 1 else 0
  once_overflowed : b.limiter.once = true → ∃ w, (b.writers w).overflowed = true
  overflowed_signalled : ∀ w, (b.writers w).overflowed = true →
    b.limiter.once = true ∨ ∃ i v, ℓ i = .flagged v

omit [DecidableEq ω] [Fintype ω] in
/-- A spent budget stays a reason for dropped bytes when `used` moves towards the limit. -/
theorem WriterOk.of_limiter {l l' : OutputLimiter} {x : LimitedWriter ι} {out : Bytes}
    {ph : Phase ω} (h : WriterOk l x out ph) (hfull : l.used = l.limit → l'.used = l'.limit) :
    WriterOk l' x out ph := by
  have hsettled : ∀ out, Settled l x out → Settled l' x out := by
    intro out h
    unfold Settled at h ⊢
    split at h
    · next ho =>
        rw [if_pos ho]
        exact ⟨h.1, h.2.1, hfull h.2.2⟩
    · next ho =>
        rw [if_neg ho]
        exact h
  cases ph with
  | idle => exact hsettled _ h
  | closing w => exact hsettled _ h
  | checking w p =>
      obtain ⟨old, hout, hs⟩ := h
      exact ⟨old, hout, hsettled _ hs⟩
  | reserving w p => exact h
  | granted w p n => exact ⟨h.1, h.2.1, h.2.2.1, h.2.2.2.1, fun hn => hfull (h.2.2.2.2 hn)⟩
  | appended w p n => exact ⟨h.1, h.2.1, h.2.2.1, h.2.2.2.1, fun hn => hfull (h.2.2.2.2 hn)⟩
  | flagged w => exact ⟨h.1, hsettled _ h.2⟩

omit [DecidableEq ω] in
private theorem sum_change {f g : ω → ℤ} (w : ω) (h : ∀ v, v ≠ w → g v = f v) :
    ∑ v, g v = ∑ v, f v - f w + g w := by
  classical
  have hrest : ∑ v ∈ Finset.univ.erase w, g v = ∑ v ∈ Finset.univ.erase w, f v :=
    Finset.sum_congr rfl fun v hv => h v (Finset.ne_of_mem_erase hv)
  rw [← Finset.add_sum_erase _ g (Finset.mem_univ w), ← Finset.add_sum_erase _ f (Finset.mem_univ w),
    hrest]
  omega

namespace BudgetInv

variable [DecidableEq ι] {limit : ℤ} {b b' : Budget ω ι}
  {tr tr' : List (Entry (WriteOp ω) WriteOp.Ans ι)} {ℓ : ι → Phase ω} {i : ι} {w : ω}
  {ph : Phase ω}

/-- A step of thread `i` that only touches writer `w`, whose mutex it holds before or after. The
other writers keep their state and phase, so what is left to check concerns `w` and the signal. -/
theorem touch (inv : BudgetInv limit b tr ℓ)
    (hbefore : (b.writers w).mu = none ∧ ℓ i = .idle ∨ (b.writers w).mu = some i)
    (hafter : (b'.writers w).mu = none ∧ ph = .idle ∨
      (b'.writers w).mu = some i ∧ ph.writer = some w)
    (hframe : ∀ v, v ≠ w → b'.writers v = b.writers v)
    (hwritten : ∀ v, v ≠ w → written v tr' = written v tr)
    (hlimit : b'.limiter.limit = b.limiter.limit) (hused : b'.limiter.used ≤ limit)
    (hfull : b.limiter.used = b.limiter.limit → b'.limiter.used = b'.limiter.limit)
    (hcharge : charge b' (Function.update ℓ i ph) w - charge b ℓ w =
      b'.limiter.used - b.limiter.used)
    (hok : WriterOk b'.limiter (b'.writers w) (written w tr') ph)
    (hcloses : b'.limiter.closes = if b'.limiter.once then 1 else 0)
    (honce : b'.limiter.once = true → ∃ v, (b'.writers v).overflowed = true)
    (hsignal : ∀ v, (b'.writers v).overflowed = true →
      b'.limiter.once = true ∨ ∃ j u, Function.update ℓ i ph j = .flagged u) :
    BudgetInv limit b' tr' (Function.update ℓ i ph) := by
  -- thread `i` holds no other mutex than that of `w`
  have hother : ∀ v, v ≠ w → (b.writers v).mu ≠ some i := by
    intro v hv hmu
    have hi := (inv.mu_iff v i).mp hmu
    rcases hbefore with ⟨-, hidle⟩ | hmine
    · rw [hidle] at hi
      cases hi
    · rw [(inv.mu_iff w i).mp hmine] at hi
      exact hv (Option.some.inj hi).symm
  have hphase : ∀ v, v ≠ w → phaseOf b' (Function.update ℓ i ph) v = phaseOf b ℓ v := by
    intro v hv
    unfold phaseOf
    rw [hframe v hv]
    cases hmu : (b.writers v).mu with
    | none => rfl
    | some j =>
        have hji : j ≠ i := fun hji => hother v hv (hji ▸ hmu)
        simp [Function.update_of_ne hji]
  have hself : phaseOf b' (Function.update ℓ i ph) w = ph := by
    unfold phaseOf
    rcases hafter with ⟨hmu, rfl⟩ | ⟨hmu, -⟩ <;> simp [hmu]
  refine ⟨hlimit.trans inv.limit_eq, hused, ?_, ?_, ?_, hcloses, honce, hsignal⟩
  · intro v j
    by_cases hji : j = i
    · subst hji
      rw [Function.update_self]
      by_cases hv : v = w
      · subst hv
        rcases hafter with ⟨hmu, rfl⟩ | ⟨hmu, hw⟩
        · simp [hmu, Phase.writer]
        · simp [hmu, hw]
      · rw [hframe v hv]
        have hne : ph.writer ≠ some v := by
          rcases hafter with ⟨-, rfl⟩ | ⟨-, hw⟩
          · simp [Phase.writer]
          · rw [hw]
            exact fun h => hv (Option.some.inj h).symm
        exact iff_of_false (hother v hv) hne
    · rw [Function.update_of_ne hji]
      by_cases hv : v = w
      · subst hv
        have hne : (ℓ j).writer ≠ some v := by
          intro hj
          have hmu := (inv.mu_iff v j).mpr hj
          rcases hbefore with ⟨hnone, -⟩ | hmine
          · rw [hnone] at hmu
            cases hmu
          · rw [hmine] at hmu
            exact hji (Option.some.inj hmu).symm
        refine iff_of_false ?_ hne
        rcases hafter with ⟨hmu, -⟩ | ⟨hmu, -⟩
        · simp [hmu]
        · rw [hmu]
          exact fun h => hji (Option.some.inj h).symm
      · rw [hframe v hv]
        exact inv.mu_iff v j
  · rw [sum_change (f := charge b ℓ) w, inv.sum_charge]
    · omega
    · intro v hv
      unfold charge
      rw [hphase v hv, hframe v hv]
  · intro v
    by_cases hv : v = w
    · subst hv
      rw [hself]
      exact hok
    · rw [hphase v hv, hframe v hv, hwritten v hv]
      exact (inv.writer_ok v).of_limiter hfull

/-- `touch` for a step that changes the state of the held writer and nothing else of the budget. -/
theorem touch_writer (inv : BudgetInv limit b tr ℓ) {x : LimitedWriter ι}
    {en : Entry (WriteOp ω) WriteOp.Ans ι} (hnolock : ∀ v p, en.op ≠ .lock v p)
    (hbefore : (b.writers w).mu = some i)
    (hafter : x.mu = none ∧ ph = .idle ∨ x.mu = some i ∧ ph.writer = some w)
    (hcharge : (x.buf.length : ℤ) + ph.outstanding =
      (b.writers w).buf.length + (ℓ i).outstanding)
    (hok : WriterOk b.limiter x (written w tr) ph)
    (hflag : (b.writers w).overflowed = true → x.overflowed = true)
    (hsignal : ∀ v, ((b.setWriter w x).writers v).overflowed = true →
      b.limiter.once = true ∨ ∃ j u, Function.update ℓ i ph j = .flagged u) :
    BudgetInv limit (b.setWriter w x) (tr ++ [en]) (Function.update ℓ i ph) := by
  have hwritten : ∀ v, written v (tr ++ [en]) = written v tr := by
    intro v
    rw [written_snoc, written_of_not_lock v hnolock, List.append_nil]
  refine inv.touch (.inr hbefore) (by simpa using hafter)
    (fun v hv => b.setWriter_of_ne hv x) (fun v _ => hwritten v) rfl inv.used_le id ?_ ?_
    inv.closes_eq ?_ hsignal
  · have hmine : phaseOf b ℓ w = ℓ i := by simp [phaseOf, hbefore]
    have hself : phaseOf (b.setWriter w x) (Function.update ℓ i ph) w = ph := by
      rcases hafter with ⟨hmu, rfl⟩ | ⟨hmu, -⟩ <;> simp [phaseOf, hmu]
    unfold charge
    rw [hmine, hself, Budget.setWriter_self, Budget.setWriter_limiter]
    omega
  · rw [hwritten, Budget.setWriter_self]
    exact hok
  · intro ho
    obtain ⟨v, hv⟩ := inv.once_overflowed ho
    refine ⟨v, ?_⟩
    by_cases hvw : v = w
    · subst hvw
      rw [Budget.setWriter_self]
      exact hflag hv
    · rw [Budget.setWriter_of_ne _ hvw]
      exact hv

/-- The flags are explained by the same threads when thread `i` was not about to signal. -/
theorem signal_frame (inv : BudgetInv limit b tr ℓ) (hi : ∀ v, ℓ i ≠ .flagged v) (ph : Phase ω)
    (v : ω) (hv : (b.writers v).overflowed = true) :
    b.limiter.once = true ∨ ∃ j u, Function.update ℓ i ph j = .flagged u := by
  rcases inv.overflowed_signalled v hv with honce | ⟨j, u, hj⟩
  · exact .inl honce
  · have hji : j ≠ i := by
      rintro rfl
      exact hi u hj
    exact .inr ⟨j, u, by rw [Function.update_of_ne hji, hj]⟩

/-- Taking the mutex: the chunk is now written to `w`, and nothing of it is kept yet. -/
theorem lock (inv : BudgetInv limit b tr ℓ) (hidle : ℓ i = .idle) (p : Bytes)
    (hfree : (b.writers w).mu = none) (r : WriteOp.Ans (.lock w p)) :
    BudgetInv limit (b.setWriter w { b.writers w with mu := some i })
      (tr ++ [⟨⟨.lock w p, r⟩, i⟩]) (Function.update ℓ i (.checking w p)) := by
  have hflags : ∀ v, ((b.setWriter w { b.writers w with mu := some i }).writers v).overflowed =
      (b.writers v).overflowed := by
    intro v
    by_cases hv : v = w
    · subst hv
      simp
    · rw [Budget.setWriter_of_ne _ hv]
  refine inv.touch (.inl ⟨hfree, hidle⟩) (.inr ⟨by simp, rfl⟩)
    (fun v hv => b.setWriter_of_ne hv _) ?_ rfl inv.used_le id ?_ ?_ inv.closes_eq ?_ ?_
  · intro v hv
    simp [written_snoc, Ne.symm hv]
  · simp [charge, phaseOf, hfree, Phase.outstanding]
  · have hok := inv.writer_ok w
    simp only [phaseOf, hfree, Option.map_none, Option.getD_none] at hok
    refine ⟨written w tr, by simp [written_snoc], ?_⟩
    simpa [WriterOk, Settled] using hok
  · intro ho
    obtain ⟨v, hv⟩ := inv.once_overflowed ho
    exact ⟨v, (hflags v).trans hv⟩
  · intro v hv
    rw [hflags] at hv
    exact inv.signal_frame (by simp [hidle]) _ v hv

/-- Asking for the budget: what is granted is outstanding until the append. -/
theorem reserve (inv : BudgetInv limit b tr ℓ) {p : Bytes} (hph : ℓ i = .reserving w p)
    {n : ℤ} {b' : Budget ω ι} (hres : (n, b'.limiter) = b.limiter.reserve p.length)
    (hwriters : b'.writers = b.writers) :
    BudgetInv limit b' (tr ++ [⟨⟨.reserve p.length, n⟩, i⟩])
      (Function.update ℓ i (.granted w p n)) := by
  have hmine : (b.writers w).mu = some i := (inv.mu_iff w i).mpr (by rw [hph]; rfl)
  have hok := inv.writer_ok w
  simp only [phaseOf, hmine, Option.map_some, Option.getD_some, hph] at hok
  have hlim := inv.limit_eq
  have hle : b.limiter.used ≤ b.limiter.limit := hlim ▸ inv.used_le
  obtain ⟨hl, hn0, hnp, hused, hfull⟩ := OutputLimiter.reserve_spec hres (by omega) hle
  have hlim' : b'.limiter.limit = b.limiter.limit := by rw [hl]
  have hused' : b'.limiter.used = b.limiter.used + n := by rw [hl]
  have honce' : b'.limiter.once = b.limiter.once := by rw [hl]
  have hcloses' : b'.limiter.closes = b.limiter.closes := by rw [hl]
  refine inv.touch (.inr hmine) (.inr ⟨by rw [hwriters]; exact hmine, rfl⟩)
    (fun v _ => by rw [hwriters]) ?_ hlim' (by omega) (by omega) ?_ ?_ ?_ ?_ ?_
  · intro v _
    rw [written_snoc, written_of_not_lock v (by simp), List.append_nil]
  · simp only [charge, phaseOf, hwriters, hmine, Option.map_some, Option.getD_some,
      Function.update_self, hph, Phase.outstanding]
    omega
  · rw [written_snoc, written_of_not_lock w (by simp), List.append_nil, hwriters]
    exact ⟨hok.1, hok.2, hn0, hnp, fun hn => by rw [hlim']; exact hfull hn⟩
  · rw [hcloses', honce']
    exact inv.closes_eq
  · rw [hwriters, honce']
    exact inv.once_overflowed
  · intro v hv
    rw [hwriters] at hv
    rw [honce']
    exact inv.signal_frame (by simp [hph]) _ v hv

/-- Sending the signal: the channel is closed by the first sender and by no other. -/
theorem signal (inv : BudgetInv limit b tr ℓ) (hph : ℓ i = .flagged w) (r : WriteOp.Ans .signal) :
    BudgetInv limit { b with limiter := b.limiter.signal } (tr ++ [⟨⟨.signal, r⟩, i⟩])
      (Function.update ℓ i (.closing w)) := by
  have hmine : (b.writers w).mu = some i := (inv.mu_iff w i).mpr (by rw [hph]; rfl)
  have hok := inv.writer_ok w
  simp only [phaseOf, hmine, Option.map_some, Option.getD_some, hph] at hok
  have hl := b.limiter.signal_spec
  have hlimit : b.limiter.signal.limit = b.limiter.limit := by rw [hl]
  have hused : b.limiter.signal.used = b.limiter.used := by rw [hl]
  have honce : b.limiter.signal.once = true := by rw [hl]
  have hcloses : b.limiter.signal.closes = 1 := by
    rw [hl]
    have h := inv.closes_eq
    split at h <;> simp_all
  have hwritten : ∀ v, written v (tr ++ [⟨⟨.signal, r⟩, i⟩]) = written v tr := by
    intro v
    rw [written_snoc, written_of_not_lock v (by simp), List.append_nil]
  have hfull : b.limiter.used = b.limiter.limit →
      b.limiter.signal.used = b.limiter.signal.limit := by
    rw [hlimit, hused]
    exact id
  refine inv.touch (.inr hmine) (.inr ⟨hmine, rfl⟩) (fun _ _ => rfl) (fun v _ => hwritten v)
    hlimit (by rw [hused]; exact inv.used_le) hfull ?_ ?_ (by simp [hcloses, honce]) ?_
    (fun _ _ => .inl honce)
  · simp [charge, phaseOf, hmine, hph, Phase.outstanding, hused]
  · rw [hwritten]
    have hclosing : WriterOk b.limiter _ _ (.closing w) := hok.2
    exact hclosing.of_limiter hfull
  · intro _
    exact ⟨w, hok.1⟩

omit [DecidableEq ι] in
/-- Once all granted bytes are in the buffer, the call has kept its chunk, or the first `n` bytes
of it on a spent budget. -/
theorem kept (inv : BudgetInv limit b tr ℓ) {p : Bytes} {n : ℤ} (hkept : (ℓ i).Kept w p n) :
    (b.writers w).mu = some i ∧ (b.writers w).overflowed = false ∧
      (∃ old, written w tr = old ++ p ∧ (b.writers w).buf = old ++ p.take n.toNat) ∧ 0 ≤ n ∧
      n ≤ p.length ∧ (n < p.length → b.limiter.used = b.limiter.limit) ∧ (ℓ i).outstanding = 0 := by
  have hmine : (b.writers w).mu = some i := by
    refine (inv.mu_iff w i).mpr ?_
    rcases hkept with h | ⟨h, -⟩ <;> rw [h] <;> rfl
  have hok := inv.writer_ok w
  simp only [phaseOf, hmine, Option.map_some, Option.getD_some] at hok
  rcases hkept with h | ⟨h, hn⟩
  · rw [h] at hok
    rw [h]
    exact ⟨hmine, hok.1, hok.2.1, hok.2.2.1, hok.2.2.2.1, hok.2.2.2.2, rfl⟩
  · rw [h] at hok
    obtain ⟨ho, hout, hn0, hnp, hfull⟩ := hok
    obtain rfl : n = 0 := le_antisymm hn hn0
    rw [h]
    exact ⟨hmine, ho, ⟨_, hout, by simp⟩, hn0, hnp, hfull, rfl⟩

end BudgetInv

/-- Every statement of `write` keeps the budget invariant. -/
theorem budget_upholds [DecidableEq ι] (limit : ℤ) :
    Upholds (@Budget.semantics ω ι _) (writeDiscipline ω ι) (BudgetInv limit) := by
  intro b tr ℓ i e r b' inv hpre hact
  -- the state of the writer that thread `i` holds, by the phase that the discipline demands
  have hheld : ∀ {w ph}, ℓ i = ph → ph.writer = some w → (b.writers w).mu = some i ∧
      WriterOk b.limiter (b.writers w) (written w tr) ph := by
    intro w ph hph hw
    have hmine := (inv.mu_iff w i).mpr (by rw [hph]; exact hw)
    have hok := inv.writer_ok w
    simp only [phaseOf, hmine, Option.map_some, Option.getD_some, hph] at hok
    exact ⟨hmine, hok⟩
  cases e with
  | lock w p =>
      obtain ⟨hfree, rfl⟩ := hact
      exact inv.lock hpre p hfree r
  | overflowed w =>
      obtain ⟨hr, rfl⟩ := hact
      obtain ⟨p, hph⟩ := hpre
      obtain ⟨hmine, old, hout, hs⟩ := hheld hph rfl
      have hb : b' = b'.setWriter w (b'.writers w) := by simp [Budget.setWriter]
      rw [hb]
      refine inv.touch_writer (by simp) hmine (.inr ⟨hmine, ?_⟩) ?_ ?_ id ?_
      · rw [hph]
        cases r <;> rfl
      · rw [hph]
        cases r <;> rfl
      · rw [hph]
        cases r with
        | true =>
            -- an overflowed writer drops the whole chunk
            have ho : (b'.writers w).overflowed = true := hr.symm
            show Settled _ _ _
            unfold Settled at hs ⊢
            rw [if_pos ho] at hs ⊢
            rw [hout]
            refine ⟨hs.1.trans (List.prefix_append _ _), ?_, hs.2.2⟩
            rw [List.length_append]
            omega
        | false =>
            have ho : (b'.writers w).overflowed = false := hr.symm
            unfold Settled at hs
            rw [if_neg (by simp [ho])] at hs
            exact ⟨ho, by rw [hout, hs]⟩
      · intro v hv
        rw [← hb] at hv
        exact inv.signal_frame (by simp [hph]) _ v hv
  | reserve n =>
      obtain ⟨w, p, hph, rfl⟩ := hpre
      rw [hph]
      exact inv.reserve hph hact.1 hact.2
  | append w chunk =>
      obtain rfl := hact
      obtain ⟨p, n, hph, hpos, rfl⟩ := hpre
      obtain ⟨hmine, ho, hout, hn0, hnp, hfull⟩ := hheld hph rfl
      rw [hph]
      refine inv.touch_writer (by simp) hmine (.inr ⟨hmine, rfl⟩) ?_ ?_ id ?_
      · simp only [hph, writeDiscipline, Phase.outstanding, List.length_append, List.length_take]
        omega
      · exact ⟨ho, ⟨_, hout, rfl⟩, hn0, hnp, hfull⟩
      · intro v hv
        refine inv.signal_frame (by simp [hph]) _ v ?_
        by_cases hvw : v = w
        · subst hvw
          simpa using hv
        · rwa [Budget.setWriter_of_ne _ hvw] at hv
  | setOverflowed w =>
      obtain rfl := hact
      obtain ⟨p, n, hkept, hlt⟩ := hpre
      obtain ⟨hmine, ho, ⟨old, hout, hbuf⟩, hn0, hnp, hfull, hzero⟩ := inv.kept hkept
      refine inv.touch_writer (by simp) hmine (.inr ⟨hmine, rfl⟩) ?_ ?_ (fun _ => rfl) ?_
      · rw [hzero]
        rfl
      · refine ⟨rfl, ?_⟩
        unfold Settled
        rw [if_pos rfl, hout]
        simp only [hbuf]
        refine ⟨(List.prefix_append_right_inj _).mpr (List.take_prefix _ _), ?_, hfull hlt⟩
        simp only [List.length_append, List.length_take]
        omega
      · intro v _
        exact .inr ⟨i, w, by simp [writeDiscipline]⟩
  | signal =>
      obtain rfl := hact
      obtain ⟨w, hph⟩ := hpre
      rw [hph]
      exact inv.signal hph r
  | unlock w =>
      obtain rfl := hact
      have hcases : (b.writers w).mu = some i ∧ Settled b.limiter (b.writers w) (written w tr) ∧
          (ℓ i).outstanding = 0 ∧ ∀ v, ℓ i ≠ .flagged v := by
        rcases hpre with hph | ⟨p, n, hkept, hge⟩
        · obtain ⟨hmine, hs⟩ := hheld hph rfl
          exact ⟨hmine, hs, by rw [hph]; rfl, by simp [hph]⟩
        · obtain ⟨hmine, ho, ⟨old, hout, hbuf⟩, hn0, hnp, -, hzero⟩ := inv.kept hkept
          refine ⟨hmine, ?_, hzero, ?_⟩
          · unfold Settled
            rw [if_neg (by simp [ho]), hbuf, hout, List.take_of_length_le (by omega)]
          · rcases hkept with h | ⟨h, -⟩ <;> simp [h]
      obtain ⟨hmine, hs, hzero, hflag⟩ := hcases
      refine inv.touch_writer (by simp) hmine (.inl ⟨rfl, rfl⟩) ?_ hs id ?_
      · rw [hzero]
        rfl
      · intro v hv
        refine inv.signal_frame hflag _ v ?_
        by_cases hvw : v = w
        · subst hvw
          simpa using hv
        · rwa [Budget.setWriter_of_ne _ hvw] at hv

/-! ## Every run -/

omit [DecidableEq ω] [Fintype ω] in
/-- In every phase the buffer is a prefix of what was written. -/
theorem WriterOk.buf_isPrefix {l : OutputLimiter} {x : LimitedWriter ι} {out : Bytes} {ph : Phase ω}
    (h : WriterOk l x out ph) : x.buf <+: out := by
  have hsettled : ∀ out, Settled l x out → x.buf <+: out := by
    intro out h
    unfold Settled at h
    split at h
    · exact h.1
    · rw [h]
  cases ph with
  | idle => exact hsettled _ h
  | closing w => exact hsettled _ h
  | checking w p =>
      obtain ⟨old, rfl, hs⟩ := h
      exact (hsettled _ hs).trans (List.prefix_append _ _)
  | reserving w p =>
      rw [h.2]
      exact List.prefix_append _ _
  | granted w p n =>
      rw [h.2.1]
      exact List.prefix_append _ _
  | appended w p n =>
      obtain ⟨old, rfl, hbuf⟩ := h.2.1
      rw [hbuf]
      exact (List.prefix_append_right_inj _).mpr (List.take_prefix _ _)
  | flagged w => exact hsettled _ h.2

omit [DecidableEq ω] [Fintype ω] in
theorem WriterOk.outstanding_nonneg {l : OutputLimiter} {x : LimitedWriter ι} {out : Bytes}
    {ph : Phase ω} (h : WriterOk l x out ph) : 0 ≤ ph.outstanding := by
  cases ph with
  | granted w p n => exact h.2.2.1
  | _ => exact le_refl _

/-- The budget invariant holds along every run of any threads making any `Write` calls. -/
theorem budget_reachable [DecidableEq ι] {limit : ℤ} (hlimit : 0 ≤ limit)
    (calls : ι → List (ω × Bytes)) {c : Config (WriteOp ω) WriteOp.Ans ι (Budget ω ι) fun _ => _}
    (h : Reachable Budget.semantics (.start (.new limit) fun i => writeAll (calls i)) c) :
    Holds (writeDiscipline ω ι) (BudgetInv limit)
      (fun i rs ph => rs = (calls i).map (fun c => (c.2.length, none)) ∧ ph = .idle) c := by
  refine (budget_upholds limit).reachable h ⟨fun _ => .idle, ?_, fun i => writeAll_safe i (calls i)⟩
  refine ⟨rfl, hlimit, ?_, ?_, ?_, rfl, ?_, ?_⟩
  · intro w i
    simp [Config.start, Budget.new, LimitedWriter.new, Phase.writer]
  · simp [Config.start, Budget.new, LimitedWriter.new, OutputLimiter.new, charge, phaseOf,
      Phase.outstanding]
  · intro w
    simp [Config.start, Budget.new, LimitedWriter.new, phaseOf, WriterOk, Settled, written]
  · simp [Config.start, Budget.new, OutputLimiter.new]
  · intro w hw
    simp [Config.start, Budget.new, LimitedWriter.new] at hw

/-- With no `Write` in progress, each writer is settled and the buffers make up `used`. -/
theorem BudgetInv.quiescent {limit : ℤ} {b : Budget ω ι}
    {tr : List (Entry (WriteOp ω) WriteOp.Ans ι)} {ℓ : ι → Phase ω} (inv : BudgetInv limit b tr ℓ)
    (hquiet : ∀ w, (b.writers w).mu = none) :
    (∀ w, Settled b.limiter (b.writers w) (written w tr)) ∧
      ∑ w, ((b.writers w).buf.length : ℤ) = b.limiter.used ∧
      ∀ w, (b.writers w).overflowed = true → b.limiter.once = true := by
  have hphase : ∀ w, phaseOf b ℓ w = .idle := fun w => by simp [phaseOf, hquiet w]
  refine ⟨?_, ?_, ?_⟩
  · intro w
    have hok := inv.writer_ok w
    rw [hphase] at hok
    exact hok
  · have hsum := inv.sum_charge
    simpa [charge, hphase, Phase.outstanding] using hsum
  · intro w hw
    rcases inv.overflowed_signalled w hw with honce | ⟨i, v, hi⟩
    · exact honce
    · -- a thread about to signal still holds its writer's mutex
      have hmu := (inv.mu_iff v i).mpr (by rw [hi]; rfl)
      rw [hquiet v] at hmu
      cases hmu

theorem BudgetInv.sum_buf_le {limit : ℤ} {b : Budget ω ι}
    {tr : List (Entry (WriteOp ω) WriteOp.Ans ι)} {ℓ : ι → Phase ω} (inv : BudgetInv limit b tr ℓ) :
    ∑ w, ((b.writers w).buf.length : ℤ) ≤ b.limiter.used := by
  rw [← inv.sum_charge]
  refine Finset.sum_le_sum fun w _ => ?_
  have := (inv.writer_ok w).outstanding_nonneg
  unfold charge
  omega

/-- With no `Write` in progress, the accounts are exact: `min limit total` bytes are kept, and the
flags and the signal report what was dropped. -/
theorem BudgetInv.accounts {limit : ℤ} {b : Budget ω ι}
    {tr : List (Entry (WriteOp ω) WriteOp.Ans ι)} {ℓ : ι → Phase ω} (inv : BudgetInv limit b tr ℓ)
    (hquiet : ∀ w, (b.writers w).mu = none) :
    ∑ w, ((b.writers w).buf.length : ℤ) = min limit (∑ w, ((written w tr).length : ℤ)) ∧
      (∀ w, (b.writers w).overflowed = true ↔
        (b.writers w).buf.length < (written w tr).length) ∧
      b.limiter.closes ≤ 1 ∧
      (b.limiter.closes = 1 ↔ ∃ w, (b.writers w).overflowed = true) ∧
      ((∃ w, (b.writers w).overflowed = true) ↔ limit < ∑ w, ((written w tr).length : ℤ)) := by
  obtain ⟨hsettled, hsum, honce⟩ := inv.quiescent hquiet
  have hdropped : ∀ w, (b.writers w).overflowed = true ↔
      (b.writers w).buf.length < (written w tr).length := by
    intro w
    have hw := hsettled w
    unfold Settled at hw
    split at hw
    · next ho => exact iff_of_true ho hw.2.1
    · next ho =>
        rw [hw]
        exact iff_of_false ho (lt_irrefl _)
  have hlen : ∀ w, (b.writers w).buf.length ≤ (written w tr).length :=
    fun w => (inv.writer_ok w).buf_isPrefix.length_le
  have htotal : ∑ w, ((b.writers w).buf.length : ℤ) ≤
      ∑ w, ((written w tr).length : ℤ) :=
    Finset.sum_le_sum fun w _ => by exact_mod_cast hlen w
  -- a flagged writer dropped a byte on a spent budget; without one, everything is kept
  have hflag : (∃ w, (b.writers w).overflowed = true) →
      b.limiter.used = limit ∧ limit < ∑ w, ((written w tr).length : ℤ) := by
    rintro ⟨w, hw⟩
    have hs := hsettled w
    unfold Settled at hs
    rw [if_pos hw, inv.limit_eq] at hs
    refine ⟨hs.2.2, ?_⟩
    rw [← hs.2.2, ← hsum]
    exact Finset.sum_lt_sum (fun v _ => by exact_mod_cast hlen v)
      ⟨w, Finset.mem_univ w, by exact_mod_cast hs.2.1⟩
  have hclean : (¬ ∃ w, (b.writers w).overflowed = true) →
      ∑ w, ((b.writers w).buf.length : ℤ) = ∑ w, ((written w tr).length : ℤ) := by
    intro hno
    refine Finset.sum_congr rfl fun w _ => ?_
    have := hlen w
    have := mt (hdropped w).mpr fun ho => hno ⟨w, ho⟩
    omega
  have hused := inv.used_le
  have hcloses := inv.closes_eq
  refine ⟨?_, hdropped, ?_, ?_, ?_⟩
  · by_cases hex : ∃ w, (b.writers w).overflowed = true
    · have := hflag hex
      omega
    · have := hclean hex
      omega
  · split at hcloses <;> omega
  · constructor
    · intro hone
      refine inv.once_overflowed ?_
      by_contra ho
      rw [if_neg ho] at hcloses
      omega
    · rintro ⟨w, hw⟩
      rw [hcloses, if_pos (honce w hw)]
  · constructor
    · exact fun hex => (hflag hex).2
    · intro hlt
      by_contra hno
      have := hclean hno
      omega

/-- With no `Write` in progress, no thread is midway. -/
theorem not_midway_of_quiet {α : Type} {limit : ℤ} {b : Budget ω ι}
    {tr : List (Entry (WriteOp ω) WriteOp.Ans ι)} {ℓ : ι → Phase ω} (inv : BudgetInv limit b tr ℓ)
    (hquiet : ∀ w, (b.writers w).mu = none) {i : ι} {q : WriteProg ω α} {Q : α → Phase ω → Prop}
    (hsafe : q.Safe (writeDiscipline ω ι) i Q (ℓ i)) : ¬ Midway q := by
  rintro ⟨e, k, rfl, hlock⟩
  have hidle : ℓ i = .idle := by
    have hnone : ∀ w, (ℓ i).writer ≠ some w := by
      intro w hw
      rw [← inv.mu_iff w i, hquiet w] at hw
      cases hw
    cases hph : ℓ i with
    | idle => rfl
    | _ => simp [hph, Phase.writer] at hnone
  have hpre := hsafe.1
  rw [hidle] at hpre
  cases e with
  | lock w p => cases hlock
  | _ => simp [writeDiscipline, Phase.Kept] at hpre

/-! ## What the calls of the threads add up to -/

/-- The bytes that these `Write` calls hand to `w`. -/
def bytesTo (w : ω) (calls : List (ω × Bytes)) : Bytes :=
  calls.flatMap fun call => if call.1 = w then call.2 else []

/-- The bytes of these `Write` calls, whichever writer they go to. -/
def totalBytes (calls : List (ω × Bytes)) : ℤ := (calls.map fun call => (call.2.length : ℤ)).sum

theorem sum_bytesTo (calls : List (ω × Bytes)) :
    ∑ w, ((bytesTo w calls).length : ℤ) = totalBytes calls := by
  induction calls with
  | nil => simp [bytesTo, totalBytes]
  | cons call calls ih =>
      have hcons : ∀ w, ((bytesTo w (call :: calls)).length : ℤ) =
          (if call.1 = w then (call.2.length : ℤ) else 0) + (bytesTo w calls).length := by
        intro w
        simp only [bytesTo, List.flatMap_cons, List.length_append]
        split <;> simp
      rw [Finset.sum_congr rfl fun w _ => hcons w, Finset.sum_add_distrib, ih, Finset.sum_ite_eq,
        if_pos (Finset.mem_univ _)]
      simp [totalBytes]

omit [Fintype ω] in
theorem bytesTo_append (w : ω) (calls calls' : List (ω × Bytes)) :
    bytesTo w (calls ++ calls') = bytesTo w calls ++ bytesTo w calls' := by
  simp [bytesTo]

omit [Fintype ω] in
/-- One event hands to `w` what the `Write` that it begins does. -/
theorem bytesTo_begun (w : ω) (ev : Event (WriteOp ω) WriteOp.Ans) (i : ι) :
    bytesTo w (begun [ev]) = written w [(⟨ev, i⟩ : Entry (WriteOp ω) WriteOp.Ans ι)] := by
  obtain ⟨op, r⟩ := ev
  cases op with
  | lock v p => simp [begun, bytesTo]
  | _ => rfl

omit [Fintype ω] in
/-- What is written to `w` is what the threads' calls hand to it. -/
theorem length_written [DecidableEq ι] {threads : Finset ι}
    {tr : List (Entry (WriteOp ω) WriteOp.Ans ι)} (h : ∀ en ∈ tr, en.who ∈ threads) (w : ω) :
    (written w tr).length = ∑ i ∈ threads, (bytesTo w (made i tr)).length := by
  induction tr using List.reverseRecOn with
  | nil => simp [written, made, begun, bytesTo]
  | append_singleton tr en ih =>
      have hen : en.who ∈ threads := h en (by simp)
      have hone : ∀ i, (bytesTo w (made i (tr ++ [en]))).length =
          (bytesTo w (made i tr)).length + if en.who = i then (written w [en]).length else 0 := by
        intro i
        obtain ⟨ev, j⟩ := en
        by_cases hij : j = i
        · subst hij
          rw [if_pos rfl, made, own_snoc_self, begun_append, bytesTo_append, List.length_append,
            bytesTo_begun]
          rfl
        · rw [if_neg hij, made, own_snoc_of_ne hij, made, Nat.add_zero]
      rw [written_snoc, List.length_append, ih fun en' hen' => h en' (by simp [hen']),
        Finset.sum_congr rfl fun i _ => hone i, Finset.sum_add_distrib, Finset.sum_ite_eq,
        if_pos hen]

/-- **The shared output budget.** For any writers on one limiter, any threads and any interleaving of
any `Write` calls:

* the kept bytes never exceed `used`, nor `used` the limit; each buffer is a prefix of what was
  written to it, and every `Write` reports its whole chunk and no error;
* what was written is what the threads' calls handed over: each thread has begun its calls in order,
  and all of them once it has returned;
* whenever no `Write` is in progress, each thread stands behind the calls it has begun, exactly
  `min limit total` bytes are kept, the overflow flags mark the writers that dropped a byte, and the
  channel is closed, once, exactly when one is flagged, that is, when the total exceeds the limit;
* so once all threads have returned, an overflow is reported exactly when the bytes of all their calls
  exceed the limit, whatever the chunks and the interleaving. -/
theorem outputLimiter_budget [DecidableEq ι] {limit : ℤ} (hlimit : 0 ≤ limit)
    (calls : ι → List (ω × Bytes)) {c : Config (WriteOp ω) WriteOp.Ans ι (Budget ω ι) fun _ => _}
    (h : Reachable Budget.semantics (.start (.new limit) fun i => writeAll (calls i)) c) :
    (∑ w, ((c.shared.writers w).buf.length : ℤ) ≤ c.shared.limiter.used ∧
      c.shared.limiter.used ≤ limit) ∧
    (∀ w, (c.shared.writers w).buf <+: written w c.trace) ∧
    (∀ i, made i c.trace <+: calls i) ∧
    (∀ i rs, c.prog i = .ret rs →
      made i c.trace = calls i ∧ rs = (calls i).map fun p => (p.2.length, none)) ∧
    ((∀ w, (c.shared.writers w).mu = none) →
      (∀ i, ∃ rest, calls i = made i c.trace ++ rest ∧ c.prog i = between (made i c.trace) rest) ∧
      ∑ w, ((c.shared.writers w).buf.length : ℤ) =
        min limit (∑ w, ((written w c.trace).length : ℤ)) ∧
      (∀ w, (c.shared.writers w).overflowed = true ↔
        (c.shared.writers w).buf.length < (written w c.trace).length) ∧
      c.shared.limiter.closes ≤ 1 ∧
      (c.shared.limiter.closes = 1 ↔ ∃ w, (c.shared.writers w).overflowed = true) ∧
      ((∃ w, (c.shared.writers w).overflowed = true) ↔
        limit < ∑ w, ((written w c.trace).length : ℤ))) ∧
    ∀ threads : Finset ι, (∀ i, i ∉ threads → calls i = []) →
      (∀ w, (written w c.trace).length = ∑ i ∈ threads, (bytesTo w (made i c.trace)).length) ∧
      ((∀ i ∈ threads, ∃ rs, c.prog i = .ret rs) →
        ∑ w, ((c.shared.writers w).buf.length : ℤ) =
          min limit (∑ i ∈ threads, totalBytes (calls i)) ∧
        (c.shared.limiter.closes = 1 ↔ limit < ∑ i ∈ threads, totalBytes (calls i))) := by
  obtain ⟨ℓ, inv, hsafe⟩ := budget_reachable hlimit calls h
  have hafter : ∀ i, ∃ rest, calls i = made i c.trace ++ rest ∧
      (Midway (c.prog i) ∨ c.prog i = between (made i c.trace) rest) :=
    fun i => writeAll_after (h.own_after i)
  have hreturned : ∀ i rs, c.prog i = .ret rs →
      made i c.trace = calls i ∧ rs = (calls i).map fun p => (p.2.length, none) := by
    intro i rs hret
    have hi := hsafe i
    rw [hret] at hi
    refine ⟨?_, hi.1⟩
    obtain ⟨rest, hcalls, hat⟩ := hafter i
    rw [hret] at hat
    -- a thread with a call left is at the lock of that call
    rcases hat with ⟨e, k, hop, -⟩ | hbetween
    · cases hop
    · cases rest with
      | nil => rw [hcalls, List.append_nil]
      | cons call rest => cases hbetween
  refine ⟨⟨inv.sum_buf_le, inv.used_le⟩, fun w => (inv.writer_ok w).buf_isPrefix, ?_, hreturned, ?_, ?_⟩
  · intro i
    obtain ⟨rest, hcalls, -⟩ := hafter i
    exact ⟨rest, hcalls.symm⟩
  · intro hquiet
    refine ⟨fun i => ?_, inv.accounts hquiet⟩
    obtain ⟨rest, hcalls, hat⟩ := hafter i
    exact ⟨rest, hcalls, hat.resolve_left (not_midway_of_quiet inv hquiet (hsafe i))⟩
  · intro threads hthreads
    -- a thread without calls takes no step
    have hnone : ∀ i, i ∉ threads → own i c.trace = [] ∧ c.prog i = .ret [] := by
      intro i hi
      have hafter := h.own_after i
      rw [hthreads i hi] at hafter
      exact hafter.of_ret
    have hwho : ∀ en ∈ c.trace, en.who ∈ threads := by
      intro en hen
      by_contra hnot
      have hmem := mem_own.mpr hen
      rw [(hnone _ hnot).1] at hmem
      cases hmem
    refine ⟨length_written hwho, fun hall => ?_⟩
    have hret : ∀ i, ∃ rs, c.prog i = .ret rs := by
      intro i
      by_cases hi : i ∈ threads
      · exact hall i hi
      · exact ⟨[], (hnone i hi).2⟩
    have htotal : ∑ w, ((written w c.trace).length : ℤ) = ∑ i ∈ threads, totalBytes (calls i) := by
      have hmade : ∀ i ∈ threads, made i c.trace = calls i := by
        intro i hi
        obtain ⟨rs, hrs⟩ := hall i hi
        exact (hreturned i rs hrs).1
      calc ∑ w, ((written w c.trace).length : ℤ)
          = ∑ w, ∑ i ∈ threads, ((bytesTo w (made i c.trace)).length : ℤ) := by
            refine Finset.sum_congr rfl fun w _ => ?_
            rw [length_written hwho, Nat.cast_sum]
        _ = ∑ i ∈ threads, ∑ w, ((bytesTo w (made i c.trace)).length : ℤ) := Finset.sum_comm
        _ = ∑ i ∈ threads, totalBytes (calls i) :=
            Finset.sum_congr rfl fun i hi => by rw [sum_bytesTo, hmade i hi]
    have hquiet : ∀ w, (c.shared.writers w).mu = none := by
      intro w
      by_contra hmu
      obtain ⟨i, hi⟩ := Option.ne_none_iff_exists'.mp hmu
      obtain ⟨rs, hrs⟩ := hret i
      have hidle := hsafe i
      rw [hrs] at hidle
      rw [inv.mu_iff, hidle.2] at hi
      cases hi
    obtain ⟨hkept, -, -, hclosed, hover⟩ := inv.accounts hquiet
    rw [← htotal]
    exact ⟨hkept, hclosed.trans hover⟩

/-- Two threads, one per stream: stdout gets `abc`, then stderr `defg`, on a limit of five. -/
def streamCalls : Bool → List (Bool × Bytes)
  | true => [(true, [97, 98, 99])]
  | false => [(false, [100, 101, 102, 103])]

theorem outputLimiter_budget_split_limit :
    ∃ c : Config (WriteOp Bool) WriteOp.Ans Bool (Budget Bool Bool) fun _ => _,
      Reachable Budget.semantics (.start (.new 5) fun i => writeAll (streamCalls i)) c ∧
      ∑ w, ((c.shared.writers w).buf.length : ℤ) = 5 ∧ c.shared.limiter.closes = 1 := by
  let c₀ : Config (WriteOp Bool) WriteOp.Ans Bool (Budget Bool Bool) fun _ => _ :=
    .start (.new 5) fun i => writeAll (streamCalls i)
  -- stderr reserves between the reserve and the append of stdout
  let schedule := [true, true, false, true, false, false, true, false, false, false, true, false]
  obtain ⟨c, hc, hret⟩ : ∃ c, drive Budget.answer schedule c₀ = some c ∧
      ∀ i, ∃ rs, c.prog i = .ret rs := by
    refine ⟨_, rfl, fun i => ?_⟩
    cases i <;> exact ⟨_, rfl⟩
  have hreach : Reachable Budget.semantics c₀ c :=
    drive_reachable Budget.answer_sound Relation.ReflTransGen.refl hc
  obtain ⟨-, -, -, -, -, hend⟩ := outputLimiter_budget (by decide) streamCalls hreach
  obtain ⟨hkept, hclosed⟩ := (hend Finset.univ (by simp)).2 fun i _ => hret i
  exact ⟨c, hreach, hkept.trans (by decide), hclosed.mpr (by decide)⟩

end Afterglow.Sandbox
