import Mathlib.Data.Int.Order.Basic
import Afterglow.Concurrency.Discipline
import Afterglow.Model.Basic

/-!
# The shared output budget

Reference: `internal/sandbox/output_limiter.go`.

Any number of `limitedWriter`s draw on one `outputLimiter`. A `Write` holds its writer's mutex from
its first statement to its return; `reserve` and `signal` are atomic on the limiter. Everything else
interleaves, so a reserve of one writer can fall between another writer's reserve and its append.

`writeDiscipline` is the statement order of `Write` as a discipline on phases; the budget itself is
accounted for in `Sandbox/OutputBudget.lean`.
-/

namespace Afterglow.Sandbox

open Concurrency

/-! ## The limiter and its writers -/

/-- `outputLimiter`: the budget, and the one-shot close of its channel. `closes` counts how often
`close(l.ch)` ran; `once` is the state of the `sync.Once`. -/
structure OutputLimiter where
  limit : ℤ
  used : ℤ
  once : Bool
  closes : ℕ
deriving Repr, DecidableEq

namespace OutputLimiter

/-- `newOutputLimiter`. -/
def new (maxBytes : ℤ) : OutputLimiter := ⟨maxBytes, 0, false, 0⟩

/-- `outputLimiter.signal`. -/
def signal (l : OutputLimiter) : OutputLimiter :=
  if l.once then l else { l with once := true, closes := l.closes + 1 }

/-- `outputLimiter.reserve`: the bytes granted, and the limiter after it. -/
def reserve (l : OutputLimiter) (requested : ℤ) : ℤ × OutputLimiter :=
  let remaining := l.limit - l.used
  if remaining ≤ 0 then (0, l)
  else
    let granted := min requested remaining
    (granted, { l with used := l.used + granted })

/-- A reserve grants at most what is asked and what is left, and less than asked only when it
spends the budget. -/
theorem reserve_spec {l l' : OutputLimiter} {requested granted : ℤ}
    (h : (granted, l') = l.reserve requested) (hreq : 0 ≤ requested) (hle : l.used ≤ l.limit) :
    l' = { l with used := l.used + granted } ∧ 0 ≤ granted ∧ granted ≤ requested ∧
      l'.used ≤ l.limit ∧ (granted < requested → l'.used = l.limit) := by
  unfold reserve at h
  simp only at h
  split at h
  · obtain ⟨rfl, rfl⟩ := Prod.mk.inj h
    refine ⟨by simp, le_refl _, hreq, hle, ?_⟩
    omega
  · obtain ⟨rfl, rfl⟩ := Prod.mk.inj h
    refine ⟨rfl, by omega, by omega, ?_, ?_⟩
    · show l.used + min requested (l.limit - l.used) ≤ l.limit
      omega
    · show _ → l.used + min requested (l.limit - l.used) = l.limit
      omega

/-- A signal leaves the budget alone and the channel closed. -/
theorem signal_spec (l : OutputLimiter) :
    l.signal = { l with once := true, closes := if l.once then l.closes else l.closes + 1 } := by
  obtain ⟨limit, used, once, closes⟩ := l
  cases once <;> rfl

end OutputLimiter

/-- `limitedWriter`; `mu` names the thread that holds its mutex. -/
structure LimitedWriter (ι : Type) where
  mu : Option ι
  buf : Bytes
  overflowed : Bool

/-- `newLimitedWriter`. -/
def LimitedWriter.new {ι : Type} : LimitedWriter ι := ⟨none, [], false⟩

/-- The operations of `limitedWriter.Write` that other threads can see. -/
inductive WriteOp (ω : Type)
  /-- `w.mu.Lock()` at the head of `Write(p)`. -/
  | lock (w : ω) (p : Bytes)
  /-- Read `w.overflowed`. -/
  | overflowed (w : ω)
  /-- `w.limiter.reserve(requested)`. -/
  | reserve (requested : ℤ)
  /-- `w.buf.Write(chunk)`. -/
  | append (w : ω) (chunk : Bytes)
  /-- `w.overflowed = true`. -/
  | setOverflowed (w : ω)
  /-- `w.limiter.signal()`. -/
  | signal
  /-- The deferred `w.mu.Unlock()`. -/
  | unlock (w : ω)

/-- The answer to each operation. -/
def WriteOp.Ans {ω : Type} : WriteOp ω → Type
  | .overflowed _ => Bool
  | .reserve _ => ℤ
  | _ => Unit

variable {ω ι : Type}

/-- A program over the writers' operations. -/
abbrev WriteProg (ω : Type) := Prog (WriteOp ω) WriteOp.Ans

private def call (e : WriteOp ω) : WriteProg ω e.Ans := .perform e

/-- `limitedWriter.Write`. -/
def write (w : ω) (p : Bytes) : WriteProg ω (ℕ × Option Err) := do
  call (.lock w p)
  .deferring (call (.unlock w)) do
    let n := p.length
    let overflowed : Bool ← call (.overflowed w)
    if overflowed then
      return (n, none)
    let allowed : ℤ ← call (.reserve n)
    if 0 < allowed then
      call (.append w (p.take allowed.toNat))
    if allowed < n then
      call (.setOverflowed w)
      call .signal
    return (n, none)

/-- A thread that makes the given `Write` calls one after the other. -/
def writeAll : List (ω × Bytes) → WriteProg ω (List (ℕ × Option Err))
  | [] => return []
  | (w, p) :: rest => do
    let n ← write w p
    let ns ← writeAll rest
    return n :: ns

/-- One limiter and its writers. -/
structure Budget (ω ι : Type) where
  limiter : OutputLimiter
  writers : ω → LimitedWriter ι

/-- A fresh limiter with fresh writers. -/
def Budget.new (limit : ℤ) : Budget ω ι := ⟨.new limit, fun _ => .new⟩

variable [DecidableEq ω]

/-- Replace the state of one writer. -/
def Budget.setWriter (b : Budget ω ι) (w : ω) (x : LimitedWriter ι) : Budget ω ι :=
  { b with writers := Function.update b.writers w x }

@[simp] theorem Budget.setWriter_limiter (b : Budget ω ι) (w : ω) (x : LimitedWriter ι) :
    (b.setWriter w x).limiter = b.limiter := rfl

@[simp] theorem Budget.setWriter_self (b : Budget ω ι) (w : ω) (x : LimitedWriter ι) :
    (b.setWriter w x).writers w = x := by
  simp [setWriter]

theorem Budget.setWriter_of_ne (b : Budget ω ι) {v w : ω} (h : v ≠ w) (x : LimitedWriter ι) :
    (b.setWriter w x).writers v = b.writers v := by
  simp [setWriter, h]

/-- What an operation of thread `i` is answered. Only `lock` can block. -/
def Budget.act (i : ι) (b : Budget ω ι) : (e : WriteOp ω) → e.Ans → Budget ω ι → Prop
  | .lock w _, _, b' =>
      (b.writers w).mu = none ∧ b' = b.setWriter w { b.writers w with mu := some i }
  | .overflowed w, r, b' => r = (b.writers w).overflowed ∧ b' = b
  | .reserve n, r, b' => (r, b'.limiter) = b.limiter.reserve n ∧ b'.writers = b.writers
  | .append w chunk, _, b' =>
      b' = b.setWriter w { b.writers w with buf := (b.writers w).buf ++ chunk }
  | .setOverflowed w, _, b' => b' = b.setWriter w { b.writers w with overflowed := true }
  | .signal, _, b' => b' = { b with limiter := b.limiter.signal }
  | .unlock w, _, b' => b' = b.setWriter w { b.writers w with mu := none }

/-- The semantics of any number of threads writing through one limiter. -/
def Budget.semantics : Semantics (WriteOp ω) WriteOp.Ans ι (Budget ω ι) := ⟨Budget.act⟩

/-- The budget as an executable semantics, for driving concrete runs. -/
def Budget.answer (i : ι) (b : Budget ω ι) : (e : WriteOp ω) → Option (e.Ans × Budget ω ι)
  | .lock w _ =>
      if (b.writers w).mu.isNone then
        some ((), b.setWriter w { b.writers w with mu := some i })
      else none
  | .overflowed w => some ((b.writers w).overflowed, b)
  | .reserve n => some ((b.limiter.reserve n).1, { b with limiter := (b.limiter.reserve n).2 })
  | .append w chunk =>
      some ((), b.setWriter w { b.writers w with buf := (b.writers w).buf ++ chunk })
  | .setOverflowed w => some ((), b.setWriter w { b.writers w with overflowed := true })
  | .signal => some ((), { b with limiter := b.limiter.signal })
  | .unlock w => some ((), b.setWriter w { b.writers w with mu := none })

theorem Budget.answer_sound (i : ι) (b : Budget ω ι) (e : WriteOp ω) (r : e.Ans) (b' : Budget ω ι)
    (h : b.answer i e = some (r, b')) : b.act i e r b' := by
  cases e with
  | lock w p =>
      simp only [answer] at h
      split at h
      · next hfree =>
          cases h
          exact ⟨Option.isNone_iff_eq_none.mp hfree, rfl⟩
      · cases h
  | overflowed w => cases h; exact ⟨rfl, rfl⟩
  | reserve n => cases h; exact ⟨rfl, rfl⟩
  | append w chunk => cases h; rfl
  | setOverflowed w => cases h; rfl
  | signal => cases h; rfl
  | unlock w => cases h; rfl

/-- The bytes written to `w` so far: the chunks of its `Write` calls, in the order in which these
took the writer's mutex. That these are the calls made is `writeAll_after`. -/
def written (w : ω) (tr : List (Entry (WriteOp ω) WriteOp.Ans ι)) : Bytes :=
  tr.flatMap fun en =>
    match en.op with
    | .lock v p => if v = w then p else []
    | _ => []

theorem written_snoc (w : ω) (tr : List (Entry (WriteOp ω) WriteOp.Ans ι))
    (en : Entry (WriteOp ω) WriteOp.Ans ι) :
    written w (tr ++ [en]) = written w tr ++ written w [en] := by
  simp [written]

theorem written_of_not_lock (w : ω) {en : Entry (WriteOp ω) WriteOp.Ans ι}
    (h : ∀ v p, en.op ≠ .lock v p) : written w [en] = [] := by
  obtain ⟨⟨op, r⟩, i⟩ := en
  cases op with
  | lock v p => exact absurd rfl (h v p)
  | _ => rfl

@[simp] theorem written_lock (w v : ω) (p : Bytes) (i : ι) (r : WriteOp.Ans (.lock v p)) :
    written w [(⟨⟨.lock v p, r⟩, i⟩ : Entry (WriteOp ω) WriteOp.Ans ι)] =
      if v = w then p else [] := by
  simp [written]

/-! ## The calls made -/

section Made

omit [DecidableEq ω]

/-- Is this the operation with which a `Write` begins? -/
def WriteOp.isLock : WriteOp ω → Bool
  | .lock _ _ => true
  | _ => false

/-- The `Write` calls that have begun in these events. -/
def begun (tr : List (Event (WriteOp ω) WriteOp.Ans)) : List (ω × Bytes) :=
  tr.filterMap fun ev =>
    match ev.op with
    | .lock w p => some (w, p)
    | _ => none

/-- The `Write` calls that thread `i` has begun. -/
def made [DecidableEq ι] (i : ι) (tr : List (Entry (WriteOp ω) WriteOp.Ans ι)) : List (ω × Bytes) :=
  begun (own i tr)

/-- What a `Write` of this chunk reports. -/
def report (call : ω × Bytes) : ℕ × Option Err := (call.2.length, none)

/-- A thread between two `Write` calls: `done` have returned, `rest` are still to be made. -/
def between (done rest : List (ω × Bytes)) : WriteProg ω (List (ℕ × Option Err)) :=
  writeAll rest >>= fun reports => .ret (done.map report ++ reports)

theorem begun_append (tr tr' : List (Event (WriteOp ω) WriteOp.Ans)) :
    begun (tr ++ tr') = begun tr ++ begun tr' := by
  simp [begun]

theorem begun_of_not_lock {tr : List (Event (WriteOp ω) WriteOp.Ans)}
    (h : ∀ ev ∈ tr, ev.op.isLock = false) : begun tr = [] := by
  refine List.filterMap_eq_nil_iff.mpr fun ev hev => ?_
  have hop := h ev hev
  obtain ⟨op, r⟩ := ev
  cases op with
  | lock w p => cases hop
  | _ => rfl

/-- A `Write` locks its writer first, with its whole chunk, takes no lock after that, and reports the
whole chunk. -/
theorem write_eq (w : ω) (p : Bytes) :
    ∃ body : WriteProg ω (ℕ × Option Err),
      write w p = call (.lock w p) >>= (fun _ => .deferring (call (.unlock w)) body) ∧
      body.All (fun e => e.isLock = false) ∧ body.Returns (· = report (w, p)) := by
  refine ⟨_, rfl, ⟨rfl, fun overflowed => ?_⟩, fun overflowed => ?_⟩
  · cases overflowed with
    | true => exact trivial
    | false =>
        refine ⟨rfl, fun (allowed : ℤ) => ?_⟩
        have hflag : Prog.All (fun e => e.isLock = false) (ite (allowed < (p.length : ℤ))
            (call (.setOverflowed w) >>= fun _ => call .signal >>= fun _ => .ret (p.length, none))
            (.ret (p.length, none)) : WriteProg ω (ℕ × Option Err)) := by
          split
          · exact ⟨rfl, fun _ => ⟨rfl, fun _ => trivial⟩⟩
          · exact trivial
        change Prog.All _ (ite (0 < allowed) _ _)
        split
        · exact ⟨rfl, fun _ => hflag⟩
        · exact hflag
  · cases overflowed with
    | true => exact rfl
    | false =>
        intro (allowed : ℤ)
        have hflag : Prog.Returns (· = report (w, p)) (ite (allowed < (p.length : ℤ))
            (call (.setOverflowed w) >>= fun _ => call .signal >>= fun _ => .ret (p.length, none))
            (.ret (p.length, none)) : WriteProg ω (ℕ × Option Err)) := by
          split
          · exact fun _ _ => rfl
          · exact rfl
        change Prog.Returns _ (ite (0 < allowed) _ _)
        split
        · exact fun _ => hflag
        · exact hflag

/-- The thread is in the middle of a `Write`: its next operation does not begin one. -/
def Midway {α : Type} (q : WriteProg ω α) : Prop := ∃ e k, q = .op e k ∧ e.isLock = false

theorem Midway.bind {α β : Type} {q : WriteProg ω α} (h : Midway q) (f : α → WriteProg ω β) :
    Midway (q >>= f) := by
  obtain ⟨e, k, rfl, he⟩ := h
  exact ⟨e, _, rfl, he⟩

/-- Once it has begun, a `Write` is midway until it reports. -/
theorem write_after {w : ω} {p : Bytes} {tr : List (Event (WriteOp ω) WriteOp.Ans)}
    {q : WriteProg ω (ℕ × Option Err)} (h : (write w p).After tr q) :
    tr = [] ∧ q = write w p ∨
      begun tr = [(w, p)] ∧ (Midway q ∨ q = .ret (report (w, p))) := by
  obtain ⟨body, hwrite, hall, hreturns⟩ := write_eq w p
  rw [hwrite] at h
  rcases h with _ | @⟨_, _, r, tr, _, h⟩
  · exact .inl ⟨rfl, hwrite.symm⟩
  · have hbody : Prog.All (fun e => e.isLock = false) (.deferring (call (.unlock w)) body) :=
      .deferring ⟨rfl, fun _ => trivial⟩ hall
    obtain ⟨htr, hq⟩ := h.all hbody
    refine .inr ⟨?_, ?_⟩
    · rw [← List.singleton_append, begun_append, begun_of_not_lock htr]
      rfl
    · cases q with
      | ret a =>
          right
          rw [h.runs.returns (.deferring hreturns)]
      | op e k => exact .inl ⟨e, k, rfl, hq.1⟩

/-- **The calls made are the calls to make.** What a thread has begun is the beginning of its list,
and unless it is midway it stands right behind that. -/
theorem writeAll_after {calls : List (ω × Bytes)} {tr : List (Event (WriteOp ω) WriteOp.Ans)}
    {q : WriteProg ω (List (ℕ × Option Err))} (h : (writeAll calls).After tr q) :
    ∃ rest, calls = begun tr ++ rest ∧ (Midway q ∨ q = between (begun tr) rest) := by
  induction calls generalizing tr q with
  | nil =>
      cases h
      exact ⟨[], rfl, .inr rfl⟩
  | cons c calls ih =>
      obtain ⟨w, p⟩ := c
      rcases Prog.After.of_bind h with ⟨q', hq', rfl⟩ | ⟨t₁, a, t₂, rfl, h₁, h₂⟩
      · rcases write_after hq' with ⟨rfl, rfl⟩ | ⟨hbegun, hmid | rfl⟩
        · exact ⟨(w, p) :: calls, rfl, .inr (Prog.bind_ret _).symm⟩
        · exact ⟨calls, by rw [hbegun]; rfl, .inl (hmid.bind _)⟩
        · exact ⟨calls, by rw [hbegun]; rfl, .inr (by rw [hbegun]; rfl)⟩
      · obtain ⟨hbegun, rfl⟩ : begun t₁ = [(w, p)] ∧ a = report (w, p) := by
          rcases write_after h₁.after with ⟨-, hret⟩ | ⟨hbegun, ⟨e, k, hret, -⟩ | hret⟩
          · cases hret
          · cases hret
          · exact ⟨hbegun, Prog.ret.inj hret⟩
        obtain ⟨q', hq', rfl⟩ := h₂.of_map
        obtain ⟨rest, rfl, hq⟩ := ih hq'
        rw [begun_append, hbegun]
        refine ⟨rest, rfl, ?_⟩
        rcases hq with hmid | rfl
        · exact .inl (hmid.bind _)
        · refine .inr ?_
          rw [between, between, Prog.bind_assoc]
          rfl

end Made

/-! ## The discipline of a write -/

/-- Where a thread stands inside `write`, and on which writer and chunk. -/
inductive Phase (ω : Type)
  | idle
  /-- The mutex is held, the flag not yet read. -/
  | checking (w : ω) (p : Bytes)
  /-- The writer had not overflowed; the budget is asked next. -/
  | reserving (w : ω) (p : Bytes)
  /-- `n` bytes are granted and not yet in the buffer. -/
  | granted (w : ω) (p : Bytes) (n : ℤ)
  /-- The `n` granted bytes are in the buffer. -/
  | appended (w : ω) (p : Bytes) (n : ℤ)
  /-- The overflow flag is set, the signal still to be sent. -/
  | flagged (w : ω)
  | closing (w : ω)

namespace Phase

/-- The writer whose mutex the thread holds. -/
def writer : Phase ω → Option ω
  | .idle => none
  | .checking w _ | .reserving w _ | .granted w _ _ | .appended w _ _ | .flagged w | .closing w =>
    some w

/-- Granted bytes that are in no buffer yet. -/
def outstanding : Phase ω → ℤ
  | .granted _ _ n => n
  | _ => 0

/-- All granted bytes of the call are in the buffer. -/
def Kept (ph : Phase ω) (w : ω) (p : Bytes) (n : ℤ) : Prop :=
  ph = .appended w p n ∨ ph = .granted w p n ∧ n ≤ 0

end Phase

/-- The statements of `write`, in order, as a discipline on phases. -/
def writeDiscipline (ω ι : Type) : Discipline (WriteOp ω) WriteOp.Ans ι (Phase ω) where
  pre _ ph
    | .lock _ _ => ph = .idle
    | .overflowed w => ∃ p, ph = .checking w p
    | .reserve n => ∃ w p, ph = .reserving w p ∧ n = p.length
    | .append w chunk => ∃ p n, ph = .granted w p n ∧ 0 < n ∧ chunk = p.take n.toNat
    | .setOverflowed w => ∃ p n, ph.Kept w p n ∧ n < p.length
    | .signal => ∃ w, ph = .flagged w
    | .unlock w => ph = .closing w ∨ ∃ p n, ph.Kept w p n ∧ ¬ n < p.length
  next _ ph e r :=
    match e, r, ph with
    | .lock w p, _, _ => .checking w p
    | .overflowed _, r, .checking w p => bif r then .closing w else .reserving w p
    | .reserve _, n, .reserving w p => .granted w p n
    | .append _ _, _, .granted w p n => .appended w p n
    | .setOverflowed w, _, _ => .flagged w
    | .signal, _, .flagged w => .closing w
    | .unlock _, _, _ => .idle
    | _, _, ph => ph

omit [DecidableEq ω] in
/-- `write` keeps to the discipline and always reports the whole chunk without an error. -/
theorem write_safe (i : ι) (w : ω) (p : Bytes) :
    (write w p).Safe (writeDiscipline ω ι) i
      (fun r ph => r = (p.length, none) ∧ ph = .idle) .idle := by
  refine .op rfl fun _ => .deferring (.op ⟨p, rfl⟩ fun overflowed => ?_)
  cases overflowed with
  | true => exact .op (.inl rfl) fun _ => ⟨rfl, rfl⟩
  | false =>
      refine .op ⟨w, p, rfl, rfl⟩ fun (allowed : ℤ) => ?_
      change Prog.Safe _ _ _ (ite (0 < allowed) _ _) _
      split
      · next hpos =>
          refine .op ⟨p, allowed, rfl, hpos, rfl⟩ fun _ => ?_
          change Prog.Safe _ _ _ (ite (allowed < (p.length : ℤ)) _ _) _
          split
          · next hlt =>
              refine .op ⟨p, allowed, .inl rfl, hlt⟩ fun _ => .op ⟨w, rfl⟩ fun _ => ?_
              exact .op (.inl rfl) fun _ => ⟨rfl, rfl⟩
          · next hge => exact .op (.inr ⟨p, allowed, .inl rfl, hge⟩) fun _ => ⟨rfl, rfl⟩
      · next hpos =>
          -- nothing was granted, so the append is skipped
          have hkept : Phase.Kept (.granted w p allowed) w p allowed := .inr ⟨rfl, not_lt.mp hpos⟩
          change Prog.Safe _ _ _ (ite (allowed < (p.length : ℤ)) _ _) _
          split
          · next hlt =>
              refine .op ⟨p, allowed, hkept, hlt⟩ fun _ => .op ⟨w, rfl⟩ fun _ => ?_
              exact .op (.inl rfl) fun _ => ⟨rfl, rfl⟩
          · next hge => exact .op (.inr ⟨p, allowed, hkept, hge⟩) fun _ => ⟨rfl, rfl⟩

omit [DecidableEq ω] in
/-- Every `Write` of a thread reports its chunk's length and no error. -/
theorem writeAll_safe (i : ι) (calls : List (ω × Bytes)) :
    (writeAll calls).Safe (writeDiscipline ω ι) i
      (fun rs ph => rs = calls.map (fun c => (c.2.length, none)) ∧ ph = .idle) .idle := by
  induction calls with
  | nil => exact ⟨rfl, rfl⟩
  | cons c rest ih =>
      obtain ⟨w, p⟩ := c
      refine .bind ((write_safe i w p).mono ?_)
      rintro r ph ⟨rfl, rfl⟩
      refine .bind (ih.mono ?_)
      rintro rs ph ⟨rfl, rfl⟩
      exact ⟨rfl, rfl⟩

end Afterglow.Sandbox
