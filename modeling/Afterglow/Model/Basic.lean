import Mathlib.Algebra.Group.Int.Defs
import Mathlib.Algebra.Group.Nat.Defs
import Mathlib.Data.Int.Order.Basic
import Mathlib.Tactic.Common

/-!
# Go values shared by all layers

A Go `string` or `[]byte` that carries program data is a byte list. Errors keep their structure: a
leaf text, a `fmt.Errorf("…: %w", err)` wrapping, or an `errors.Join`; `nil` is `none`. Contexts keep
how they were derived, which decides whose cancellation they observe.
-/

namespace Afterglow

/-- The contents of a `[]byte`, or of a `string` that is not known to be text. -/
abbrev Bytes := List UInt8

/-- A non-nil `error`. -/
inductive Err
  | text (msg : String)
  | wrap (context : String) (cause : Err)
  | join (first second : Err)
deriving Repr, DecidableEq

namespace Err

/-- `err.Error()`. -/
def message : Err → String
  | .text msg => msg
  | .wrap context cause => context ++ ": " ++ cause.message
  | .join first second => first.message ++ "\n" ++ second.message

/-- `errors.Is(e, target)`: the target is found by unwrapping. -/
inductive Is : Err → Err → Prop
  | refl {target : Err} : Is target target
  | wrap {context : String} {cause target : Err} (h : Is cause target) : Is (.wrap context cause) target
  | first {first second target : Err} (h : Is first target) : Is (.join first second) target
  | second {first second target : Err} (h : Is second target) : Is (.join first second) target

end Err

/-- The bytes of a string literal or of a formatted message. -/
def utf8 (s : String) : Bytes := s.toUTF8.data.toList

theorem utf8_append (s t : String) : utf8 (s ++ t) = utf8 s ++ utf8 t := by simp [utf8]

/-- Conversion of an integer to the 64-bit `int` (or `int64`) of the supported target. -/
def toInt64 (n : ℤ) : ℤ := Int.bmod n (2 ^ 64)

/-- A value in range is converted exactly. -/
theorem toInt64_of_lt {n : ℤ} (h0 : 0 ≤ n) (h : n < 2 ^ 63) : toInt64 n = n := by
  rw [toInt64]
  exact Int.bmod_eq_of_le_mul_two (by omega) (by omega)

/-- A `context.Context`, by the derivations that matter for cancellation. -/
inductive Ctx
  /-- The context of one request. -/
  | request (id : ℕ)
  | withValue (parent : Ctx)
  | withCancel (parent : Ctx)
  | withTimeout (parent : Ctx) (ms : ℤ)
  | withoutCancel (parent : Ctx)
deriving Repr, DecidableEq

/-- Cancelling request `id` cancels the context. -/
def Ctx.observes : Ctx → ℕ → Prop
  | .request id, id' => id = id'
  | .withValue parent, id | .withCancel parent, id | .withTimeout parent _, id => parent.observes id
  | .withoutCancel _, _ => False

/-- `errors.Join` of two possibly nil errors. -/
def joinErrors : Option Err → Option Err → Option Err
  | none, e => e
  | e, none => e
  | some e, some f => some (.join e f)

@[simp] theorem joinErrors_eq_none {e f : Option Err} :
    joinErrors e f = none ↔ e = none ∧ f = none := by
  cases e <;> cases f <;> simp [joinErrors]

/-- `errors.Join` loses neither error. -/
theorem joinErrors_is {e f : Option Err} {target : Err} (h : e = some target ∨ f = some target) :
    ∃ err, joinErrors e f = some err ∧ err.Is target := by
  rcases h with rfl | rfl
  · cases f with
    | none => exact ⟨target, rfl, .refl⟩
    | some f => exact ⟨.join target f, rfl, .first .refl⟩
  · cases e with
    | none => exact ⟨target, rfl, .refl⟩
    | some e => exact ⟨.join e target, rfl, .second .refl⟩

end Afterglow
