/-
`AppError` (error.rs), the one error type of the service.

The payload of `database` and `io` is the text of an error that SQLite or the
operating system produced; the model takes such texts from its environment.
-/
import Wikikiki.Lib.Text

namespace Wikikiki

inductive AppError where
  | database (e : Text)
  | io (e : Text)
  | config (msg : Text)
  | unauthorized
  | forbidden
  | notFound (msg : Text)
  | badRequest (msg : Text)
  | conflict (msg : Text)
  | preconditionFailed (msg : Text)
  | internal (msg : Text)
  deriving DecidableEq

/-- How a computation ends early: with an `Err`, or by a panic, which unwinds
to the task it runs in. -/
inductive Halt where
  | err (e : AppError)
  | panic
  deriving DecidableEq

/-- What a computation in two parts came to. -/
theorem bind_eq_ok {ε α β : Type} {x : Except ε α} {f : α → Except ε β} {b : β} :
    x >>= f = .ok b ↔ ∃ a, x = .ok a ∧ f a = .ok b := by
  cases x <;> simp [bind, Except.bind]

end Wikikiki
