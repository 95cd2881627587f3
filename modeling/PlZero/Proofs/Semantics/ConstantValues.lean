import PlZero.Listing.Step
import Mathlib.Logic.Function.Basic

/-!
The values of constant expressions. An operation is done on integers of any size, and what comes out
is wrapped to 32 bits; `BinaryOp.eval_eq_exact` says that this is what the operators of the language
do. An expression has no value if it divides by zero, or uses a constant without a value, or if it
is not constant at all; these are told apart (`Obstacle`).

`Constants` is what is known of names at a point of a program: a constant has its value or the
obstacle to it, and whatever else a name is declared as hides a constant further out.
-/

namespace PlZero

/-! ### Arithmetic -/

def BinaryOp.exactTruth (holds : Bool) : Int := if holds then 1 else 0

/-- An operation on integers of any size. A quotient is cut toward zero, and division by zero has no
result. -/
def BinaryOp.exact (op : BinaryOp) (lhs rhs : Int) : Option Int :=
  match op with
  | .add => some (lhs + rhs)
  | .sub => some (lhs - rhs)
  | .mul => some (lhs * rhs)
  | .div => if rhs = 0 then none else some (lhs.tdiv rhs)
  | .less => some (exactTruth (lhs < rhs))
  | .lessEqual => some (exactTruth (lhs ≤ rhs))
  | .greater => some (exactTruth (rhs < lhs))
  | .greaterEqual => some (exactTruth (rhs ≤ lhs))
  | .notEqual => some (exactTruth (lhs ≠ rhs))
  | .equal => some (exactTruth (lhs = rhs))

theorem ofInt_exactTruth (holds : Bool) :
    Int32.ofInt (BinaryOp.exactTruth holds) = BinaryOp.truth holds := by
  cases holds <;> rfl

/-- The operators work on 32 bits as on integers of any size, wrapped. -/
theorem BinaryOp.eval_eq_exact (op : BinaryOp) (lhs rhs : Int32) :
    op.eval lhs rhs = (op.exact lhs.toInt rhs.toInt).map Int32.ofInt := by
  cases op with
  | add => simp [eval, exact, Int32.ofInt_add]
  | sub => simp [eval, exact, Int32.ofInt_sub]
  | mul => simp [eval, exact, Int32.ofInt_mul]
  | div =>
    have zero : rhs.toInt = 0 ↔ rhs = 0 := by rw [← Int32.toInt_inj, Int32.toInt_zero]
    by_cases isZero : rhs = 0
    · simp only [eval, exact, if_pos isZero, if_pos (zero.mpr isZero), Option.map_none]
    · simp only [eval, exact, if_neg isZero, if_neg (mt zero.mp isZero), Option.map_some]
      rw [Option.some_inj, ← Int32.toInt_inj, Int32.toInt_div, Int32.toInt_ofInt]
  | less | lessEqual | greater | greaterEqual =>
    simp [eval, exact, ofInt_exactTruth, Int32.lt_iff_toInt_lt, Int32.le_iff_toInt_le]
  | notEqual =>
    have same : (lhs != rhs) = decide (lhs.toInt ≠ rhs.toInt) := by
      rw [Bool.eq_iff_iff, bne_iff_ne, decide_eq_true_iff, ne_eq, ne_eq, Int32.toInt_inj]
    rw [eval, exact, same, Option.map_some, ofInt_exactTruth]
  | equal =>
    have same : (lhs == rhs) = decide (lhs.toInt = rhs.toInt) := by
      rw [Bool.eq_iff_iff, beq_iff_eq, decide_eq_true_iff, Int32.toInt_inj]
    rw [eval, exact, same, Option.map_some, ofInt_exactTruth]

/-- The least integer divided by minus one is itself. -/
example : BinaryOp.eval .div Int32.minValue (-1) = some Int32.minValue := by decide

/-- The last bit of a known integer says whether it is odd. -/
theorem oddValue_eq (value : Int32) :
    Listing.oddValue value = Int32.ofInt (BinaryOp.exactTruth (value.toInt % 2 ≠ 0)) := by
  have bit : (value &&& 1).toBitVec.toNat = value.toBitVec.toNat % 2 := by
    rw [Int32.toBitVec_and, BitVec.toNat_and]
    exact Nat.and_one_is_mod _
  have parity : value.toInt % 2 = (value.toBitVec.toNat % 2 : Nat) := by
    rw [← Int32.toInt_toBitVec, BitVec.toInt_eq_toNat_cond]
    split <;> omega
  have same : (value &&& 1 != 0) = decide (value.toInt % 2 ≠ 0) := by
    have isZero : value &&& 1 = 0 ↔ value.toInt % 2 = 0 := by
      rw [← Int32.toBitVec_inj, ← BitVec.toNat_inj, bit, parity]
      exact Int.natCast_eq_zero.symm
    rw [Bool.eq_iff_iff, bne_iff_ne, decide_eq_true_iff, ne_eq, ne_eq, isZero]
  rw [Listing.oddValue, same, ofInt_exactTruth]

/-! ### Expressions -/

/-- Why an expression has no value that is known. -/
inductive Obstacle where
  | divisionByZero
  | notConstant
  deriving DecidableEq, Repr

/-- What is known of names: the value of a constant, or why there is none. -/
abbrev Constants := String → Except Obstacle Int32

/-- The value of an expression, or what is first in the way of it. -/
def Expr.evaluate (known : Constants) : Expr → Except Obstacle Int32
  | .odd _ operand => do
    let value ← operand.evaluate known
    return Int32.ofInt (BinaryOp.exactTruth (value.toInt % 2 ≠ 0))
  | .binary _ op lhs rhs => do
    let lhs ← lhs.evaluate known
    let rhs ← rhs.evaluate known
    match op.exact lhs.toInt rhs.toInt with
    | some value => return Int32.ofInt value
    | none => throw .divisionByZero
  | .call _ _ _ => throw .notConstant
  | .name _ ref => known ref.name
  | .number _ value => return value

section

variable {known : Constants} {info : ExprInfo} {op : BinaryOp} {operand lhs rhs : Expr}

/-- On operands with values, the operator of the language has the say. -/
theorem Expr.evaluate_binary {a b : Int32} (left : lhs.evaluate known = .ok a)
    (right : rhs.evaluate known = .ok b) :
    (Expr.binary info op lhs rhs).evaluate known =
      (op.eval a b).elim (.error .divisionByZero) .ok := by
  rw [Expr.evaluate, left, right, BinaryOp.eval_eq_exact]
  dsimp only [Bind.bind, Except.bind]
  cases op.exact a.toInt b.toInt with
  | some value => rfl
  | none => rfl

/-! The parts of an expression with a value have values. -/

theorem Expr.ok_of_evaluate_odd {value : Int32}
    (isOk : (Expr.odd info operand).evaluate known = .ok value) :
    ∃ a, operand.evaluate known = .ok a := by
  rw [Expr.evaluate] at isOk
  cases outcome : operand.evaluate known with
  | ok a => exact ⟨a, rfl⟩
  | error obstacle =>
    rw [outcome] at isOk
    cases isOk

/-- An operation with a value has operands with values. -/
theorem Expr.ok_of_evaluate_binary {value : Int32}
    (isOk : (Expr.binary info op lhs rhs).evaluate known = .ok value) :
    (∃ a, lhs.evaluate known = .ok a) ∧ ∃ b, rhs.evaluate known = .ok b := by
  rw [Expr.evaluate] at isOk
  cases left : lhs.evaluate known with
  | error obstacle =>
    rw [left] at isOk
    cases isOk
  | ok a =>
    cases right : rhs.evaluate known with
    | error obstacle =>
      rw [left, right] at isOk
      cases isOk
    | ok b => exact ⟨⟨a, rfl⟩, ⟨b, rfl⟩⟩

/-! An expression of constant parts is constant. -/

/-- What divides by zero is constant nevertheless. -/
theorem Expr.evaluate_odd_ne (inner : operand.evaluate known ≠ .error .notConstant) :
    (Expr.odd info operand).evaluate known ≠ .error .notConstant := by
  rw [Expr.evaluate]
  cases outcome : operand.evaluate known with
  | ok a => rintro ⟨⟩
  | error obstacle =>
    rw [outcome] at inner
    exact fun isError => inner (congrArg _ (Except.error.inj isError))

/-- An operation on constants is constant, even if it has no value. -/
theorem Expr.evaluate_binary_ne (first : lhs.evaluate known ≠ .error .notConstant)
    (second : rhs.evaluate known ≠ .error .notConstant) :
    (Expr.binary info op lhs rhs).evaluate known ≠ .error .notConstant := by
  cases left : lhs.evaluate known with
  | error obstacle =>
    rw [left] at first
    rw [Expr.evaluate, left]
    exact fun isError => first (congrArg _ (Except.error.inj isError))
  | ok a =>
    cases right : rhs.evaluate known with
    | error obstacle =>
      rw [right] at second
      rw [Expr.evaluate, left, right]
      exact fun isError => second (congrArg _ (Except.error.inj isError))
    | ok b =>
      rw [Expr.evaluate_binary left right]
      cases op.eval a b with
      | some value => rintro ⟨⟩
      | none => rintro ⟨⟩

end

/-! ### Declarations -/

namespace Constants

def nothing : Constants := fun _ => .error .notConstant

/-- Names that are declared as something else than constants. -/
def hide (known : Constants) (names : List String) : Constants := fun name =>
  if name ∈ names then .error .notConstant else known name

/-- What is known behind the definition of a constant or of a variable. -/
def define (role : Role) (known : Constants) (d : Definition) : Constants :=
  match role, d.init with
  | .const, some init => Function.update known d.name (init.evaluate known)
  | _, _ => known.hide [d.name]

end Constants

end PlZero
