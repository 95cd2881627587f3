/-!
The binary operators of the language: four of arithmetic, six of comparison.
-/

namespace PlZero

inductive BinaryOp where
  | add
  | sub
  | mul
  | div
  | less
  | lessEqual
  | greater
  | greaterEqual
  | notEqual
  | equal
  deriving DecidableEq, Repr

namespace BinaryOp

def all : List BinaryOp :=
  [add, sub, mul, div, less, lessEqual, greater, greaterEqual, notEqual, equal]

def spelling : BinaryOp → String
  | add => "+"
  | sub => "-"
  | mul => "*"
  | div => "/"
  | less => "<"
  | lessEqual => "<="
  | greater => ">"
  | greaterEqual => ">="
  | notEqual => "<>"
  | equal => "="

def ofSpelling? (text : String) : Option BinaryOp := all.find? (·.spelling == text)

/-- Does the operator join terms? -/
def isAdditive : BinaryOp → Bool
  | add | sub => true
  | _ => false

/-- Does the operator join factors? -/
def isMultiplicative : BinaryOp → Bool
  | mul | div => true
  | _ => false

/-- Is the operator a comparison? Only a condition may hold one. -/
def isRelational (op : BinaryOp) : Bool := !op.isAdditive && !op.isMultiplicative

/-- A truth value as the integer 1 or 0. -/
def truth (b : Bool) : Int32 := if b then 1 else 0

/-- The value of an operation on two integers. Sums, differences and products wrap, a quotient is
cut toward zero, and the least integer divided by minus one is itself. Division by zero has no
value. -/
def eval (op : BinaryOp) (lhs rhs : Int32) : Option Int32 :=
  match op with
  | add => some (lhs + rhs)
  | sub => some (lhs - rhs)
  | mul => some (lhs * rhs)
  | div => if rhs = 0 then none else some (lhs / rhs)
  | less => some (truth (lhs < rhs))
  | lessEqual => some (truth (lhs ≤ rhs))
  | greater => some (truth (lhs > rhs))
  | greaterEqual => some (truth (lhs ≥ rhs))
  | notEqual => some (truth (lhs != rhs))
  | equal => some (truth (lhs == rhs))

end BinaryOp

end PlZero
