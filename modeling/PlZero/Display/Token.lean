import PlZero.Display.Outline
import PlZero.Token.Basic

/-!
Tokens as they are shown in a token dump.
-/

namespace PlZero

def BinaryOp.displayName : BinaryOp → String
  | .add => "Add"
  | .sub => "Sub"
  | .mul => "Mul"
  | .div => "Div"
  | .less => "Less"
  | .lessEqual => "LessEqual"
  | .greater => "Greater"
  | .greaterEqual => "GreaterEqual"
  | .notEqual => "NotEqual"
  | .equal => "Equal"

def Operator.displayName : Operator → String
  | .binary op => op.displayName
  | .assign => "Assign"

/-- The name a keyword is shown under: its spelling with a capital. -/
def Keyword.displayName (word : Keyword) : String := word.spelling.capitalize

def Token.Kind.outline : Token.Kind → Outline
  | .endOfText => .atom "End"
  | .invalid _ => .atom "Error"
  | .name text => .wrapped "Identifier" (.text text)
  | .integer value => .wrapped "Integer" (.atom (toString value.toInt))
  | .keyword word => .wrapped "Keyword" (.atom word.displayName)
  | .operator op => .wrapped "Operator" (.atom op.displayName)
  | .char c => .wrapped "Char" (.atom (Text.quotedChar c))

/-- A token on a line of a dump: its line number, in at least four places, and what it is. -/
def Token.dump (t : Token) : String :=
  let line := toString t.line
  "".pushn ' ' (4 - line.length) ++ line ++ ": " ++ t.kind.outline.inline

end PlZero
