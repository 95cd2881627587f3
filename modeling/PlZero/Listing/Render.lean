import PlZero.Listing.Basic
import PlZero.Text.Quoted

/-!
A listing as text: globals, declarations of functions defined elsewhere, routines, and last the
entry point, whose lines are those of the module.
-/

namespace PlZero.Listing

def Operand.render : Operand → String
  | .imm value => toString value.toInt
  | .temp id => "%t" ++ toString id

/-- A slot: its name, with a number if slots of that name came before. -/
def Slot.render (s : Slot) : String :=
  if s.earlier = 0 then "%" ++ s.name else "%" ++ s.name ++ "." ++ toString s.earlier

/-- An address, with the number of routine boundaries to cross if there are any. -/
def Address.render : Address → String
  | .global name => "@" ++ name
  | .slot up s => if up = 0 then s.render else "^" ++ toString up ++ " " ++ s.render

def labelText (id : Nat) : String := "L" ++ toString id

def opcode : BinaryOp → String
  | .add => "add"
  | .sub => "sub"
  | .mul => "mul"
  | .div => "sdiv"
  | .less => "lt"
  | .lessEqual => "le"
  | .greater => "gt"
  | .greaterEqual => "ge"
  | .notEqual => "ne"
  | .equal => "eq"

def resultText (id : Nat) : String := (Operand.temp id).render ++ " = "

def Instr.render : Instr → String
  | .slot s => "slot " ++ s.render
  | .store address value => "store " ++ address.render ++ ", " ++ value.render
  | .load result address => resultText result ++ "load " ++ address.render
  | .binary result op lhs rhs =>
    resultText result ++ opcode op ++ " " ++ lhs.render ++ ", " ++ rhs.render
  | .odd result operand => resultText result ++ "odd " ++ operand.render
  | .call result symbol args =>
    resultText result ++ "call @" ++ symbol ++ "(" ++ ", ".intercalate (args.map (·.render)) ++ ")"
  | .run symbol => "call @" ++ symbol ++ "()"
  | .asm text => "asm " ++ Text.quoted text
  | .branch cond onTrue onFalse =>
    "br " ++ cond.render ++ ", " ++ labelText onTrue ++ ", " ++ labelText onFalse
  | .jump label => "jmp " ++ labelText label

def Line.render : Line → String
  | .instr i => "  " ++ i.render
  | .label id => labelText id ++ ":"

/-- Lines of text, each with its line feed. -/
def unlines (lines : List String) : String := String.join (lines.map (· ++ "\n"))

def Frame.body (f : Frame) : List String := f.lines.toList.map (·.render)

/-- A finished routine. A function ends by giving back its result. -/
def Frame.render (f : Frame) : String :=
  let params := ", ".intercalate (f.params.map ("i32 %" ++ ·))
  let (type, ending) : String × List String := match f.result with
    | some slot => ("i32", ["  %ret = load " ++ slot.render, "  ret %ret"])
    | none => ("void", ["  ret void"])
  unlines (["define " ++ type ++ " @" ++ f.symbol ++ "(" ++ params ++ ") \x7b", "entry:"] ++
    f.body ++ ending ++ ["\x7d"])

def Global.render (g : Global) : String :=
  "global @" ++ g.name ++ " = " ++ toString g.value.toInt

def externalText (name : String) (arity : Nat) : String :=
  "declare i32 @" ++ name ++ "(" ++ ", ".intercalate (List.replicate arity "i32") ++ ")"

/-- The module's frame: the outermost one. -/
def moduleFrame (l : Listing) : Frame := l.outer.getLast?.getD l.frame

def render (l : Listing) : String :=
  let declarations := l.globals.toList.map (·.render) ++
    l.externals.map fun external => externalText external.1 external.2
  unlines declarations ++ (if declarations.isEmpty then "" else "\n") ++
    String.join (l.routines.toList.map (·.render ++ "\n")) ++
    unlines (["define i32 @main() \x7b", "entry:"] ++ l.moduleFrame.body ++ ["  ret 0", "\x7d"])

end PlZero.Listing
