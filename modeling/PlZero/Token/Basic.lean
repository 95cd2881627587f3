import PlZero.BinaryOp
import PlZero.Diagnostic

/-!
Tokens: keywords, operators, names, integers and single characters, each with the line it starts
on. A character run that is none of these is a token too; it carries its lexical fault.
-/

namespace PlZero

/-- A reserved word. `call` is reserved although no statement starts with it. -/
inductive Keyword where
  | constKw
  | varKw
  | procedureKw
  | functionKw
  | beginKw
  | endKw
  | ifKw
  | thenKw
  | elseKw
  | whileKw
  | doKw
  | breakKw
  | continueKw
  | oddKw
  | asmKw
  | callKw
  deriving DecidableEq, Repr

namespace Keyword

def all : List Keyword :=
  [.constKw, .varKw, .procedureKw, .functionKw, .beginKw, .endKw, .ifKw, .thenKw, .elseKw,
    .whileKw, .doKw, .breakKw, .continueKw, .oddKw, .asmKw, .callKw]

def spelling : Keyword → String
  | .constKw => "const"
  | .varKw => "var"
  | .procedureKw => "procedure"
  | .functionKw => "function"
  | .beginKw => "begin"
  | .endKw => "end"
  | .ifKw => "if"
  | .thenKw => "then"
  | .elseKw => "else"
  | .whileKw => "while"
  | .doKw => "do"
  | .breakKw => "break"
  | .continueKw => "continue"
  | .oddKw => "odd"
  | .asmKw => "asm"
  | .callKw => "call"

def ofSpelling? (word : String) : Option Keyword := all.find? (·.spelling == word)

end Keyword

/-- An operator: one of the binary ones, or the arrow of an assignment. -/
inductive Operator where
  | binary (op : BinaryOp)
  | assign
  deriving DecidableEq, Repr

namespace Operator

def spelling : Operator → String
  | .binary op => op.spelling
  | .assign => ":="

def ofSpelling? (text : String) : Option Operator :=
  if text = ":=" then some .assign else (BinaryOp.ofSpelling? text).map .binary

/-- The binary operator, unless this is the arrow of an assignment. -/
def toBinary? : Operator → Option BinaryOp
  | .binary op => some op
  | .assign => none

end Operator

/-- Why a character run is no token. -/
inductive LexicalFault where
  /-- A run that starts like a number and is none, or is too large. -/
  | invalidNumber
  /-- A run of operator characters that spells no operator. -/
  | unknownOperator
  deriving DecidableEq, Repr

def LexicalFault.message : LexicalFault → String
  | .invalidNumber => "invalid number"
  | .unknownOperator => "unknown operator"

def LexicalFault.diagnostic (fault : LexicalFault) (line : Nat) : Diagnostic :=
  { stage := .lexer, line, message := fault.message }

namespace Token

inductive Kind where
  /-- The end of the source text. -/
  | endOfText
  /-- A character run that is no token. -/
  | invalid (fault : LexicalFault)
  /-- A name, in lower case. -/
  | name (text : String)
  | integer (value : Int32)
  | keyword (word : Keyword)
  | operator (op : Operator)
  /-- Any other single character. -/
  | char (c : Char)
  deriving DecidableEq, Repr

/-- The lexical fault of a token that is none. -/
def Kind.fault? : Kind → Option LexicalFault
  | .invalid fault => some fault
  | _ => none

/-- A token written back: names and keywords in lower case, integers in decimal. -/
def Kind.spelling : Kind → String
  | .endOfText | .invalid _ => ""
  | .name text => text
  | .integer value => toString value.toInt
  | .keyword word => word.spelling
  | .operator op => op.spelling
  | .char c => c.toString

end Token

/-- A token and the line it starts on. -/
structure Token where
  kind : Token.Kind
  line : Nat
  deriving DecidableEq, Repr

def Token.diagnostic? (t : Token) : Option Diagnostic := t.kind.fault?.map (·.diagnostic t.line)

end PlZero
