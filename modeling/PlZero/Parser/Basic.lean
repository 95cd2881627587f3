import PlZero.Failure
import PlZero.Token.Scanner

/-!
The parser's state and its elementary steps. A parser sees one token ahead of what it has read. A
step looks at that token, takes it, or rejects it; a rejection stops the parse and leaves the parser
on the token that did not fit, so that the state after a failure can be inspected and read on from.
-/

namespace PlZero

/-- What the grammar asked for in vain. -/
inductive GrammarFault where
  | periodRequired
  | nameRequired
  | parameterRequired
  | equalsRequired
  | semicolonRequired
  | closingRequired
  | callClosingRequired
  | beginRequired
  | endRequired
  | thenRequired
  | doRequired
  | comparisonRequired
  | invalidFactor
  deriving DecidableEq, Repr

def GrammarFault.message : GrammarFault → String
  | .periodRequired => "source program must end with '.'"
  | .nameRequired => "identifier required"
  | .parameterRequired => "identifier required in argument list"
  | .equalsRequired => "'=' required"
  | .semicolonRequired => "';' required"
  | .closingRequired => "')' required"
  | .callClosingRequired => "')' required in function call"
  | .beginRequired => "'begin' required"
  | .endRequired => "'end' required"
  | .thenRequired => "'then' required"
  | .doRequired => "'do' required"
  | .comparisonRequired => "relational operator required"
  | .invalidFactor => "invalid factor"

def GrammarFault.diagnostic (fault : GrammarFault) (line : Nat) : Diagnostic :=
  { stage := .parser, line, message := fault.message }

/-- A parser: the token it stands on, the scanner behind that token, and the grammar faults met so
far. -/
structure Parser where
  scanner : Scanner
  current : Token
  diagnostics : List Diagnostic := []
  deriving DecidableEq, Repr

namespace Parser

def ofString (source : String) : Parser :=
  let (token, scanner) := (Scanner.ofString source).next
  { scanner, current := token }

def advance (p : Parser) : Parser :=
  let (token, scanner) := p.scanner.next
  { p with scanner, current := token }

/-- Lexical and grammar faults met so far. -/
def errorCount (p : Parser) : Nat := p.scanner.diagnostics.length + p.diagnostics.length

/-- A bound on the nesting of phrases from here on: every phrase that encloses another has taken a
token first, or is one of at most eight that start on the same token. -/
def fuel (p : Parser) : Nat := 8 * (p.scanner.rest.length + 2)

end Parser

/-- A piece of parsing: it yields a value or a failure, and a parser in either case. -/
abbrev Parsing := EStateM Failure Parser

namespace Parsing

def currentKind : Parsing Token.Kind := return (← get).current.kind

def currentLine : Parsing Nat := return (← get).current.line

def sees (kind : Token.Kind) : Parsing Bool := return (← get).current.kind = kind

def skip : Parsing Unit := modify Parser.advance

/-- Stops on the current token. A token that is none was reported when it was scanned, so then that
fault is the answer and nothing is added to the diagnostics. -/
def reject {α : Type} (fault : GrammarFault) : Parsing α := fun p =>
  match p.current.kind with
  | .invalid lexicalFault => .error (.lexical p.current.line lexicalFault.message) p
  | _ =>
    .error (.grammar p.current.line fault.message)
      { p with diagnostics := p.diagnostics ++ [fault.diagnostic p.current.line] }

def expect (kind : Token.Kind) (otherwise : GrammarFault) : Parsing Unit := do
  if ← sees kind then skip else reject otherwise

def expectName (otherwise : GrammarFault) : Parsing String := do
  match ← currentKind with
  | .name text => skip; return text
  | _ => reject otherwise

/-- Takes a binary operator of the given sort, if the parser is on one. -/
def operator? (sort : BinaryOp → Bool) : Parsing (Option BinaryOp) := do
  match ← currentKind with
  | .operator (.binary op) => if sort op then skip; return some op else return none
  | _ => return none

end Parsing

end PlZero
