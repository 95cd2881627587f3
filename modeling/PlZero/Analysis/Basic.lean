import PlZero.Diagnostic
import PlZero.ScopeTable

/-!
The state of an analysis and its elementary steps: reporting a fault, declaring a name, and working
for a while in another scope or inside a loop.
-/

namespace PlZero

/-- What analysis finds fault with. -/
inductive AnalysisFault where
  | alreadyDefined
  | undefined
  | nonConstantInit
  | invalidInit
  | missingInit
  | notAssignable
  | invalidAssignment
  | strayLoopExit
  | invalidOperand
  | invalidLeft
  | invalidRight
  | invalidArgument
  | notCallable
  | arityMismatch
  | invalidName
  deriving DecidableEq, Repr

def AnalysisFault.message : AnalysisFault → String
  | .alreadyDefined => "identifier has already been defined"
  | .undefined => "identifier has not been defined"
  | .nonConstantInit => "initialize with non-constant value"
  | .invalidInit => "invalid initial value"
  | .missingInit => "constant requires an initializer"
  | .notAssignable => "try to assign a value to a non-variable"
  | .invalidAssignment => "invalid assignment"
  | .strayLoopExit => "try to use break/continue outside 'while' loop"
  | .invalidOperand => "invalid operand"
  | .invalidLeft => "invalid lhs"
  | .invalidRight => "invalid rhs"
  | .invalidArgument => "invalid argument"
  | .notCallable => "try to call a non-function"
  | .arityMismatch => "argument count mismatch"
  | .invalidName => "invalid identifier"

/-- How far an analysis has come: the scopes made so far, the scope it works in, the number of
loops around it, and the faults found. -/
structure Analyzer where
  table : ScopeTable
  scope : ScopeId
  loopDepth : Nat := 0
  diagnostics : List Diagnostic := []
  deriving DecidableEq, Repr

abbrev Analysis := StateM Analyzer

namespace Analysis

/-- Records a fault and classifies the phrase as faulty. -/
def report (line : Nat) (fault : AnalysisFault) : Analysis Role := do
  modify fun a => { a with
    diagnostics := a.diagnostics ++ [{ stage := .analyzer, line, message := fault.message }] }
  return .error

def reportName (line : Nat) (name : String) (fault : AnalysisFault) : Analysis Role := do
  modify fun a => { a with
    diagnostics := a.diagnostics ++
      [{ stage := .analyzer, line, ident := some name, message := fault.message }] }
  return .error

def currentScope : Analysis ScopeId := return (← get).scope

def resolve? (name : String) : Analysis (Option Symbol) :=
  return (← get).table.resolve? (← get).scope name

def newScope (parent : ScopeId) : Analysis ScopeId := do
  let scope := (← get).table.size
  modify fun a => { a with table := a.table.push (some parent) }
  return scope

/-- Declares a name in a scope and says whether it was free there; if not, that is a fault. -/
def declare (scope : ScopeId) (name : String) (symbol : Symbol) (line : Nat) : Analysis Bool := do
  match (← get).table.insert scope name symbol with
  | .ok table =>
    modify fun a => { a with table }
    return true
  | .error _ =>
    let _ ← reportName line name .alreadyDefined
    return false

/-- Does a piece of work in another scope and comes back. -/
def inScope {α : Type} (scope : ScopeId) (work : Analysis α) : Analysis α := do
  let outer ← currentScope
  modify fun a => { a with scope }
  let result ← work
  modify fun a => { a with scope := outer }
  return result

def inLoop {α : Type} (work : Analysis α) : Analysis α := do
  modify fun a => { a with loopDepth := a.loopDepth + 1 }
  let result ← work
  modify fun a => { a with loopDepth := a.loopDepth - 1 }
  return result

end Analysis

end PlZero
