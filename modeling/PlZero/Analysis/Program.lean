import PlZero.Analysis.Phrases
import PlZero.Failure
import PlZero.Primitive

/-!
Analysis of a whole program, in a root scope that holds the runtime functions if the program may
call them.
-/

namespace PlZero

structure Options where
  /-- Are the runtime functions declared? -/
  prelude : Bool := true
  deriving DecidableEq, Repr

/-- The outcome of an analysis: the annotated program, its scopes and every fault. -/
structure Report where
  program : Block
  table : ScopeTable
  root : ScopeId
  diagnostics : List Diagnostic

/-- A program without faults, with its scopes. -/
structure AnalyzedProgram where
  program : Block
  table : ScopeTable
  root : ScopeId

/-- A table of one scope with the given names; of a name that occurs twice the first counts. -/
def ScopeTable.ofSymbols (symbols : List (String × Symbol)) : ScopeTable :=
  symbols.foldl (fun t entry => (t.insert 0 entry.1 entry.2).toOption.getD t)
    (ScopeTable.push {} none)

/-- The scopes a program starts with: the root alone. -/
def Options.table (options : Options) : ScopeTable :=
  .ofSymbols (if options.prelude then
      Primitive.all.map fun p => (p.name, { role := .func, arity := p.arity })
    else [])

/-- Analyzes a program. Its block's names belong to the root scope. -/
def analyzeProgram (options : Options) (program : Block) : Report :=
  let ((program, _), final) := (program.analyzeIn 0).run { table := options.table, scope := 0 }
  { program, table := final.table, root := 0, diagnostics := final.diagnostics }

/-- Analyzes a program that is to be lowered; any fault is a failure. -/
def analyze (options : Options) (program : Block) : Except Failure AnalyzedProgram :=
  let report := analyzeProgram options program
  if report.diagnostics.isEmpty then
    .ok { program := report.program, table := report.table, root := report.root }
  else .error (.semantic report.diagnostics.length)

end PlZero
