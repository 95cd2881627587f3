/-!
Diagnostics: one counted fault, the stage that found it and the line it was found on.
-/

namespace PlZero

/-- The stage of the pipeline that found a fault. -/
inductive Stage where
  | lexer
  | parser
  | analyzer
  deriving DecidableEq, Repr

def Stage.name : Stage → String
  | .lexer => "lexer"
  | .parser => "parser"
  | .analyzer => "analyzer"

/-- A fault, with the identifier it is about where there is one. -/
structure Diagnostic where
  stage : Stage
  line : Nat
  ident : Option String := none
  message : String
  deriving DecidableEq, Repr

/-- The same fault, blamed on the identifier `name`. -/
def Diagnostic.about (d : Diagnostic) (name : String) : Diagnostic := { d with ident := some name }

/-- A diagnostic on one line: stage, line number, identifier if any, message. -/
def Diagnostic.render (d : Diagnostic) : String :=
  let id := match d.ident with
    | some name => ", id: " ++ name
    | none => ""
  d.stage.name ++ " (line " ++ toString d.line ++ id ++ "): error: " ++ d.message

end PlZero
