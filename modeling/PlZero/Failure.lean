/-!
What stops a compilation. Faults that analysis collects are diagnostics; a failure is the single
answer given instead of a result.
-/

namespace PlZero

/-- Why there is no result. -/
inductive Failure where
  /-- The tokens are no program; the first one that does not fit stands on `line`. -/
  | grammar (line : Nat) (message : String)
  /-- The first character run that does not fit is no token at all. -/
  | lexical (line : Nat) (message : String)
  /-- Analysis found `count` faults, so there is nothing to lower. -/
  | semantic (count : Nat)
  /-- A program that was only to be checked has `count` faults. -/
  | rejected (count : Nat)
  /-- No target is called `name`. -/
  | unknownTarget (name : String)
  /-- A file could not be read or written. -/
  | storage (message : String)
  deriving DecidableEq, Repr

def Failure.message : Failure → String
  | .grammar line message => "Syntax error at line " ++ toString line ++ ": " ++ message
  | .lexical line message => "Lexer error at line " ++ toString line ++ ": " ++ message
  | .semantic count => "Semantic analysis failed with " ++ toString count ++ " error(s)"
  | .rejected count => "Compilation failed with " ++ toString count ++ " error(s)"
  | .unknownTarget name => "Unknown target: " ++ name
  | .storage message => "IO error: " ++ message

end PlZero
