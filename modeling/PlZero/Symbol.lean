/-!
Roles and symbols: what a name stands for. The same roles classify the results of phrases: an
expression is constant or variable, a statement is void, and whatever was found faulty is an error.
-/

namespace PlZero

/-- What a name stands for, or what class of result a phrase has. -/
inductive Role where
  /-- Faulty, or not classified yet. -/
  | error
  | const
  | var
  | proc
  | func
  /-- A function's own name inside its body: it can be assigned, which sets the result, and it can
  be called, which recurs. -/
  | ret
  /-- No result. -/
  | void
  deriving DecidableEq, Repr

namespace Role

def label : Role → String
  | .error => "Error"
  | .const => "Const"
  | .var => "Var"
  | .proc => "Proc"
  | .func => "Func"
  | .ret => "Ret"
  | .void => "Void"

/-- Is it the class of something that can be computed with? -/
def isValue : Role → Bool
  | .const | .var => true
  | _ => false

/-- Does it stand for something that is called with arguments? -/
def isCallable : Role → Bool
  | .func | .ret => true
  | _ => false

/-- The class of a phrase that has no result and is in order or not. -/
def ofOk (ok : Bool) : Role := if ok then .void else .error

end Role

/-- What is known about a declared name: its role and, for something callable, the number of
arguments. -/
structure Symbol where
  role : Role
  arity : Nat := 0
  deriving DecidableEq, Repr

end PlZero
