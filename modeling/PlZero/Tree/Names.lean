import PlZero.Tree.Basic

/-!
The names that occur in a tree, declared or used, in the order of the text and as often as they
occur.
-/

namespace PlZero

mutual

/-- The names an expression uses. -/
def Expr.names : Expr → List String
  | .odd _ operand => operand.names
  | .binary _ _ lhs rhs => lhs.names ++ rhs.names
  | .call _ callee args => callee.name :: Expr.namesAll args
  | .name _ ref => [ref.name]
  | .number _ _ => []

def Expr.namesAll : List Expr → List String
  | [] => []
  | e :: rest => e.names ++ Expr.namesAll rest

end

mutual

def Stmt.names : Stmt → List String
  | .assign _ target value => target.name :: value.names
  | .sequence _ body => Stmt.namesAll body
  | .ifThen _ cond thenBranch elseBranch =>
    cond.names ++ Stmt.namesOption thenBranch ++ Stmt.namesOption elseBranch
  | .whileDo _ cond body => cond.names ++ Stmt.namesOption body
  | .asm _ _ | .control _ _ => []
  | .call _ callee args => callee.name :: Expr.namesAll args
  | .name _ ref => [ref.name]

def Stmt.namesOption : Option Stmt → List String
  | none => []
  | some stmt => stmt.names

def Stmt.namesAll : List Stmt → List String
  | [] => []
  | stmt :: rest => stmt.names ++ Stmt.namesAll rest

end

/-- The name a definition declares and those its initial value uses. -/
def Definition.names (d : Definition) : List String :=
  d.name :: (d.init.map Expr.names).getD []

def Decls.names (decls : Decls) : List String := decls.defs.flatMap Definition.names

def RoutineKind.params : RoutineKind → List String
  | .procedure => []
  | .function params => params

mutual

/-- The names that occur in a block. -/
def Block.names : Block → List String
  | { consts, vars, routines, body, .. } =>
    (consts.map Decls.names).getD [] ++ (vars.map Decls.names).getD [] ++
      Block.namesRoutines routines ++ Stmt.namesOption body

def Routine.names : Routine → List String
  | { name, kind, block, .. } => name :: kind.params ++ block.names

def Block.namesRoutines : List Routine → List String
  | [] => []
  | routine :: rest => routine.names ++ Block.namesRoutines rest

end

end PlZero
