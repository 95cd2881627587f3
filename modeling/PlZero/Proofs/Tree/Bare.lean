import PlZero.Tree.Basic

/-!
Bare trees: without the lines of the nodes and without what analysis fills in. Two trees that are
the same when bare were written with the same tokens.
-/

namespace PlZero

mutual

def Expr.bare : Expr → Expr
  | .odd _ operand => .odd { line := 1 } operand.bare
  | .binary _ op lhs rhs => .binary { line := 1 } op lhs.bare rhs.bare
  | .call _ callee args => .call { line := 1 } { name := callee.name } (Expr.bareAll args)
  | .name _ ref => .name { line := 1 } { name := ref.name }
  | .number _ value => .number { line := 1 } value

def Expr.bareAll : List Expr → List Expr
  | [] => []
  | e :: rest => e.bare :: Expr.bareAll rest

end

mutual

def Stmt.bare : Stmt → Stmt
  | .assign _ target value => .assign { line := 1 } { name := target.name } value.bare
  | .sequence _ body => .sequence { line := 1 } (Stmt.bareAll body)
  | .ifThen _ cond thenBranch elseBranch =>
    .ifThen { line := 1 } cond.bare (Stmt.bareOption thenBranch) (Stmt.bareOption elseBranch)
  | .whileDo _ cond body => .whileDo { line := 1 } cond.bare (Stmt.bareOption body)
  | .asm _ text => .asm { line := 1 } text
  | .control _ exit => .control { line := 1 } exit
  | .call _ callee args => .call { line := 1 } { name := callee.name } (Expr.bareAll args)
  | .name _ ref => .name { line := 1 } { name := ref.name }

def Stmt.bareOption : Option Stmt → Option Stmt
  | none => none
  | some s => some s.bare

def Stmt.bareAll : List Stmt → List Stmt
  | [] => []
  | s :: rest => s.bare :: Stmt.bareAll rest

end

def Definition.bare (d : Definition) : Definition :=
  { line := 1, name := d.name, init := d.init.map Expr.bare }

def Decls.bare (decls : Decls) : Decls := { line := 1, defs := decls.defs.map Definition.bare }

mutual

/-- A block on the first line, before analysis. -/
def Block.bare : Block → Block
  | { consts, vars, routines, body, .. } =>
    { line := 1, consts := consts.map Decls.bare, vars := vars.map Decls.bare,
      routines := Routine.bareAll routines, body := Stmt.bareOption body }

def Routine.bare : Routine → Routine
  | { name, kind, block, .. } => { line := 1, name, kind, block := block.bare }

def Routine.bareAll : List Routine → List Routine
  | [] => []
  | r :: rest => r.bare :: Routine.bareAll rest

end

end PlZero
