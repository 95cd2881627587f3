import PlZero.Builder

/-!
Lowering: the walk over an analyzed tree that drives a builder. It asks the builder for each
construct in the order of the text and hands the parts whose place the builder chooses over as
deferred actions. It reads the roles that names resolved to and nothing else that analysis added.
-/

namespace PlZero

variable {m : Type → Type} [Monad m] {V : Type}

/-! ### Expressions -/

/-- Lowers a bare name in the place of an operand. A name that yields no value counts as zero;
analysis accepts no such operand. -/
def Reference.lowerOperand (b : Builder m V) (ref : Reference) : m V := do
  match ← b.name ref.name ref.role with
  | some value => return value
  | none => b.number 0

mutual

/-- Lowers an expression, operands from left to right. -/
def Expr.lower (b : Builder m V) : Expr → m V
  | .odd _ operand => do
    let operand ← operand.lower b
    b.odd operand
  | .binary _ op lhs rhs => do
    let lhs ← lhs.lower b
    let rhs ← rhs.lower b
    b.binary op lhs rhs
  | .call _ callee args => do
    let args ← Expr.lowerArgs b args
    b.call callee.name args
  | .name _ ref => ref.lowerOperand b
  | .number _ value => b.number value

def Expr.lowerArgs (b : Builder m V) : List Expr → m (List V)
  | [] => return []
  | arg :: args => do
    let arg ← arg.lower b
    let args ← Expr.lowerArgs b args
    return arg :: args

end

/-! ### Statements -/

mutual

def Stmt.lower (b : Builder m V) : Stmt → m (Option V)
  | .assign _ target value => do
    let value ← value.lower b
    b.assign target.name target.role value
  | .sequence _ body => Stmt.lowerAll b body
  | .ifThen _ cond thenBranch elseBranch => do
    let cond ← cond.lower b
    b.ifThen cond (Stmt.deferOption b thenBranch) (Stmt.deferOption b elseBranch)
  | .whileDo _ cond body => b.whileDo (cond.lower b) (Stmt.deferOption b body)
  | .asm _ text => b.asm text
  | .control _ exit => b.control exit
  | .call _ callee args => do
    let args ← Expr.lowerArgs b args
    let value ← b.call callee.name args
    return some value
  | .name _ ref => b.name ref.name ref.role

def Stmt.deferOption (b : Builder m V) : Option Stmt → Option (Deferred m V)
  | none => none
  | some stmt => some (stmt.lower b)

/-- Lowers statements in order; what they yield is dropped. -/
def Stmt.lowerAll (b : Builder m V) : List Stmt → m (Option V)
  | [] => return none
  | stmt :: rest => do
    let _ ← stmt.lower b
    Stmt.lowerAll b rest

end

/-! ### Declarations -/

/-- Lowers constants in order. One without a value is passed over; analysis accepts none. -/
def Definition.lowerConsts (b : Builder m V) : List Definition → m (Option V)
  | [] => return none
  | { name, init := some init, .. } :: rest => do
    let value ← init.lower b
    b.constant name value
    Definition.lowerConsts b rest
  | { init := none, .. } :: rest => Definition.lowerConsts b rest

def Definition.lowerVars (b : Builder m V) : List Definition → m (Option V)
  | [] => return none
  | { name, init := some init, .. } :: rest => do
    let value ← init.lower b
    b.storage name (some value)
    Definition.lowerVars b rest
  | { name, init := none, .. } :: rest => do
    b.storage name none
    Definition.lowerVars b rest

/-! ### Routines and blocks -/

mutual

def Block.lower (b : Builder m V) : Block → m (Option V)
  | { consts, vars, routines, body, .. } =>
    b.block (consts.map fun decls => Definition.lowerConsts b decls.defs)
      (vars.map fun decls => Definition.lowerVars b decls.defs)
      (Block.lowerRoutines b routines) (Stmt.deferOption b body)

def Routine.lower (b : Builder m V) : Routine → m (Option V)
  | { name, kind := .procedure, block, .. } => b.procedure name (block.lower b)
  | { name, kind := .function params, block, .. } => b.function name params (block.lower b)

/-- Lowers routines in order; what they yield is dropped. -/
def Block.lowerRoutines (b : Builder m V) : List Routine → m (Option V)
  | [] => return none
  | routine :: rest => do
    let _ ← routine.lower b
    Block.lowerRoutines b rest

end

end PlZero
