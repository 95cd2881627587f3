import PlZero.Analysis.Basic

/-!
Analysis of the phrases of a program. Each phrase is visited once, all of it even after a fault, and
comes back annotated: with the scope it stands in, with its class, and with the roles its names
resolved to.

An expression is `const`, `var`, `void` (the bare name of a procedure) or `error`; its class stands
in the annotated expression. Anything else is `void` or `error`, and its class comes along with the
annotated phrase. A name whose declaration is faulty is declared all the same, unless its scope
already has it.
-/

namespace PlZero

open Analysis

/-! ### Names and calls -/

/-- Resolves a bare name: a procedure is run, a function called without arguments, a constant or
variable read. -/
def Reference.analyze (line : Nat) (ref : Reference) : Analysis (Reference × Role) := do
  match ← resolve? ref.name with
  | none => return (ref, ← reportName line ref.name .undefined)
  | some symbol =>
    let result ← match symbol.role with
      | .proc => pure .void
      | .func | .ret =>
        if symbol.arity = 0 then pure .var else reportName line ref.name .arityMismatch
      | .const => pure .const
      | .var => pure .var
      | .error | .void => reportName line ref.name .invalidName
    return ({ ref with role := symbol.role }, result)

/-- Resolves the name of a call with `count` arguments, which are in order if `argsOk`. -/
def Reference.analyzeCall (line : Nat) (callee : Reference) (count : Nat) (argsOk : Bool) :
    Analysis (Reference × Role) := do
  match ← resolve? callee.name with
  | none => return (callee, ← reportName line callee.name .undefined)
  | some symbol =>
    let result ←
      if !symbol.role.isCallable then reportName line callee.name .notCallable
      else if symbol.arity ≠ count then reportName line callee.name .arityMismatch
      else pure (if argsOk then .var else .error)
    return ({ callee with role := symbol.role }, result)

/-! ### Expressions -/

def classifyOdd (line : Nat) (operand : Role) : Analysis Role :=
  if operand = .error then pure .error
  else if operand.isValue then pure operand
  else report line .invalidOperand

/-- The class of a binary operation on operands of the given classes. -/
def classifyBinary (line : Nat) (lhs rhs : Role) : Analysis Role :=
  if lhs = .error ∨ rhs = .error then pure .error
  else if !lhs.isValue then report line .invalidLeft
  else if !rhs.isValue then report line .invalidRight
  else if lhs = .const ∧ rhs = .const then pure .const
  else pure .var

/-- Is an argument of the given class in order? One that is no value is a fault of the call. -/
def checkArgument (line : Nat) (callee : String) (arg : Role) : Analysis Bool := do
  if arg = .error then return false
  else if arg.isValue then return true
  else
    let _ ← reportName line callee .invalidArgument
    return false

def ExprInfo.annotate (info : ExprInfo) (result : Role) : Analysis ExprInfo :=
  return { info with result, scope := some (← currentScope) }

mutual

def Expr.analyze : Expr → Analysis Expr
  | .odd info operand => do
    let operand ← operand.analyze
    let result ← classifyOdd info.line operand.info.result
    return .odd (← info.annotate result) operand
  | .binary info op lhs rhs => do
    let lhs ← lhs.analyze
    let rhs ← rhs.analyze
    let result ← classifyBinary info.line lhs.info.result rhs.info.result
    return .binary (← info.annotate result) op lhs rhs
  | .call info callee args => do
    let (args, argsOk) ← Expr.analyzeArgs info.line callee.name args
    let (callee, result) ← callee.analyzeCall info.line args.length argsOk
    return .call (← info.annotate result) callee args
  | .name info ref => do
    let (ref, result) ← ref.analyze info.line
    return .name (← info.annotate result) ref
  | .number info value => return .number (← info.annotate .const) value

/-- Analyzes the arguments of a call of `callee` and says whether all are in order. -/
def Expr.analyzeArgs (line : Nat) (callee : String) : List Expr → Analysis (List Expr × Bool)
  | [] => return ([], true)
  | arg :: args => do
    let arg ← arg.analyze
    let argOk ← checkArgument line callee arg.info.result
    let (args, argsOk) ← Expr.analyzeArgs line callee args
    return (arg :: args, argOk && argsOk)

end

/-! ### Statements -/

/-- Resolves the target of an assignment of a value of the given class. -/
def Reference.analyzeTarget (line : Nat) (target : Reference) (value : Role) :
    Analysis (Reference × Role) := do
  match ← resolve? target.name with
  | none => return (target, ← reportName line target.name .undefined)
  | some symbol =>
    let result ←
      if symbol.role ≠ .var ∧ symbol.role ≠ .ret then reportName line target.name .notAssignable
      else if value = .error then pure .error
      else if !value.isValue then reportName line target.name .invalidAssignment
      else pure .void
    return ({ target with role := symbol.role }, result)

def StmtInfo.annotate (info : StmtInfo) : Analysis StmtInfo :=
  return { info with scope := some (← currentScope) }

mutual

def Stmt.analyze : Stmt → Analysis (Stmt × Role)
  | .assign info target value => do
    let info ← info.annotate
    let value ← value.analyze
    let (target, result) ← target.analyzeTarget info.line value.info.result
    return (.assign info target value, result)
  | .sequence info body => do
    let info ← info.annotate
    let (body, bodyOk) ← Stmt.analyzeAll body
    return (.sequence info body, .ofOk bodyOk)
  | .ifThen info cond thenBranch elseBranch => do
    let info ← info.annotate
    let cond ← cond.analyze
    let (thenBranch, thenOk) ← Stmt.analyzeOption thenBranch
    let (elseBranch, elseOk) ← Stmt.analyzeOption elseBranch
    return (.ifThen info cond thenBranch elseBranch,
      .ofOk (cond.info.result != .error && thenOk && elseOk))
  | .whileDo info cond body => do
    let info ← info.annotate
    let cond ← cond.analyze
    let (body, bodyOk) ← inLoop (Stmt.analyzeOption body)
    return (.whileDo info cond body, .ofOk (cond.info.result != .error && bodyOk))
  | .asm info text => return (.asm (← info.annotate) text, .void)
  | .control info exit => do
    let info ← info.annotate
    let result ← if (← get).loopDepth = 0 then report info.line .strayLoopExit else pure .void
    return (.control info exit, result)
  | .call info callee args => do
    let info ← info.annotate
    let (args, argsOk) ← Expr.analyzeArgs info.line callee.name args
    let (callee, result) ← callee.analyzeCall info.line args.length argsOk
    return (.call info callee args, .ofOk (result != .error))
  | .name info ref => do
    let info ← info.annotate
    let (ref, result) ← ref.analyze info.line
    return (.name info ref, .ofOk (result != .error))

/-- Analyzes a statement that may be missing and says whether it is in order. -/
def Stmt.analyzeOption : Option Stmt → Analysis (Option Stmt × Bool)
  | none => return (none, true)
  | some stmt => do
    let (stmt, result) ← stmt.analyze
    return (some stmt, result != .error)

def Stmt.analyzeAll : List Stmt → Analysis (List Stmt × Bool)
  | [] => return ([], true)
  | stmt :: rest => do
    let (stmt, result) ← stmt.analyze
    let (rest, restOk) ← Stmt.analyzeAll rest
    return (stmt :: rest, result != .error && restOk)

end

/-! ### Declarations -/

/-- Does a definition in a section of the given role have an initial value it may have? -/
def Definition.checkInit (line : Nat) (name : String) (role : Role) (init : Option Role) :
    Analysis Bool := do
  match init with
  | none =>
    if role = .const then
      let _ ← reportName line name .missingInit
      return false
    else return true
  | some .error => return false
  | some init =>
    if role = .const ∧ init ≠ .const then
      let _ ← reportName line name .nonConstantInit
      return false
    else if !init.isValue then
      let _ ← reportName line name .invalidInit
      return false
    else return true

def Definition.analyzeInit : Option Expr → Analysis (Option Expr)
  | none => return none
  | some init => return some (← init.analyze)

/-- Analyzes a definition in a section of the given role, then declares its name. -/
def Definition.analyze (role : Role) (d : Definition) : Analysis (Definition × Bool) := do
  let init ← Definition.analyzeInit d.init
  let initOk ← Definition.checkInit d.line d.name role (init.map (·.info.result))
  let declared ← declare (← currentScope) d.name { role } d.line
  return ({ d with init }, initOk && declared)

def Definition.analyzeAll (role : Role) : List Definition → Analysis (List Definition × Bool)
  | [] => return ([], true)
  | d :: rest => do
    let (d, ok) ← d.analyze role
    let (rest, restOk) ← Definition.analyzeAll role rest
    return (d :: rest, ok && restOk)

def Decls.analyze (role : Role) (decls : Decls) : Analysis (Decls × Role) := do
  let scope ← currentScope
  let (defs, ok) ← Definition.analyzeAll role decls.defs
  return ({ decls with defs, scope := some scope }, .ofOk ok)

def Decls.analyzeOption (role : Role) : Option Decls → Analysis (Option Decls × Bool)
  | none => return (none, true)
  | some decls => do
    let (decls, result) ← decls.analyze role
    return (some decls, result != .error)

/-! ### Routines and blocks -/

/-- Declares parameters in order and says whether all were free. -/
def declareParams (scope : ScopeId) (line : Nat) : List String → Analysis Bool
  | [] => return true
  | param :: params => do
    let ok ← declare scope param { role := .var } line
    let restOk ← declareParams scope line params
    return ok && restOk

mutual

/-- Analyzes a block whose names belong to `scope`. -/
def Block.analyzeIn (scope : ScopeId) : Block → Analysis (Block × Role)
  | { line, consts, vars, routines, body, .. } => inScope scope do
    let (consts, constsOk) ← Decls.analyzeOption .const consts
    let (vars, varsOk) ← Decls.analyzeOption .var vars
    let (routines, routinesOk) ← Block.analyzeRoutines routines
    let (body, bodyOk) ← Stmt.analyzeOption body
    return ({ line, consts, vars, routines, body, scope := some scope },
      .ofOk (constsOk && varsOk && routinesOk && bodyOk))

/-- Analyzes a routine. A procedure's block is in a scope inside the one it is declared in. A
function has a scope between the two, for its parameters and for its own name, which is assigned and
called in its body. -/
def Routine.analyze : Routine → Analysis (Routine × Role)
  | { line, name, kind := .procedure, block, .. } => do
    let outer ← currentScope
    let declared ← declare outer name { role := .proc } line
    let inner ← newScope outer
    let (block, result) ← block.analyzeIn inner
    return ({ line, name, kind := .procedure, block, scope := some outer },
      .ofOk (declared && result != .error))
  | { line, name, kind := .function params, block, .. } => do
    let outer ← currentScope
    let own ← newScope outer
    let nameOk ← declare own name { role := .ret, arity := params.length } line
    let paramsOk ← declareParams own line params
    let declared ← declare outer name { role := .func, arity := params.length } line
    let inner ← newScope own
    let (block, result) ← block.analyzeIn inner
    return ({ line, name, kind := .function params, block, scope := some own },
      .ofOk (nameOk && paramsOk && declared && result != .error))

def Block.analyzeRoutines : List Routine → Analysis (List Routine × Bool)
  | [] => return ([], true)
  | routine :: rest => do
    let (routine, result) ← routine.analyze
    let (rest, restOk) ← Block.analyzeRoutines rest
    return (routine :: rest, result != .error && restOk)

end

/-- Analyzes a block in a new scope inside the current one. -/
def Block.analyze (block : Block) : Analysis (Block × Role) := do
  let scope ← newScope (← currentScope)
  block.analyzeIn scope

end PlZero
