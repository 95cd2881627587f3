import PlZero.Display.Token
import PlZero.Tree.Basic

/-!
Trees as they are shown on request: every node by its name, with all its parts.
-/

namespace PlZero

/-- A scope that may not be set yet. -/
def scopeOutline (scope : Option ScopeId) : Outline :=
  .option (scope.map fun id => .wrapped "ScopeId" (.nat id))

def Reference.outline (r : Reference) : Outline :=
  .record "Reference" [("name", .text r.name), ("binding", .atom r.role.label)]

def callOutline (callee : Reference) (args : List Outline) : Outline :=
  .wrapped "Call" (.record "Call" [("callee", callee.outline), ("args", .items args)])

/-! ### Expressions -/

def ExprInfo.outline (info : ExprInfo) (shape : Outline) : Outline :=
  .record "Expr" [("line", .nat info.line), ("kind", shape),
    ("class", .atom info.result.label), ("scope", scopeOutline info.scope)]

mutual

def Expr.outline : Expr → Outline
  | .odd info operand => info.outline (.wrapped "Odd" operand.outline)
  | .binary info op lhs rhs =>
    info.outline (.record "Binary"
      [("op", .atom op.displayName), ("lhs", lhs.outline), ("rhs", rhs.outline)])
  | .call info callee args => info.outline (callOutline callee (Expr.outlines args))
  | .name info ref => info.outline (.wrapped "Identifier" ref.outline)
  | .number info value => info.outline (.wrapped "Number" (.atom (toString value.toInt)))

def Expr.outlines : List Expr → List Outline
  | [] => []
  | e :: rest => e.outline :: Expr.outlines rest

end

/-! ### Statements -/

def LoopExit.displayName : LoopExit → String
  | .breakLoop => "Break"
  | .continueLoop => "Continue"

def StmtInfo.outline (info : StmtInfo) (shape : Outline) : Outline :=
  .record "Stmt" [("line", .nat info.line), ("kind", shape), ("scope", scopeOutline info.scope)]

mutual

def Stmt.outline : Stmt → Outline
  | .assign info target value =>
    info.outline (.record "Assign" [("target", target.outline), ("value", value.outline)])
  | .sequence info body => info.outline (.wrapped "Sequence" (.items (Stmt.outlines body)))
  | .ifThen info cond thenBranch elseBranch =>
    info.outline (.record "If" [("cond", cond.outline),
      ("then_branch", .option (Stmt.outlineOption thenBranch)),
      ("else_branch", .option (Stmt.outlineOption elseBranch))])
  | .whileDo info cond body =>
    info.outline (.record "While"
      [("cond", cond.outline), ("body", .option (Stmt.outlineOption body))])
  | .asm info text => info.outline (.wrapped "Asm" (.text text))
  | .control info exit => info.outline (.wrapped "Control" (.atom exit.displayName))
  | .call info callee args => info.outline (callOutline callee (Expr.outlines args))
  | .name info ref => info.outline (.wrapped "Identifier" ref.outline)

def Stmt.outlineOption : Option Stmt → Option Outline
  | none => none
  | some stmt => some stmt.outline

def Stmt.outlines : List Stmt → List Outline
  | [] => []
  | stmt :: rest => stmt.outline :: Stmt.outlines rest

end

/-! ### Declarations and blocks -/

def Definition.outline (d : Definition) : Outline :=
  .record "Definition" [("line", .nat d.line), ("name", .text d.name),
    ("init", .option (d.init.map Expr.outline))]

def Decls.outline (decls : Decls) : Outline :=
  .record "Decls" [("line", .nat decls.line), ("defs", .items (decls.defs.map Definition.outline)),
    ("scope", scopeOutline decls.scope)]

mutual

def Block.outline : Block → Outline
  | { line, consts, vars, routines, body, scope } =>
    .record "Block" [("line", .nat line), ("consts", .option (consts.map Decls.outline)),
      ("vars", .option (vars.map Decls.outline)),
      ("routines", .items (Block.outlineRoutines routines)),
      ("body", .option (body.map Stmt.outline)), ("scope", scopeOutline scope)]

def Routine.outline : Routine → Outline
  | { line, name, kind := .procedure, block, scope } =>
    .wrapped "Procedure" (.record "Procedure" [("line", .nat line), ("name", .text name),
      ("block", block.outline), ("scope", scopeOutline scope)])
  | { line, name, kind := .function params, block, scope } =>
    .wrapped "Function" (.record "Function" [("line", .nat line), ("name", .text name),
      ("params", .items (params.map Outline.text)), ("block", block.outline),
      ("scope", scopeOutline scope)])

def Block.outlineRoutines : List Routine → List Outline
  | [] => []
  | routine :: rest => routine.outline :: Block.outlineRoutines rest

end

def programOutline (program : Block) : Outline := .record "Program" [("block", program.outline)]

end PlZero
