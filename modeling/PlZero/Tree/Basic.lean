import PlZero.BinaryOp
import PlZero.Symbol

/-!
The tree of a program. Every node knows the line it starts on; the fields that analysis fills in
(scopes, classes and the roles that names resolved to) are unset in a tree that was only parsed.
-/

namespace PlZero

abbrev ScopeId := Nat

/-- A use of a name. `role` is what the name resolved to. -/
structure Reference where
  name : String
  role : Role := .error
  deriving DecidableEq, Repr

/-- What every expression carries beside its shape: its line, the class of its result, and the
scope it stands in. -/
structure ExprInfo where
  line : Nat
  result : Role := .error
  scope : Option ScopeId := none
  deriving DecidableEq, Repr

/-- An expression. The comparisons and `odd` are expressions too, although the grammar allows them
as conditions only. -/
inductive Expr where
  | odd (info : ExprInfo) (operand : Expr)
  | binary (info : ExprInfo) (op : BinaryOp) (lhs rhs : Expr)
  | call (info : ExprInfo) (callee : Reference) (args : List Expr)
  /-- A bare name: a constant or variable that is read, or a function called without arguments. -/
  | name (info : ExprInfo) (ref : Reference)
  | number (info : ExprInfo) (value : Int32)

def Expr.info : Expr → ExprInfo
  | .odd info _ | .binary info _ _ _ | .call info _ _ | .name info _ | .number info _ => info

/-- What every statement carries beside its shape: its line and the scope it stands in. -/
structure StmtInfo where
  line : Nat
  scope : Option ScopeId := none
  deriving DecidableEq, Repr

inductive LoopExit where
  | breakLoop
  | continueLoop
  deriving DecidableEq, Repr

/-- A statement. The empty statement is no node: it is left out of a sequence and is `none` as a
branch or a loop body. -/
inductive Stmt where
  | assign (info : StmtInfo) (target : Reference) (value : Expr)
  | sequence (info : StmtInfo) (body : List Stmt)
  | ifThen (info : StmtInfo) (cond : Expr) (thenBranch elseBranch : Option Stmt)
  | whileDo (info : StmtInfo) (cond : Expr) (body : Option Stmt)
  /-- Inline assembly, passed on as text. -/
  | asm (info : StmtInfo) (text : String)
  | control (info : StmtInfo) (exit : LoopExit)
  | call (info : StmtInfo) (callee : Reference) (args : List Expr)
  /-- A bare name: a procedure, or a function called without arguments. -/
  | name (info : StmtInfo) (ref : Reference)

def Stmt.info : Stmt → StmtInfo
  | .assign info _ _ | .sequence info _ | .ifThen info _ _ _ | .whileDo info _ _ | .asm info _
  | .control info _ | .call info _ _ | .name info _ => info

/-- A declared constant or variable. In a parsed tree a constant always has an initial value. -/
structure Definition where
  line : Nat
  name : String
  init : Option Expr

structure Decls where
  line : Nat
  defs : List Definition
  scope : Option ScopeId := none

/-- The two kinds of routines. A function has parameters and a result. -/
inductive RoutineKind where
  | procedure
  | function (params : List String)
  deriving DecidableEq, Repr

mutual

/-- A block: constants, variables, routines and a statement. A whole program is a block. -/
structure Block where
  line : Nat
  consts : Option Decls := none
  vars : Option Decls := none
  routines : List Routine := []
  body : Option Stmt := none
  /-- The scope of the names declared in this block. -/
  scope : Option ScopeId := none

structure Routine where
  line : Nat
  name : String
  kind : RoutineKind
  block : Block
  /-- For a procedure the scope it is declared in, for a function the scope of its parameters. -/
  scope : Option ScopeId := none

end

end PlZero
