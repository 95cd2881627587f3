import PlZero.Proofs.Analysis.Scoping
import PlZero.Proofs.Listing.Layout

/-!
Lowering onto the listing builder, phrase by phrase, as functions from a listing to the next.
Deferred parts are gone here: each is done where the builder runs it.
-/

namespace PlZero

namespace Listing

/-! ### Deferred parts in their places -/

/-- The block of a procedure is built between the opening and the closing of its frame. -/
theorem procedure_run (name : String) (block : Deferred (StateM Listing) Operand) (l : Listing) :
    ((builder.procedure name block).run l).2 =
      (block.run (l.openProcedure name)).2.closeRoutine := rfl

/-- The block of a function is built behind the slots of its parameters and of its result. -/
theorem function_run (name : String) (params : List String)
    (block : Deferred (StateM Listing) Operand) (l : Listing) :
    ((builder.function name params block).run l).2 =
      (block.run (l.openFunction name params)).2.closeRoutine := rfl

/-- The parts of a block are built in the order of the text: constants, variables, routines, and the
statement last. -/
theorem block_run (consts vars : Option (Deferred (StateM Listing) Operand))
    (routines : Deferred (StateM Listing) Operand)
    (body : Option (Deferred (StateM Listing) Operand)) (l : Listing) :
    ((builder.block consts vars routines body).run l).2 =
      afterPart body (routines.run (afterPart vars (afterPart consts l))).2 := rfl

/-- The end of a branch: a jump to where both branches meet, and the label of what follows. -/
def leaveBranch (l : Listing) (target label : Nat) : Listing :=
  (l.emit (.jump target)).place label

/-- Where the body of a loop starts, behind a condition that was lowered from `openLoop`. -/
def loopBody (l l₁ : Listing) (operand : Operand) : Listing :=
  l₁.openLoopBody operand l.nextLabel (l.nextLabel + 1) (l.nextLabel + 2)

/-- Behind a loop whose body ends with `l₂`. -/
def loopEnd (l l₂ : Listing) : Listing := l₂.closeLoop l.nextLabel (l.nextLabel + 2)

end Listing

open Listing

/-! ### Expressions -/

/-- Lowers an expression behind the lines of a listing. -/
def Expr.build (e : Expr) (l : Listing) : Operand × Listing :=
  (e.lower builder : StateM Listing Operand).run l

def Expr.buildArgs (args : List Expr) (l : Listing) : List Operand × Listing :=
  (Expr.lowerArgs builder args : StateM Listing (List Operand)).run l

theorem Expr.build_odd (info : ExprInfo) (operand : Expr) (l : Listing) :
    (Expr.odd info operand).build l = (operand.build l).2.odd (operand.build l).1 := by
  rw [Expr.build, Expr.lower]
  rfl

/-- The right operand is built behind the left one. -/
theorem Expr.build_binary (info : ExprInfo) (op : BinaryOp) (lhs rhs : Expr) (l : Listing) :
    (Expr.binary info op lhs rhs).build l =
      (rhs.build (lhs.build l).2).2.binary op (lhs.build l).1 (rhs.build (lhs.build l).2).1 := by
  rw [Expr.build, Expr.lower]
  rfl

/-- Arguments are built from left to right, and the call behind them. -/
theorem Expr.build_call (info : ExprInfo) (callee : Reference) (args : List Expr) (l : Listing) :
    (Expr.call info callee args).build l =
      (Expr.buildArgs args l).2.call callee.name (Expr.buildArgs args l).1 := by
  rw [Expr.build, Expr.lower]
  rfl

/-- A bare name is built as the builder answers it. -/
theorem Expr.build_name (info : ExprInfo) {ref : Reference} {l l' : Listing} {operand : Operand}
    (answered : l.name ref.name ref.role = (some operand, l')) :
    (Expr.name info ref).build l = (operand, l') := by
  rw [Expr.build, Expr.lower]
  have asked : (builder.name ref.name ref.role : StateM Listing (Option Operand)).run l =
      (some operand, l') := answered
  rw [Reference.lowerOperand, StateT.run_bind, asked]
  rfl

theorem Expr.build_number (info : ExprInfo) (value : Int32) (l : Listing) :
    (Expr.number info value).build l = (.imm value, l) := by
  rw [Expr.build, Expr.lower]
  rfl

theorem Expr.buildArgs_nil (l : Listing) : Expr.buildArgs [] l = ([], l) := by
  rw [Expr.buildArgs, Expr.lowerArgs]
  rfl

theorem Expr.buildArgs_cons (arg : Expr) (args : List Expr) (l : Listing) :
    Expr.buildArgs (arg :: args) l =
      ((arg.build l).1 :: (Expr.buildArgs args (arg.build l).2).1,
        (Expr.buildArgs args (arg.build l).2).2) := by
  rw [Expr.buildArgs, Expr.lowerArgs]
  rfl

theorem Expr.extends_build (e : Expr) (l : Listing) : Extends l (e.build l).2 :=
  e.emits_lower.extends_ l

theorem Expr.extends_buildArgs (args : List Expr) (l : Listing) :
    Extends l (Expr.buildArgs args l).2 := (Expr.emits_lowerArgs args).extends_ l

/-! ### Statements -/

def Stmt.build (s : Stmt) (l : Listing) : Listing :=
  ((s.lower builder : StateM Listing (Option Operand)).run l).2

def Stmt.buildOption (s : Option Stmt) (l : Listing) : Listing :=
  afterPart (Stmt.deferOption builder s) l

def Stmt.buildAll (body : List Stmt) (l : Listing) : Listing :=
  ((Stmt.lowerAll builder body : StateM Listing (Option Operand)).run l).2

namespace Stmt

variable (info : StmtInfo) (l : Listing)

theorem build_assign (target : Reference) (value : Expr) :
    (Stmt.assign info target value).build l =
      (value.build l).2.assign target.name (value.build l).1 := by
  rw [build, Stmt.lower]
  rfl

theorem build_sequence (body : List Stmt) :
    (Stmt.sequence info body).build l = buildAll body l := by
  rw [build, Stmt.lower]
  rfl

/-- A loop is built as its condition, then its body, between the labels that opening and closing
place. -/
theorem build_whileDo (cond : Expr) (body : Option Stmt) :
    (Stmt.whileDo info cond body).build l =
      loopEnd l (buildOption body (loopBody l (cond.build l.openLoop.2).2
        (cond.build l.openLoop.2).1)) := by
  rw [build, Stmt.lower, whileDo_run]
  rfl

theorem build_asm (text : String) : (Stmt.asm info text).build l = l.emit (.asm text) := by
  rw [build, Stmt.lower]
  rfl

theorem build_control (exit : LoopExit) : (Stmt.control info exit).build l = l.control exit := by
  rw [build, Stmt.lower]
  rfl

theorem build_call (callee : Reference) (args : List Expr) :
    (Stmt.call info callee args).build l =
      ((Expr.buildArgs args l).2.call callee.name (Expr.buildArgs args l).1).2 := by
  rw [build, Stmt.lower]
  rfl

theorem build_name (ref : Reference) :
    (Stmt.name info ref).build l = (l.name ref.name ref.role).2 := by
  rw [build, Stmt.lower]
  rfl

/-- An `if` without `else` leads around its branch. -/
theorem build_ifThen (cond : Expr) (thenBranch : Option Stmt) :
    (Stmt.ifThen info cond thenBranch none).build l =
      (let ready := cond.build l
      (buildOption thenBranch (ready.2.openIf ready.1 false).2).leaveBranch
        (ready.2.nextLabel + 2) (ready.2.nextLabel + 2)) := by
  rw [build, Stmt.lower, Stmt.deferOption]
  rfl

/-- An `if` with `else` leads to one of its branches, and both lead to where they meet. -/
theorem build_ifThenElse (cond : Expr) (thenBranch : Option Stmt) (elseBranch : Stmt) :
    (Stmt.ifThen info cond thenBranch (some elseBranch)).build l =
      (let ready := cond.build l
      (elseBranch.build ((buildOption thenBranch (ready.2.openIf ready.1 true).2).leaveBranch
        (ready.2.nextLabel + 2) (ready.2.nextLabel + 1))).leaveBranch
        (ready.2.nextLabel + 2) (ready.2.nextLabel + 2)) := by
  rw [build, Stmt.lower, Stmt.deferOption]
  rfl

theorem buildOption_none : buildOption none l = l := by
  rw [buildOption, Stmt.deferOption]
  rfl

theorem buildOption_some (s : Stmt) : buildOption (some s) l = s.build l := by
  rw [buildOption, Stmt.deferOption]
  rfl

theorem buildAll_nil : buildAll [] l = l := by
  rw [buildAll, Stmt.lowerAll]
  rfl

theorem buildAll_cons (s : Stmt) (rest : List Stmt) :
    buildAll (s :: rest) l = buildAll rest (s.build l) := by
  rw [buildAll, Stmt.lowerAll]
  rfl

/-- The lines of the condition come before the branches. -/
theorem grows_ifThen (cond : Expr) (thenBranch elseBranch : Option Stmt) :
    (cond.build l).2.lines <+: ((Stmt.ifThen info cond thenBranch elseBranch).build l).lines := by
  rw [build, Stmt.lower]
  exact ((emits_ifThen (cond.build l).1 (Stmt.emits_deferOption thenBranch)
    (Stmt.emits_deferOption elseBranch)).extends_ (cond.build l).2).lines

theorem extends_build (s : Stmt) : Extends l (s.build l) := s.emits_lower.extends_ l

theorem extends_buildOption (s : Option Stmt) : Extends l (buildOption s l) :=
  extends_afterPart (Stmt.emits_deferOption s) l

end Stmt

/-! ### Definitions -/

/-- Lowers the definition of a constant or of a variable. -/
def Definition.build (role : Role) (l : Listing) (d : Definition) : Listing :=
  match role, d.init with
  | .const, some init => (init.build l).2.constant d.name (init.build l).1
  | .const, none => l
  | _, some init => (init.build l).2.storage d.name (some (init.build l).1)
  | _, none => l.storage d.name none

/-- Constants are built one after the other. -/
theorem Definition.lowerConsts_run (defs : List Definition) (l : Listing) :
    ((Definition.lowerConsts builder defs : StateM Listing (Option Operand)).run l).2 =
      defs.foldl (Definition.build .const) l := by
  induction defs generalizing l with
  | nil => rfl
  | cons d rest ih =>
    obtain ⟨line, name, _ | init⟩ := d
    · exact ih l
    · exact ih _

/-- Variables are built one after the other. -/
theorem Definition.lowerVars_run (defs : List Definition) (l : Listing) :
    ((Definition.lowerVars builder defs : StateM Listing (Option Operand)).run l).2 =
      defs.foldl (Definition.build .var) l := by
  induction defs generalizing l with
  | nil => rfl
  | cons d rest ih =>
    obtain ⟨line, name, _ | init⟩ := d
    · exact ih _
    · exact ih _

/-- A missing section of constants is built as an empty one. -/
theorem Decls.afterPart_consts (decls : Option Decls) (l : Listing) :
    afterPart (decls.map fun decls => Definition.lowerConsts builder decls.defs) l =
      (Decls.definitions decls).foldl (Definition.build .const) l := by
  cases decls with
  | none => rfl
  | some decls => exact Definition.lowerConsts_run decls.defs l

/-- A missing section of variables is built as an empty one. -/
theorem Decls.afterPart_vars (decls : Option Decls) (l : Listing) :
    afterPart (decls.map fun decls => Definition.lowerVars builder decls.defs) l =
      (Decls.definitions decls).foldl (Definition.build .var) l := by
  cases decls with
  | none => rfl
  | some decls => exact Definition.lowerVars_run decls.defs l

/-! ### Routines and blocks -/

/-- Lowers a block into the current frame of a listing. -/
def Block.buildIn (block : Block) (l : Listing) : Listing :=
  ((block.lower builder : StateM Listing (Option Operand)).run l).2

def Routine.build (r : Routine) (l : Listing) : Listing :=
  ((r.lower builder : StateM Listing (Option Operand)).run l).2

def Routine.buildAll (rs : List Routine) (l : Listing) : Listing :=
  ((Block.lowerRoutines builder rs : StateM Listing (Option Operand)).run l).2

/-- A block is built part by part, each on the listing that the one before leaves. -/
theorem Block.buildIn_eq (block : Block) (l : Listing) :
    block.buildIn l =
      (let constants := (Decls.definitions block.consts).foldl (Definition.build .const) l
      let values := (Decls.definitions block.vars).foldl (Definition.build .var) constants
      Stmt.buildOption block.body (Routine.buildAll block.routines values)) := by
  obtain ⟨line, consts, vars, routines, body, scope⟩ := block
  dsimp only
  rw [← Decls.afterPart_consts, ← Decls.afterPart_vars, Block.buildIn, Block.lower, block_run]
  rfl

theorem Routine.build_procedure (line : Nat) (name : String) (block : Block)
    (scope : Option ScopeId) (l : Listing) :
    (Routine.mk line name .procedure block scope).build l =
      (block.buildIn (l.openProcedure name)).closeRoutine := by
  rw [Routine.build, Routine.lower, procedure_run]
  rfl

theorem Routine.build_function (line : Nat) (name : String) (params : List String) (block : Block)
    (scope : Option ScopeId) (l : Listing) :
    (Routine.mk line name (.function params) block scope).build l =
      (block.buildIn (l.openFunction name params)).closeRoutine := by
  rw [Routine.build, Routine.lower, function_run]
  rfl

theorem Routine.buildAll_nil (l : Listing) : Routine.buildAll [] l = l := by
  rw [Routine.buildAll, Block.lowerRoutines]
  rfl

theorem Routine.buildAll_cons (r : Routine) (rest : List Routine) (l : Listing) :
    Routine.buildAll (r :: rest) l = Routine.buildAll rest (r.build l) := by
  rw [Routine.buildAll, Block.lowerRoutines]
  rfl

end PlZero
