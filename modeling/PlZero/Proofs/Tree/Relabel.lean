import PlZero.Pipeline
import PlZero.Proofs.Analysis.Lexical

/-!
Trees with other lines and other scope numbers.

A `Relabeling` says what becomes of the two kinds of numbers a node carries. Leaving out the scope
numbers is one (`Block.unscoped_eq_relabel`), leaving out the lines another (`Relabeling.unlined`).
Lowering reads neither kind, so it makes the same of a tree under any relabeling
(`Block.lower_relabel`), and so does whatever is made of its code
(`AnalyzedProgram.code_eq_of_relabel`).
-/

namespace PlZero

/-- What becomes of the lines and of the scope numbers of a tree. -/
structure Relabeling where
  line : Nat → Nat := id
  scope : Option ScopeId → Option ScopeId := id

namespace Relabeling

def lines (move : Nat → Nat) : Relabeling := { line := move }

/-- Leaves the lines out. -/
def unlined : Relabeling := lines fun _ => 0

/-- Leaves the scope numbers out. -/
def unscoped : Relabeling := { scope := fun _ => none }

end Relabeling

def ExprInfo.relabel (f : Relabeling) (info : ExprInfo) : ExprInfo :=
  { line := f.line info.line, result := info.result, scope := f.scope info.scope }

def StmtInfo.relabel (f : Relabeling) (info : StmtInfo) : StmtInfo :=
  { line := f.line info.line, scope := f.scope info.scope }

mutual

/-- An expression with other numbers. -/
def Expr.relabel (f : Relabeling) : Expr → Expr
  | .odd info operand => .odd (info.relabel f) (operand.relabel f)
  | .binary info op lhs rhs => .binary (info.relabel f) op (lhs.relabel f) (rhs.relabel f)
  | .call info callee args => .call (info.relabel f) callee (Expr.relabelAll f args)
  | .name info ref => .name (info.relabel f) ref
  | .number info value => .number (info.relabel f) value

def Expr.relabelAll (f : Relabeling) : List Expr → List Expr
  | [] => []
  | e :: rest => e.relabel f :: Expr.relabelAll f rest

end

mutual

def Stmt.relabel (f : Relabeling) : Stmt → Stmt
  | .assign info target value => .assign (info.relabel f) target (value.relabel f)
  | .sequence info body => .sequence (info.relabel f) (Stmt.relabelAll f body)
  | .ifThen info cond thenBranch elseBranch =>
    .ifThen (info.relabel f) (cond.relabel f) (Stmt.relabelOption f thenBranch)
      (Stmt.relabelOption f elseBranch)
  | .whileDo info cond body =>
    .whileDo (info.relabel f) (cond.relabel f) (Stmt.relabelOption f body)
  | .asm info text => .asm (info.relabel f) text
  | .control info exit => .control (info.relabel f) exit
  | .call info callee args => .call (info.relabel f) callee (Expr.relabelAll f args)
  | .name info ref => .name (info.relabel f) ref

def Stmt.relabelOption (f : Relabeling) : Option Stmt → Option Stmt
  | none => none
  | some s => some (s.relabel f)

def Stmt.relabelAll (f : Relabeling) : List Stmt → List Stmt
  | [] => []
  | s :: rest => s.relabel f :: Stmt.relabelAll f rest

end

def Definition.relabel (f : Relabeling) (d : Definition) : Definition :=
  { line := f.line d.line, name := d.name, init := d.init.map (Expr.relabel f) }

def Decls.relabel (f : Relabeling) (decls : Decls) : Decls :=
  { line := f.line decls.line, defs := decls.defs.map (Definition.relabel f)
    scope := f.scope decls.scope }

mutual

/-- A block with other numbers. -/
def Block.relabel (f : Relabeling) : Block → Block
  | { line, consts, vars, routines, body, scope } =>
    { line := f.line line
      consts := consts.map (Decls.relabel f), vars := vars.map (Decls.relabel f)
      routines := Routine.relabelAll f routines, body := Stmt.relabelOption f body
      scope := f.scope scope }

def Routine.relabel (f : Relabeling) : Routine → Routine
  | { line, name, kind, block, scope } =>
    { line := f.line line, name, kind, block := block.relabel f, scope := f.scope scope }

def Routine.relabelAll (f : Relabeling) : List Routine → List Routine
  | [] => []
  | r :: rest => r.relabel f :: Routine.relabelAll f rest

end

/-- Classes are not labels. -/
theorem Expr.result_relabel (f : Relabeling) (e : Expr) :
    (e.relabel f).info.result = e.info.result := by
  cases e <;> rfl

theorem Expr.length_relabelAll (f : Relabeling) (args : List Expr) :
    (Expr.relabelAll f args).length = args.length := by
  induction args with
  | nil => rfl
  | cons arg args ih => rw [Expr.relabelAll, List.length_cons, ih, List.length_cons]

/-! ### Leaving out the scope numbers -/

mutual

/-- To leave out scope numbers is to relabel. -/
theorem Expr.unscoped_eq_relabel : (e : Expr) → e.unscoped = e.relabel .unscoped
  | .odd info operand => by rw [unscoped, relabel, operand.unscoped_eq_relabel]; rfl
  | .binary info op lhs rhs => by
    rw [unscoped, relabel, lhs.unscoped_eq_relabel, rhs.unscoped_eq_relabel]
    rfl
  | .call info callee args => by
    rw [unscoped, relabel, Expr.unscopedAll_eq_relabelAll args]
    rfl
  | .name _ _ => rfl
  | .number _ _ => rfl

theorem Expr.unscopedAll_eq_relabelAll :
    (args : List Expr) → Expr.unscopedAll args = Expr.relabelAll .unscoped args
  | [] => rfl
  | arg :: args => by
    rw [Expr.unscopedAll, Expr.relabelAll, arg.unscoped_eq_relabel,
      Expr.unscopedAll_eq_relabelAll args]

end

mutual

theorem Stmt.unscoped_eq_relabel : (s : Stmt) → s.unscoped = s.relabel .unscoped
  | .assign info target value => by rw [unscoped, relabel, value.unscoped_eq_relabel]; rfl
  | .sequence info body => by rw [unscoped, relabel, Stmt.unscopedAll_eq_relabelAll body]; rfl
  | .ifThen info cond thenBranch elseBranch => by
    rw [unscoped, relabel, cond.unscoped_eq_relabel,
      Stmt.unscopedOption_eq_relabelOption thenBranch,
      Stmt.unscopedOption_eq_relabelOption elseBranch]
    rfl
  | .whileDo info cond body => by
    rw [unscoped, relabel, cond.unscoped_eq_relabel, Stmt.unscopedOption_eq_relabelOption body]
    rfl
  | .asm _ _ => rfl
  | .control _ _ => rfl
  | .call info callee args => by
    rw [unscoped, relabel, Expr.unscopedAll_eq_relabelAll args]
    rfl
  | .name _ _ => rfl

theorem Stmt.unscopedOption_eq_relabelOption :
    (s : Option Stmt) → Stmt.unscopedOption s = Stmt.relabelOption .unscoped s
  | none => rfl
  | some s => congrArg some s.unscoped_eq_relabel

theorem Stmt.unscopedAll_eq_relabelAll :
    (body : List Stmt) → Stmt.unscopedAll body = Stmt.relabelAll .unscoped body
  | [] => rfl
  | s :: body => by
    rw [Stmt.unscopedAll, Stmt.relabelAll, s.unscoped_eq_relabel,
      Stmt.unscopedAll_eq_relabelAll body]

end

theorem Decls.unscoped_eq_relabel (decls : Decls) : decls.unscoped = decls.relabel .unscoped := by
  have exprs : Expr.unscoped = Expr.relabel .unscoped := funext Expr.unscoped_eq_relabel
  have defs : Definition.unscoped = Definition.relabel .unscoped := by
    funext d
    rw [Definition.unscoped, exprs]
    rfl
  rw [Decls.unscoped, defs]
  rfl

mutual

/-- The same of blocks and the routines in them. -/
theorem Block.unscoped_eq_relabel : (block : Block) → block.unscoped = block.relabel .unscoped
  | { line, consts, vars, routines, body, scope } => by
    have sections : Decls.unscoped = Decls.relabel .unscoped := funext Decls.unscoped_eq_relabel
    rw [Block.unscoped, Block.relabel, Routine.unscopedAll_eq_relabelAll routines,
      Stmt.unscopedOption_eq_relabelOption body, sections]
    rfl

theorem Routine.unscoped_eq_relabel : (r : Routine) → r.unscoped = r.relabel .unscoped
  | { line, name, kind, block, scope } => by
    rw [Routine.unscoped, Routine.relabel, block.unscoped_eq_relabel]
    rfl

theorem Routine.unscopedAll_eq_relabelAll :
    (rs : List Routine) → Routine.unscopedAll rs = Routine.relabelAll .unscoped rs
  | [] => rfl
  | r :: rs => by
    rw [Routine.unscopedAll, Routine.relabelAll, r.unscoped_eq_relabel,
      Routine.unscopedAll_eq_relabelAll rs]

end

/-! ### Lowering -/

section Lowering

variable {m : Type → Type} [Monad m] {V : Type} (f : Relabeling) (b : Builder m V)

mutual

/-- Lowering does not look at labels, by induction on the expression. -/
theorem Expr.lower_relabel : (e : Expr) → (e.relabel f).lower b = e.lower b
  | .odd _ operand => by rw [relabel, lower, lower, operand.lower_relabel]
  | .binary _ op lhs rhs => by
    rw [relabel, lower, lower, lhs.lower_relabel, rhs.lower_relabel]
  | .call _ callee args => by rw [relabel, lower, lower, Expr.lowerArgs_relabelAll args]
  | .name _ _ => by rw [relabel, lower, lower]
  | .number _ _ => by rw [relabel, lower, lower]

theorem Expr.lowerArgs_relabelAll :
    (args : List Expr) → Expr.lowerArgs b (Expr.relabelAll f args) = Expr.lowerArgs b args
  | [] => by rw [Expr.relabelAll]
  | arg :: args => by
    rw [Expr.relabelAll, Expr.lowerArgs, Expr.lowerArgs, arg.lower_relabel,
      Expr.lowerArgs_relabelAll args]

end

mutual

/-- Lowering does not look at labels, by induction on the statement. -/
theorem Stmt.lower_relabel : (s : Stmt) → (s.relabel f).lower b = s.lower b
  | .assign _ _ value => by rw [relabel, lower, lower, value.lower_relabel]
  | .sequence _ body => by rw [relabel, lower, lower, Stmt.lowerAll_relabelAll body]
  | .ifThen _ cond thenBranch elseBranch => by
    rw [relabel, lower, lower, cond.lower_relabel, Stmt.deferOption_relabelOption thenBranch,
      Stmt.deferOption_relabelOption elseBranch]
  | .whileDo _ cond body => by
    rw [relabel, lower, lower, cond.lower_relabel, Stmt.deferOption_relabelOption body]
  | .asm _ _ => by rw [relabel, lower, lower]
  | .control _ _ => by rw [relabel, lower, lower]
  | .call _ _ args => by rw [relabel, lower, lower, Expr.lowerArgs_relabelAll f b args]
  | .name _ _ => by rw [relabel, lower, lower]

theorem Stmt.deferOption_relabelOption :
    (s : Option Stmt) → Stmt.deferOption b (Stmt.relabelOption f s) = Stmt.deferOption b s
  | none => by rw [Stmt.relabelOption]
  | some s => by rw [Stmt.relabelOption, Stmt.deferOption, Stmt.deferOption, s.lower_relabel]

theorem Stmt.lowerAll_relabelAll :
    (body : List Stmt) → Stmt.lowerAll b (Stmt.relabelAll f body) = Stmt.lowerAll b body
  | [] => by rw [Stmt.relabelAll]
  | s :: body => by
    rw [Stmt.relabelAll, Stmt.lowerAll, Stmt.lowerAll, s.lower_relabel,
      Stmt.lowerAll_relabelAll body]

end

theorem Definition.lowerConsts_relabel (defs : List Definition) :
    Definition.lowerConsts b (defs.map (Definition.relabel f)) = Definition.lowerConsts b defs := by
  induction defs with
  | nil => rfl
  | cons d defs ih =>
    obtain ⟨line, name, _ | init⟩ := d
    · exact ih
    · simp only [List.map_cons, Definition.relabel, Option.map_some, Definition.lowerConsts,
        init.lower_relabel, ih]

theorem Definition.lowerVars_relabel (defs : List Definition) :
    Definition.lowerVars b (defs.map (Definition.relabel f)) = Definition.lowerVars b defs := by
  induction defs with
  | nil => rfl
  | cons d defs ih =>
    obtain ⟨line, name, _ | init⟩ := d
    · simp only [List.map_cons, Definition.relabel, Option.map_none, Definition.lowerVars, ih]
    · simp only [List.map_cons, Definition.relabel, Option.map_some, Definition.lowerVars,
        init.lower_relabel, ih]

mutual

/-- Lowering reads no line and no scope number. -/
theorem Block.lower_relabel : (block : Block) → (block.relabel f).lower b = block.lower b
  | { line, consts, vars, routines, body, scope } => by
    rw [Block.relabel, Block.lower, Block.lower, Block.lowerRoutines_relabelAll routines,
      Stmt.deferOption_relabelOption f b body, Option.map_map, Option.map_map]
    simp only [Function.comp_def, Decls.relabel, Definition.lowerConsts_relabel,
      Definition.lowerVars_relabel]

theorem Routine.lower_relabel : (r : Routine) → (r.relabel f).lower b = r.lower b
  | { line, name, kind := .procedure, block, scope } => by
    rw [Routine.relabel, Routine.lower, Routine.lower, block.lower_relabel]
  | { line, name, kind := .function params, block, scope } => by
    rw [Routine.relabel, Routine.lower, Routine.lower, block.lower_relabel]

theorem Block.lowerRoutines_relabelAll :
    (rs : List Routine) → Block.lowerRoutines b (Routine.relabelAll f rs) = Block.lowerRoutines b rs
  | [] => by rw [Routine.relabelAll]
  | r :: rs => by
    rw [Routine.relabelAll, Block.lowerRoutines, Block.lowerRoutines, r.lower_relabel,
      Block.lowerRoutines_relabelAll rs]

end

end Lowering

/-- The code of a program does not depend on its lines and scope numbers. -/
theorem AnalyzedProgram.code_eq_of_relabel (f : Relabeling) {p q : AnalyzedProgram}
    (same : p.program.relabel f = q.program.relabel f) (target : Target) :
    p.code target = q.code target := by
  have lowered : p.listing = q.listing := by
    rw [listing, listing, AnalyzedProgram.lower, AnalyzedProgram.lower, ← Block.lower_relabel f,
      ← Block.lower_relabel f _ q.program, same]
  cases target with
  | text => rw [code, code, lowered]

end PlZero
