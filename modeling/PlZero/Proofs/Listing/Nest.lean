import PlZero.Pipeline
import PlZero.Proofs.Listing.Layout

/-!
Nests of builder calls. A `Listing.Nest` is any work that is made of calls of the listing builder,
with nests again in the place of the deferred parts: what is called next can depend on what earlier
calls yielded, and nothing has to make sense as a program. Lowering is a nest
(`AnalyzedProgram.nest_lower`).
-/

namespace PlZero

namespace Listing

/-- Work on a listing that is made of calls of the builder. -/
inductive Nest : {α : Type} → StateM Listing α → Prop where
  | pure {α : Type} (r : α) : Nest (pure r : StateM Listing α)
  | bind {α β : Type} {y : StateM Listing α} {g : α → StateM Listing β} :
      Nest y → (∀ r, Nest (g r)) → Nest (y >>= g)
  | block {consts vars body : Option (Deferred (StateM Listing) Operand)}
      {routines : Deferred (StateM Listing) Operand} :
      (∀ y ∈ consts, Nest y) → (∀ y ∈ vars, Nest y) → Nest routines → (∀ y ∈ body, Nest y) →
      Nest (builder.block consts vars routines body)
  | constant (name : String) (value : Operand) : Nest (builder.constant name value)
  | storage (name : String) (init : Option Operand) : Nest (builder.storage name init)
  | procedure (name : String) {block : Deferred (StateM Listing) Operand} :
      Nest block → Nest (builder.procedure name block)
  | function (name : String) (params : List String) {block : Deferred (StateM Listing) Operand} :
      Nest block → Nest (builder.function name params block)
  | assign (name : String) (target : Role) (value : Operand) :
      Nest (builder.assign name target value)
  | ifThen (cond : Operand) {thenBranch elseBranch : Option (Deferred (StateM Listing) Operand)} :
      (∀ y ∈ thenBranch, Nest y) → (∀ y ∈ elseBranch, Nest y) →
      Nest (builder.ifThen cond thenBranch elseBranch)
  | whileDo {cond : StateM Listing Operand}
      {body : Option (Deferred (StateM Listing) Operand)} :
      Nest cond → (∀ y ∈ body, Nest y) → Nest (builder.whileDo cond body)
  | asm (text : String) : Nest (builder.asm text)
  | control (exit : LoopExit) : Nest (builder.control exit)
  | odd (operand : Operand) : Nest (builder.odd operand)
  | binary (op : BinaryOp) (lhs rhs : Operand) : Nest (builder.binary op lhs rhs)
  | call (name : String) (args : List Operand) : Nest (builder.call name args)
  | name (name : String) (role : Role) : Nest (builder.name name role)
  | number (value : Int32) : Nest (builder.number value)

end Listing

open Listing

/-! ### Lowering is a nest -/

theorem Reference.nest_lowerOperand (ref : Reference) : Nest (ref.lowerOperand builder) := by
  apply Nest.bind (.name ref.name ref.role)
  rintro (_ | value)
  · exact .number 0
  · exact .pure value

mutual

/-- Lowering an expression is a nest of calls. -/
theorem Expr.nest_lower : (e : Expr) → Nest (e.lower builder)
  | .odd _ operand => by
    rw [Expr.lower]
    exact .bind operand.nest_lower .odd
  | .binary _ op lhs rhs => by
    rw [Expr.lower]
    exact .bind lhs.nest_lower fun l => .bind rhs.nest_lower fun r => .binary op l r
  | .call _ callee args => by
    rw [Expr.lower]
    exact .bind (Expr.nest_lowerArgs args) (.call callee.name)
  | .name _ ref => by
    rw [Expr.lower]
    exact ref.nest_lowerOperand
  | .number _ value => by
    rw [Expr.lower]
    exact .number value

theorem Expr.nest_lowerArgs : (args : List Expr) → Nest (Expr.lowerArgs builder args)
  | [] => by
    rw [Expr.lowerArgs]
    exact .pure []
  | arg :: args => by
    rw [Expr.lowerArgs]
    exact .bind arg.nest_lower fun _ => .bind (Expr.nest_lowerArgs args) fun _ => .pure _

end

mutual

/-- Lowering a statement is a nest of calls; the parts that are deferred are nests, too. -/
theorem Stmt.nest_lower : (s : Stmt) → Nest (s.lower builder)
  | .assign _ target value => by
    rw [Stmt.lower]
    exact .bind value.nest_lower (.assign target.name target.role)
  | .sequence _ body => by
    rw [Stmt.lower]
    exact Stmt.nest_lowerAll body
  | .ifThen _ cond thenBranch elseBranch => by
    rw [Stmt.lower]
    have thenNest := Stmt.nest_deferOption thenBranch
    have elseNest := Stmt.nest_deferOption elseBranch
    exact .bind cond.nest_lower fun value => .ifThen value thenNest elseNest
  | .whileDo _ cond body => by
    rw [Stmt.lower]
    exact .whileDo cond.nest_lower (Stmt.nest_deferOption body)
  | .asm _ text => by
    rw [Stmt.lower]
    exact .asm text
  | .control _ exit => by
    rw [Stmt.lower]
    exact .control exit
  | .call _ callee args => by
    rw [Stmt.lower]
    apply Nest.bind (Expr.nest_lowerArgs args)
    intro values
    exact .bind (.call callee.name values) fun _ => .pure _
  | .name _ ref => by
    rw [Stmt.lower]
    exact .name ref.name ref.role

theorem Stmt.nest_deferOption : (s : Option Stmt) → ∀ y ∈ Stmt.deferOption builder s, Nest y
  | none => by
    rw [Stmt.deferOption]
    nofun
  | some s => by
    have nest := s.nest_lower
    rw [Stmt.deferOption]
    rintro _ ⟨⟩
    exact nest

theorem Stmt.nest_lowerAll : (body : List Stmt) → Nest (Stmt.lowerAll builder body)
  | [] => by
    rw [Stmt.lowerAll]
    exact .pure none
  | s :: rest => by
    rw [Stmt.lowerAll]
    exact .bind s.nest_lower fun _ => Stmt.nest_lowerAll rest

end

theorem Definition.nest_lowerConsts (defs : List Definition) :
    Nest (Definition.lowerConsts builder defs) := by
  induction defs with
  | nil => exact .pure none
  | cons d rest ih =>
    obtain ⟨line, name, _ | init⟩ := d
    · exact ih
    · exact .bind init.nest_lower fun value => .bind (.constant name value) fun _ => ih

theorem Definition.nest_lowerVars (defs : List Definition) :
    Nest (Definition.lowerVars builder defs) := by
  induction defs with
  | nil => exact .pure none
  | cons d rest ih =>
    obtain ⟨line, name, _ | init⟩ := d
    · exact .bind (.storage name none) fun _ => ih
    · exact .bind init.nest_lower fun value => .bind (.storage name (some value)) fun _ => ih

/-- A section that may be missing. -/
theorem Decls.nest_map {lower : List Definition → StateM Listing (Option Operand)}
    (nest : ∀ defs, Nest (lower defs)) (decls : Option Decls) :
    ∀ y ∈ decls.map fun decls => lower decls.defs, Nest y := by
  cases decls with
  | none => nofun
  | some decls =>
    rintro _ ⟨⟩
    exact nest decls.defs

mutual

/-- Lowering a block is a nest of calls, with the blocks of its routines nested in those of the
routines. -/
theorem Block.nest_lower : (block : Block) → Nest (block.lower builder)
  | { consts, vars, routines, body, .. } => by
    rw [Block.lower]
    exact .block (Decls.nest_map Definition.nest_lowerConsts consts)
      (Decls.nest_map Definition.nest_lowerVars vars) (Block.nest_lowerRoutines routines)
      (Stmt.nest_deferOption body)

theorem Routine.nest_lower : (r : Routine) → Nest (r.lower builder)
  | { name, kind := .procedure, block, .. } => by
    rw [Routine.lower]
    exact .procedure name block.nest_lower
  | { name, kind := .function params, block, .. } => by
    rw [Routine.lower]
    exact .function name params block.nest_lower

theorem Block.nest_lowerRoutines : (rs : List Routine) → Nest (Block.lowerRoutines builder rs)
  | [] => by
    rw [Block.lowerRoutines]
    exact .pure none
  | r :: rest => by
    rw [Block.lowerRoutines]
    exact .bind r.nest_lower fun _ => Block.nest_lowerRoutines rest

end

theorem AnalyzedProgram.nest_lower (p : AnalyzedProgram) : Nest (p.lower builder) :=
  p.program.nest_lower

end PlZero
