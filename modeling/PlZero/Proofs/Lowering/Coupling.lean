import PlZero.Lowering

/-!
Lowering treats all builders alike: if two builders with values of one type answer every request in
ways that go together, then so does all that is lowered onto them.

What it is for two actions to go together is left open. A `Coupling` is any relation between the
actions of two monads that holds of returned values and goes through sequencing. `Builder.Coupled`
has a clause for each operation; where an operation is handed deferred parts, all that is known of
them is that they go together too.

Main statement: `Block.lower_coupled`.
-/

namespace PlZero

/-- A relation between the actions of two monads, for each relation between what they return. -/
structure Coupling (m m' : Type → Type) [Monad m] [Monad m'] where
  Rel {α α' : Type} (same : α → α' → Prop) : m α → m' α' → Prop
  of_pure {α α' : Type} {same : α → α' → Prop} {a : α} {a' : α'} :
    same a a' → Rel same (pure a) (pure a')
  of_bind {α α' β β' : Type} {same : α → α' → Prop} {same' : β → β' → Prop} {x : m α} {x' : m' α'}
    {f : α → m β} {f' : α' → m' β'} :
    Rel same x x' → (∀ a a', same a a' → Rel same' (f a) (f' a')) → Rel same' (x >>= f) (x' >>= f')
  mono {α α' : Type} {same same' : α → α' → Prop} {x : m α} {x' : m' α'} :
    Rel same x x' → (∀ a a', same a a' → same' a a') → Rel same' x x'

variable {m m' : Type → Type} [Monad m] [Monad m'] {V : Type}

/-- The case in which the first two actions return the same. -/
theorem Coupling.of_bind_eq (R : Coupling m m') {α β β' : Type} {same : β → β' → Prop} {x : m α}
    {x' : m' α} {f : α → m β} {f' : α → m' β'} (first : R.Rel Eq x x')
    (next : ∀ a, R.Rel same (f a) (f' a)) : R.Rel same (x >>= f) (x' >>= f') := by
  refine R.of_bind first ?_
  rintro a _ rfl
  exact next a

/-- Two builders that answer every request in ways that go together. Operands are the same for both,
and what constructs yield is related by `same`. -/
structure Builder.Coupled (R : Coupling m m') (same : Option V → Option V → Prop) (b : Builder m V)
    (b' : Builder m' V) : Prop where
  refl (value : Option V) : same value value
  block {consts vars body : Option (Deferred m V)} {consts' vars' body' : Option (Deferred m' V)}
    {routines : Deferred m V} {routines' : Deferred m' V} :
    Option.Rel (R.Rel same) consts consts' → Option.Rel (R.Rel same) vars vars' →
    R.Rel same routines routines' → Option.Rel (R.Rel same) body body' →
    R.Rel same (b.block consts vars routines body) (b'.block consts' vars' routines' body')
  constant (name : String) (value : V) : R.Rel Eq (b.constant name value) (b'.constant name value)
  storage (name : String) (init : Option V) :
    R.Rel Eq (b.storage name init) (b'.storage name init)
  procedure (name : String) {block : Deferred m V} {block' : Deferred m' V} :
    R.Rel same block block' → R.Rel same (b.procedure name block) (b'.procedure name block')
  function (name : String) (params : List String) {block : Deferred m V} {block' : Deferred m' V} :
    R.Rel same block block' →
    R.Rel same (b.function name params block) (b'.function name params block')
  assign (name : String) (target : Role) (value : V) :
    R.Rel same (b.assign name target value) (b'.assign name target value)
  ifThen (cond : V) {thenBranch elseBranch : Option (Deferred m V)}
    {thenBranch' elseBranch' : Option (Deferred m' V)} :
    Option.Rel (R.Rel same) thenBranch thenBranch' →
    Option.Rel (R.Rel same) elseBranch elseBranch' →
    R.Rel same (b.ifThen cond thenBranch elseBranch) (b'.ifThen cond thenBranch' elseBranch')
  whileDo {cond : m V} {cond' : m' V} {body : Option (Deferred m V)}
    {body' : Option (Deferred m' V)} :
    R.Rel Eq cond cond' → Option.Rel (R.Rel same) body body' →
    R.Rel same (b.whileDo cond body) (b'.whileDo cond' body')
  asm (text : String) : R.Rel same (b.asm text) (b'.asm text)
  control (exit : LoopExit) : R.Rel same (b.control exit) (b'.control exit)
  odd (operand : V) : R.Rel Eq (b.odd operand) (b'.odd operand)
  binary (op : BinaryOp) (lhs rhs : V) : R.Rel Eq (b.binary op lhs rhs) (b'.binary op lhs rhs)
  call (name : String) (args : List V) : R.Rel Eq (b.call name args) (b'.call name args)
  name (name : String) (role : Role) : R.Rel Eq (b.name name role) (b'.name name role)
  number (value : Int32) : R.Rel Eq (b.number value) (b'.number value)

section

variable {R : Coupling m m'} {same : Option V → Option V → Prop} {b : Builder m V}
  {b' : Builder m' V}

/-! ### Expressions -/

theorem Reference.lowerOperand_coupled (coupled : b.Coupled R same b') (ref : Reference) :
    R.Rel Eq (ref.lowerOperand b) (ref.lowerOperand b') := by
  refine R.of_bind_eq (coupled.name ref.name ref.role) fun value => ?_
  cases value with
  | some value => exact R.of_pure rfl
  | none => exact coupled.number 0

mutual

/-- Lowering an expression asks two coupled builders for the same, step by step. -/
theorem Expr.lower_coupled (coupled : b.Coupled R same b') :
    (e : Expr) → R.Rel Eq (e.lower b) (e.lower b')
  | .odd _ operand => by
    rw [lower, lower]
    exact R.of_bind_eq (operand.lower_coupled coupled) coupled.odd
  | .binary _ op lhs rhs => by
    rw [lower, lower]
    refine R.of_bind_eq (lhs.lower_coupled coupled) fun left => ?_
    exact R.of_bind_eq (rhs.lower_coupled coupled) (coupled.binary op left)
  | .call _ callee args => by
    rw [lower, lower]
    exact R.of_bind_eq (Expr.lowerArgs_coupled coupled args) (coupled.call callee.name)
  | .name _ ref => by
    rw [lower, lower]
    exact ref.lowerOperand_coupled coupled
  | .number _ value => by
    rw [lower, lower]
    exact coupled.number value

theorem Expr.lowerArgs_coupled (coupled : b.Coupled R same b') :
    (args : List Expr) → R.Rel Eq (Expr.lowerArgs b args) (Expr.lowerArgs b' args)
  | [] => by
    rw [Expr.lowerArgs, Expr.lowerArgs]
    exact R.of_pure rfl
  | arg :: args => by
    rw [Expr.lowerArgs, Expr.lowerArgs]
    refine R.of_bind_eq (arg.lower_coupled coupled) fun value => ?_
    exact R.of_bind_eq (Expr.lowerArgs_coupled coupled args) fun values => R.of_pure rfl

end

/-! ### Statements -/

mutual

/-- Lowering a statement hands two coupled builders deferred parts that go together. -/
theorem Stmt.lower_coupled (coupled : b.Coupled R same b') :
    (s : Stmt) → R.Rel same (s.lower b) (s.lower b')
  | .assign _ target value => by
    rw [lower, lower]
    exact R.of_bind_eq (value.lower_coupled coupled) (coupled.assign target.name target.role)
  | .sequence _ body => by
    rw [lower, lower]
    exact Stmt.lowerAll_coupled coupled body
  | .ifThen _ cond thenBranch elseBranch => by
    rw [lower, lower]
    refine R.of_bind_eq (cond.lower_coupled coupled) fun value => ?_
    exact coupled.ifThen value (Stmt.deferOption_coupled coupled thenBranch)
      (Stmt.deferOption_coupled coupled elseBranch)
  | .whileDo _ cond body => by
    rw [lower, lower]
    exact coupled.whileDo (cond.lower_coupled coupled) (Stmt.deferOption_coupled coupled body)
  | .asm _ text => by
    rw [lower, lower]
    exact coupled.asm text
  | .control _ exit => by
    rw [lower, lower]
    exact coupled.control exit
  | .call _ callee args => by
    rw [lower, lower]
    refine R.of_bind_eq (Expr.lowerArgs_coupled coupled args) fun values => ?_
    exact R.of_bind_eq (coupled.call callee.name values) fun value => R.of_pure (coupled.refl _)
  | .name _ ref => by
    rw [lower, lower]
    refine R.mono (coupled.name ref.name ref.role) ?_
    rintro value _ rfl
    exact coupled.refl value

theorem Stmt.deferOption_coupled (coupled : b.Coupled R same b') :
    (s : Option Stmt) → Option.Rel (R.Rel same) (Stmt.deferOption b s) (Stmt.deferOption b' s)
  | none => by
    rw [Stmt.deferOption, Stmt.deferOption]
    exact .none
  | some s => by
    rw [Stmt.deferOption, Stmt.deferOption]
    exact .some (s.lower_coupled coupled)

theorem Stmt.lowerAll_coupled (coupled : b.Coupled R same b') :
    (body : List Stmt) → R.Rel same (Stmt.lowerAll b body) (Stmt.lowerAll b' body)
  | [] => by
    rw [Stmt.lowerAll, Stmt.lowerAll]
    exact R.of_pure (coupled.refl none)
  | s :: rest => by
    rw [Stmt.lowerAll, Stmt.lowerAll]
    exact R.of_bind (s.lower_coupled coupled) fun _ _ _ => Stmt.lowerAll_coupled coupled rest

end

/-! ### Declarations -/

theorem Definition.lowerConsts_coupled (coupled : b.Coupled R same b') (defs : List Definition) :
    R.Rel same (Definition.lowerConsts b defs) (Definition.lowerConsts b' defs) := by
  induction defs with
  | nil => exact R.of_pure (coupled.refl none)
  | cons d defs ih =>
    obtain ⟨line, name, _ | init⟩ := d
    · exact ih
    · refine R.of_bind_eq (init.lower_coupled coupled) fun value => ?_
      exact R.of_bind_eq (coupled.constant name value) fun _ => ih

theorem Definition.lowerVars_coupled (coupled : b.Coupled R same b') (defs : List Definition) :
    R.Rel same (Definition.lowerVars b defs) (Definition.lowerVars b' defs) := by
  induction defs with
  | nil => exact R.of_pure (coupled.refl none)
  | cons d defs ih =>
    obtain ⟨line, name, _ | init⟩ := d
    · exact R.of_bind_eq (coupled.storage name none) fun _ => ih
    · refine R.of_bind_eq (init.lower_coupled coupled) fun value => ?_
      exact R.of_bind_eq (coupled.storage name (some value)) fun _ => ih

/-! ### Routines and blocks -/

mutual

/-- A block lowered onto two builders that go together. -/
theorem Block.lower_coupled (coupled : b.Coupled R same b') :
    (block : Block) → R.Rel same (block.lower b) (block.lower b')
  | { line, consts, vars, routines, body, scope } => by
    rw [Block.lower, Block.lower]
    refine coupled.block ?_ ?_ (Block.lowerRoutines_coupled coupled routines)
      (Stmt.deferOption_coupled coupled body)
    · cases consts with
      | none => exact .none
      | some decls => exact .some (Definition.lowerConsts_coupled coupled decls.defs)
    · cases vars with
      | none => exact .none
      | some decls => exact .some (Definition.lowerVars_coupled coupled decls.defs)

theorem Routine.lower_coupled (coupled : b.Coupled R same b') :
    (r : Routine) → R.Rel same (r.lower b) (r.lower b')
  | { line, name, kind := .procedure, block, scope } => by
    rw [Routine.lower, Routine.lower]
    exact coupled.procedure name (block.lower_coupled coupled)
  | { line, name, kind := .function params, block, scope } => by
    rw [Routine.lower, Routine.lower]
    exact coupled.function name params (block.lower_coupled coupled)

theorem Block.lowerRoutines_coupled (coupled : b.Coupled R same b') :
    (routines : List Routine) →
      R.Rel same (Block.lowerRoutines b routines) (Block.lowerRoutines b' routines)
  | [] => by
    rw [Block.lowerRoutines, Block.lowerRoutines]
    exact R.of_pure (coupled.refl none)
  | r :: rest => by
    rw [Block.lowerRoutines, Block.lowerRoutines]
    exact R.of_bind (r.lower_coupled coupled) fun _ _ _ => Block.lowerRoutines_coupled coupled rest

end

end

end PlZero
