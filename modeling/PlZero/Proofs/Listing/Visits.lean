import PlZero.Proofs.Analysis.Operands
import PlZero.Proofs.Semantics.ConstantValues

/-!
Lowering with visits. To speak of every expression at its place in a run, lowering is done with
something around each expression whose value is wanted (`Block.lowerWith`). What stands around it is
told which constants are known there, by the declarations of the tree alone. With nothing around it,
that is lowering (`Block.lowerWith_id`).

With the listing builder a visit is noted: the expression, the listing before and after it, and the
operand. `Notes` relates such a piece of lowering to the same piece without notes.
-/

namespace PlZero

/-! ### Lowering with visits -/

section

variable {m : Type → Type} [Monad m] {V : Type}

section

variable (visit : ValueUse → Expr → m V → m V) (b : Builder m V)

mutual

/-- Lowers an expression, with a visit to each expression inside it. -/
def Expr.lowerWith : Expr → m V
  | .odd _ operand => do
    let operand ← visit .operand operand operand.lowerWith
    b.odd operand
  | .binary _ op lhs rhs => do
    let lhs ← visit .operand lhs lhs.lowerWith
    let rhs ← visit .operand rhs rhs.lowerWith
    b.binary op lhs rhs
  | .call _ callee args => do
    let args ← Expr.lowerArgsWith args
    b.call callee.name args
  | .name _ ref => ref.lowerOperand b
  | .number _ value => b.number value

def Expr.lowerArgsWith : List Expr → m (List V)
  | [] => return []
  | arg :: args => do
    let arg ← visit .argument arg arg.lowerWith
    let args ← Expr.lowerArgsWith args
    return arg :: args

end

mutual

def Stmt.lowerWith : Stmt → m (Option V)
  | .assign _ target value => do
    let value ← visit .assigned value (value.lowerWith visit b)
    b.assign target.name target.role value
  | .sequence _ body => Stmt.lowerAllWith body
  | .ifThen _ cond thenBranch elseBranch => do
    let cond ← visit .condition cond (cond.lowerWith visit b)
    b.ifThen cond (Stmt.deferOptionWith thenBranch) (Stmt.deferOptionWith elseBranch)
  | .whileDo _ cond body =>
    b.whileDo (visit .condition cond (cond.lowerWith visit b)) (Stmt.deferOptionWith body)
  | .asm _ text => b.asm text
  | .control _ exit => b.control exit
  | .call _ callee args => do
    let args ← Expr.lowerArgsWith visit b args
    let value ← b.call callee.name args
    return some value
  | .name _ ref => b.name ref.name ref.role

def Stmt.deferOptionWith : Option Stmt → Option (Deferred m V)
  | none => none
  | some stmt => some stmt.lowerWith

def Stmt.lowerAllWith : List Stmt → m (Option V)
  | [] => return none
  | stmt :: rest => do
    let _ ← stmt.lowerWith
    Stmt.lowerAllWith rest

end

end

section

variable (visit : Constants → ValueUse → Expr → m V → m V) (b : Builder m V)

/-- Lowers constants with visits; each is known to those behind it. -/
def Definition.lowerConstsWith (known : Constants) : List Definition → m (Option V)
  | [] => return none
  | { line, name, init := some init } :: rest => do
    let value ← visit known .initial init (init.lowerWith (visit known) b)
    b.constant name value
    Definition.lowerConstsWith (known.define .const { line, name, init := some init }) rest
  | { line, name, init := none } :: rest =>
    Definition.lowerConstsWith (known.define .const { line, name, init := none }) rest

/-- Lowers variables with visits; each hides a constant of its name. -/
def Definition.lowerVarsWith (known : Constants) : List Definition → m (Option V)
  | [] => return none
  | { line, name, init := some init } :: rest => do
    let value ← visit known .initial init (init.lowerWith (visit known) b)
    b.storage name (some value)
    Definition.lowerVarsWith (known.define .var { line, name, init := some init }) rest
  | { line, name, init := none } :: rest => do
    b.storage name none
    Definition.lowerVarsWith (known.define .var { line, name, init := none }) rest

mutual

def Block.lowerWith (known : Constants) : Block → m (Option V)
  | { consts, vars, routines, body, .. } =>
    let constants := (Decls.definitions consts).foldl (Constants.define .const) known
    let values := (Decls.definitions vars).foldl (Constants.define .var) constants
    b.block (consts.map fun decls => Definition.lowerConstsWith visit b known decls.defs)
      (vars.map fun decls => Definition.lowerVarsWith visit b constants decls.defs)
      (Block.lowerRoutinesWith values routines)
      (Stmt.deferOptionWith (visit (values.hide (routines.map (·.name)))) b body)

/-- Lowers a routine with visits. Its name and its parameters hide constants. -/
def Routine.lowerWith (known : Constants) : Routine → m (Option V)
  | { name, kind := .procedure, block, .. } =>
    b.procedure name (block.lowerWith (known.hide [name]))
  | { name, kind := .function params, block, .. } =>
    b.function name params (block.lowerWith (known.hide (name :: params)))

def Block.lowerRoutinesWith (known : Constants) : List Routine → m (Option V)
  | [] => return none
  | routine :: rest => do
    let _ ← routine.lowerWith known
    Block.lowerRoutinesWith (known.hide [routine.name]) rest

end

end

/-! With nothing around it, this is lowering. -/

variable (b : Builder m V)

mutual

/-- Lowering with visits that do nothing is lowering. -/
theorem Expr.lowerWith_id : (e : Expr) → e.lowerWith (fun _ _ work => work) b = e.lower b
  | .odd _ operand => by rw [Expr.lowerWith, Expr.lower, operand.lowerWith_id]
  | .binary _ op lhs rhs => by
    rw [Expr.lowerWith, Expr.lower, lhs.lowerWith_id, rhs.lowerWith_id]
  | .call _ callee args => by rw [Expr.lowerWith, Expr.lower, Expr.lowerArgsWith_id args]
  | .name _ ref => by rw [Expr.lowerWith, Expr.lower]
  | .number _ value => by rw [Expr.lowerWith, Expr.lower]

theorem Expr.lowerArgsWith_id : (args : List Expr) →
    Expr.lowerArgsWith (fun _ _ work => work) b args = Expr.lowerArgs b args
  | [] => by rw [Expr.lowerArgsWith, Expr.lowerArgs]
  | arg :: args => by
    rw [Expr.lowerArgsWith, Expr.lowerArgs, arg.lowerWith_id, Expr.lowerArgsWith_id args]

end

mutual

theorem Stmt.lowerWith_id : (s : Stmt) → s.lowerWith (fun _ _ work => work) b = s.lower b
  | .assign _ target value => by rw [Stmt.lowerWith, Stmt.lower, value.lowerWith_id]
  | .sequence _ body => by rw [Stmt.lowerWith, Stmt.lower, Stmt.lowerAllWith_id body]
  | .ifThen _ cond thenBranch elseBranch => by
    rw [Stmt.lowerWith, Stmt.lower, cond.lowerWith_id, Stmt.deferOptionWith_id thenBranch,
      Stmt.deferOptionWith_id elseBranch]
  | .whileDo _ cond body => by
    rw [Stmt.lowerWith, Stmt.lower, cond.lowerWith_id, Stmt.deferOptionWith_id body]
  | .asm _ text => by rw [Stmt.lowerWith, Stmt.lower]
  | .control _ exit => by rw [Stmt.lowerWith, Stmt.lower]
  | .call _ callee args => by rw [Stmt.lowerWith, Stmt.lower, Expr.lowerArgsWith_id]
  | .name _ ref => by rw [Stmt.lowerWith, Stmt.lower]

theorem Stmt.deferOptionWith_id : (s : Option Stmt) →
    Stmt.deferOptionWith (fun _ _ work => work) b s = Stmt.deferOption b s
  | none => by rw [Stmt.deferOptionWith, Stmt.deferOption]
  | some s => by rw [Stmt.deferOptionWith, Stmt.deferOption, s.lowerWith_id]

theorem Stmt.lowerAllWith_id : (body : List Stmt) →
    Stmt.lowerAllWith (fun _ _ work => work) b body = Stmt.lowerAll b body
  | [] => by rw [Stmt.lowerAllWith, Stmt.lowerAll]
  | s :: rest => by
    rw [Stmt.lowerAllWith, Stmt.lowerAll, s.lowerWith_id, Stmt.lowerAllWith_id rest]

end

theorem Definition.lowerConstsWith_id (known : Constants) (defs : List Definition) :
    Definition.lowerConstsWith (fun _ _ _ work => work) b known defs =
      Definition.lowerConsts b defs := by
  induction defs generalizing known with
  | nil => rw [Definition.lowerConstsWith, Definition.lowerConsts]
  | cons d rest ih =>
    obtain ⟨line, name, _ | init⟩ := d
    · rw [Definition.lowerConstsWith, Definition.lowerConsts, ih]
    · rw [Definition.lowerConstsWith, Definition.lowerConsts, Expr.lowerWith_id, ih]

theorem Definition.lowerVarsWith_id (known : Constants) (defs : List Definition) :
    Definition.lowerVarsWith (fun _ _ _ work => work) b known defs =
      Definition.lowerVars b defs := by
  induction defs generalizing known with
  | nil => rw [Definition.lowerVarsWith, Definition.lowerVars]
  | cons d rest ih =>
    obtain ⟨line, name, _ | init⟩ := d
    · rw [Definition.lowerVarsWith, Definition.lowerVars, ih]
    · rw [Definition.lowerVarsWith, Definition.lowerVars, Expr.lowerWith_id, ih]

mutual

/-- So it is for whole blocks. -/
theorem Block.lowerWith_id : (known : Constants) → (block : Block) →
    block.lowerWith (fun _ _ _ work => work) b known = block.lower b
  | known, { consts, vars, routines, body, .. } => by
    rw [Block.lowerWith, Block.lower, Block.lowerRoutinesWith_id _ routines,
      Stmt.deferOptionWith_id]
    simp only [Definition.lowerConstsWith_id, Definition.lowerVarsWith_id]

theorem Routine.lowerWith_id : (known : Constants) → (r : Routine) →
    r.lowerWith (fun _ _ _ work => work) b known = r.lower b
  | known, { kind := .procedure, block, .. } => by
    rw [Routine.lowerWith, Routine.lower, block.lowerWith_id]
  | known, { kind := .function _, block, .. } => by
    rw [Routine.lowerWith, Routine.lower, block.lowerWith_id]

theorem Block.lowerRoutinesWith_id : (known : Constants) → (rs : List Routine) →
    Block.lowerRoutinesWith (fun _ _ _ work => work) b known rs = Block.lowerRoutines b rs
  | known, [] => by rw [Block.lowerRoutinesWith, Block.lowerRoutines]
  | known, r :: rest => by
    rw [Block.lowerRoutinesWith, Block.lowerRoutines, r.lowerWith_id,
      Block.lowerRoutinesWith_id _ rest]

end

end

/-! ### Visits to the listing builder -/

open Listing (Operand)

/-- An expression at its place in a run: the constants known there, the operand that it yields, and
the listing before and after it. -/
structure Visit where
  known : Constants
  place : ValueUse
  expr : Expr
  before : Listing
  operand : Operand
  after : Listing

def Visit.site (v : Visit) : ValueUse × Expr := (v.place, v.expr)

/-- Work on a listing that notes its visits. -/
abbrev Noting := StateT (List Visit) (StateM Listing)

/-- Does the work of an expression and notes it, before the visits inside it. -/
def noteVisit (known : Constants) (place : ValueUse) (expr : Expr) (work : Noting Operand) :
    Noting Operand := do
  let earlier ← getThe (List Visit)
  let before ← getThe Listing
  set ([] : List Visit)
  let operand ← work
  let after ← getThe Listing
  modifyThe (List Visit) fun inner =>
    earlier ++ { known, place, expr, before, operand, after } :: inner
  return operand

/-- A visit is noted before those that were noted inside it, with the listing before and after. -/
theorem noteVisit_run (known : Constants) (place : ValueUse) (expr : Expr) (work : Noting Operand)
    (log : List Visit) (l : Listing) :
    ((noteVisit known place expr work).run log).run l =
      (let ran := (work.run []).run l
      ((ran.1.1, log ++ ⟨known, place, expr, l, ran.1.1, ran.2⟩ :: ran.1.2), ran.2)) := rfl

/-- The noting work `x` on `l` does what the work `y` does and notes good visits to these places. -/
def Notes {α : Type} (good : Visit → Prop) (x : Noting α) (y : StateM Listing α) (l : Listing)
    (places : List (ValueUse × Expr)) : Prop :=
  ∃ visits, (∀ log, (x.run log).run l = (((y.run l).1, log ++ visits), (y.run l).2)) ∧
    visits.map Visit.site = places ∧ ∀ v ∈ visits, good v

section

variable {α β : Type} {good : Visit → Prop} {x : Noting α} {y : StateM Listing α}
  {f : α → Noting β} {g : α → StateM Listing β} {l : Listing}
  {places others : List (ValueUse × Expr)}

/-- Work after work: the visits of the two are noted one behind the other. -/
theorem Notes.bind (first : Notes good x y l places)
    (next : Notes good (f (y.run l).1) (g (y.run l).1) (y.run l).2 others) :
    Notes good (x >>= f) (y >>= g) l (places ++ others) := by
  obtain ⟨visits, ran, rfl, all⟩ := first
  obtain ⟨more, ran', rfl, all'⟩ := next
  refine ⟨visits ++ more, fun log => ?_, List.map_append, List.forall_mem_append.mpr ⟨all, all'⟩⟩
  rw [StateT.run_bind, StateT.run_bind, ran, ← List.append_assoc]
  exact ran' (log ++ visits)

/-- What visits nothing can come last. -/
theorem Notes.silent_bind (first : Notes good x y l places)
    (next : Notes good (f (y.run l).1) (g (y.run l).1) (y.run l).2 []) :
    Notes good (x >>= f) (y >>= g) l places := by
  have whole := first.bind next
  rwa [List.append_nil] at whole

theorem notes_pure (r : α) : Notes good (pure r) (pure r) l [] :=
  ⟨[], fun log => by rw [List.append_nil]; rfl, rfl, List.forall_mem_nil _⟩

/-- A deferred part notes what the work in it notes. -/
theorem Notes.deferred {x : Deferred Noting Operand} {y : Deferred (StateM Listing) Operand}
    (notes : Notes good x y l places) :
    Notes good (Listing.run (some x)) (Listing.run (some y)) l places :=
  notes.silent_bind (notes_pure ())

theorem notes_modifyGet (step : Listing → α × Listing) :
    Notes good (modifyGetThe Listing step) (modifyGetThe Listing step) l [] :=
  ⟨[], fun log => by rw [List.append_nil]; rfl, rfl, List.forall_mem_nil _⟩

/-! A step of the listing is done at once. -/

/-- A step on the listing notes nothing. -/
theorem notes_modify_bind {step : Listing → Listing} {f : PUnit → Noting β}
    {g : PUnit → StateM Listing β} (rest : Notes good (f ⟨⟩) (g ⟨⟩) (step l) places) :
    Notes good (modifyThe Listing step >>= f) (modifyThe Listing step >>= g) l places := rest

theorem notes_modifyGet_bind {step : Listing → α × Listing}
    (rest : Notes good (f (step l).1) (g (step l).1) (step l).2 places) :
    Notes good (modifyGetThe Listing step >>= f) (modifyGetThe Listing step >>= g) l places := rest

/-- A visit comes before the visits inside it. -/
theorem Notes.visit {work : Noting Operand} {plain : StateM Listing Operand} {known : Constants}
    {place : ValueUse} {expr : Expr} (inner : Notes good work plain l places)
    (outer : good ⟨known, place, expr, l, (plain.run l).1, (plain.run l).2⟩) :
    Notes good (noteVisit known place expr work) plain l ((place, expr) :: places) := by
  obtain ⟨visits, ran, rfl, all⟩ := inner
  refine ⟨_ :: visits, fun log => ?_, rfl, List.forall_mem_cons.mpr ⟨outer, all⟩⟩
  rw [noteVisit_run, ran]
  rfl

end

end PlZero
