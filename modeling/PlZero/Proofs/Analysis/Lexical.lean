import PlZero.Analysis.Program
import Mathlib.Logic.Function.Basic

/-!
Lexical scoping as a function of the tree. What names stand for at a point of a program is a stack
of name maps, the innermost first, and nothing else: no table, no scope numbers, no state.

A declaration extends the innermost map. The block of a procedure gets one more map, that of a
function two: one for its own name and its parameters, and one for what the block declares. The maps
of a routine are gone behind it, because `RoutineKind.enter` is all that a routine hands on and it
does not look at the block.

Everything is judged once, from left to right. A judgement is the annotated phrase with the faults
noted on the way (`Lexical.Noted`); its scope numbers are left out (`Block.unscoped`).
-/

namespace PlZero

/-! ### Trees without scope numbers -/

def ExprInfo.unscoped (info : ExprInfo) : ExprInfo := { info with scope := none }

def StmtInfo.unscoped (info : StmtInfo) : StmtInfo := { info with scope := none }

mutual

def Expr.unscoped : Expr → Expr
  | .odd info operand => .odd info.unscoped operand.unscoped
  | .binary info op lhs rhs => .binary info.unscoped op lhs.unscoped rhs.unscoped
  | .call info callee args => .call info.unscoped callee (Expr.unscopedAll args)
  | .name info ref => .name info.unscoped ref
  | .number info value => .number info.unscoped value

def Expr.unscopedAll : List Expr → List Expr
  | [] => []
  | e :: rest => e.unscoped :: Expr.unscopedAll rest

end

mutual

def Stmt.unscoped : Stmt → Stmt
  | .assign info target value => .assign info.unscoped target value.unscoped
  | .sequence info body => .sequence info.unscoped (Stmt.unscopedAll body)
  | .ifThen info cond thenBranch elseBranch =>
    .ifThen info.unscoped cond.unscoped (Stmt.unscopedOption thenBranch)
      (Stmt.unscopedOption elseBranch)
  | .whileDo info cond body => .whileDo info.unscoped cond.unscoped (Stmt.unscopedOption body)
  | .asm info text => .asm info.unscoped text
  | .control info exit => .control info.unscoped exit
  | .call info callee args => .call info.unscoped callee (Expr.unscopedAll args)
  | .name info ref => .name info.unscoped ref

def Stmt.unscopedOption : Option Stmt → Option Stmt
  | none => none
  | some s => some s.unscoped

def Stmt.unscopedAll : List Stmt → List Stmt
  | [] => []
  | s :: rest => s.unscoped :: Stmt.unscopedAll rest

end

def Definition.unscoped (d : Definition) : Definition := { d with init := d.init.map Expr.unscoped }

def Decls.unscoped (decls : Decls) : Decls :=
  { decls with defs := decls.defs.map Definition.unscoped, scope := none }

mutual

/-- A block without scopes. -/
def Block.unscoped : Block → Block
  | { line, consts, vars, routines, body, .. } =>
    { line, consts := consts.map Decls.unscoped, vars := vars.map Decls.unscoped,
      routines := Routine.unscopedAll routines, body := Stmt.unscopedOption body, scope := none }

def Routine.unscoped : Routine → Routine
  | { line, name, kind, block, .. } => { line, name, kind, block := block.unscoped, scope := none }

def Routine.unscopedAll : List Routine → List Routine
  | [] => []
  | r :: rest => r.unscoped :: Routine.unscopedAll rest

end

namespace Lexical

/-! ### Faults noted on the way -/

/-- A value and the faults noted on the way to it. -/
@[ext]
structure Noted (α : Type) where
  value : α
  faults : List Diagnostic := []

instance : Monad Noted where
  pure value := { value }
  bind n f := { value := (f n.value).value, faults := n.faults ++ (f n.value).faults }

section

variable {α β : Type} (n : Noted α) (f : α → Noted β)

@[simp] theorem value_pure (r : α) : (pure r : Noted α).value = r := rfl

@[simp] theorem faults_pure (r : α) : (pure r : Noted α).faults = [] := rfl

@[simp] theorem value_bind : (n >>= f).value = (f n.value).value := rfl

@[simp] theorem faults_bind : (n >>= f).faults = n.faults ++ (f n.value).faults := rfl

end

instance : LawfulMonad Noted :=
  LawfulMonad.mk' Noted (fun n => Noted.ext rfl (List.append_nil n.faults)) (fun _ _ => rfl)
    fun _ _ _ => Noted.ext rfl (List.append_assoc _ _ _)

/-- Notes a fault, about a name if there is one. -/
def note (line : Nat) (ident : Option String) (fault : AnalysisFault) : Noted Unit :=
  { value := (), faults := [{ stage := .analyzer, line, ident, message := fault.message }] }

/-- The class a rule gives. Where it finds a fault, that is noted. -/
def settle (line : Nat) (ident : Option String) : Except AnalysisFault Role → Noted Role
  | .ok result => return result
  | .error fault => do
    note line ident fault
    return .error

/-! ### Stacks of name maps -/

/-- What the names of one scope were declared as. -/
abbrev NameMap := String → Option Symbol

def NameMap.empty : NameMap := fun _ => none

/-- The name maps around a point of a program. -/
structure Stack where
  inner : NameMap
  outer : List NameMap

namespace Stack

/-- The maps, innermost first. -/
def maps (s : Stack) : List NameMap := s.inner :: s.outer

/-- What a name stands for: what the first map that has it says. -/
def lookup? (s : Stack) (name : String) : Option Symbol := s.maps.findSome? (· name)

def push (s : Stack) (map : NameMap) : Stack := ⟨map, s.maps⟩

/-- Declares a name in the innermost map. A name it already has stays as it is; that is a fault. -/
def declare (s : Stack) (line : Nat) (name : String) (symbol : Symbol) : Noted Stack :=
  if (s.inner name).isSome then do
    note line name .alreadyDefined
    return s
  else return { s with inner := Function.update s.inner name (some symbol) }

def declareParams (line : Nat) : Stack → List String → Noted Stack
  | s, [] => return s
  | s, param :: params => do
    let s ← s.declare line param { role := .var }
    declareParams line s params

/-- Resolves a name and classifies its use by a rule for what it stands for. -/
def resolve (s : Stack) (line : Nat) (ref : Reference)
    (rule : Symbol → Except AnalysisFault Role) : Noted (Reference × Role) :=
  match s.lookup? ref.name with
  | none => do
    note line ref.name .undefined
    return (ref, .error)
  | some symbol => do
    let result ← settle line ref.name (rule symbol)
    return ({ ref with role := symbol.role }, result)

variable {s : Stack} {line : Nat} {name other : String} {symbol : Symbol}

/-! What a declaration does to the meaning of names. -/

/-- A name stands for what the innermost map says, or else for what is said further out. -/
theorem lookup?_eq_or (s : Stack) (name : String) :
    s.lookup? name = (s.inner name).or (s.outer.findSome? (· name)) := by
  rw [lookup?, maps, List.findSome?_cons]
  cases s.inner name <;> rfl

@[simp] theorem lookup?_push_empty (s : Stack) : (s.push .empty).lookup? = s.lookup? := by
  funext name
  rw [lookup?_eq_or]
  rfl

/-- The innermost map comes first. -/
theorem lookup?_of_inner {found : Symbol} (known : s.inner name = some found) :
    s.lookup? name = some found := by
  rw [lookup?_eq_or, known, Option.some_or]

/-- A name that is free in the innermost map is declared there. -/
theorem declare_of_free (free : s.inner name = none) :
    s.declare line name symbol =
      pure { s with inner := Function.update s.inner name (some symbol) } := by
  rw [declare, free]
  rfl

theorem lookup?_update_inner (s : Stack) (name : String) (symbol : Symbol) :
    ({ s with inner := Function.update s.inner name (some symbol) } : Stack).lookup? =
      Function.update s.lookup? name (some symbol) := by
  funext other
  simp only [lookup?_eq_or, Function.update_apply]
  split <;> rfl

/-- A declaration makes a difference to its own name only. -/
theorem lookup?_declare (s : Stack) (line : Nat) (name : String) (symbol : Symbol) :
    ∃ found, (s.declare line name symbol).value.lookup? =
      Function.update s.lookup? name (some found) := by
  cases known : s.inner name with
  | none =>
    refine ⟨symbol, ?_⟩
    rw [declare_of_free known, value_pure, lookup?_update_inner]
  | some found =>
    refine ⟨found, ?_⟩
    have kept : (s.declare line name symbol).value = s := by
      rw [declare, known]
      rfl
    rw [kept, ← lookup?_of_inner known, Function.update_eq_self]

/-- What the innermost map has, it keeps. -/
theorem inner_declare_of_some {found : Symbol} (known : s.inner other = some found) :
    (s.declare line name symbol).value.inner other = some found := by
  unfold declare
  split
  · exact known
  · next free =>
    have different : other ≠ name := by
      rintro rfl
      rw [known] at free
      exact free rfl
    simp only [value_pure, Function.update_of_ne different, known]

/-- A parameter does not take the place of one that is declared already. -/
theorem inner_declareParams_of_some {found : Symbol} (line : Nat) (params : List String)
    (known : s.inner name = some found) :
    (declareParams line s params).value.inner name = some found := by
  induction params generalizing s with
  | nil => exact known
  | cons param params ih =>
    rw [declareParams, value_bind]
    exact ih (inner_declare_of_some known)

end Stack

/-! ### Rules

What is found faulty inside a phrase is no new fault of the phrase. -/

/-- Where a value is wanted, anything else is the given fault. -/
def demand (fault : AnalysisFault) : Role → Except AnalysisFault Role
  | .error => .ok .error
  | .const => .ok .const
  | .var => .ok .var
  | .proc | .func | .ret | .void => .error fault

/-- A binary operation is constant if both operands are. -/
def binaryRule (lhs rhs : Role) : Except AnalysisFault Role :=
  if lhs = .error ∨ rhs = .error then .ok .error
  else do
    let lhs ← demand .invalidLeft lhs
    let rhs ← demand .invalidRight rhs
    return if lhs = .const ∧ rhs = .const then .const else .var

def nameRule (symbol : Symbol) : Except AnalysisFault Role :=
  match symbol.role with
  | .const => .ok .const
  | .var => .ok .var
  | .proc => .ok .void
  | .func | .ret => if symbol.arity = 0 then .ok .var else .error .arityMismatch
  | .error | .void => .error .invalidName

def callRule (args : List Role) (symbol : Symbol) : Except AnalysisFault Role :=
  if symbol.role ≠ .func ∧ symbol.role ≠ .ret then .error .notCallable
  else if symbol.arity ≠ args.length then .error .arityMismatch
  else .ok (if args.all Role.isValue then .var else .error)

/-- An assignment of a value of the given class. -/
def assignRule (value : Role) (symbol : Symbol) : Except AnalysisFault Role :=
  if symbol.role = .var ∨ symbol.role = .ret then do
    let value ← demand .invalidAssignment value
    return .ofOk (value != .error)
  else .error .notAssignable

/-- The initial value, if there is one, of a name of the given role. -/
def initRule (role : Role) : Option Role → Except AnalysisFault Role
  | none => if role = .const then .error .missingInit else .ok .void
  | some init =>
    if role ≠ .const then demand .invalidInit init
    else if init = .const ∨ init = .error then .ok init
    else .error .nonConstantInit

end Lexical

open Lexical

/-! ### Expressions -/

mutual

def Expr.judge (s : Stack) : Expr → Noted Expr
  | .odd info operand => do
    let operand ← operand.judge s
    let result ← settle info.line none (demand .invalidOperand operand.info.result)
    return .odd { line := info.line, result } operand
  | .binary info op lhs rhs => do
    let lhs ← lhs.judge s
    let rhs ← rhs.judge s
    let result ← settle info.line none (binaryRule lhs.info.result rhs.info.result)
    return .binary { line := info.line, result } op lhs rhs
  | .call info callee args => do
    let args ← Expr.judgeArgs s info.line callee.name args
    let (callee, result) ← s.resolve info.line callee (callRule (args.map (·.info.result)))
    return .call { line := info.line, result } callee args
  | .name info ref => do
    let (ref, result) ← s.resolve info.line ref nameRule
    return .name { line := info.line, result } ref
  | .number info value => return .number { line := info.line, result := .const } value

/-- Judges the arguments of a call of `callee`. -/
def Expr.judgeArgs (s : Stack) (line : Nat) (callee : String) : List Expr → Noted (List Expr)
  | [] => return []
  | arg :: args => do
    let arg ← arg.judge s
    let _ ← settle line callee (demand .invalidArgument arg.info.result)
    let args ← Expr.judgeArgs s line callee args
    return arg :: args

end

/-! ### Statements -/

mutual

/-- Judges a statement, which stands in a loop or not. -/
def Stmt.judge (s : Stack) (inLoop : Bool) : Stmt → Noted Stmt
  | .assign info target value => do
    let value ← value.judge s
    let (target, _) ← s.resolve info.line target (assignRule value.info.result)
    return .assign info.unscoped target value
  | .sequence info body => do
    let body ← Stmt.judgeAll s inLoop body
    return .sequence info.unscoped body
  | .ifThen info cond thenBranch elseBranch => do
    let cond ← cond.judge s
    let thenBranch ← Stmt.judgeOption s inLoop thenBranch
    let elseBranch ← Stmt.judgeOption s inLoop elseBranch
    return .ifThen info.unscoped cond thenBranch elseBranch
  | .whileDo info cond body => do
    let cond ← cond.judge s
    let body ← Stmt.judgeOption s true body
    return .whileDo info.unscoped cond body
  | .asm info text => return .asm info.unscoped text
  | .control info exit => do
    if inLoop then pure () else note info.line none .strayLoopExit
    return .control info.unscoped exit
  | .call info callee args => do
    let args ← Expr.judgeArgs s info.line callee.name args
    let (callee, _) ← s.resolve info.line callee (callRule (args.map (·.info.result)))
    return .call info.unscoped callee args
  | .name info ref => do
    let (ref, _) ← s.resolve info.line ref nameRule
    return .name info.unscoped ref

def Stmt.judgeOption (s : Stack) (inLoop : Bool) : Option Stmt → Noted (Option Stmt)
  | none => return none
  | some stmt => do
    let stmt ← stmt.judge s inLoop
    return some stmt

def Stmt.judgeAll (s : Stack) (inLoop : Bool) : List Stmt → Noted (List Stmt)
  | [] => return []
  | stmt :: rest => do
    let stmt ← stmt.judge s inLoop
    let rest ← Stmt.judgeAll s inLoop rest
    return stmt :: rest

end

/-! ### Declarations -/

def Definition.judgeInit (s : Stack) : Option Expr → Noted (Option Expr)
  | none => return none
  | some init => do
    let init ← init.judge s
    return some init

/-- Judges a definition, and declares its name behind its initial value. -/
def Definition.judge (role : Role) (s : Stack) (d : Definition) : Noted (Stack × Definition) := do
  let init ← Definition.judgeInit s d.init
  let _ ← settle d.line d.name (initRule role (init.map (·.info.result)))
  let s ← s.declare d.line d.name { role }
  return (s, { d with init })

def Definition.judgeAll (role : Role) : Stack → List Definition → Noted (Stack × List Definition)
  | s, [] => return (s, [])
  | s, d :: rest => do
    let (s, d) ← d.judge role s
    let (s, rest) ← Definition.judgeAll role s rest
    return (s, d :: rest)

def Decls.judge (role : Role) (s : Stack) : Option Decls → Noted (Stack × Option Decls)
  | none => return (s, none)
  | some decls => do
    let (s, defs) ← Definition.judgeAll role s decls.defs
    return (s, some { line := decls.line, defs })

/-! ### Routines and blocks -/

/-- Declares a routine: the stack in its block, and the stack behind it. -/
def RoutineKind.enter (s : Stack) (line : Nat) (name : String) :
    RoutineKind → Noted (Stack × Stack)
  | .procedure => do
    let s ← s.declare line name { role := .proc }
    return (s.push .empty, s)
  | .function params => do
    let own ← (s.push .empty).declare line name { role := .ret, arity := params.length }
    let own ← Stack.declareParams line own params
    let s ← s.declare line name { role := .func, arity := params.length }
    return ((s.push own.inner).push .empty, s)

mutual

/-- Judges a block whose names belong to the innermost map. -/
def Block.judge (s : Stack) : Block → Noted Block
  | { line, consts, vars, routines, body, .. } => do
    let (s, consts) ← Decls.judge .const s consts
    let (s, vars) ← Decls.judge .var s vars
    let (s, routines) ← Routine.judgeAll s routines
    let body ← Stmt.judgeOption s false body
    return { line, consts, vars, routines, body }

/-- Judges a routine, with the stack behind it. -/
def Routine.judge (s : Stack) : Routine → Noted (Stack × Routine)
  | { line, name, kind, block, .. } => do
    let (inside, behind) ← kind.enter s line name
    let block ← block.judge inside
    return (behind, { line, name, kind, block })

def Routine.judgeAll (s : Stack) : List Routine → Noted (Stack × List Routine)
  | [] => return (s, [])
  | r :: rest => do
    let (s, r) ← r.judge s
    let (s, rest) ← Routine.judgeAll s rest
    return (s, r :: rest)

end

/-! ### What is visible where -/

/-- A routine is entered, and its block is judged with what is visible inside. -/
theorem Routine.judge_eq_enter (s : Stack) (r : Routine) :
    r.judge s = do
      let (inside, behind) ← r.kind.enter s r.line r.name
      let block ← r.block.judge inside
      return (behind, { line := r.line, name := r.name, kind := r.kind, block }) := by
  obtain ⟨line, name, kind, block, scope⟩ := r
  rw [Routine.judge]

/-- Behind a routine names stand for what they stood for before it, but for its own. -/
theorem Routine.lookup?_behind (s : Stack) (r : Routine) :
    ∃ symbol, (r.judge s).value.1.lookup? = Function.update s.lookup? r.name (some symbol) := by
  rw [Routine.judge_eq_enter]
  cases r.kind with
  | procedure => exact Stack.lookup?_declare s _ _ _
  | function params => exact Stack.lookup?_declare s _ _ _

/-- In its own block the name of a function is its result. -/
theorem RoutineKind.lookup?_function (s : Stack) (line : Nat) (name : String)
    (params : List String) :
    ((RoutineKind.function params).enter s line name).value.1.lookup? name =
      some { role := .ret, arity := params.length } := by
  have own : ((s.push .empty).declare line name
      { role := .ret, arity := params.length }).value.inner name =
        some { role := .ret, arity := params.length } := by
    rw [Stack.declare]
    exact Function.update_self name _ _
  have kept := Stack.inner_declareParams_of_some line params own
  rw [RoutineKind.enter]
  simp only [value_bind, value_pure, Stack.lookup?_push_empty]
  rw [Stack.lookup?_eq_or]
  exact congrArg (Option.or · _) kept

/-- In its own block the name of a routine stands for something. -/
theorem Routine.isSome_lookup?_inside (s : Stack) (r : Routine) :
    ((r.kind.enter s r.line r.name).value.1.lookup? r.name).isSome = true := by
  cases r.kind with
  | procedure =>
    obtain ⟨symbol, declared⟩ := Stack.lookup?_declare s r.line r.name { role := .proc }
    rw [RoutineKind.enter, value_bind, value_pure, Stack.lookup?_push_empty, declared,
      Function.update_self]
    rfl
  | function params =>
    rw [RoutineKind.lookup?_function]
    rfl

/-- What is declared later has no part in the judgement of what comes before. -/
theorem Definition.judgeAll_append (role : Role) (s : Stack) (earlier later : List Definition) :
    Definition.judgeAll role s (earlier ++ later) = do
      let (s, earlier) ← Definition.judgeAll role s earlier
      let (s, later) ← Definition.judgeAll role s later
      return (s, earlier ++ later) := by
  induction earlier generalizing s with
  | nil =>
    rw [List.nil_append, Definition.judgeAll, pure_bind]
    exact (bind_pure _).symm
  | cons d rest ih =>
    rw [List.cons_append, Definition.judgeAll, Definition.judgeAll]
    simp only [ih, bind_assoc, pure_bind, List.cons_append]

/-- Later routines are judged behind earlier ones. -/
theorem Routine.judgeAll_append (s : Stack) (earlier later : List Routine) :
    Routine.judgeAll s (earlier ++ later) = do
      let (s, earlier) ← Routine.judgeAll s earlier
      let (s, later) ← Routine.judgeAll s later
      return (s, earlier ++ later) := by
  induction earlier generalizing s with
  | nil =>
    rw [List.nil_append, Routine.judgeAll, pure_bind]
    exact (bind_pure _).symm
  | cons r rest ih =>
    rw [List.cons_append, Routine.judgeAll, Routine.judgeAll]
    simp only [ih, bind_assoc, pure_bind, List.cons_append]

/-! ### Programs -/

/-- The names before a program: the runtime functions, if it may call them. -/
def Options.names (options : Options) : NameMap := fun name =>
  if options.prelude then
    (Primitive.find? name).map fun p => { role := .func, arity := p.arity }
  else none

def Block.judgeProgram (options : Options) (program : Block) : Noted Block :=
  program.judge { inner := options.names, outer := [] }

end PlZero
