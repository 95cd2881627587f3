import PlZero.Listing.Step
import PlZero.Proofs.Analysis.Scoping
import PlZero.Proofs.Semantics.Behavior

/-!
The meaning of programs without routines, by direct evaluation of the analyzed tree: initial values
from left to right, then the body; operands and arguments from left to right; `break` and `continue`
act on the innermost loop. Division by zero is stuck, and so is inline assembly, which has no
meaning here.

A function outside the program is known by its results only: an oracle gives the result of the
first, second, … call. Evaluation takes fuel, the number of turns that each loop may take whenever
it is entered, and so always ends; a program that runs out of fuel with any amount goes on for ever.
-/

namespace PlZero

/-- Gives the result of each outside call, by how many came before it. -/
abbrev Oracle := Nat → Int32

/-- The values of the names declared so far and the calls made so far. -/
structure World where
  store : String → Int32 := fun _ => 0
  calls : List Call := []

def World.assign (w : World) (name : String) (value : Int32) : World :=
  { w with store := Function.update w.store name value }

theorem World.store_assign_self (w : World) (name : String) (value : Int32) :
    (w.assign name value).store name = value := by
  simp [World.assign]

theorem World.store_assign_of_ne (w : World) {name other : String} (value : Int32)
    (ne : other ≠ name) : (w.assign name value).store other = w.store other := by
  simp [World.assign, ne]

/-- Why an evaluation does not come to the end of a phrase. -/
inductive Exit where
  | stuck
  | outOfFuel
  | leave (exit : LoopExit)
  deriving DecidableEq, Repr

abbrev Exec := ExceptT Exit (StateM World)

namespace Exec

def assign (name : String) (value : Int32) : Exec Unit :=
  modify (·.assign name value)

def external (oracle : Oracle) (name : String) (args : List Int32) : Exec Int32 :=
  modifyGet fun w =>
    (oracle w.calls.length, { w with calls := w.calls ++ [(⟨name, args⟩ : Call)] })

/-- Does one turn of a loop and says whether the loop goes on. -/
def turn (body : Exec Unit) : Exec Bool :=
  tryCatch (do body; return true) fun
    | .leave .breakLoop => return false
    | .leave .continueLoop => return true
    | exit => throw exit

/-- A loop, for some number of turns at most. -/
def loop (cond : Exec Int32) (body : Exec Unit) : Nat → Exec Unit
  | 0 => throw .outOfFuel
  | turns + 1 => do
    let value ← cond
    if value = 0 then return ()
    else
      let goesOn ← turn body
      if goesOn then loop cond body turns else return ()

end Exec

/-! ### Expressions -/

/-- The value of a bare name: a constant or variable is read, a function is called. -/
def Reference.eval (oracle : Oracle) (ref : Reference) : Exec Int32 :=
  match ref.role with
  | .const | .var => return (← get).store ref.name
  | .func => Exec.external oracle ref.name []
  | _ => throw .stuck

mutual

def Expr.eval (oracle : Oracle) : Expr → Exec Int32
  | .odd _ operand => do
    let value ← operand.eval oracle
    return Listing.oddValue value
  | .binary _ op lhs rhs => do
    let lhs ← lhs.eval oracle
    let rhs ← rhs.eval oracle
    match op.eval lhs rhs with
    | some value => return value
    | none => throw .stuck
  | .call _ callee args => do
    let args ← Expr.evalArgs oracle args
    Exec.external oracle callee.name args
  | .name _ ref => ref.eval oracle
  | .number _ value => return value

/-- Evaluates arguments from left to right. -/
def Expr.evalArgs (oracle : Oracle) : List Expr → Exec (List Int32)
  | [] => return []
  | arg :: args => do
    let value ← arg.eval oracle
    let values ← Expr.evalArgs oracle args
    return value :: values

end

/-! ### Statements -/

mutual

def Stmt.exec (oracle : Oracle) (fuel : Nat) : Stmt → Exec Unit
  | .assign _ target value => do
    let value ← value.eval oracle
    Exec.assign target.name value
  | .sequence _ body => Stmt.execAll oracle fuel body
  | .ifThen _ cond thenBranch elseBranch => do
    let value ← cond.eval oracle
    if value = 0 then Stmt.execOption oracle fuel elseBranch
    else Stmt.execOption oracle fuel thenBranch
  | .whileDo _ cond body =>
    Exec.loop (cond.eval oracle) (Stmt.execOption oracle fuel body) fuel
  | .asm _ _ => throw .stuck
  | .control _ exit => throw (.leave exit)
  | .call _ callee args => do
    let args ← Expr.evalArgs oracle args
    let _ ← Exec.external oracle callee.name args
  | .name _ ref => do
    let _ ← ref.eval oracle

def Stmt.execOption (oracle : Oracle) (fuel : Nat) : Option Stmt → Exec Unit
  | none => return ()
  | some s => s.exec oracle fuel

def Stmt.execAll (oracle : Oracle) (fuel : Nat) : List Stmt → Exec Unit
  | [] => return ()
  | s :: rest => do
    s.exec oracle fuel
    Stmt.execAll oracle fuel rest

end

/-! ### Programs -/

/-- The value a declared name starts with; a variable without one starts at zero. -/
def Definition.initialValue (oracle : Oracle) (d : Definition) : Exec Int32 :=
  match d.init with
  | some init => init.eval oracle
  | none => return 0

/-- Gives the declared names their initial values, in order. -/
def Definition.exec (oracle : Oracle) : List Definition → Exec Unit
  | [] => return ()
  | d :: rest => do
    let value ← d.initialValue oracle
    Exec.assign d.name value
    Definition.exec oracle rest

/-- Executes a block without routines. -/
def Block.exec (oracle : Oracle) (fuel : Nat) (block : Block) : Exec Unit := do
  Definition.exec oracle (Decls.definitions block.consts)
  Definition.exec oracle (Decls.definitions block.vars)
  Stmt.execOption oracle fuel block.body

def Block.variableNames (block : Block) : List String :=
  (Decls.definitions block.vars).map (·.name)

/-- The run of a program without routines, evaluated with more and more fuel. -/
def Block.evaluation (block : Block) (oracle : Oracle) : Run := fun fuel =>
  match (block.exec oracle fuel).run.run {} with
  | (.ok _, w) => ⟨w.calls, .finished (block.variableNames.map fun x => some (w.store x))⟩
  | (.error .outOfFuel, w) => ⟨w.calls, .running⟩
  | (.error _, w) => ⟨w.calls, .stuck⟩

end PlZero
