import PlZero.Tree.Basic

/-!
The contract between a program and whatever code is made from it. A builder has one operation for
each construct of the language. Operations may yield a value, which later operations are handed as
an operand; what a value is, is the builder's own affair.

Parts of a construct whose place in the output the builder has to choose (declaration sections,
routine bodies, branches, loop conditions and bodies) are handed over deferred: as actions that do
their work when the builder runs them, and not at all if it does not.
-/

namespace PlZero

/-- A deferred part of a construct. -/
abbrev Deferred (m : Type → Type) (V : Type) := m (Option V)

/-- A builder with values in `V` whose operations are actions of `m`. -/
structure Builder (m : Type → Type) (V : Type) where
  /-- A block. `routines` does every routine of the block in order. -/
  block (consts vars : Option (Deferred m V)) (routines : Deferred m V)
    (body : Option (Deferred m V)) : m (Option V)
  /-- A constant with its value. -/
  constant (name : String) (value : V) : m Unit
  /-- A variable with its initial value, if it has one. -/
  storage (name : String) (init : Option V) : m Unit
  procedure (name : String) (block : Deferred m V) : m (Option V)
  function (name : String) (params : List String) (block : Deferred m V) : m (Option V)
  /-- An assignment; `target` is `var`, or `ret` for a function's result. -/
  assign (name : String) (target : Role) (value : V) : m (Option V)
  ifThen (cond : V) (thenBranch elseBranch : Option (Deferred m V)) : m (Option V)
  whileDo (cond : m V) (body : Option (Deferred m V)) : m (Option V)
  asm (text : String) : m (Option V)
  control (exit : LoopExit) : m (Option V)
  odd (operand : V) : m V
  binary (op : BinaryOp) (lhs rhs : V) : m V
  call (name : String) (args : List V) : m V
  /-- A bare name: constants and variables are read, functions called, procedures run. -/
  name (name : String) (role : Role) : m (Option V)
  number (value : Int32) : m V

end PlZero
