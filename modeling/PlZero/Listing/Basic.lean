import PlZero.Tree.Basic

/-!
The parts of an instruction listing: operands, storage, instructions, and the frames that routines
are built in.

The module is the outermost frame. Its storage is global and its lines are the entry point of the
program. Each routine has a frame of its own; its storage is in slots, and a slot of a routine
around the current one is addressed by the number of routine boundaries in between.
-/

namespace PlZero.Listing

/-- What an instruction computes with: a known integer or the numbered result of an earlier
instruction. -/
inductive Operand where
  | imm (value : Int32)
  | temp (id : Nat)
  deriving DecidableEq, Repr

/-- Storage in a routine's frame. Names can be declared again further in, so the slots of one name
are told apart by how many came before. -/
structure Slot where
  name : String
  earlier : Nat
  deriving DecidableEq, Repr

/-- Storage, seen from the frame that declares it. -/
inductive Place where
  | global (name : String)
  | slot (slot : Slot)
  deriving DecidableEq, Repr

/-- Storage, seen from the frame that uses it. -/
inductive Address where
  | global (name : String)
  /-- A slot of the routine `up` boundaries further out. -/
  | slot (up : Nat) (slot : Slot)
  deriving DecidableEq, Repr

/-- The address of a place declared `up` frames further out. Global storage is the same from
anywhere. -/
def Place.seenFrom (up : Nat) : Place → Address
  | .global name => .global name
  | .slot s => .slot up s

/-- An instruction. The first argument of one that has a result is the number of the result. -/
inductive Instr where
  | slot (slot : Slot)
  | store (address : Address) (value : Operand)
  | load (result : Nat) (address : Address)
  | binary (result : Nat) (op : BinaryOp) (lhs rhs : Operand)
  | odd (result : Nat) (operand : Operand)
  | call (result : Nat) (symbol : String) (args : List Operand)
  /-- The call of a procedure, which has no result. -/
  | run (symbol : String)
  | asm (text : String)
  | branch (cond : Operand) (onTrue onFalse : Nat)
  | jump (label : Nat)
  deriving DecidableEq, Repr

inductive Line where
  | instr (i : Instr)
  | label (id : Nat)
  deriving DecidableEq, Repr

/-- What a name is bound to while code is made. -/
inductive Binding where
  /-- A constant whose value is known. -/
  | const (value : Int32)
  | storage (place : Place)
  /-- A function's own name inside its body: its symbol and the slot of its result. -/
  | ret (symbol : String) (slot : Slot)
  | proc (symbol : String)
  | func (symbol : String)
  deriving DecidableEq, Repr

/-- The labels of a loop that can be jumped to from inside. -/
structure Loop where
  cond : Nat
  exit : Nat
  deriving DecidableEq, Repr

/-- A routine, or the module, while it is being built. -/
structure Frame where
  symbol : String
  params : List String := []
  /-- The slot of a function's result. -/
  result : Option Slot := none
  /-- The latest binding of a name comes first. -/
  bindings : List (String × Binding) := []
  /-- The slots handed out so far. -/
  slots : List Slot := []
  lines : Array Line := #[]
  /-- The loops around the current line, innermost first. -/
  loops : List Loop := []
  deriving DecidableEq, Repr

structure Global where
  name : String
  value : Int32
  deriving DecidableEq, Repr

end PlZero.Listing

namespace PlZero

/-- A listing in the making. -/
structure Listing where
  globals : Array Listing.Global := #[]
  /-- The functions that are called and not defined, with their arities, by name. -/
  externals : List (String × Nat) := []
  /-- The finished routines. -/
  routines : Array Listing.Frame := #[]
  /-- The frame of the routine being built. -/
  frame : Listing.Frame := { symbol := "main" }
  /-- The frames around it, innermost first; the last one is the module. -/
  outer : List Listing.Frame := []
  nextTemp : Nat := 0
  nextLabel : Nat := 0
  deriving DecidableEq, Repr

end PlZero
