import PlZero.Listing.Basic
import PlZero.Primitive

/-!
The elementary steps of making a listing, each a function from a listing to the next.
-/

namespace PlZero.Listing

/-! ### Lines, labels and temporaries -/

/-- Is the module itself being built, and no routine? -/
def atModule (l : Listing) : Bool := l.outer.isEmpty

def addLine (l : Listing) (line : Line) : Listing :=
  { l with frame := { l.frame with lines := l.frame.lines.push line } }

def emit (l : Listing) (i : Instr) : Listing := l.addLine (.instr i)

def place (l : Listing) (label : Nat) : Listing := l.addLine (.label label)

/-- A label that was not handed out before. -/
def freshLabel (l : Listing) : Nat × Listing :=
  (l.nextLabel, { l with nextLabel := l.nextLabel + 1 })

/-- Adds an instruction with a result, which gets a number not used before. -/
def emitResult (l : Listing) (i : Nat → Instr) : Operand × Listing :=
  (.temp l.nextTemp, { l with nextTemp := l.nextTemp + 1 }.emit (i l.nextTemp))

/-! ### Names -/

def bind (l : Listing) (name : String) (binding : Binding) : Listing :=
  { l with frame := { l.frame with bindings := (name, binding) :: l.frame.bindings } }

/-- The binding of a name in the first of the frames that has one, with that frame's position
counted from `up`. -/
def searchFrames (name : String) (up : Nat) : List Frame → Option (Nat × Binding)
  | [] => none
  | frame :: outer =>
    match frame.bindings.lookup name with
    | some binding => some (up, binding)
    | none => searchFrames name (up + 1) outer

/-- The binding of a name here, and how many frames further out it was found. -/
def resolve? (l : Listing) (name : String) : Option (Nat × Binding) :=
  searchFrames name 0 (l.frame :: l.outer)

/-- A slot for `name` in the current frame that was not handed out before. -/
def freshSlot (l : Listing) (name : String) : Slot × Listing :=
  let slot : Slot := ⟨name, (l.frame.slots.filter (·.name == name)).length⟩
  (slot, { l with frame := { l.frame with slots := slot :: l.frame.slots } })

/-- The symbol of a routine declared here. The entry point of a program is `main`, so a routine of
that name in the module gets another one. -/
def routineSymbol (l : Listing) (name : String) : String :=
  if l.atModule then (if name = "main" then "_main" else name)
  else l.frame.symbol ++ "." ++ name

/-! ### Declarations -/

/-- Declares storage for a name. A global starts with a known initial value; any other initial value
is stored by an instruction. -/
def storage (l : Listing) (name : String) (init : Option Operand) : Listing :=
  if l.atModule then
    let l := match init with
      | some (.imm value) => { l with globals := l.globals.push ⟨name, value⟩ }
      | some value =>
        { l with globals := l.globals.push ⟨name, 0⟩ }.emit (.store (.global name) value)
      | none => { l with globals := l.globals.push ⟨name, 0⟩ }
    l.bind name (.storage (.global name))
  else
    let (slot, l) := l.freshSlot name
    let l := l.emit (.slot slot)
    let l := match init with
      | some value => l.emit (.store (.slot 0 slot) value)
      | none => l
    l.bind name (.storage (.slot slot))

/-- Declares a constant. One whose value is not known yet, because it divides by zero, is kept in
storage. -/
def constant (l : Listing) (name : String) (value : Operand) : Listing :=
  match value with
  | .imm value => l.bind name (.const value)
  | value => l.storage name (some value)

/-! ### Routines -/

/-- Gives each parameter a slot of the current frame, in order. -/
def bindParams (l : Listing) : List String → Listing
  | [] => l
  | param :: params =>
    let (slot, l) := l.freshSlot param
    (l.bind param (.storage (.slot slot))).bindParams params

def openProcedure (l : Listing) (name : String) : Listing :=
  let symbol := l.routineSymbol name
  let l := l.bind name (.proc symbol)
  { l with frame := { symbol }, outer := l.frame :: l.outer }

/-- Starts the frame of a function: first the parameters, then the slot of the result. -/
def openFunction (l : Listing) (name : String) (params : List String) : Listing :=
  let symbol := l.routineSymbol name
  let l := l.bind name (.func symbol)
  let l := { l with frame := { symbol, params }, outer := l.frame :: l.outer }
  let (slot, l) := (l.bindParams params).freshSlot name
  let l := l.emit (.slot slot)
  let l := { l with frame := { l.frame with result := some slot } }
  l.bind name (.ret symbol slot)

/-- Finishes the current routine and goes back to the frame around it. The module stays open. -/
def closeRoutine (l : Listing) : Listing :=
  match l.outer with
  | [] => l
  | frame :: outer => { l with routines := l.routines.push l.frame, frame, outer }

/-! ### Statements -/

/-- An assignment. Only storage and a function's result can be assigned. -/
def assign (l : Listing) (name : String) (value : Operand) : Listing :=
  match l.resolve? name with
  | some (up, .storage place) => l.emit (.store (place.seenFrom up) value)
  | some (up, .ret _ slot) => l.emit (.store (.slot up slot) value)
  | _ => l

/-- A branch to a new label, which is placed next; if the condition does not hold, to another. The
answer is the label of the `else` branch, which is used only if there is one, and the label behind
the whole statement. -/
def openIf (l : Listing) (cond : Operand) (hasElse : Bool) : (Nat × Nat) × Listing :=
  let (thenLabel, l) := l.freshLabel
  let (elseLabel, l) := l.freshLabel
  let (endLabel, l) := l.freshLabel
  let l := l.emit (.branch cond thenLabel (if hasElse then elseLabel else endLabel))
  ((elseLabel, endLabel), l.place thenLabel)

/-- The start of a loop's condition. The answer is the labels of the condition, of the body and
behind the loop. -/
def openLoop (l : Listing) : (Nat × Nat × Nat) × Listing :=
  let (condLabel, l) := l.freshLabel
  let (bodyLabel, l) := l.freshLabel
  let (exitLabel, l) := l.freshLabel
  let l := l.emit (.jump condLabel)
  ((condLabel, bodyLabel, exitLabel), l.place condLabel)

/-- The end of a loop's condition and the start of its body. -/
def openLoopBody (l : Listing) (cond : Operand) (condLabel bodyLabel exitLabel : Nat) : Listing :=
  let l := l.emit (.branch cond bodyLabel exitLabel)
  let l := l.place bodyLabel
  { l with frame := { l.frame with loops := ⟨condLabel, exitLabel⟩ :: l.frame.loops } }

def closeLoop (l : Listing) (condLabel exitLabel : Nat) : Listing :=
  let l := { l with frame := { l.frame with loops := l.frame.loops.tail } }
  let l := l.emit (.jump condLabel)
  l.place exitLabel

/-- A jump out of the turn of the innermost loop of this routine, if there is one. Whatever follows
starts with a new label and is never reached. -/
def control (l : Listing) (exit : LoopExit) : Listing :=
  match l.frame.loops with
  | [] => l
  | loop :: _ =>
    let target := match exit with
      | .breakLoop => loop.exit
      | .continueLoop => loop.cond
    let (rest, l) := (l.emit (.jump target)).freshLabel
    l.place rest

/-! ### Values -/

def oddValue (value : Int32) : Int32 := BinaryOp.truth (value &&& 1 != 0)

def odd (l : Listing) (operand : Operand) : Operand × Listing :=
  match operand with
  | .imm value => (.imm (oddValue value), l)
  | operand => l.emitResult (.odd · operand)

/-- The value of an operation on known integers, if it has one. -/
def fold? (op : BinaryOp) : Operand → Operand → Option Int32
  | .imm lhs, .imm rhs => op.eval lhs rhs
  | _, _ => none

/-- A binary operation. One on known integers that has a value needs no instruction. -/
def binary (l : Listing) (op : BinaryOp) (lhs rhs : Operand) : Operand × Listing :=
  match fold? op lhs rhs with
  | some value => (.imm value, l)
  | none => l.emitResult (.binary · op lhs rhs)

/-- Notes that a function is defined elsewhere. The list is kept in the order of names, and the
arity that was noted first stays. -/
def declareExternal (name : String) (arity : Nat) : List (String × Nat) → List (String × Nat)
  | [] => [(name, arity)]
  | (other, n) :: rest =>
    if name = other then (other, n) :: rest
    else if name < other then (name, arity) :: (other, n) :: rest
    else (other, n) :: declareExternal name arity rest

/-- A call. A name that is no function of the program is one of the runtime library, or of whatever
the listing is linked with. -/
def call (l : Listing) (name : String) (args : List Operand) : Operand × Listing :=
  match l.resolve? name with
  | some (_, .func symbol) | some (_, .ret symbol _) => l.emitResult (.call · symbol args)
  | _ =>
    let arity := ((Primitive.find? name).map (·.arity)).getD args.length
    let l := { l with externals := declareExternal name arity l.externals }
    l.emitResult (.call · name args)

/-- A bare name with its role. -/
def name (l : Listing) (name : String) (role : Role) : Option Operand × Listing :=
  match role, l.resolve? name with
  | .proc, some (_, .proc symbol) => (none, l.emit (.run symbol))
  | .func, _ | .ret, _ =>
    let (result, l) := l.call name []
    (some result, l)
  | _, some (_, .const value) => (some (.imm value), l)
  | _, some (up, .storage place) =>
    let (result, l) := l.emitResult (.load · (place.seenFrom up))
    (some result, l)
  | _, _ => (none, l)

end PlZero.Listing
