import PlZero.Builder

/-!
Nests of builder calls as data. A request is one call of a builder, its operands given, with lists
of requests in the place of the deferred parts. Making a request makes the call; the requests in a
deferred part are made when, and if, the builder runs the part.
-/

namespace PlZero

/-- One call of a builder with values in `V`. -/
inductive Request (V : Type) where
  | block (consts vars : Option (List (Request V))) (routines : List (Request V))
    (body : Option (List (Request V)))
  | constant (name : String) (value : V)
  | storage (name : String) (init : Option V)
  | procedure (name : String) (block : List (Request V))
  | function (name : String) (params : List String) (block : List (Request V))
  | assign (name : String) (target : Role) (value : V)
  | ifThen (cond : V) (thenBranch elseBranch : Option (List (Request V)))
  /-- A loop whose condition makes requests and then yields `value`. -/
  | whileDo (cond : List (Request V)) (value : V) (body : Option (List (Request V)))
  | asm (text : String)
  | control (exit : LoopExit)
  | odd (operand : V)
  | binary (op : BinaryOp) (lhs rhs : V)
  | call (name : String) (args : List V)
  | name (name : String) (role : Role)
  | number (value : Int32)

namespace Request

variable {m : Type → Type} [Monad m] {V : Type}

mutual

/-- Makes a request of `b`. When the call returns, `note` is told the request and what it
yielded; so the requests in its deferred parts are told first. -/
def make (b : Builder m V) (note : Request V → Option V → m Unit) : Request V → m (Option V)
  | .block consts vars routines body => do
    let value ← b.block (deferOption b note consts) (deferOption b note vars)
      (makeAll b note routines) (deferOption b note body)
    note (.block consts vars routines body) value
    return value
  | .constant x value => do
    b.constant x value
    note (.constant x value) none
    return none
  | .storage x init => do
    b.storage x init
    note (.storage x init) none
    return none
  | .procedure x inner => do
    let value ← b.procedure x (makeAll b note inner)
    note (.procedure x inner) value
    return value
  | .function x params inner => do
    let value ← b.function x params (makeAll b note inner)
    note (.function x params inner) value
    return value
  | .assign x target value => do
    let result ← b.assign x target value
    note (.assign x target value) result
    return result
  | .ifThen cond thenBranch elseBranch => do
    let value ← b.ifThen cond (deferOption b note thenBranch) (deferOption b note elseBranch)
    note (.ifThen cond thenBranch elseBranch) value
    return value
  | .whileDo cond value body => do
    let result ← b.whileDo (do let _ ← makeAll b note cond; return value) (deferOption b note body)
    note (.whileDo cond value body) result
    return result
  | .asm text => do
    let value ← b.asm text
    note (.asm text) value
    return value
  | .control exit => do
    let value ← b.control exit
    note (.control exit) value
    return value
  | .odd operand => do
    let value ← b.odd operand
    note (.odd operand) (some value)
    return some value
  | .binary op lhs rhs => do
    let value ← b.binary op lhs rhs
    note (.binary op lhs rhs) (some value)
    return some value
  | .call x args => do
    let value ← b.call x args
    note (.call x args) (some value)
    return some value
  | .name x role => do
    let value ← b.name x role
    note (.name x role) value
    return value
  | .number value => do
    let result ← b.number value
    note (.number value) (some result)
    return some result

/-- Makes requests in order. They yield nothing together. -/
def makeAll (b : Builder m V) (note : Request V → Option V → m Unit) :
    List (Request V) → m (Option V)
  | [] => return none
  | request :: rest => do
    let _ ← request.make b note
    makeAll b note rest

def deferOption (b : Builder m V) (note : Request V → Option V → m Unit) :
    Option (List (Request V)) → Option (Deferred m V)
  | none => none
  | some requests => some (makeAll b note requests)

end

end Request

end PlZero
