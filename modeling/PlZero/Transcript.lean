import PlZero.Builder

/-!
A builder that makes no code but keeps a record of what it was asked for. Its values are texts that
show how they came about. It can be told never to run deferred parts of certain names, and to run
those of one construct last to first; both show in the record when a deferred part is run, and that
none is run unasked.
-/

namespace PlZero

/-- How a transcript treats deferred parts. -/
structure Transcript.Policy where
  /-- The names of the deferred parts that are never run. -/
  skip : List String := []
  /-- Are the deferred parts of one construct run last to first? -/
  reverse : Bool := false
  deriving DecidableEq, Repr

/-- What a builder was asked for, in order. -/
structure Transcript where
  entries : Array String := #[]
  deriving DecidableEq, Repr

def LoopExit.recordName : LoopExit → String
  | .breakLoop => "break"
  | .continueLoop => "continue"

namespace Transcript

variable {m : Type → Type} [Monad m] [MonadStateOf Transcript m]

def note (entry : String) : m Unit :=
  modifyThe Transcript fun t => { entries := t.entries.push entry }

/-- A value in the record; `none` stands for a missing one. -/
def shown (value : Option String) : String := value.getD "none"

def presence {α : Type} (part : Option α) : String := if part.isSome then "1" else "0"

def listed (items : List String) : String := "(" ++ ",".intercalate items ++ ")"

/-- Runs a deferred part that is there and not skipped, recording its beginning, end and value. -/
def run (policy : Policy) (name : String) (part : Option (Deferred m String)) :
    m (Option String) := do
  match part with
  | none => return none
  | some part =>
    if policy.skip.contains name then return none
    else
      note ("> " ++ name)
      let value ← part
      note ("< " ++ name ++ " " ++ shown value)
      return value

/-- Runs a loop condition, unless it is skipped. -/
def runCond (policy : Policy) (cond : m String) : m Unit := do
  if policy.skip.contains "cond" then return ()
  else
    note "> cond"
    let value ← cond
    note ("< cond " ++ value)

def builder (policy : Policy) : Builder m String where
  block consts vars routines body := do
    note ("block consts=" ++ presence consts ++ " vars=" ++ presence vars ++
      " body=" ++ presence body)
    if policy.reverse then
      let value ← run policy "body" body
      let _ ← run policy "routines" (some routines)
      let _ ← run policy "vars" vars
      let _ ← run policy "consts" consts
      return value
    else
      let _ ← run policy "consts" consts
      let _ ← run policy "vars" vars
      let _ ← run policy "routines" (some routines)
      run policy "body" body
  constant name value := note ("constant " ++ name ++ " " ++ value)
  storage name init := note ("variable " ++ name ++ " " ++ shown init)
  procedure name block := do
    note ("procedure " ++ name)
    run policy "procedure" (some block)
  function name params block := do
    note ("function " ++ name ++ listed params)
    run policy "function" (some block)
  assign name target value := do
    note ("assign " ++ target.label ++ " " ++ name ++ " " ++ value)
    return some value
  ifThen cond thenBranch elseBranch := do
    note ("if " ++ cond ++ " then=" ++ presence thenBranch ++ " else=" ++ presence elseBranch)
    if policy.reverse then
      let elseValue ← run policy "else" elseBranch
      let thenValue ← run policy "then" thenBranch
      return thenValue.or elseValue
    else
      let thenValue ← run policy "then" thenBranch
      let elseValue ← run policy "else" elseBranch
      return elseValue.or thenValue
  whileDo cond body := do
    note ("while body=" ++ presence body)
    if policy.reverse then
      let value ← run policy "loop" body
      runCond policy cond
      return value
    else
      runCond policy cond
      run policy "loop" body
  asm text := do
    note ("asm " ++ text)
    return none
  control exit := do
    note exit.recordName
    return none
  odd operand := do
    note ("odd " ++ operand)
    return "odd(" ++ operand ++ ")"
  binary op lhs rhs := do
    note ("binary " ++ op.spelling ++ " " ++ lhs ++ " " ++ rhs)
    return "(" ++ lhs ++ op.spelling ++ rhs ++ ")"
  call name args := do
    note ("call " ++ name ++ listed args)
    return name ++ listed args
  name name role := do
    note ("identifier " ++ name ++ " " ++ role.label)
    return if role = .proc then none else some name
  number value := do
    note ("number " ++ toString value.toInt)
    return toString value.toInt

end Transcript

end PlZero
