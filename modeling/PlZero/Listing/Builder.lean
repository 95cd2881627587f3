import PlZero.Builder
import PlZero.Listing.Step

/-!
The builder that makes a listing. It runs every deferred part exactly once and where its code
belongs, and yields values for expressions only.
-/

namespace PlZero.Listing

variable {m : Type → Type} [Monad m] [MonadStateOf Listing m]

/-- Runs a deferred part, if it is there, for its lines only. -/
def run (part : Option (Deferred m Operand)) : m Unit := do
  match part with
  | some part => let _ ← part
  | none => return ()

def builder : Builder m Operand where
  block consts vars routines body := do
    run consts
    run vars
    run (some routines)
    run body
    return none
  constant name value := modifyThe Listing (·.constant name value)
  storage name init := modifyThe Listing (·.storage name init)
  procedure name block := do
    modifyThe Listing (·.openProcedure name)
    run (some block)
    modifyThe Listing closeRoutine
    return none
  function name params block := do
    modifyThe Listing (·.openFunction name params)
    run (some block)
    modifyThe Listing closeRoutine
    return none
  assign name _ value := do
    modifyThe Listing (·.assign name value)
    return none
  ifThen cond thenBranch elseBranch := do
    let (elseLabel, endLabel) ← modifyGetThe Listing (·.openIf cond elseBranch.isSome)
    run thenBranch
    modifyThe Listing (·.emit (.jump endLabel))
    if elseBranch.isSome then
      modifyThe Listing (·.place elseLabel)
      run elseBranch
      modifyThe Listing (·.emit (.jump endLabel))
    modifyThe Listing (·.place endLabel)
    return none
  whileDo cond body := do
    let (condLabel, bodyLabel, exitLabel) ← modifyGetThe Listing openLoop
    let value ← cond
    modifyThe Listing (·.openLoopBody value condLabel bodyLabel exitLabel)
    run body
    modifyThe Listing (·.closeLoop condLabel exitLabel)
    return none
  asm text := do
    modifyThe Listing (·.emit (.asm text))
    return none
  control exit := do
    modifyThe Listing (·.control exit)
    return none
  odd operand := modifyGetThe Listing (·.odd operand)
  binary op lhs rhs := modifyGetThe Listing (·.binary op lhs rhs)
  call name args := modifyGetThe Listing (·.call name args)
  name name role := modifyGetThe Listing (Listing.name · name role)
  number value := return .imm value

end PlZero.Listing
