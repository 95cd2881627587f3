import PlZero.Proofs.Lowering.Recorder
import Mathlib.Data.List.Forall2

/-!
What stands in a skipped part does not matter. A tree is emptied by putting next to nothing in the
place of all that is deferred under certain names: the parts are still there, but there is nothing
in them. A recording builder that skips parts of these names cannot tell the emptied tree from the
tree itself.

Main statement: `Recorder.log_eq_of_emptied_eq`.
-/

namespace PlZero

/-! ### Emptied trees -/

mutual

/-- The statement with its deferred parts of names in `skip` emptied. -/
def Stmt.emptied (skip : List String) : Stmt → Stmt
  | .sequence info body => .sequence info (Stmt.emptiedAll skip body)
  | .ifThen info cond thenBranch elseBranch =>
    .ifThen info cond (Stmt.emptiedPart skip "then" thenBranch)
      (Stmt.emptiedPart skip "else" elseBranch)
  | .whileDo info cond body =>
    .whileDo info (if skip.contains "cond" then .number { line := 0 } 0 else cond)
      (Stmt.emptiedPart skip "loop" body)
  | .assign info target value => .assign info target value
  | .asm info text => .asm info text
  | .control info exit => .control info exit
  | .call info callee args => .call info callee args
  | .name info ref => .name info ref

def Stmt.emptiedPart (skip : List String) (name : String) : Option Stmt → Option Stmt
  | none => none
  | some stmt => some (if skip.contains name then .sequence { line := 0 } [] else stmt.emptied skip)

def Stmt.emptiedAll (skip : List String) : List Stmt → List Stmt
  | [] => []
  | stmt :: rest => stmt.emptied skip :: Stmt.emptiedAll skip rest

end

def Decls.emptied (skip : List String) (name : String) (decls : Decls) : Decls :=
  if skip.contains name then { line := 0, defs := [] } else decls

/-- The name under which the block of a routine is deferred. -/
def RoutineKind.partName : RoutineKind → String
  | .procedure => "procedure"
  | .function _ => "function"

mutual

/-- The block with its deferred parts of names in `skip` emptied. -/
def Block.emptied (skip : List String) : Block → Block
  | { line, consts, vars, routines, body, scope } =>
    { line, scope
      consts := consts.map (Decls.emptied skip "consts")
      vars := vars.map (Decls.emptied skip "vars")
      routines := if skip.contains "routines" then [] else Routine.emptiedAll skip routines
      body := Stmt.emptiedPart skip "body" body }

def Routine.emptied (skip : List String) : Routine → Routine
  | { line, name, kind, block, scope } =>
    { line, name, kind, scope
      block := if skip.contains kind.partName then { line := 0 } else block.emptied skip }

def Routine.emptiedAll (skip : List String) : List Routine → List Routine
  | [] => []
  | routine :: rest => routine.emptied skip :: Routine.emptiedAll skip rest

end

namespace Recorder

open Transcript (Policy)

variable {V : Type}

/-! ### Parts that are run alike -/

section

variable {skip : List String} {name : String}

/-- The parts are there or not together, and the same unless they are skipped. -/
structure Alike (skip : List String) (name : String)
    (part part' : Option (Recording V (Option V))) : Prop where
  there : part.isSome = part'.isSome
  same : skip.contains name = false → part = part'

/-- Parts that differ only where they are skipped are run the same. -/
theorem Alike.runPart_eq {part part' : Option (Recording V (Option V))}
    (alike : Alike skip name part part') : runPart skip name part = runPart skip name part' := by
  cases isSkipped : skip.contains name with
  | false => rw [alike.same isSkipped]
  | true =>
    have silent (work : Recording V (Option V)) : runPart skip name (some work) = pure [] := by
      rw [runPart, if_pos isSkipped]
    have there := alike.there
    cases part with
    | none =>
      cases part' with
      | none => rfl
      | some _ => cases there
    | some work =>
      cases part' with
      | none => cases there
      | some work' => rw [silent, silent]

/-- Lists of parts of the same names that are run alike. -/
abbrev AllAlike (skip : List String) : List (Part V) → List (Part V) → Prop :=
  List.Forall₂ fun part part' => part.1 = part'.1 ∧ Alike skip part.1 part.2 part'.2

variable {parts parts' : List (Part V)}

theorem allAlike_cons {part part' : Option (Recording V (Option V))}
    (first : Alike skip name part part') (rest : AllAlike skip parts parts') :
    AllAlike skip ((name, part) :: parts) ((name, part') :: parts') :=
  .cons ⟨rfl, first⟩ rest

theorem AllAlike.runParts_eq (alike : AllAlike skip parts parts')
    (construct : List (String × Option V) → Option V) (yielded : List (String × Option V)) :
    runParts skip construct yielded parts = runParts skip construct yielded parts' := by
  induction alike generalizing yielded with
  | nil => rfl
  | @cons part part' _ _ first _ ih =>
    obtain ⟨name, part⟩ := part
    obtain ⟨name', part'⟩ := part'
    obtain ⟨rfl, first⟩ := first
    rw [runParts, runParts, first.runPart_eq]
    exact congrArg _ (funext fun more => ih (yielded ++ more))

/-- A construct does not look into parts that are skipped. -/
theorem AllAlike.construct_eq {policy : Policy} (alike : AllAlike policy.skip parts parts')
    (values : Values V) {call call' : Call V} (sameCall : call = call') :
    construct values policy call parts = construct values policy call' parts' := by
  subst sameCall
  have ordered : AllAlike policy.skip (if policy.reverse then parts.reverse else parts)
      (if policy.reverse then parts'.reverse else parts') := by
    split
    · exact List.forall₂_reverse_iff.mpr alike
    · exact alike
  rw [construct, construct, ordered.runParts_eq]

end

end Recorder

/-! ### Lowering emptied trees -/

open Recorder

variable {V : Type} (values : Values V) (policy : Transcript.Policy)

mutual

/-- Lowering does not look into what is skipped, so emptying it makes no difference. -/
theorem Stmt.lower_emptied : (s : Stmt) →
    (s.emptied policy.skip).lower (builder values policy) = s.lower (builder values policy)
  | .sequence _ body => by
    rw [emptied, lower, lower, Stmt.lowerAll_emptied body]
  | .ifThen _ cond thenBranch elseBranch => by
    have thenAlike := Stmt.alike_emptiedPart "then" thenBranch
    have elseAlike := Stmt.alike_emptiedPart "else" elseBranch
    have alike := allAlike_cons thenAlike (allAlike_cons elseAlike .nil)
    rw [emptied, lower, lower]
    refine congrArg _ (funext fun value => alike.construct_eq values ?_)
    rw [thenAlike.there, elseAlike.there]
  | .whileDo _ cond body => by
    have loopAlike := Stmt.alike_emptiedPart "loop" body
    have condAlike : Alike policy.skip "cond"
        (some (deferred (Expr.lower (builder values policy)
          (if policy.skip.contains "cond" then .number { line := 0 } 0 else cond))))
        (some (deferred (cond.lower (builder values policy)))) := by
      refine ⟨rfl, fun kept => ?_⟩
      rw [if_neg (by rw [kept]; decide)]
    have alike := allAlike_cons condAlike (allAlike_cons loopAlike .nil)
    rw [emptied, lower, lower]
    refine alike.construct_eq values ?_
    rw [loopAlike.there]
  | .assign _ _ _ => by rw [emptied]
  | .asm _ _ => by rw [emptied]
  | .control _ _ => by rw [emptied]
  | .call _ _ _ => by rw [emptied]
  | .name _ _ => by rw [emptied]

/-- A part stays there when it is emptied: only what is in it goes. -/
theorem Stmt.alike_emptiedPart (name : String) : (s : Option Stmt) →
    Alike policy.skip name
      (Stmt.deferOption (builder values policy) (Stmt.emptiedPart policy.skip name s))
      (Stmt.deferOption (builder values policy) s)
  | none => by
    rw [Stmt.emptiedPart]
    exact ⟨rfl, fun _ => rfl⟩
  | some s => by
    rw [Stmt.emptiedPart, Stmt.deferOption, Stmt.deferOption]
    refine ⟨rfl, fun kept => ?_⟩
    rw [if_neg (by rw [kept]; decide), s.lower_emptied]

theorem Stmt.lowerAll_emptied : (body : List Stmt) →
    Stmt.lowerAll (builder values policy) (Stmt.emptiedAll policy.skip body) =
      Stmt.lowerAll (builder values policy) body
  | [] => by rw [Stmt.emptiedAll]
  | s :: rest => by
    rw [Stmt.emptiedAll, Stmt.lowerAll, Stmt.lowerAll, s.lower_emptied, Stmt.lowerAll_emptied rest]

end

theorem Decls.alike_emptied (name : String) (lowerDefs : List Definition → Recording V (Option V))
    (decls : Option Decls) :
    Alike policy.skip name
      ((decls.map (Decls.emptied policy.skip name)).map fun decls => lowerDefs decls.defs)
      (decls.map fun decls => lowerDefs decls.defs) := by
  cases decls with
  | none => exact ⟨rfl, fun _ => rfl⟩
  | some decls =>
    refine ⟨rfl, fun kept => ?_⟩
    rw [Option.map_some, Option.map_some, Option.map_some, Decls.emptied,
      if_neg (by rw [kept]; decide)]

mutual

/-- The same for blocks, whose sections and routines are deferred, too. -/
theorem Block.lower_emptied : (block : Block) →
    (block.emptied policy.skip).lower (builder values policy) = block.lower (builder values policy)
  | { line, consts, vars, routines, body, scope } => by
    have constsAlike := Decls.alike_emptied policy "consts"
      (Definition.lowerConsts (builder values policy)) consts
    have varsAlike := Decls.alike_emptied policy "vars"
      (Definition.lowerVars (builder values policy)) vars
    have routinesAlike : Alike policy.skip "routines"
        (some (Block.lowerRoutines (builder values policy)
          (if policy.skip.contains "routines" then [] else Routine.emptiedAll policy.skip routines)))
        (some (Block.lowerRoutines (builder values policy) routines)) := by
      refine ⟨rfl, fun kept => ?_⟩
      rw [if_neg (by rw [kept]; decide), Block.lowerRoutines_emptied routines]
    have bodyAlike := Stmt.alike_emptiedPart values policy "body" body
    have alike := allAlike_cons constsAlike (allAlike_cons varsAlike
      (allAlike_cons routinesAlike (allAlike_cons bodyAlike .nil)))
    rw [Block.emptied, Block.lower, Block.lower]
    refine alike.construct_eq values ?_
    rw [constsAlike.there, varsAlike.there, bodyAlike.there]

theorem Routine.lower_emptied : (r : Routine) →
    (r.emptied policy.skip).lower (builder values policy) = r.lower (builder values policy)
  | { line, name, kind, block, scope } => by
    have blockAlike : Alike policy.skip kind.partName
        (some (Block.lower (builder values policy)
          (if policy.skip.contains kind.partName then { line := 0 }
            else block.emptied policy.skip)))
        (some (block.lower (builder values policy))) := by
      refine ⟨rfl, fun kept => ?_⟩
      rw [if_neg (by rw [kept]; decide), block.lower_emptied]
    have alike := allAlike_cons blockAlike .nil
    cases kind with
    | procedure =>
      rw [Routine.emptied, Routine.lower, Routine.lower]
      exact alike.construct_eq values rfl
    | function params =>
      rw [Routine.emptied, Routine.lower, Routine.lower]
      exact alike.construct_eq values rfl

theorem Block.lowerRoutines_emptied : (routines : List Routine) →
    Block.lowerRoutines (builder values policy) (Routine.emptiedAll policy.skip routines) =
      Block.lowerRoutines (builder values policy) routines
  | [] => by rw [Routine.emptiedAll]
  | r :: rest => by
    rw [Routine.emptiedAll, Block.lowerRoutines, Block.lowerRoutines, r.lower_emptied,
      Block.lowerRoutines_emptied rest]

end

/-- Two trees that differ in skipped parts only have the same log. -/
theorem Recorder.log_eq_of_emptied_eq {block other : Block}
    (same : other.emptied policy.skip = block.emptied policy.skip) :
    log values policy other = log values policy block := by
  rw [log, log, ← other.lower_emptied, same, block.lower_emptied]

end PlZero
