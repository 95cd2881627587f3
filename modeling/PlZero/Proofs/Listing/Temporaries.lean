import PlZero.Proofs.Listing.Build
import PlZero.Proofs.Listing.Nest

/-!
Temporaries. In whatever way the calls of the builder are nested, each number that was handed out is
the number of one result, in one routine of the listing.

The lines of a routine that is being built stand in an open frame and those of a finished one among
the routines; closing a routine only moves them. So the results are counted over all frames, and
every step either leaves them as they are or adds the next number.

Main statement: `Listing.Nest.counted`.
-/

namespace PlZero.Listing

/-! ### Results -/

def Line.result? : Line → Option Nat
  | .instr i => i.result?
  | .label _ => none

def resultsOf (code : List Line) : List Nat := code.filterMap Line.result?

def Frame.results (f : Frame) : List Nat := resultsOf f.lines.toList

/-- Every frame of a listing in the making: the finished routines, then the open ones. -/
def allFrames (l : Listing) : List Frame := l.routines.toList ++ l.frame :: l.outer

def results (l : Listing) : List Nat := l.allFrames.flatMap Frame.results

/-- Each number handed out so far is that of one result. -/
def Counted (l : Listing) : Prop := l.results.Perm (List.range l.nextTemp)

variable {l l' : Listing}

theorem resultsOf_append (code more : List Line) :
    resultsOf (code ++ more) = resultsOf code ++ resultsOf more := List.filterMap_append

/-- The entry point is among the frames. -/
theorem moduleFrame_mem_allFrames (l : Listing) : l.moduleFrame ∈ l.allFrames := by
  refine List.mem_append_right _ ?_
  unfold moduleFrame
  cases last : l.outer.getLast? with
  | none => exact List.mem_cons_self
  | some f => exact List.mem_cons_of_mem _ (List.mem_of_getLast? last)

/-- The results of one routine are distinct. -/
theorem Counted.nodup_results (counted : l.Counted) {f : Frame} (mem : f ∈ l.allFrames) :
    f.results.Nodup := by
  have nodup : l.results.Nodup := counted.nodup_iff.mpr List.nodup_range
  exact (List.nodup_flatMap.mp nodup).1 f mem

/-! ### Steps -/

/-- The results are those of the finished routines, of the current frame and of the frames around
it. -/
theorem results_eq (l : Listing) : l.results = l.routines.toList.flatMap Frame.results ++
    (l.frame.results ++ l.outer.flatMap Frame.results) := by
  rw [results, allFrames, List.flatMap_append, List.flatMap_cons]

theorem Counted.of_eq (counted : l.Counted) (results : l'.results = l.results)
    (nextTemp : l'.nextTemp = l.nextTemp) : l'.Counted := by
  rw [Counted, results, nextTemp]
  exact counted

/-- Names, slots, globals, labels and loops are no results. -/
theorem Counted.of_same (counted : l.Counted) (routines : l'.routines = l.routines)
    (lines : l'.frame.lines = l.frame.lines) (outer : l'.outer = l.outer)
    (nextTemp : l'.nextTemp = l.nextTemp) : l'.Counted := by
  refine counted.of_eq ?_ nextTemp
  rw [results_eq, results_eq, routines, outer, Frame.results, lines, ← Frame.results]

/-- What a line adds to the results. -/
theorem results_addLine (l : Listing) (line : Line) :
    (l.addLine line).results.Perm (l.results ++ line.result?.toList) := by
  have own : ({ l.frame with lines := l.frame.lines.push line } : Frame).results =
      l.frame.results ++ line.result?.toList := by
    rw [Frame.results, Array.toList_push, resultsOf_append]
    cases found : line.result? <;> simp [Frame.results, resultsOf, found]
  have after : (l.addLine line).results = l.routines.toList.flatMap Frame.results ++
      (l.frame.results ++ line.result?.toList ++ l.outer.flatMap Frame.results) := by
    rw [results_eq, ← own]
    rfl
  rw [results_eq l, after, List.append_assoc, List.append_assoc, List.append_assoc]
  exact (List.perm_append_comm.append_left _).append_left _

/-- A line without a result counts for nothing. -/
theorem Counted.addLine (counted : l.Counted) {line : Line} (none : line.result? = none) :
    (l.addLine line).Counted := by
  have perm := results_addLine l line
  rw [none, Option.toList_none, List.append_nil] at perm
  exact perm.trans counted

theorem Counted.emit (counted : l.Counted) {i : Instr} (none : i.result? = none) :
    (l.emit i).Counted := counted.addLine none

theorem Counted.place (counted : l.Counted) (label : Nat) : (l.place label).Counted :=
  counted.addLine rfl

/-- The step that hands out a number writes the result of that number. -/
theorem Counted.emitResult (counted : l.Counted) {i : Nat → Instr}
    (own : ∀ id, (i id).result? = some id) : (l.emitResult i).2.Counted := by
  have perm := results_addLine { l with nextTemp := l.nextTemp + 1 } (.instr (i l.nextTemp))
  rw [Line.result?, own, Option.toList_some] at perm
  have counted : l.results.Perm (List.range l.nextTemp) := counted
  refine perm.trans ?_
  change (l.results ++ [l.nextTemp]).Perm (List.range (l.nextTemp + 1))
  rw [List.range_succ]
  exact counted.append_right _

theorem Counted.bind (counted : l.Counted) (name : String) (binding : Binding) :
    (l.bind name binding).Counted := counted.of_same rfl rfl rfl rfl

theorem Counted.effect {uses : List Operand} (counted : l.Counted) (effect : Effect uses l l') :
    l'.Counted := by
  cases effect with
  | emit _ none _ => exact counted.emit none
  | result own _ => exact counted.emitResult own
  | slot name => exact counted.of_same rfl rfl rfl rfl
  | global g => exact counted.of_same rfl rfl rfl rfl
  | external name arity => exact counted.of_same rfl rfl rfl rfl

/-- Every step that is made of effects numbers its results. -/
theorem Counted.effects {uses : List Operand} (counted : l.Counted) (effects : Effects uses l l') :
    l'.Counted := by
  induction effects with
  | refl => exact counted
  | tail _ last ih => exact ih.effect last

/-- A declaration may compute a value and binds a name, which is no result. -/
theorem Counted.declares {uses : List Operand} {name : String} (counted : l.Counted)
    (declares : Declares uses name l l') : l'.Counted := by
  obtain ⟨l₁, binding, effects, rfl⟩ := declares
  exact (counted.effects effects).bind name binding

/-- A jump and a label have no results. -/
theorem Counted.control (counted : l.Counted) (exit : LoopExit) : (l.control exit).Counted := by
  rcases control_cases l exit with ⟨-, stays⟩ | ⟨loop, -, jumps⟩
  · rw [stays]
    exact counted
  · have jumped : (l.emit (.jump (loop.target exit))).freshLabel.2.Counted :=
      (counted.emit rfl).of_same rfl rfl rfl rfl
    rw [jumps]
    exact jumped.place _

/-! ### Routines -/

/-- A new frame has no lines yet. -/
theorem Counted.openFrame (counted : l.Counted) (symbol : String) (params : List String) :
    Counted { l with frame := { symbol, params }, outer := l.frame :: l.outer } := by
  refine counted.of_eq ?_ rfl
  simp [results, allFrames, Frame.results, resultsOf]

theorem Counted.openProcedure (counted : l.Counted) (name : String) :
    (l.openProcedure name).Counted := (counted.bind _ _).openFrame _ _

theorem Counted.bindParams (counted : l.Counted) (params : List String) :
    (l.bindParams params).Counted := by
  induction params generalizing l with
  | nil => exact counted
  | cons param params ih => exact ih (counted.of_same rfl rfl rfl rfl)

/-- The slots of a function have no results. -/
theorem Counted.openFunction (counted : l.Counted) (name : String) (params : List String) :
    (l.openFunction name params).Counted := by
  have bound := ((counted.bind name (.func (l.routineSymbol name))).openFrame
    (l.routineSymbol name) params).bindParams params
  exact (bound.effects (effects_slot [] _ name)).of_same rfl rfl rfl rfl

/-- The lines of a routine stay where they are counted. -/
theorem Counted.closeRoutine (counted : l.Counted) : l.closeRoutine.Counted := by
  unfold Listing.closeRoutine
  split
  · exact counted
  · next frame outer isOuter =>
    refine counted.of_eq ?_ rfl
    simp [results, allFrames, isOuter]

/-! ### Nests -/

/-- A deferred part that may be missing keeps the count, if it does so where it is there. -/
theorem Counted.afterPart {part : Option (Deferred (StateM Listing) Operand)}
    (each : ∀ y ∈ part, ∀ l : Listing, l.Counted → (y.run l).2.Counted) (counted : l.Counted) :
    (afterPart part l).Counted := by
  cases part with
  | none => exact counted
  | some y => exact each y rfl l counted

theorem Counted.openIf (counted : l.Counted) (cond : Operand) (hasElse : Bool) :
    (l.openIf cond hasElse).2.Counted := by
  have labels : l.freshLabel.2.freshLabel.2.freshLabel.2.Counted := counted.of_same rfl rfl rfl rfl
  exact (labels.emit rfl).place _

theorem Counted.openLoop (counted : l.Counted) : l.openLoop.2.Counted := by
  have labels : l.freshLabel.2.freshLabel.2.freshLabel.2.Counted := counted.of_same rfl rfl rfl rfl
  exact (labels.emit rfl).place _

/-- An open loop is only remembered. -/
theorem Counted.openLoopBody (counted : l.Counted) (cond : Operand)
    (condLabel bodyLabel exitLabel : Nat) :
    (l.openLoopBody cond condLabel bodyLabel exitLabel).Counted :=
  ((counted.emit (i := .branch cond bodyLabel exitLabel) rfl).place bodyLabel).of_same
    rfl rfl rfl rfl

theorem Counted.closeLoop (counted : l.Counted) (condLabel exitLabel : Nat) :
    (l.closeLoop condLabel exitLabel).Counted := by
  have left : Counted { l with frame := { l.frame with loops := l.frame.loops.tail } } :=
    counted.of_same rfl rfl rfl rfl
  exact (left.emit rfl).place _

/-- Whatever is built, each number that is handed out is that of one result. -/
theorem Nest.counted {α : Type} {y : StateM Listing α} (nest : Nest y) (l : Listing)
    (counted : l.Counted) : (y.run l).2.Counted := by
  induction nest generalizing l with
  | pure r => exact counted
  | bind _ _ first next => exact next _ _ (first l counted)
  | block _ _ _ _ consts vars routines body =>
    rw [block_run]
    exact .afterPart body (routines _ (.afterPart vars (.afterPart consts counted)))
  | constant name value => exact counted.declares (declares_constant l name value)
  | storage name init => exact counted.declares (declares_storage l name init)
  | procedure name _ block =>
    rw [procedure_run]
    exact (block _ (counted.openProcedure name)).closeRoutine
  | function name params _ block =>
    rw [function_run]
    exact (block _ (counted.openFunction name params)).closeRoutine
  | assign name target value => exact counted.effects (effects_assign l name value)
  | @ifThen cond thenBranch elseBranch _ _ inThen inElse =>
    cases elseBranch with
    | none =>
      rw [ifThen_run]
      exact ((Counted.afterPart inThen (counted.openIf cond false)).emit rfl).place _
    | some elseBranch =>
      rw [ifThenElse_run]
      have behindThen := ((Counted.afterPart inThen (counted.openIf cond true)).emit
        (i := .jump (l.nextLabel + 2)) rfl).place (l.nextLabel + 1)
      exact ((Counted.afterPart inElse behindThen).emit rfl).place _
  | whileDo _ _ cond body =>
    rw [whileDo_run]
    exact (Counted.afterPart body ((cond _ counted.openLoop).openLoopBody _ _ _ _)).closeLoop _ _
  | asm text => exact counted.emit rfl
  | control exit => exact counted.control exit
  | odd operand => exact counted.effects (answers_odd l operand).effects
  | binary op lhs rhs => exact counted.effects (answers_binary l op lhs rhs).effects
  | call name args => exact counted.effects (answers_call l name args).effects
  | name name role => exact counted.effects (answers_name l name role).effects
  | number value => exact counted

end PlZero.Listing

namespace PlZero

/-- In the listing of a program each number is that of one result. -/
theorem AnalyzedProgram.counted_listing (p : AnalyzedProgram) : p.listing.Counted :=
  p.nest_lower.counted {} (List.Perm.refl _)

end PlZero
