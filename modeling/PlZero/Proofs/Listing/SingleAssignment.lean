import PlZero.Proofs.Listing.ControlFlow
import PlZero.Proofs.Listing.Temporaries

/-!
Single assignment. Each temporary is the result of one instruction of the listing, and it is used
behind that instruction in the same basic block only: no value crosses a label, a jump or the border
of a routine.

Numbers are counted in `Listing.Nest.counted`, for any nest of builder calls. Uses depend on what is
handed to the builder, so here the walk over the tree is followed: an operand is good for as long as
only plain instructions are added (`Listing.HasReady`), and lowering an expression adds no others.

Main statement: `Block.singleAssignment_lower`, for any tree.
-/

namespace PlZero

namespace Listing

/-! ### Uses -/

def Line.operands : Line → List Operand
  | .instr i => i.operands
  | .label _ => []

/-- A line before the given position has the temporary as its result, and there is neither a label
nor a terminator in between: position and line are in one basic block. -/
def ReadyAt (code : List Line) (at_ id : Nat) : Prop :=
  ∃ made line, made < at_ ∧ code[made]? = some line ∧ line.result? = some id ∧
    ∀ k, made < k → k < at_ → ∃ i, code[k]? = some (.instr i) ∧ i.isTerminator = false

/-- Every temporary that a line uses is ready there. -/
def UsesReady (code : List Line) : Prop :=
  ∀ at_ line, code[at_]? = some line → ∀ id, Operand.temp id ∈ line.operands → ReadyAt code at_ id

/-- Temporaries as they should be: every number handed out is that of one result in the whole
listing, there are no other results, and no use is outside the basic block of the result. -/
structure SingleAssignment (l : Listing) : Prop where
  made : ∀ id, (l.frames.flatMap Frame.results).count id = if id < l.nextTemp then 1 else 0
  used : ∀ f ∈ l.frames, UsesReady f.lines.toList

/-! ### Longer code -/

section

variable {code : List Line} {id : Nat}

theorem getElem?_append_of_some {more : List Line} {k : Nat} {line : Line}
    (found : code[k]? = some line) : (code ++ more)[k]? = some line := by
  obtain ⟨inside, -⟩ := List.getElem?_eq_some_iff.mp found
  rw [List.getElem?_append_left inside, found]

/-- A temporary stays ready at its place when lines are added behind. -/
theorem ReadyAt.append {at_ : Nat} (ready : ReadyAt code at_ id) (more : List Line) :
    ReadyAt (code ++ more) at_ id := by
  obtain ⟨made, line, before, found, result, between⟩ := ready
  refine ⟨made, line, before, getElem?_append_of_some found, result, fun k after early => ?_⟩
  obtain ⟨i, plain, stays⟩ := between k after early
  exact ⟨i, getElem?_append_of_some plain, stays⟩

/-- What is ready at the end stays so behind plain instructions. -/
theorem ReadyAt.behind (ready : ReadyAt code code.length id) {added : List Instr}
    (plain : ∀ i ∈ added, i.isTerminator = false) :
    ReadyAt (code ++ added.map Line.instr) (code ++ added.map Line.instr).length id := by
  obtain ⟨made, line, before, found, result, between⟩ := ready.append (added.map Line.instr)
  refine ⟨made, line, ?_, found, result, fun k after early => ?_⟩
  · rw [List.length_append]
    omega
  · rcases Nat.lt_or_ge k code.length with old | new
    · exact between k after old
    · rw [List.length_append, List.length_map] at early
      have inside : k - code.length < added.length := by omega
      refine ⟨added[k - code.length], ?_, plain _ (List.getElem_mem inside)⟩
      rw [List.getElem?_append_right new, List.getElem?_map, List.getElem?_eq_getElem inside,
        Option.map_some]

/-- The result of the last line is ready behind it. -/
theorem readyAt_end {line : Line} (result : line.result? = some id) :
    ReadyAt (code ++ [line]) (code ++ [line]).length id := by
  refine ⟨code.length, line, by simp, by simp, result, fun k after early => ?_⟩
  rw [List.length_append, List.length_singleton] at early
  omega

/-- One more line, all of whose temporaries are ready at the end. -/
theorem UsesReady.snoc {line : Line} (uses : UsesReady code)
    (ready : ∀ id, Operand.temp id ∈ line.operands → ReadyAt code code.length id) :
    UsesReady (code ++ [line]) := by
  intro at_ used found id mem
  rcases Nat.lt_or_ge at_ code.length with old | new
  · rw [List.getElem?_append_left old] at found
    exact (uses at_ used found id mem).append _
  · obtain ⟨inside, -⟩ := List.getElem?_eq_some_iff.mp found
    rw [List.length_append, List.length_singleton] at inside
    obtain rfl : at_ = code.length := by omega
    rw [List.getElem?_concat_length, Option.some_inj] at found
    subst found
    exact (ready id mem).append _

end

/-! ### Listings in the making -/

variable {l l' : Listing}

/-- The operand can be used at the end of the current frame. -/
def HasReady (l : Listing) (operand : Operand) : Prop :=
  ∀ id, operand = .temp id → ReadyAt l.lines l.lines.length id

/-- In every frame, finished or open, temporaries are used where they are ready. -/
def Ordered (l : Listing) : Prop := ∀ f ∈ l.allFrames, UsesReady f.lines.toList

/-- A known integer can be used anywhere. -/
theorem holds_imm (l : Listing) (value : Int32) : l.HasReady (.imm value) := by
  rintro id ⟨⟩

/-- An operand can still be used behind plain instructions, which stay in the basic block. -/
theorem Plain.holds {operand : Operand} (plain : Plain l l') (holds : l.HasReady operand) :
    l'.HasReady operand := by
  obtain ⟨added, lines, stay⟩ := plain.lines
  intro id isTemp
  rw [lines]
  exact (holds id isTemp).behind stay

/-- The frames of a listing are the finished routines, the current frame and those around it. -/
theorem ordered_iff : l.Ordered ↔ (∀ f ∈ l.routines.toList, UsesReady f.lines.toList) ∧
    UsesReady l.lines ∧ ∀ f ∈ l.outer, UsesReady f.lines.toList := by
  rw [Ordered, allFrames, List.forall_mem_append, List.forall_mem_cons]
  rfl

/-- Names, slots, globals, labels and loops are no uses. -/
theorem Ordered.of_same (ordered : l.Ordered) (routines : l'.routines = l.routines)
    (lines : l'.frame.lines = l.frame.lines) (outer : l'.outer = l.outer) : l'.Ordered := by
  rw [ordered_iff] at ordered ⊢
  rw [routines, outer, Listing.lines, lines]
  exact ordered

/-- A line is in order if its operands can be used at the end of the current frame. -/
theorem Ordered.addLine (ordered : l.Ordered) {line : Line}
    (holds : ∀ operand ∈ line.operands, l.HasReady operand) : (l.addLine line).Ordered := by
  rw [ordered_iff] at ordered ⊢
  obtain ⟨finished, here, around⟩ := ordered
  refine ⟨finished, ?_, around⟩
  have lines : (l.addLine line).lines = l.lines ++ [line] := by
    simp [Listing.lines, Listing.addLine]
  rw [lines]
  exact here.snoc fun id mem => holds _ mem id rfl

theorem Ordered.emit (ordered : l.Ordered) {i : Instr}
    (holds : ∀ operand ∈ i.operands, l.HasReady operand) : (l.emit i).Ordered :=
  ordered.addLine holds

theorem Ordered.place (ordered : l.Ordered) (label : Nat) : (l.place label).Ordered :=
  ordered.addLine (List.forall_mem_nil _)

theorem Ordered.bind (ordered : l.Ordered) (name : String) (binding : Binding) :
    (l.bind name binding).Ordered := ordered.of_same rfl rfl rfl

theorem Ordered.emitResult (ordered : l.Ordered) {i : Nat → Instr}
    (holds : ∀ id, ∀ operand ∈ (i id).operands, l.HasReady operand) :
    (l.emitResult i).2.Ordered := by
  have counted : Ordered { l with nextTemp := l.nextTemp + 1 } := ordered.of_same rfl rfl rfl
  exact counted.emit (holds l.nextTemp)

/-! ### Effects -/

section

variable {uses : List Operand}

theorem Ordered.effect (ordered : l.Ordered) (holds : ∀ operand ∈ uses, l.HasReady operand)
    (effect : Effect uses l l') : l'.Ordered := by
  cases effect with
  | emit _ _ operands => exact ordered.emit fun operand mem => holds operand (operands mem)
  | result _ operands =>
    exact ordered.emitResult fun id operand mem => holds operand (operands id mem)
  | slot name => exact ordered.of_same rfl rfl rfl
  | global g => exact ordered.of_same rfl rfl rfl
  | external name arity => exact ordered.of_same rfl rfl rfl

/-- Every step that is made of effects is in order, if the operands it uses can be used. They still
can behind each effect, since all effects are plain. -/
theorem Ordered.effects (ordered : l.Ordered) (holds : ∀ operand ∈ uses, l.HasReady operand)
    (effects : Effects uses l l') : l'.Ordered := by
  induction effects with
  | refl => exact ordered
  | tail earlier last ih =>
    exact ih.effect (fun operand mem => (Effects.plain earlier).holds (holds operand mem)) last

/-- The binding of a declared name is no use. -/
theorem Ordered.declares {name : String} (ordered : l.Ordered)
    (holds : ∀ operand ∈ uses, l.HasReady operand) (declares : Declares uses name l l') :
    l'.Ordered := by
  obtain ⟨l₁, binding, effects, rfl⟩ := declares
  exact (ordered.effects holds effects).bind name binding

/-- An operand that can be used in the listing it comes with, which is `l` with plain instructions
added. -/
structure Provides (l : Listing) (out : Operand × Listing) : Prop where
  plain : Plain l out.2
  ordered : out.2.Ordered
  holds : out.2.HasReady out.1

/-- A value that a step answers with can be used at once. -/
theorem Answers.holds {out : Operand × Listing} (answers : Answers uses l out) :
    out.2.HasReady out.1 := by
  cases answers with
  | @known l' value _ => exact holds_imm l' value
  | @made l' i _ own _ =>
    have lines : (l'.emitResult i).2.lines = l'.lines ++ [.instr (i l'.nextTemp)] :=
      lines_emit { l' with nextTemp := l'.nextTemp + 1 } _
    rintro _ ⟨⟩
    rw [lines]
    exact readyAt_end (own l'.nextTemp)

/-- A step that answers with a value provides it, if what the step uses can be used. -/
theorem Answers.provides {out : Operand × Listing} (answers : Answers uses l out)
    (ordered : l.Ordered) (holds : ∀ operand ∈ uses, l.HasReady operand) : Provides l out :=
  ⟨answers.effects.plain, ordered.effects holds answers.effects, answers.holds⟩

/-- What is provided behind plain instructions. -/
theorem Provides.behind {out : Operand × Listing} (provides : Provides l' out)
    (plain : Plain l l') : Provides l out :=
  ⟨plain.trans provides.plain, provides.ordered, provides.holds⟩

end

/-! ### Branches and loops -/

theorem Ordered.control (ordered : l.Ordered) (exit : LoopExit) : (l.control exit).Ordered := by
  rcases control_cases l exit with ⟨-, stays⟩ | ⟨loop, -, jumps⟩
  · rw [stays]
    exact ordered
  · have jumped : (l.emit (.jump (loop.target exit))).freshLabel.2.Ordered :=
      (ordered.emit (i := .jump _) (List.forall_mem_nil _)).of_same rfl rfl rfl
    rw [jumps]
    exact jumped.place _

/-- A branch uses its condition in the block where the condition was computed. -/
theorem Ordered.openIf (ordered : l.Ordered) {cond : Operand} (holds : l.HasReady cond)
    (hasElse : Bool) : (l.openIf cond hasElse).2.Ordered := by
  have labels : l.freshLabel.2.freshLabel.2.freshLabel.2.Ordered := ordered.of_same rfl rfl rfl
  exact (labels.emit (i := .branch cond _ _) (List.forall_mem_singleton.mpr holds)).place _

theorem Ordered.leaveBranch (ordered : l.Ordered) (target label : Nat) :
    (l.leaveBranch target label).Ordered := (ordered.emit (List.forall_mem_nil _)).place _

theorem Ordered.openLoop (ordered : l.Ordered) : l.openLoop.2.Ordered := by
  have labels : l.freshLabel.2.freshLabel.2.freshLabel.2.Ordered := ordered.of_same rfl rfl rfl
  exact (labels.emit (List.forall_mem_nil _)).place _

/-- The condition of a loop is used by the branch right behind its lines. -/
theorem Ordered.openLoopBody (ordered : l.Ordered) {cond : Operand} (holds : l.HasReady cond)
    (condLabel bodyLabel exitLabel : Nat) :
    (l.openLoopBody cond condLabel bodyLabel exitLabel).Ordered :=
  ((ordered.emit (i := .branch cond bodyLabel exitLabel)
    (List.forall_mem_singleton.mpr holds)).place bodyLabel).of_same rfl rfl rfl

theorem Ordered.closeLoop (ordered : l.Ordered) (condLabel exitLabel : Nat) :
    (l.closeLoop condLabel exitLabel).Ordered := by
  have left : Ordered { l with frame := { l.frame with loops := l.frame.loops.tail } } :=
    ordered.of_same rfl rfl rfl
  exact (left.emit (List.forall_mem_nil _)).place _

/-! ### Routines -/

/-- A new frame has no lines yet. -/
theorem Ordered.openFrame (ordered : l.Ordered) (symbol : String) (params : List String) :
    Ordered { l with frame := { symbol, params }, outer := l.frame :: l.outer } := by
  rw [ordered_iff] at ordered ⊢
  obtain ⟨finished, here, around⟩ := ordered
  refine ⟨finished, ?_, List.forall_mem_cons.mpr ⟨here, around⟩⟩
  rintro at_ line ⟨⟩

theorem Ordered.openProcedure (ordered : l.Ordered) (name : String) :
    (l.openProcedure name).Ordered := (ordered.bind _ _).openFrame _ _

/-- Parameters have no lines. -/
theorem Ordered.bindParams (ordered : l.Ordered) (params : List String) :
    (l.bindParams params).Ordered := by
  induction params generalizing l with
  | nil => exact ordered
  | cons param params ih => exact ih (ordered.of_same rfl rfl rfl)

theorem Ordered.openFunction (ordered : l.Ordered) (name : String) (params : List String) :
    (l.openFunction name params).Ordered := by
  have bound := ((ordered.bind name (.func (l.routineSymbol name))).openFrame
    (l.routineSymbol name) params).bindParams params
  have slot := bound.effects (List.forall_mem_nil _) (effects_slot [] _ name)
  exact slot.of_same rfl rfl rfl

/-- The lines of a routine stay as they are. -/
theorem Ordered.closeRoutine (ordered : l.Ordered) : l.closeRoutine.Ordered := by
  unfold Listing.closeRoutine
  split
  · exact ordered
  · next frame outer isOuter =>
    intro f mem
    refine ordered f ?_
    simp only [allFrames, isOuter, Array.toList_push, List.append_assoc, List.singleton_append]
      at mem ⊢
    exact mem

end Listing

open Listing

/-! ### Expressions -/

/-- A name that yields nothing counts as zero. -/
theorem Expr.build_name_getD (info : ExprInfo) (ref : Reference) (l : Listing) :
    (Expr.name info ref).build l =
      ((l.name ref.name ref.role).1.getD (.imm 0), (l.name ref.name ref.role).2) := by
  cases answered : l.name ref.name ref.role with
  | mk value l' =>
    cases value with
    | some operand => exact Expr.build_name info answered
    | none =>
      have asked : (builder.name ref.name ref.role : StateM Listing (Option Operand)).run l =
          (none, l') := answered
      rw [Expr.build, Expr.lower, Reference.lowerOperand, StateT.run_bind, asked]
      rfl

mutual

/-- The value of an expression can be used behind its lines, since lowering an expression stays in
one basic block. -/
theorem Expr.provides_build : (e : Expr) → {l : Listing} → l.Ordered → Provides l (e.build l)
  | .odd info operand, l, ordered => by
    rw [Expr.build_odd]
    have inner := operand.provides_build ordered
    have holds := List.forall_mem_singleton.mpr inner.holds
    have outer := (answers_odd _ _).provides inner.ordered holds
    exact outer.behind inner.plain
  | .binary info op lhs rhs, l, ordered => by
    rw [Expr.build_binary]
    have left := lhs.provides_build ordered
    have right := rhs.provides_build left.ordered
    -- the left operand is still there behind the right one
    have holds := List.forall_mem_cons.mpr
      ⟨right.plain.holds left.holds, List.forall_mem_singleton.mpr right.holds⟩
    have outer := (answers_binary _ op _ _).provides right.ordered holds
    exact outer.behind (left.plain.trans right.plain)
  | .call info callee args, l, ordered => by
    rw [Expr.build_call]
    obtain ⟨plain, inner, holds⟩ := Expr.provides_buildArgs args ordered
    exact ((answers_call _ callee.name _).provides inner holds).behind plain
  | .name info ref, l, ordered => by
    rw [Expr.build_name_getD]
    exact (answers_name l ref.name ref.role).provides ordered (List.forall_mem_nil _)
  | .number info value, l, ordered => by
    rw [Expr.build_number]
    exact ⟨.refl l, ordered, holds_imm l value⟩

/-- All arguments can still be used when the last one has been computed. -/
theorem Expr.provides_buildArgs : (args : List Expr) → {l : Listing} → l.Ordered →
    Plain l (Expr.buildArgs args l).2 ∧ (Expr.buildArgs args l).2.Ordered ∧
      ∀ operand ∈ (Expr.buildArgs args l).1, (Expr.buildArgs args l).2.HasReady operand
  | [], l, ordered => by
    rw [Expr.buildArgs_nil]
    exact ⟨.refl l, ordered, List.forall_mem_nil _⟩
  | arg :: args, l, ordered => by
    rw [Expr.buildArgs_cons]
    have first := arg.provides_build ordered
    obtain ⟨plain, inner, holds⟩ := Expr.provides_buildArgs args first.ordered
    exact ⟨first.plain.trans plain, inner,
      List.forall_mem_cons.mpr ⟨plain.holds first.holds, holds⟩⟩

end

/-! ### Statements -/

mutual

/-- Lowering a statement uses every operand before the next label or jump. -/
theorem Stmt.ordered_build : (s : Stmt) → {l : Listing} → l.Ordered → (s.build l).Ordered
  | .assign info target value, l, ordered => by
    rw [Stmt.build_assign]
    have inner := value.provides_build ordered
    exact inner.ordered.effects (List.forall_mem_singleton.mpr inner.holds)
      (effects_assign _ target.name _)
  | .sequence info body, l, ordered => by
    rw [Stmt.build_sequence]
    exact Stmt.ordered_buildAll body ordered
  | .ifThen info cond thenBranch none, l, ordered => by
    rw [Stmt.build_ifThen]
    have test := cond.provides_build ordered
    have inThen := Stmt.ordered_buildOption thenBranch (test.ordered.openIf test.holds false)
    exact inThen.leaveBranch _ _
  | .ifThen info cond thenBranch (some elseBranch), l, ordered => by
    rw [Stmt.build_ifThenElse]
    have test := cond.provides_build ordered
    have inThen := Stmt.ordered_buildOption thenBranch (test.ordered.openIf test.holds true)
    have inElse := elseBranch.ordered_build (inThen.leaveBranch
      ((cond.build l).2.nextLabel + 2) ((cond.build l).2.nextLabel + 1))
    exact inElse.leaveBranch _ _
  | .whileDo info cond body, l, ordered => by
    rw [Stmt.build_whileDo]
    have test := cond.provides_build ordered.openLoop
    have start := test.ordered.openLoopBody test.holds l.nextLabel (l.nextLabel + 1)
      (l.nextLabel + 2)
    exact (Stmt.ordered_buildOption body start).closeLoop _ _
  | .asm info text, l, ordered => by
    rw [Stmt.build_asm]
    exact ordered.emit (List.forall_mem_nil _)
  | .control info exit, l, ordered => by
    rw [Stmt.build_control]
    exact ordered.control exit
  | .call info callee args, l, ordered => by
    rw [Stmt.build_call]
    obtain ⟨-, inner, holds⟩ := Expr.provides_buildArgs args ordered
    exact inner.effects holds (answers_call _ callee.name _).effects
  | .name info ref, l, ordered => by
    rw [Stmt.build_name]
    exact ordered.effects (List.forall_mem_nil _) (answers_name l ref.name ref.role).effects

theorem Stmt.ordered_buildOption : (s : Option Stmt) → {l : Listing} → l.Ordered →
    (Stmt.buildOption s l).Ordered
  | none, l, ordered => by
    rw [Stmt.buildOption_none]
    exact ordered
  | some s, l, ordered => by
    rw [Stmt.buildOption_some]
    exact s.ordered_build ordered

theorem Stmt.ordered_buildAll : (body : List Stmt) → {l : Listing} → l.Ordered →
    (Stmt.buildAll body l).Ordered
  | [], l, ordered => by
    rw [Stmt.buildAll_nil]
    exact ordered
  | s :: rest, l, ordered => by
    rw [Stmt.buildAll_cons]
    exact Stmt.ordered_buildAll rest (s.ordered_build ordered)

end

/-! ### Definitions, routines and blocks -/

/-- An initial value is stored right behind its lines. -/
theorem Definition.ordered_build (role : Role) (d : Definition) {l : Listing}
    (ordered : l.Ordered) : (Definition.build role l d).Ordered := by
  unfold Definition.build
  split
  · next init _ =>
    have inner := init.provides_build ordered
    exact inner.ordered.declares (List.forall_mem_singleton.mpr inner.holds)
      (declares_constant _ d.name _)
  · exact ordered
  · next init _ _ =>
    have inner := init.provides_build ordered
    exact inner.ordered.declares (List.forall_mem_singleton.mpr inner.holds)
      (declares_storage _ d.name (some _))
  · exact ordered.declares (List.forall_mem_nil _) (declares_storage l d.name none)

/-- Definitions one after the other. -/
theorem Definition.ordered_foldl (role : Role) (defs : List Definition) {l : Listing}
    (ordered : l.Ordered) : (defs.foldl (Definition.build role) l).Ordered := by
  induction defs generalizing l with
  | nil => exact ordered
  | cons d rest ih => exact ih (d.ordered_build role ordered)

mutual

/-- A block and the routines in it; the frame of a routine starts without lines and is not used from
outside. -/
theorem Block.ordered_buildIn : (block : Block) → {l : Listing} → l.Ordered →
    (block.buildIn l).Ordered
  | { consts, vars, routines, body, .. }, l, ordered => by
    rw [Block.buildIn_eq]
    have constants := Definition.ordered_foldl .const (Decls.definitions consts) ordered
    have values := Definition.ordered_foldl .var (Decls.definitions vars) constants
    exact Stmt.ordered_buildOption body (Routine.ordered_buildAll routines values)

theorem Routine.ordered_build : (r : Routine) → {l : Listing} → l.Ordered → (r.build l).Ordered
  | { name, kind := .procedure, block, .. }, l, ordered => by
    rw [Routine.build_procedure]
    exact (block.ordered_buildIn (ordered.openProcedure name)).closeRoutine
  | { name, kind := .function params, block, .. }, l, ordered => by
    rw [Routine.build_function]
    exact (block.ordered_buildIn (ordered.openFunction name params)).closeRoutine

theorem Routine.ordered_buildAll : (rs : List Routine) → {l : Listing} → l.Ordered →
    (Routine.buildAll rs l).Ordered
  | [], l, ordered => by
    rw [Routine.buildAll_nil]
    exact ordered
  | r :: rest, l, ordered => by
    rw [Routine.buildAll_cons]
    exact Routine.ordered_buildAll rest (r.ordered_build ordered)

end

/-! ### Whole listings -/

/-- When all routines are finished, the only open frame is the module. -/
theorem Listing.perm_frames {l : Listing} (finished : l.outer = []) :
    l.frames.Perm l.allFrames := by
  rw [frames, allFrames, moduleFrame, finished]
  exact List.perm_append_singleton l.frame l.routines.toList |>.symm

theorem Listing.ordered_empty : Ordered {} := by
  rw [ordered_iff]
  refine ⟨List.forall_mem_nil _, ?_, List.forall_mem_nil _⟩
  rintro at_ line ⟨⟩

/-- A program leaves no routine open. -/
theorem Block.outer_buildIn (block : Block) : (block.buildIn {}).outer = [] := by
  obtain ⟨_, _, lays⟩ := block.nest_lower.lays {}
  exact lays.outer

/-- The listing of any tree is in single-assignment form on temporaries, within basic blocks. -/
theorem Block.singleAssignment_lower (program : Block) :
    SingleAssignment ((program.lower builder : StateM Listing (Option Operand)).run {}).2 := by
  have frames := Listing.perm_frames program.outer_buildIn
  have counted : (program.buildIn {}).Counted :=
    program.nest_lower.counted {} (List.Perm.refl _)
  have ordered : (program.buildIn {}).Ordered := program.ordered_buildIn Listing.ordered_empty
  constructor
  case made =>
    intro id
    have perm := (frames.flatMap_right Frame.results).trans counted
    rw [← Block.buildIn, perm.count_eq, List.count_range]
  case used =>
    intro f mem
    exact ordered f (frames.mem_iff.mp mem)

end PlZero
