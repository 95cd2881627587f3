import PlZero.Listing.Builder
import PlZero.Lowering
import PlZero.Proofs.Listing.Effects
import Mathlib.Data.List.Nodup
import Mathlib.Data.List.Infix

/-!
How lines grow. Lowering an expression, a statement or a definition only adds lines to the current
frame, and the labels it places were not placed before.

A construct with branches takes its labels first and places them one by one. So freshness is stated
with the labels that are still pending (`Listing.Fresh`): taking a label makes it pending, placing
it settles it, and what lies between leaves all pending labels alone.

Main statements: `Expr.emits_lower` and `Stmt.emits_lower`.
-/

namespace PlZero

namespace Listing

def lines (l : Listing) : List Line := l.frame.lines.toList

def Line.label? : Line → Option Nat
  | .label id => some id
  | .instr _ => none

def labels (code : List Line) : List Nat := code.filterMap Line.label?

variable {l l' l'' : Listing} {pending rest : List Nat} {id : Nat}

@[simp] theorem lines_emit (l : Listing) (i : Instr) : (l.emit i).lines = l.lines ++ [.instr i] := by
  simp [lines, emit, addLine]

@[simp] theorem lines_place (l : Listing) (id : Nat) : (l.place id).lines = l.lines ++ [.label id] := by
  simp [lines, place, addLine]

@[simp] theorem lines_freshLabel (l : Listing) : l.freshLabel.2.lines = l.lines := rfl

/-! ### Pending labels -/

/-- The labels placed so far and those that are pending are distinct and were all handed out. -/
structure Fresh (pending : List Nat) (l : Listing) : Prop where
  nodup : (labels l.lines ++ pending).Nodup
  below : ∀ id ∈ labels l.lines ++ pending, id < l.nextLabel

/-- In which order labels are pending does not matter. -/
theorem Fresh.perm (fresh : Fresh pending l) (same : pending.Perm rest) : Fresh rest l := by
  have perm := same.append_left (labels l.lines)
  constructor
  · exact perm.nodup_iff.mp fresh.nodup
  · intro id mem
    exact fresh.below id (perm.mem_iff.mpr mem)

/-- A label that is never placed does no harm. -/
theorem Fresh.drop (fresh : Fresh (id :: pending) l) : Fresh pending l := by
  have sub : (labels l.lines ++ pending).Sublist (labels l.lines ++ id :: pending) :=
    (List.sublist_cons_self id pending).append_left _
  constructor
  · exact fresh.nodup.sublist sub
  · intro other mem
    exact fresh.below other (sub.subset mem)

/-- A label that is taken is pending from then on. -/
theorem Fresh.take (fresh : Fresh pending l) :
    Fresh (l.nextLabel :: pending) l.freshLabel.2 := by
  have perm : (labels l.lines ++ l.nextLabel :: pending).Perm
      (l.nextLabel :: (labels l.lines ++ pending)) := List.perm_middle
  constructor
  · rw [lines_freshLabel, perm.nodup_iff, List.nodup_cons]
    refine ⟨?_, fresh.nodup⟩
    intro mem
    exact Nat.lt_irrefl _ (fresh.below _ mem)
  · intro id mem
    rw [lines_freshLabel, perm.mem_iff, List.mem_cons] at mem
    rcases mem with rfl | mem
    · exact Nat.lt_succ_self _
    · exact Nat.lt_succ_of_lt (fresh.below id mem)

/-- Placing a pending label settles it. -/
theorem Fresh.place (fresh : Fresh (id :: pending) l) : Fresh pending (l.place id) := by
  have same : labels (l.place id).lines ++ pending = labels l.lines ++ id :: pending := by
    simp [labels, Line.label?]
  constructor
  · rw [same]
    exact fresh.nodup
  · rw [same]
    exact fresh.below

/-- Instructions place no labels. -/
theorem Fresh.emit (fresh : Fresh pending l) (i : Instr) : Fresh pending (l.emit i) := by
  have same : labels (l.emit i).lines = labels l.lines := by
    simp [labels, Line.label?]
  constructor
  · rw [same]
    exact fresh.nodup
  · rw [same]
    exact fresh.below

/-! ### Listings that grow -/

/-- `l'` is `l` with more lines and globals; no pending label is placed on the way. -/
structure Extends (l l' : Listing) : Prop where
  lines : l.lines <+: l'.lines
  globals : l.globals.toList <+: l'.globals.toList
  fresh : ∀ pending, Fresh pending l → Fresh pending l'

theorem Extends.refl (l : Listing) : Extends l l :=
  ⟨List.prefix_refl _, List.prefix_refl _, fun _ fresh => fresh⟩

theorem Extends.trans (first : Extends l l') (second : Extends l' l'') : Extends l l'' :=
  ⟨first.lines.trans second.lines, first.globals.trans second.globals,
    fun pending fresh => second.fresh pending (first.fresh pending fresh)⟩

theorem extends_emit (l : Listing) (i : Instr) : Extends l (l.emit i) :=
  ⟨by simp, List.prefix_refl _, fun _ fresh => fresh.emit i⟩

/-- Only lines, globals and the counter of labels matter. -/
theorem Extends.of_eq (lines : l'.frame.lines = l.frame.lines)
    (globals : l.globals.toList <+: l'.globals.toList) (labels : l'.nextLabel = l.nextLabel) :
    Extends l l' := by
  have same : l'.lines = l.lines := by rw [Listing.lines, lines, Listing.lines]
  constructor
  · rw [same]
  · exact globals
  · intro pending fresh
    exact ⟨by rw [same]; exact fresh.nodup, by rw [same, labels]; exact fresh.below⟩

/-- The counter of temporaries has no part in the layout. -/
theorem extends_emitResult (l : Listing) (i : Nat → Instr) : Extends l (l.emitResult i).2 := by
  have counted : Extends l { l with nextTemp := l.nextTemp + 1 } :=
    .of_eq rfl (List.prefix_refl _) rfl
  exact counted.trans (extends_emit _ _)

theorem extends_bind (l : Listing) (name : String) (binding : Binding) :
    Extends l (l.bind name binding) := .of_eq rfl (List.prefix_refl _) rfl

theorem Effect.extends_ {uses : List Operand} (effect : Effect uses l l') : Extends l l' := by
  cases effect with
  | emit _ _ _ => exact extends_emit l _
  | result _ _ => exact extends_emitResult l _
  | slot name => exact .of_eq rfl (List.prefix_refl _) rfl
  | global g => exact .of_eq rfl (by simp) rfl
  | external name arity => exact .of_eq rfl (List.prefix_refl _) rfl

/-- Every step that is made of effects only adds lines. -/
theorem Effects.extends_ {uses : List Operand} (effects : Effects uses l l') : Extends l l' := by
  induction effects with
  | refl => exact .refl l
  | tail _ last ih => exact ih.trans last.extends_

/-- A declaration adds its lines, and the binding behind them is no line. -/
theorem Declares.extends_ {uses : List Operand} {name : String}
    (declares : Declares uses name l l') : Extends l l' := by
  obtain ⟨l₁, binding, effects, rfl⟩ := declares
  exact effects.extends_.trans (extends_bind l₁ name binding)

/-- The label behind a jump out of a loop is a new one. -/
theorem extends_control (l : Listing) (exit : LoopExit) : Extends l (l.control exit) := by
  rcases control_cases l exit with ⟨-, stays⟩ | ⟨loop, -, jumps⟩
  · rw [stays]
    exact .refl l
  · rw [jumps]
    constructor
    · simp
    · exact List.prefix_refl _
    · intro pending fresh
      exact (fresh.emit _).take.place

/-! ### Work that grows a listing -/

/-- The work only adds lines. -/
class Emits {α : Type} (y : StateM Listing α) : Prop where
  extends_ (l : Listing) : Extends l (y.run l).2

section

variable {α β : Type} {y : StateM Listing α} {g : α → StateM Listing β}

instance emits_pure (r : α) : Emits (pure r : StateM Listing α) := ⟨.refl⟩

/-- Work that only adds lines, followed by such work, only adds lines. -/
theorem Emits.bind (first : Emits y) (next : ∀ r, Emits (g r)) : Emits (y >>= g) :=
  ⟨fun l => (first.extends_ l).trans ((next _).extends_ _)⟩

instance emits_bind [first : Emits y] [next : ∀ r, Emits (g r)] : Emits (y >>= g) :=
  first.bind next

end

instance (name : String) (target : Role) (value : Operand) :
    Emits (builder.assign name target value : StateM Listing (Option Operand)) :=
  ⟨fun l => (effects_assign l name value).extends_⟩

instance (text : String) : Emits (builder.asm text : StateM Listing (Option Operand)) :=
  ⟨fun l => extends_emit l _⟩

instance (exit : LoopExit) : Emits (builder.control exit : StateM Listing (Option Operand)) :=
  ⟨fun l => extends_control l exit⟩

instance (operand : Operand) : Emits (builder.odd operand : StateM Listing Operand) :=
  ⟨fun l => (answers_odd l operand).effects.extends_⟩

instance (op : BinaryOp) (lhs rhs : Operand) :
    Emits (builder.binary op lhs rhs : StateM Listing Operand) :=
  ⟨fun l => (answers_binary l op lhs rhs).effects.extends_⟩

instance (name : String) (args : List Operand) :
    Emits (builder.call name args : StateM Listing Operand) :=
  ⟨fun l => (answers_call l name args).effects.extends_⟩

instance (name : String) (role : Role) :
    Emits (builder.name name role : StateM Listing (Option Operand)) :=
  ⟨fun l => (answers_name l name role).effects.extends_⟩

instance (value : Int32) : Emits (builder.number value : StateM Listing Operand) := ⟨.refl⟩

/-! ### Branches and loops -/

/-- The listing after a deferred part, if there is one. -/
def afterPart (part : Option (Deferred (StateM Listing) Operand)) (l : Listing) : Listing :=
  ((run part).run l).2

theorem extends_afterPart {part : Option (Deferred (StateM Listing) Operand)}
    (emits : ∀ y ∈ part, Emits y) (l : Listing) : Extends l (afterPart part l) := by
  cases part with
  | none => exact .refl l
  | some y => exact (emits y rfl).extends_ l

section

variable (cond : Operand) (thenBranch : Option (Deferred (StateM Listing) Operand))
  (elseBranch : Deferred (StateM Listing) Operand) (l : Listing)

/-- What is built for an `if` without `else`: of its three labels the middle one is not placed. -/
theorem ifThen_run :
    ((builder.ifThen cond thenBranch none).run l).2 =
      ((afterPart thenBranch (l.openIf cond false).2).emit
        (.jump (l.nextLabel + 2))).place (l.nextLabel + 2) := rfl

/-- What is built for an `if` with `else`: the three labels are placed in the order in which they
were taken. -/
theorem ifThenElse_run :
    ((builder.ifThen cond thenBranch (some elseBranch)).run l).2 =
      ((afterPart (some elseBranch)
        (((afterPart thenBranch (l.openIf cond true).2).emit
          (.jump (l.nextLabel + 2))).place (l.nextLabel + 1))).emit
        (.jump (l.nextLabel + 2))).place (l.nextLabel + 2) := rfl

/-- What is built for a loop. The condition is lowered once, behind the label that every turn starts
with. -/
theorem whileDo_run (cond : StateM Listing Operand)
    (body : Option (Deferred (StateM Listing) Operand)) :
    ((builder.whileDo cond body).run l).2 =
      (let ready := cond.run l.openLoop.2
      (afterPart body (ready.2.openLoopBody ready.1 l.nextLabel (l.nextLabel + 1)
        (l.nextLabel + 2))).closeLoop l.nextLabel (l.nextLabel + 2)) := rfl

end

/-- Branches and loops take three labels at once. -/
theorem Fresh.takeThree (fresh : Fresh pending l) :
    Fresh (l.nextLabel :: (l.nextLabel + 1) :: (l.nextLabel + 2) :: pending)
      l.freshLabel.2.freshLabel.2.freshLabel.2 := by
  apply fresh.take.take.take.perm
  exact (List.Perm.swap _ _ _).trans (((List.Perm.swap _ _ _).cons _).trans (List.Perm.swap _ _ _))

@[simp] theorem lines_openIf (l : Listing) (cond : Operand) (hasElse : Bool) :
    (l.openIf cond hasElse).2.lines = l.lines ++
      [.instr (.branch cond l.nextLabel (if hasElse then l.nextLabel + 1 else l.nextLabel + 2)),
        .label l.nextLabel] := by
  simp [openIf, freshLabel, lines, emit, place, addLine]

@[simp] theorem lines_openLoop (l : Listing) :
    l.openLoop.2.lines = l.lines ++ [.instr (.jump l.nextLabel), .label l.nextLabel] := by
  simp [openLoop, freshLabel, lines, emit, place, addLine]

@[simp] theorem lines_openLoopBody (l : Listing) (cond : Operand)
    (condLabel bodyLabel exitLabel : Nat) :
    (l.openLoopBody cond condLabel bodyLabel exitLabel).lines =
      l.lines ++ [.instr (.branch cond bodyLabel exitLabel), .label bodyLabel] := by
  simp [openLoopBody, lines, emit, place, addLine]

@[simp] theorem lines_closeLoop (l : Listing) (condLabel exitLabel : Nat) :
    (l.closeLoop condLabel exitLabel).lines =
      l.lines ++ [.instr (.jump condLabel), .label exitLabel] := by
  simp [closeLoop, lines, emit, place, addLine]

/-- When an `if` is opened, the label of its first branch is placed and two are still pending. -/
theorem Fresh.openIf (fresh : Fresh pending l) (cond : Operand) (hasElse : Bool) :
    Fresh ((l.nextLabel + 1) :: (l.nextLabel + 2) :: pending) (l.openIf cond hasElse).2 :=
  (fresh.takeThree.emit _).place

/-- When a loop is opened, the label of its condition is placed and two are still pending. -/
theorem Fresh.openLoop (fresh : Fresh pending l) :
    Fresh ((l.nextLabel + 1) :: (l.nextLabel + 2) :: pending) l.openLoop.2 :=
  (fresh.takeThree.emit _).place

theorem Fresh.openLoopBody {bodyLabel : Nat} (fresh : Fresh (bodyLabel :: pending) l)
    (cond : Operand) (condLabel exitLabel : Nat) :
    Fresh pending (l.openLoopBody cond condLabel bodyLabel exitLabel) := by
  have placed := (fresh.emit (.branch cond bodyLabel exitLabel)).place
  exact ⟨placed.nodup, placed.below⟩

theorem Fresh.closeLoop {exitLabel : Nat} (fresh : Fresh (exitLabel :: pending) l)
    (condLabel : Nat) : Fresh pending (l.closeLoop condLabel exitLabel) := by
  have placed := (fresh.emit (.jump condLabel)).place
  exact ⟨placed.nodup, placed.below⟩

variable {thenBranch elseBranch body : Option (Deferred (StateM Listing) Operand)}

/-- An `if` places its labels around branches that leave them alone. -/
theorem emits_ifThen (cond : Operand) (thenEmits : ∀ y ∈ thenBranch, Emits y)
    (elseEmits : ∀ y ∈ elseBranch, Emits y) :
    Emits (builder.ifThen cond thenBranch elseBranch) := by
  constructor
  intro l
  cases elseBranch with
  | none =>
    rw [ifThen_run]
    have grown := extends_afterPart thenEmits (l.openIf cond false).2
    constructor
    · have start : l.lines <+: (l.openIf cond false).2.lines := by simp
      rw [lines_place, lines_emit, List.append_assoc]
      exact (start.trans grown.lines).trans (List.prefix_append _ _)
    · exact grown.globals
    · intro pending fresh
      exact ((grown.fresh _ (fresh.openIf cond false)).drop.emit _).place
  | some y =>
    rw [ifThenElse_run]
    have grown := extends_afterPart thenEmits (l.openIf cond true).2
    have grown' := extends_afterPart elseEmits
      (((afterPart thenBranch (l.openIf cond true).2).emit (.jump (l.nextLabel + 2))).place
        (l.nextLabel + 1))
    constructor
    · have start : l.lines <+: (l.openIf cond true).2.lines := by simp
      have between := grown'.lines
      rw [lines_place, lines_emit, List.append_assoc] at between ⊢
      exact (start.trans grown.lines).trans (((List.prefix_append _ _).trans between).trans
        (List.prefix_append _ _))
    · exact grown.globals.trans grown'.globals
    · intro pending fresh
      have placed := ((grown.fresh _ (fresh.openIf cond true)).emit (.jump (l.nextLabel + 2))).place
      exact ((grown'.fresh _ placed).emit _).place

/-- A loop places its labels around a condition and a body that leave them alone. -/
theorem emits_whileDo {cond : StateM Listing Operand} (condEmits : Emits cond)
    (bodyEmits : ∀ y ∈ body, Emits y) : Emits (builder.whileDo cond body) := by
  constructor
  intro l
  rw [whileDo_run]
  have grown := condEmits.extends_ l.openLoop.2
  generalize cond.run l.openLoop.2 = ready at grown
  have grown' := extends_afterPart bodyEmits
    (ready.2.openLoopBody ready.1 l.nextLabel (l.nextLabel + 1) (l.nextLabel + 2))
  constructor
  · have start : l.lines <+: l.openLoop.2.lines := by simp
    have between := grown'.lines
    rw [lines_openLoopBody] at between
    rw [lines_closeLoop]
    exact (start.trans grown.lines).trans (((List.prefix_append _ _).trans between).trans
      (List.prefix_append _ _))
  · exact grown.globals.trans grown'.globals
  · intro pending fresh
    have opened := (grown.fresh _ fresh.openLoop).openLoopBody ready.1 l.nextLabel
      (l.nextLabel + 2)
    exact (grown'.fresh _ opened).closeLoop _

end Listing

open Listing

/-! ### Trees -/

instance emits_lowerOperand (ref : Reference) :
    Emits (ref.lowerOperand builder : StateM Listing Operand) := by
  unfold Reference.lowerOperand
  apply Emits.bind inferInstance
  intro answer
  cases answer <;> infer_instance

mutual

/-- Lowering an expression only adds lines, whatever its names stand for. -/
theorem Expr.emits_lower : (e : Expr) → Emits (e.lower builder : StateM Listing Operand)
  | .odd _ operand => by
    have := operand.emits_lower
    rw [Expr.lower]
    infer_instance
  | .binary _ op lhs rhs => by
    have := lhs.emits_lower
    have := rhs.emits_lower
    rw [Expr.lower]
    infer_instance
  | .call _ callee args => by
    have := Expr.emits_lowerArgs args
    rw [Expr.lower]
    infer_instance
  | .name _ ref => by
    rw [Expr.lower]
    infer_instance
  | .number _ value => by
    rw [Expr.lower]
    infer_instance

theorem Expr.emits_lowerArgs : (args : List Expr) →
    Emits (Expr.lowerArgs builder args : StateM Listing (List Operand))
  | [] => by
    rw [Expr.lowerArgs]
    infer_instance
  | arg :: args => by
    have := arg.emits_lower
    have := Expr.emits_lowerArgs args
    rw [Expr.lowerArgs]
    infer_instance

end

instance (e : Expr) : Emits (e.lower builder : StateM Listing Operand) := e.emits_lower

instance (args : List Expr) : Emits (Expr.lowerArgs builder args : StateM Listing (List Operand)) :=
  Expr.emits_lowerArgs args

mutual

/-- Lowering a statement only adds lines, and each label it places is new. -/
theorem Stmt.emits_lower : (s : Stmt) → Emits (s.lower builder : StateM Listing (Option Operand))
  | .assign _ target value => by
    rw [Stmt.lower]
    infer_instance
  | .sequence _ body => by
    rw [Stmt.lower]
    exact Stmt.emits_lowerAll body
  | .ifThen _ cond thenBranch elseBranch => by
    have := fun value => emits_ifThen value (Stmt.emits_deferOption thenBranch)
      (Stmt.emits_deferOption elseBranch)
    rw [Stmt.lower]
    infer_instance
  | .whileDo _ cond body => by
    rw [Stmt.lower]
    exact emits_whileDo cond.emits_lower (Stmt.emits_deferOption body)
  | .asm _ text => by
    rw [Stmt.lower]
    infer_instance
  | .control _ exit => by
    rw [Stmt.lower]
    infer_instance
  | .call _ callee args => by
    rw [Stmt.lower]
    infer_instance
  | .name _ ref => by
    rw [Stmt.lower]
    infer_instance

theorem Stmt.emits_deferOption : (s : Option Stmt) →
    ∀ y ∈ Stmt.deferOption (builder (m := StateM Listing)) s, Emits y
  | none => by
    rw [Stmt.deferOption]
    rintro _ ⟨⟩
  | some s => by
    have := s.emits_lower
    rw [Stmt.deferOption]
    rintro _ ⟨⟩
    exact this

theorem Stmt.emits_lowerAll : (body : List Stmt) →
    Emits (Stmt.lowerAll builder body : StateM Listing (Option Operand))
  | [] => by
    rw [Stmt.lowerAll]
    infer_instance
  | s :: rest => by
    have := s.emits_lower
    have := Stmt.emits_lowerAll rest
    rw [Stmt.lowerAll]
    infer_instance

end

end PlZero
