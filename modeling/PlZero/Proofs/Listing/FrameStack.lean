import PlZero.Proofs.Listing.ControlFlow

/-!
The frames of a listing are a stack: the one that is being built, and those around it. In whatever
way the calls of the builder are nested, each call leaves the stack as high as it was, and all that
changes in it is that the frame at the top has more lines.

To say what is the case while a call is being made, `Within` lists the calls that are made inside of
it, with the listing each of them begins with. What is known of such a listing (`Moment`) passes
through every construct from the inside to the outside.

Main statement: `calls_balanced`.
-/

namespace PlZero.Listing

variable {l l' l'' : Listing}

/-! ### What stays -/

/-- What is never taken back: globals and finished routines stay and more come behind them, external
functions stay as they were noted, each name once, and the counters only go up. -/
structure Grown (l l' : Listing) : Prop where
  globals : l.globals.toList <+: l'.globals.toList
  routines : l.routines.toList <+: l'.routines.toList
  externals : l.externals ⊆ l'.externals
  inOrder : InOrder l.externals → InOrder l'.externals
  nextTemp : l.nextTemp ≤ l'.nextTemp
  nextLabel : l.nextLabel ≤ l'.nextLabel

/-- `f'` is the frame `f` with more lines. Loops may be open in one and not in the other. -/
structure Frame.Continued (f f' : Frame) : Prop where
  symbol : f'.symbol = f.symbol
  params : f'.params = f.params
  result : f'.result = f.result
  lines : f.lines.toList <+: f'.lines.toList

/-- Work in one frame: those around it are not touched. -/
structure Onward (l l' : Listing) : Prop extends Grown l l' where
  outer : l'.outer = l.outer
  frame : l.frame.Continued l'.frame

/-- What a call leaves behind: every loop that was opened is closed, too. -/
structure Kept (l l' : Listing) : Prop extends Onward l l' where
  loops : l'.frame.loops = l.frame.loops

theorem Grown.refl (l : Listing) : Grown l l :=
  ⟨List.prefix_refl _, List.prefix_refl _, List.Subset.refl _, id, Nat.le_refl _, Nat.le_refl _⟩

theorem Grown.trans (first : Grown l l') (second : Grown l' l'') : Grown l l'' where
  globals := first.globals.trans second.globals
  routines := first.routines.trans second.routines
  externals := List.Subset.trans first.externals second.externals
  inOrder inOrder := second.inOrder (first.inOrder inOrder)
  nextTemp := first.nextTemp.trans second.nextTemp
  nextLabel := first.nextLabel.trans second.nextLabel

theorem Frame.Continued.refl (f : Frame) : f.Continued f := ⟨rfl, rfl, rfl, List.prefix_refl _⟩

theorem Frame.Continued.trans {f f' f'' : Frame} (first : f.Continued f')
    (second : f'.Continued f'') : f.Continued f'' where
  symbol := second.symbol.trans first.symbol
  params := second.params.trans first.params
  result := second.result.trans first.result
  lines := first.lines.trans second.lines

theorem Onward.refl (l : Listing) : Onward l l := ⟨.refl l, rfl, .refl _⟩

theorem Onward.trans (first : Onward l l') (second : Onward l' l'') : Onward l l'' :=
  ⟨first.toGrown.trans second.toGrown, second.outer.trans first.outer,
    first.frame.trans second.frame⟩

theorem Kept.refl (l : Listing) : Kept l l := ⟨.refl l, rfl⟩

theorem Kept.trans (first : Kept l l') (second : Kept l' l'') : Kept l l'' :=
  ⟨first.toOnward.trans second.toOnward, second.loops.trans first.loops⟩

/-! ### Steps -/

/-- Frames may be exchanged without anything being taken back. -/
theorem grown_frames (l : Listing) (frame : Frame) (outer : List Frame) :
    Grown l { l with frame, outer } :=
  { Grown.refl l with }

theorem kept_addLine (l : Listing) (line : Line) : Kept l (l.addLine line) :=
  { Kept.refl l with frame := ⟨rfl, rfl, rfl, by simp [addLine]⟩ }

theorem kept_emit (l : Listing) (i : Instr) : Kept l (l.emit i) := kept_addLine l _

theorem kept_place (l : Listing) (label : Nat) : Kept l (l.place label) := kept_addLine l _

/-- Names and slots are no lines. -/
theorem kept_names (l : Listing) (bindings : List (String × Binding)) (slots : List Slot) :
    Kept l { l with frame := { l.frame with bindings, slots } } :=
  { Kept.refl l with frame := ⟨rfl, rfl, rfl, List.prefix_refl _⟩ }

theorem kept_bind (l : Listing) (name : String) (binding : Binding) :
    Kept l (l.bind name binding) := kept_names l _ _

theorem kept_freshLabel (l : Listing) : Kept l l.freshLabel.2 :=
  { Kept.refl l with nextLabel := Nat.le_succ _ }

/-- The counter of temporaries only goes up. -/
theorem kept_emitResult (l : Listing) (i : Nat → Instr) : Kept l (l.emitResult i).2 := by
  have counted : Kept l { l with nextTemp := l.nextTemp + 1 } :=
    { Kept.refl l with nextTemp := Nat.le_succ _ }
  exact counted.trans (kept_emit _ _)

theorem Effect.kept {uses : List Operand} (effect : Effect uses l l') : Kept l l' := by
  cases effect with
  | emit _ _ _ => exact kept_emit l _
  | result _ _ => exact kept_emitResult l _
  | slot name => exact kept_names l _ _
  | global g => exact { Kept.refl l with globals := by simp }
  | external name arity =>
    exact { Kept.refl l with
      externals := declareExternal_subset name arity _
      inOrder := fun inOrder => inOrder_declareExternal inOrder name arity }

/-- Every step that is made of effects takes nothing back. -/
theorem Effects.kept {uses : List Operand} (effects : Effects uses l l') : Kept l l' := by
  induction effects with
  | refl => exact .refl l
  | tail _ last ih => exact ih.trans last.kept

/-- A declaration binds a name and takes nothing back. -/
theorem Declares.kept {uses : List Operand} {name : String} (declares : Declares uses name l l') :
    Kept l l' := by
  obtain ⟨l₁, binding, effects, rfl⟩ := declares
  exact effects.kept.trans (kept_bind l₁ name binding)

/-- A jump out of a loop leaves the loop open. -/
theorem kept_control (l : Listing) (exit : LoopExit) : Kept l (l.control exit) := by
  rcases control_cases l exit with ⟨-, stays⟩ | ⟨loop, -, jumps⟩
  · rw [stays]
    exact .refl l
  · rw [jumps]
    exact ((kept_emit l _).trans (kept_freshLabel _)).trans (kept_place _ _)

/-! ### Branches, loops and routines -/

theorem kept_threeLabels (l : Listing) : Kept l l.freshLabel.2.freshLabel.2.freshLabel.2 :=
  ((kept_freshLabel _).trans (kept_freshLabel _)).trans (kept_freshLabel _)

theorem kept_openIf (l : Listing) (cond : Operand) (hasElse : Bool) :
    Kept l (l.openIf cond hasElse).2 :=
  ((kept_threeLabels l).trans (kept_emit _ _)).trans (kept_place _ _)

theorem kept_leaveBranch (l : Listing) (target label : Nat) : Kept l (l.leaveBranch target label) :=
  (kept_emit l _).trans (kept_place _ _)

theorem kept_openLoop (l : Listing) : Kept l l.openLoop.2 :=
  ((kept_threeLabels l).trans (kept_emit _ _)).trans (kept_place _ _)

/-- Opening or closing a loop is work in the same frame. -/
theorem onward_loops (l : Listing) (loops : List Loop) :
    Onward l { l with frame := { l.frame with loops } } :=
  { Onward.refl l with frame := ⟨rfl, rfl, rfl, List.prefix_refl _⟩ }

/-- A loop is opened for its body: the frame goes on, with one more loop. -/
theorem onward_openLoopBody (l : Listing) (value : Operand) (cond body exit : Nat) :
    Onward l (l.openLoopBody value cond body exit) :=
  ((kept_emit l _).trans (kept_place _ _)).toOnward.trans (onward_loops _ _)

/-- The end of a loop closes one. -/
theorem onward_closeLoop (l : Listing) (cond exit : Nat) : Onward l (l.closeLoop cond exit) :=
  (onward_loops l _).trans ((kept_emit _ _).trans (kept_place _ _)).toOnward

/-- The body of a loop leaves the loop open that it was begun in, and the end closes it. -/
theorem Kept.closeLoop {value : Operand} {cond body exit : Nat}
    (inside : Kept (l.openLoopBody value cond body exit) l') : Kept l (l'.closeLoop cond exit) := by
  have opened := onward_openLoopBody l value cond body exit
  refine ⟨(opened.trans inside.toOnward).trans (onward_closeLoop l' cond exit), ?_⟩
  exact congrArg List.tail inside.loops

/-- A routine is entered: `f` is the frame that it is declared in, with its name, and now lies below
that of the routine. -/
structure Enters (f : Frame) (l start : Listing) : Prop extends Grown l start where
  outer : start.outer = f :: l.outer
  finished : start.routines = l.routines
  frame : l.frame.Continued f
  lines : f.lines = l.frame.lines
  loops : f.loops = l.frame.loops

/-- The frame that a routine is declared in, with a binding for its name. -/
def declaring (l : Listing) (name : String) (binding : Binding) : Frame :=
  (l.bind name binding).frame

/-- A procedure is entered with its name bound in the frame below. -/
theorem enters_openProcedure (l : Listing) (name : String) :
    Enters (l.declaring name (.proc (l.routineSymbol name))) l (l.openProcedure name) :=
  ⟨grown_frames l _ _, rfl, rfl, (kept_bind l _ _).frame, rfl, rfl⟩

/-- A function is entered with its name bound in the frame below. Its parameters and its result are
in its own frame. -/
theorem enters_openFunction (l : Listing) (name : String) (params : List String) :
    Enters (l.declaring name (.func (l.routineSymbol name))) l (l.openFunction name params) := by
  rw [openFunction_eq]
  obtain ⟨bindings, slots, bound⟩ := bindParams_eq (l.functionFrame name params) params
  rw [bound]
  exact ⟨grown_frames l _ _, rfl, rfl, (kept_bind l _ _).frame, rfl, rfl⟩

/-- A routine that was entered is finished, and the frame below it is on top again. -/
theorem closeRoutine_of_outer {f : Frame} {outer : List Frame} (below : l.outer = f :: outer) :
    l.closeRoutine = { l with routines := l.routines.push l.frame, frame := f, outer } := by
  rw [closeRoutine, below]

/-- Finishing a routine adds it to the finished ones. -/
theorem grown_closeRoutine (l : Listing) : Grown l l.closeRoutine := by
  unfold closeRoutine
  split
  · exact .refl l
  · exact { Grown.refl l with routines := by simp }

/-- When a routine is finished, the frame it was declared in is back. -/
theorem Enters.kept {f : Frame} {start : Listing} (enters : Enters f l start)
    (inside : Kept start l') : Kept l l'.closeRoutine := by
  have grown := (enters.toGrown.trans inside.toGrown).trans (grown_closeRoutine l')
  have closed := closeRoutine_of_outer (inside.outer.trans enters.outer)
  refine ⟨⟨grown, ?_, ?_⟩, ?_⟩
  · rw [closed]
  · rw [closed]
    exact enters.frame
  · rw [closed]
    exact enters.loops

/-! ### Nests -/

/-- A deferred part that may be missing leaves behind what it should, if it does so where it is
there. -/
theorem kept_afterPart {part : Option (Deferred (StateM Listing) Operand)}
    (each : ∀ y ∈ part, ∀ l, Kept l (y.run l).2) (l : Listing) : Kept l (afterPart part l) := by
  cases part with
  | none => exact .refl l
  | some y => exact each y rfl l

/-- Every nest of calls, begun with any listing, leaves behind what it should. -/
theorem Nest.kept {α : Type} {y : StateM Listing α} (nest : Nest y) (l : Listing) :
    Kept l (y.run l).2 := by
  induction nest generalizing l with
  | pure r => exact .refl l
  | bind _ _ first next => exact (first l).trans (next _ _)
  | block _ _ _ _ consts vars routines body =>
    rw [block_run]
    exact (((kept_afterPart consts l).trans (kept_afterPart vars _)).trans (routines _)).trans
      (kept_afterPart body _)
  | constant name value => exact (declares_constant l name value).kept
  | storage name init => exact (declares_storage l name init).kept
  | procedure name _ block =>
    rw [procedure_run]
    exact (enters_openProcedure l name).kept (block _)
  | function name params _ block =>
    rw [function_run]
    exact (enters_openFunction l name params).kept (block _)
  | assign name target value => exact (effects_assign l name value).kept
  | @ifThen cond thenBranch elseBranch _ _ inThen inElse =>
    have opened (hasElse : Bool) := (kept_openIf l cond hasElse).trans (kept_afterPart inThen _)
    cases elseBranch with
    | none =>
      rw [ifThen_run]
      exact (opened false).trans (kept_leaveBranch _ _ _)
    | some elseBranch =>
      rw [ifThenElse_run]
      exact (((opened true).trans (kept_leaveBranch _ _ _)).trans (kept_afterPart inElse _)).trans
        (kept_leaveBranch _ _ _)
  | whileDo _ _ cond body =>
    rw [whileDo_run]
    exact ((kept_openLoop l).trans (cond _)).trans (kept_afterPart body _).closeLoop
  | asm text => exact kept_emit l _
  | control exit => exact kept_control l exit
  | odd operand => exact (answers_odd l operand).effects.kept
  | binary op lhs rhs => exact (answers_binary l op lhs rhs).effects.kept
  | call name args => exact (answers_call l name args).effects.kept
  | name name role => exact (answers_name l name role).effects.kept
  | number value => exact .refl l

theorem kept_parts {part : Option (Deferred (StateM Listing) Operand)} (nests : ∀ y ∈ part, Nest y)
    (l : Listing) : Kept l (afterPart part l) :=
  kept_afterPart (fun y mem => (nests y mem).kept) l

/-! ### Calls inside of calls -/

/-- `Within z k y l`: while `y` is done, beginning with `l`, there comes a time when `z` is done,
and it begins with `k`. -/
inductive Within {β : Type} (z : StateM Listing β) (k : Listing) :
    {α : Type} → StateM Listing α → Listing → Prop where
  | self : Nest z → Within z k z k
  | first {α γ : Type} {y : StateM Listing α} {g : α → StateM Listing γ} {l : Listing} :
      Within z k y l → (∀ r, Nest (g r)) → Within z k (y >>= g) l
  | next {α γ : Type} {y : StateM Listing α} {g : α → StateM Listing γ} {l : Listing} :
      Nest y → (∀ r, Nest (g r)) → Within z k (g (y.run l).1) (y.run l).2 → Within z k (y >>= g) l
  | consts {vars body : Option (Deferred (StateM Listing) Operand)}
      {y routines : Deferred (StateM Listing) Operand} {l : Listing} :
      Within z k y l → (∀ y ∈ vars, Nest y) → Nest routines → (∀ y ∈ body, Nest y) →
      Within z k (builder.block (some y) vars routines body) l
  | vars {consts body : Option (Deferred (StateM Listing) Operand)}
      {y routines : Deferred (StateM Listing) Operand} {l : Listing} :
      (∀ y ∈ consts, Nest y) → Within z k y (afterPart consts l) → Nest routines →
      (∀ y ∈ body, Nest y) → Within z k (builder.block consts (some y) routines body) l
  | routines {consts vars body : Option (Deferred (StateM Listing) Operand)}
      {routines : Deferred (StateM Listing) Operand} {l : Listing} :
      (∀ y ∈ consts, Nest y) → (∀ y ∈ vars, Nest y) →
      Within z k routines (afterPart vars (afterPart consts l)) → (∀ y ∈ body, Nest y) →
      Within z k (builder.block consts vars routines body) l
  | body {consts vars : Option (Deferred (StateM Listing) Operand)}
      {routines y : Deferred (StateM Listing) Operand} {l : Listing} :
      (∀ y ∈ consts, Nest y) → (∀ y ∈ vars, Nest y) → Nest routines →
      Within z k y (routines.run (afterPart vars (afterPart consts l))).2 →
      Within z k (builder.block consts vars routines (some y)) l
  | procedure {name : String} {block : Deferred (StateM Listing) Operand} {l : Listing} :
      Within z k block (l.openProcedure name) → Within z k (builder.procedure name block) l
  | function {name : String} {params : List String} {block : Deferred (StateM Listing) Operand}
      {l : Listing} : Within z k block (l.openFunction name params) →
      Within z k (builder.function name params block) l
  | thenBranch {cond : Operand} {y : Deferred (StateM Listing) Operand}
      {elseBranch : Option (Deferred (StateM Listing) Operand)} {l : Listing} :
      Within z k y (l.openIf cond elseBranch.isSome).2 → (∀ y ∈ elseBranch, Nest y) →
      Within z k (builder.ifThen cond (some y) elseBranch) l
  | elseBranch {cond : Operand} {thenBranch : Option (Deferred (StateM Listing) Operand)}
      {y : Deferred (StateM Listing) Operand} {l : Listing} : (∀ y ∈ thenBranch, Nest y) →
      Within z k y ((afterPart thenBranch (l.openIf cond true).2).leaveBranch (l.nextLabel + 2)
        (l.nextLabel + 1)) →
      Within z k (builder.ifThen cond thenBranch (some y)) l
  | cond {cond : StateM Listing Operand} {body : Option (Deferred (StateM Listing) Operand)}
      {l : Listing} : Within z k cond l.openLoop.2 → (∀ y ∈ body, Nest y) →
      Within z k (builder.whileDo cond body) l
  | loopBody {cond : StateM Listing Operand} {y : Deferred (StateM Listing) Operand}
      {l : Listing} : Nest cond →
      Within z k y ((cond.run l.openLoop.2).2.openLoopBody (cond.run l.openLoop.2).1 l.nextLabel
        (l.nextLabel + 1) (l.nextLabel + 2)) →
      Within z k (builder.whileDo cond (some y)) l

/-- A time between `l`, with which some work begins, and `l'`, with which it ends. The frames around
the one that is worked on lie at the bottom of the stack, above them that frame, which may have more
lines than in the beginning and will have more in the end, and above it those of routines that are
being built inside. -/
structure Moment (l m l' : Listing) : Prop where
  stack : ∃ inner f, m.frame :: m.outer = inner ++ f :: l.outer ∧ l.frame.Continued f ∧
    f.Continued l'.frame ∧ l.frame.loops <:+ f.loops
  since : Grown l m
  ahead : Grown m l'

section

variable {b e m : Listing}

/-- The beginning of a call is a time inside of it. -/
theorem Kept.moment_start (kept : Kept l l') : Moment l l l' :=
  ⟨⟨[], l.frame, rfl, .refl _, kept.frame, List.suffix_refl _⟩, .refl l, kept.toGrown⟩

/-- The end of a call is a time inside of it. -/
theorem Kept.moment_end (kept : Kept l l') : Moment l l' l' := by
  refine ⟨⟨[], l'.frame, ?_, kept.frame, .refl _, ?_⟩, kept.toGrown, .refl l'⟩
  · rw [kept.outer, List.nil_append]
  · rw [kept.loops]

/-- A time inside of a part that is done in the same frame. -/
theorem Moment.sameFrame (inside : Moment b m e) (before : Onward l b)
    (loops : l.frame.loops <:+ b.frame.loops) (behind : Onward e l') : Moment l m l' := by
  obtain ⟨inner, f, stack, since, ahead, open_⟩ := inside.stack
  rw [before.outer] at stack
  exact ⟨⟨inner, f, stack, before.frame.trans since, ahead.trans behind.frame, loops.trans open_⟩,
    before.toGrown.trans inside.since, inside.ahead.trans behind.toGrown⟩

/-- A time inside of a part is one inside of the whole, if what is done before and behind the part
is kept. -/
theorem Moment.between (inside : Moment b m e) (before : Kept l b) (behind : Kept e l') :
    Moment l m l' := by
  refine inside.sameFrame before.toOnward ?_ behind.toOnward
  rw [before.loops]

/-- A time inside of the block of a routine, whose frame is one of those that are built inside. -/
theorem Moment.routine {f : Frame} (inside : Moment b m e) (enters : Enters f l b)
    (kept : Kept b e) : Moment l m e.closeRoutine := by
  obtain ⟨inner, own, stack, -, -, -⟩ := inside.stack
  rw [enters.outer] at stack
  have closed := closeRoutine_of_outer (kept.outer.trans enters.outer)
  refine ⟨⟨inner ++ [own], f, ?_, enters.frame, ?_, ?_⟩, enters.toGrown.trans inside.since,
    inside.ahead.trans (grown_closeRoutine e)⟩
  · rw [stack, List.append_assoc, List.singleton_append]
  · rw [closed]
    exact .refl f
  · rw [enters.loops]

end

variable {α β : Type} {y : StateM Listing α} {z : StateM Listing β} {k : Listing}

/-- Calls that are made inside of a nest are nests, and so is the whole. -/
theorem Within.nest (within : Within z k y l) : Nest z ∧ Nest y := by
  induction within with
  | self nest => exact ⟨nest, nest⟩
  | first _ next ih => exact ⟨ih.1, .bind ih.2 next⟩
  | next first next _ ih => exact ⟨ih.1, .bind first next⟩
  | consts _ vars routines body ih =>
    refine ⟨ih.1, .block ?_ vars routines body⟩
    rintro _ ⟨⟩
    exact ih.2
  | vars consts _ routines body ih =>
    refine ⟨ih.1, .block consts ?_ routines body⟩
    rintro _ ⟨⟩
    exact ih.2
  | routines consts vars _ body ih => exact ⟨ih.1, .block consts vars ih.2 body⟩
  | body consts vars routines _ ih =>
    refine ⟨ih.1, .block consts vars routines ?_⟩
    rintro _ ⟨⟩
    exact ih.2
  | procedure _ ih => exact ⟨ih.1, .procedure _ ih.2⟩
  | function _ ih => exact ⟨ih.1, .function _ _ ih.2⟩
  | thenBranch _ inElse ih =>
    refine ⟨ih.1, .ifThen _ ?_ inElse⟩
    rintro _ ⟨⟩
    exact ih.2
  | elseBranch inThen _ ih =>
    refine ⟨ih.1, .ifThen _ inThen ?_⟩
    rintro _ ⟨⟩
    exact ih.2
  | cond _ body ih => exact ⟨ih.1, .whileDo ih.2 body⟩
  | loopBody cond _ ih =>
    refine ⟨ih.1, .whileDo cond ?_⟩
    rintro _ ⟨⟩
    exact ih.2

/-- A time inside of a part is one inside of the whole. -/
theorem Within.moment {m : Listing} (within : Within z k y l) (part : Moment k m (z.run k).2) :
    Moment l m (y.run l).2 := by
  induction within with
  | self _ => exact part
  | first _ next ih => exact ih.between (.refl _) ((next _).kept _)
  | next first _ _ ih => exact ih.between (first.kept _) (.refl _)
  | consts _ vars routines body ih =>
    rw [block_run]
    exact ih.between (.refl _)
      (((kept_parts vars _).trans (routines.kept _)).trans (kept_parts body _))
  | vars consts _ routines body ih =>
    rw [block_run]
    exact ih.between (kept_parts consts _) ((routines.kept _).trans (kept_parts body _))
  | routines consts vars _ body ih =>
    rw [block_run]
    exact ih.between ((kept_parts consts _).trans (kept_parts vars _)) (kept_parts body _)
  | body consts vars routines _ ih =>
    rw [block_run]
    exact ih.between (((kept_parts consts _).trans (kept_parts vars _)).trans (routines.kept _))
      (.refl _)
  | procedure inside ih =>
    rw [procedure_run]
    exact ih.routine (enters_openProcedure _ _) (inside.nest.2.kept _)
  | function inside ih =>
    rw [function_run]
    exact ih.routine (enters_openFunction _ _ _) (inside.nest.2.kept _)
  | @thenBranch cond y elseBranch l _ inElse ih =>
    cases elseBranch with
    | none =>
      rw [ifThen_run]
      exact ih.between (kept_openIf l cond false) (kept_leaveBranch _ _ _)
    | some elseBranch =>
      rw [ifThenElse_run]
      exact ih.between (kept_openIf l cond true)
        (((kept_leaveBranch _ _ _).trans (kept_parts inElse _)).trans (kept_leaveBranch _ _ _))
  | @elseBranch cond thenBranch y l inThen _ ih =>
    rw [ifThenElse_run]
    exact ih.between (((kept_openIf l cond true).trans (kept_parts inThen _)).trans
      (kept_leaveBranch _ _ _)) (kept_leaveBranch _ _ _)
  | @cond cond body l inside bodies ih =>
    rw [whileDo_run]
    exact ih.between (kept_openLoop l) (kept_parts bodies _).closeLoop
  | @loopBody cond y l nest _ ih =>
    rw [whileDo_run]
    -- inside of the body one more loop is open, so the frame is the same but not kept
    have before := (kept_openLoop l).trans (nest.kept _)
    refine ih.sameFrame (before.toOnward.trans (onward_openLoopBody _ _ _ _ _)) ?_
      (onward_closeLoop _ _ _)
    rw [← before.loops]
    exact List.suffix_cons _ _

/-- The frames below the one that is worked on are not touched at any time. -/
theorem Moment.outer_suffix {m : Listing} (moment : Moment l m l') : l.outer <:+ m.outer := by
  obtain ⟨inner, f, stack, -⟩ := moment.stack
  cases inner with
  | nil => exact (List.cons.inj stack).2 ▸ List.suffix_refl _
  | cons top inner =>
    rw [(List.cons.inj stack).2]
    exact (List.suffix_cons f _).trans (List.suffix_append inner _)

/-! ### Arities -/

/-- Where names are in order, each has one arity. -/
theorem lookup_eq_some_iff {externals : List (String × Nat)} (inOrder : InOrder externals)
    {name : String} {arity : Nat} :
    externals.lookup name = some arity ↔ (name, arity) ∈ externals := by
  induction externals with
  | nil => simp
  | cons external rest ih =>
    obtain ⟨other, count⟩ := external
    obtain ⟨later, others⟩ := List.pairwise_cons.mp inOrder
    rw [List.lookup_cons, List.mem_cons, Prod.mk.injEq]
    by_cases same : name = other
    · have once : (name, arity) ∉ rest := fun again => lt_irrefl other (same ▸ later _ again)
      simp [same, same ▸ once, eq_comm]
    · simp [same, beq_false_of_ne same, ih others]

/-- The arity that was noted first stays. -/
theorem Grown.lookup (grown : Grown l l') (inOrder : InOrder l.externals) {name : String}
    {arity : Nat} (noted : l.externals.lookup name = some arity) :
    l'.externals.lookup name = some arity := by
  rw [lookup_eq_some_iff inOrder] at noted
  exact (lookup_eq_some_iff (grown.inOrder inOrder)).mpr (grown.externals noted)

/-! ### The whole -/

/-- A call that begins with `k` and ends with `k'`, inside of work that begins with an empty listing
and ends with `last`. -/
structure Balanced (k k' last : Listing) : Prop where
  kept : Kept k k'
  start : Moment {} k last
  finish : Moment {} k' last
  arities : ∀ name arity, k.externals.lookup name = some arity →
    k'.externals.lookup name = some arity ∧ last.externals.lookup name = some arity

/-- The call that makes a routine begins with `l` and ends with `last`. The routine has a frame of
its own, with which its block begins in `start`. The frame that it is declared in lies below it
then; that and the other frames below are not touched while the block is made, and come back when it
is done. The routine stands behind the others then, and behind those that are made inside of it. -/
structure RoutineCall (symbol : String) (block : Deferred (StateM Listing) Operand)
    (l start last : Listing) : Prop where
  declared : ∃ f, Enters f l start ∧ last.frame = f
  untouched : ∀ {β : Type} (z : StateM Listing β) (k : Listing), Within z k block start →
    start.outer <:+ k.outer ∧ start.outer <:+ (z.run k).2.outer
  outer : (block.run start).2.outer = start.outer
  own : (block.run start).2.frame.symbol = symbol
  routines : ∃ nested, (block.run start).2.routines.toList = l.routines.toList ++ nested ∧
    last.routines.toList = l.routines.toList ++ nested ++ [(block.run start).2.frame]

/-- A call that is made inside of the work on an empty listing: at its beginning and at its end the
stack is as it should be. -/
theorem Within.balanced (within : Within z k y {}) : Balanced k (z.run k).2 (y.run {}).2 := by
  have kept := within.nest.1.kept k
  have start := within.moment kept.moment_start
  have finish := within.moment kept.moment_end
  refine ⟨kept, start, finish, fun name arity noted => ?_⟩
  have inOrder : InOrder k.externals := start.since.inOrder List.Pairwise.nil
  exact ⟨kept.toGrown.lookup inOrder noted, start.ahead.lookup inOrder noted⟩

/-- The call for a routine, from how its block is entered. -/
theorem Enters.routineCall {f : Frame} {start : Listing}
    {block : Deferred (StateM Listing) Operand} (enters : Enters f l start) (nest : Nest block) :
    RoutineCall start.frame.symbol block l start (block.run start).2.closeRoutine := by
  have inside := nest.kept start
  have closed := closeRoutine_of_outer (inside.outer.trans enters.outer)
  constructor
  case declared => exact ⟨f, enters, by rw [closed]⟩
  case untouched =>
    intro β z k within
    have kept := within.nest.1.kept k
    exact ⟨(within.moment kept.moment_start).outer_suffix,
      (within.moment kept.moment_end).outer_suffix⟩
  case outer => exact inside.outer
  case own => exact inside.frame.symbol
  case routines =>
    obtain ⟨nested, added⟩ := inside.routines
    rw [enters.finished] at added
    refine ⟨nested, added.symm, ?_⟩
    rw [closed, Array.toList_push, added]

/-- **Calls are balanced.** Whatever calls of the builder are nested in whatever way, beginning with
an empty listing: every one of them leaves the frames and loops as it found them, and what was added
before is still there. A call for a routine adds it behind those that are made inside of it. In the
end only the module is left, and no loop is open. -/
theorem calls_balanced {α : Type} {y : StateM Listing α} (nest : Nest y) :
    (∀ {β : Type} (z : StateM Listing β) (k : Listing), Within z k y {} →
      Balanced k (z.run k).2 (y.run {}).2) ∧
    (∀ (name : String) (block : Deferred (StateM Listing) Operand) (l : Listing), Nest block →
      RoutineCall (l.routineSymbol name) block l (l.openProcedure name)
        ((builder.procedure name block).run l).2) ∧
    (∀ (name : String) (params : List String) (block : Deferred (StateM Listing) Operand)
      (l : Listing), Nest block →
      RoutineCall (l.routineSymbol name) block l (l.openFunction name params)
        ((builder.function name params block).run l).2) ∧
    (y.run {}).2.outer = [] ∧ (y.run {}).2.moduleFrame = (y.run {}).2.frame ∧
    (y.run {}).2.frame.symbol = "main" ∧ (y.run {}).2.frame.loops = [] := by
  have kept := nest.kept {}
  refine ⟨fun z k within => within.balanced, ?_, ?_, kept.outer, ?_, kept.frame.symbol, kept.loops⟩
  · intro name block l inside
    exact (enters_openProcedure l name).routineCall inside
  · intro name params block l inside
    have symbol : (l.openFunction name params).frame.symbol = l.routineSymbol name := by
      obtain ⟨_, _, bound⟩ := bindParams_eq (l.functionFrame name params) params
      rw [openFunction_eq, bound]
      rfl
    rw [← symbol]
    exact (enters_openFunction l name params).routineCall inside
  · rw [moduleFrame, kept.outer]
    rfl

/-- In the body of a loop a procedure is made, and in it a function. -/
theorem calls_balanced_loop :
    let q : StateM Listing (Option Operand) :=
      builder.function "q" ["a"] (builder.assign "q" .ret (.imm 1))
    let y : StateM Listing (Option Operand) :=
      builder.whileDo (builder.number 1) (some (builder.procedure "p" q))
    ∃ k, Nest y ∧ Within q k y {} ∧ k.outer.length = 1 ∧ Balanced k (q.run k).2 (y.run {}).2 ∧
      (y.run {}).2.outer = [] ∧ (y.run {}).2.routines.toList.map (·.symbol) = ["p.q", "p"] := by
  intro q y
  have nestQ : Nest q := .function "q" ["a"] (.assign "q" .ret (.imm 1))
  have nest : Nest y := by
    refine .whileDo (.number 1) ?_
    rintro _ ⟨⟩
    exact .procedure "p" nestQ
  have within : Within q _ y {} := .loopBody (.number 1) (.procedure (.self nestQ))
  have whole := calls_balanced nest
  exact ⟨_, nest, within, rfl, whole.1 q _ within, whole.2.2.2.1, rfl⟩

end PlZero.Listing
