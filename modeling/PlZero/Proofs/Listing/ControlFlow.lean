import PlZero.Proofs.Analysis.Declared
import PlZero.Proofs.Listing.Declarations
import PlZero.Proofs.Listing.Nest

/-!
Jumps and labels. In whatever way the calls of the builder are nested, the lines of each routine
are basic blocks: a label stands right behind every branch and jump, and nowhere else. No label is
placed twice in the whole listing, and where a jump goes is a place in the same routine.

A construct takes its labels first, and everything inside it is made between that and the placing.
So a piece of work is described by the lines that it adds (`Listing.Lays`): the labels placed in
them, and in the routines finished on the way, are among those it took itself; it jumps to labels of
its own lines or of the loops that were open before it.
-/

namespace PlZero.Listing

/-! ### Basic blocks -/

def Instr.targets : Instr → List Nat
  | .branch _ onTrue onFalse => [onTrue, onFalse]
  | .jump label => [label]
  | .slot _ | .store _ _ | .load _ _ | .binary _ _ _ _ | .odd _ _ | .call _ _ _ | .run _
  | .asm _ => []

def Line.targets : Line → List Nat
  | .instr i => i.targets
  | .label _ => []

def targets (code : List Line) : List Nat := code.flatMap Line.targets

/-- A label stands right behind every terminator and nowhere else. -/
structure InBlocks (code : List Line) : Prop where
  follows : ∀ (at_ : Nat) (i : Instr), code[at_]? = some (.instr i) → i.isTerminator = true →
    ∃ id, code[at_ + 1]? = some (.label id)
  precedes : ∀ (at_ id : Nat), code[at_]? = some (.label id) →
    ∃ before i, at_ = before + 1 ∧ code[before]? = some (.instr i) ∧ i.isTerminator = true

/-- Lines that are basic blocks, as they are put together. -/
inductive Blocks : List Line → Prop where
  | nil : Blocks []
  | plain {i : Instr} {rest : List Line} :
      i.isTerminator = false → Blocks rest → Blocks (.instr i :: rest)
  | turn {i : Instr} {id : Nat} {rest : List Line} :
      i.isTerminator = true → Blocks rest → Blocks (.instr i :: .label id :: rest)

theorem Blocks.append {code more : List Line} (first : Blocks code) (second : Blocks more) :
    Blocks (code ++ more) := by
  induction first with
  | nil => exact second
  | plain isPlain _ ih => exact .plain isPlain ih
  | turn ends _ ih => exact .turn ends ih

/-- A terminator and the label behind it. -/
theorem blocks_turn {i : Instr} (ends : i.isTerminator = true) (id : Nat) :
    Blocks [.instr i, .label id] := .turn ends .nil

/-- Blocks as they are put together are blocks as they are found: the two descriptions agree. -/
theorem Blocks.inBlocks {code : List Line} (blocks : Blocks code) : InBlocks code := by
  induction blocks with
  | nil => exact ⟨by simp, by simp⟩
  | @plain i rest isPlain _ ih =>
    constructor
    · rintro (_ | at_) j found ends
      · grind
      · simpa using ih.follows at_ j (by simpa using found) ends
    · rintro (_ | at_) id found
      · simp at found
      · obtain ⟨before, j, rfl, standing, ends⟩ := ih.precedes at_ id (by simpa using found)
        exact ⟨before + 1, j, rfl, by simpa using standing, ends⟩
  | @turn i id rest ends _ ih =>
    constructor
    · rintro (_ | _ | at_) j found ends'
      · exact ⟨id, rfl⟩
      · simp at found
      · simpa using ih.follows at_ j (by simpa using found) ends'
    · rintro (_ | _ | at_) id' found
      · simp at found
      · exact ⟨0, i, rfl, rfl, ends⟩
      · obtain ⟨before, j, rfl, standing, ends'⟩ := ih.precedes at_ id' (by simpa using found)
        exact ⟨before + 2, j, rfl, by simpa using standing, ends'⟩

/-! ### What a piece of work lays down -/

/-- The labels of open loops that can be jumped to. -/
def loopLabels (loops : List Loop) : List Nat := loops.flatMap fun loop => [loop.cond, loop.exit]

def Frame.labels (f : Frame) : List Nat := Listing.labels f.lines.toList

/-- The routine is made of basic blocks and jumps to labels of its own. -/
structure Frame.Closed (f : Frame) : Prop where
  blocks : Blocks f.lines.toList
  targets : ∀ id ∈ Listing.targets f.lines.toList, id ∈ f.labels

/-- From `l` to `l'` the lines `code` were added to the current frame and the routines `done` were
finished. -/
structure Lays (code : List Line) (done : List Frame) (l l' : Listing) : Prop where
  lines : l'.lines = l.lines ++ code
  routines : l'.routines.toList = l.routines.toList ++ done
  loops : l'.frame.loops = l.frame.loops
  outer : l'.outer = l.outer
  blocks : Blocks code
  counter : l.nextLabel ≤ l'.nextLabel
  /-- Of the labels taken on the way each is placed at most once, and no other is placed. -/
  placed : ∀ id, (labels code ++ done.flatMap Frame.labels).count id ≤
    if l.nextLabel ≤ id ∧ id < l'.nextLabel then 1 else 0
  targets : ∀ id ∈ Listing.targets code, id ∈ labels code ∨ id ∈ loopLabels l.frame.loops
  finished : ∀ f ∈ done, f.Closed

variable {l l' l'' : Listing} {code more : List Line} {done others : List Frame}

@[simp] theorem labels_nil : labels [] = [] := rfl

@[simp] theorem labels_append (code more : List Line) :
    labels (code ++ more) = labels code ++ labels more := List.filterMap_append

@[simp] theorem labels_instr (i : Instr) (code : List Line) :
    labels (.instr i :: code) = labels code := rfl

@[simp] theorem labels_label (id : Nat) (code : List Line) :
    labels (.label id :: code) = id :: labels code := rfl

@[simp] theorem targets_nil : targets [] = [] := rfl

@[simp] theorem targets_append (code more : List Line) :
    targets (code ++ more) = targets code ++ targets more := List.flatMap_append

@[simp] theorem targets_instr (i : Instr) (code : List Line) :
    targets (.instr i :: code) = i.targets ++ targets code := rfl

@[simp] theorem targets_label (id : Nat) (code : List Line) :
    targets (.label id :: code) = targets code := rfl

theorem Lays.refl (l : Listing) : Lays [] [] l l where
  lines := (List.append_nil _).symm
  routines := (List.append_nil _).symm
  loops := rfl
  outer := rfl
  blocks := .nil
  counter := Nat.le_refl _
  placed _ := Nat.zero_le _
  targets _ mem := absurd mem List.not_mem_nil
  finished _ mem := absurd mem List.not_mem_nil

/-- Work after work. The labels that the second takes are above those of the first, so none is
placed twice. -/
theorem Lays.trans (first : Lays code done l l') (second : Lays more others l' l'') :
    Lays (code ++ more) (done ++ others) l l'' where
  lines := by rw [second.lines, first.lines, List.append_assoc]
  routines := by rw [second.routines, first.routines, List.append_assoc]
  loops := second.loops.trans first.loops
  outer := second.outer.trans first.outer
  blocks := first.blocks.append second.blocks
  counter := first.counter.trans second.counter
  placed id := by
    have placed := first.placed id
    have placed' := second.placed id
    have counter := first.counter
    have counter' := second.counter
    simp only [labels_append, List.flatMap_append, List.count_append] at placed placed' ⊢
    grind
  targets id mem := by
    have inner := second.targets id
    rw [first.loops] at inner
    rw [targets_append, List.mem_append] at mem
    rw [labels_append, List.mem_append]
    rcases mem with mem | mem
    · have := first.targets id mem
      grind
    · have := inner mem
      grind
  finished := List.forall_mem_append.mpr ⟨first.finished, second.finished⟩

/-! ### Steps that stay in a basic block -/

/-- From `l` to `l'` instructions were added that end no basic block. -/
structure Plain (l l' : Listing) : Prop where
  lines : ∃ added : List Instr, l'.lines = l.lines ++ added.map .instr ∧
    ∀ i ∈ added, i.isTerminator = false
  routines : l'.routines = l.routines
  loops : l'.frame.loops = l.frame.loops
  outer : l'.outer = l.outer
  nextLabel : l'.nextLabel = l.nextLabel

theorem Plain.refl (l : Listing) : Plain l l :=
  ⟨⟨[], (List.append_nil _).symm, nofun⟩, rfl, rfl, rfl, rfl⟩

theorem Plain.trans (first : Plain l l') (second : Plain l' l'') : Plain l l'' := by
  obtain ⟨added, lines, isPlain⟩ := first.lines
  obtain ⟨added', lines', isPlain'⟩ := second.lines
  refine ⟨⟨added ++ added', ?_, ?_⟩, second.routines.trans first.routines,
    second.loops.trans first.loops, second.outer.trans first.outer,
    second.nextLabel.trans first.nextLabel⟩
  · rw [lines', lines, List.map_append, List.append_assoc]
  · intro i mem
    rcases List.mem_append.mp mem with mem | mem
    · exact isPlain i mem
    · exact isPlain' i mem

/-- Names, slots, globals and temporaries are no lines. -/
theorem Plain.of_eq (lines : l'.frame.lines = l.frame.lines) (routines : l'.routines = l.routines)
    (loops : l'.frame.loops = l.frame.loops) (outer : l'.outer = l.outer)
    (nextLabel : l'.nextLabel = l.nextLabel) : Plain l l' :=
  ⟨⟨[], by simp [Listing.lines, lines], nofun⟩, routines, loops, outer, nextLabel⟩

/-- An instruction that ends no basic block. -/
theorem plain_emit (l : Listing) {i : Instr} (isPlain : i.isTerminator = false) :
    Plain l (l.emit i) :=
  ⟨⟨[i], lines_emit l i, List.forall_mem_singleton.mpr isPlain⟩, rfl, rfl, rfl, rfl⟩

theorem plain_emitResult (l : Listing) {i : Nat → Instr}
    (isPlain : ∀ id, (i id).isTerminator = false) : Plain l (l.emitResult i).2 := by
  have counted : Plain l { l with nextTemp := l.nextTemp + 1 } := .of_eq rfl rfl rfl rfl rfl
  exact counted.trans (plain_emit _ (isPlain _))

theorem plain_bind (l : Listing) (name : String) (binding : Binding) :
    Plain l (l.bind name binding) := .of_eq rfl rfl rfl rfl rfl

theorem Effect.plain {uses : List Operand} (effect : Effect uses l l') : Plain l l' := by
  cases effect with
  | emit isPlain _ _ => exact plain_emit l isPlain
  | result own _ => exact plain_emitResult l fun id => Instr.isTerminator_of_result (own id)
  | slot name => exact .of_eq rfl rfl rfl rfl rfl
  | global g => exact .of_eq rfl rfl rfl rfl rfl
  | external name arity => exact .of_eq rfl rfl rfl rfl rfl

/-- Every step that is made of effects stays in its basic block. -/
theorem Effects.plain {uses : List Operand} (effects : Effects uses l l') : Plain l l' := by
  induction effects with
  | refl => exact .refl l
  | tail _ last ih => exact ih.trans last.plain

/-- Declarations stay in their basic block, too. -/
theorem Declares.plain {uses : List Operand} {name : String} (declares : Declares uses name l l') :
    Plain l l' := by
  obtain ⟨l₁, binding, effects, rfl⟩ := declares
  exact effects.plain.trans (plain_bind l₁ name binding)

theorem blocks_of_plain {added : List Instr} (isPlain : ∀ i ∈ added, i.isTerminator = false) :
    Blocks (added.map .instr) := by
  induction added with
  | nil => exact .nil
  | cons i rest ih =>
    obtain ⟨first, others⟩ := List.forall_mem_cons.mp isPlain
    exact .plain first (ih others)

theorem labels_map_instr (added : List Instr) : labels (added.map .instr) = [] := by
  induction added with
  | nil => rfl
  | cons i rest ih => exact ih

/-- Plain instructions jump nowhere. -/
theorem targets_of_plain {added : List Instr} (isPlain : ∀ i ∈ added, i.isTerminator = false) :
    targets (added.map .instr) = [] := by
  induction added with
  | nil => rfl
  | cons i rest ih =>
    obtain ⟨first, others⟩ := List.forall_mem_cons.mp isPlain
    have none : i.targets = [] := by
      cases i with
      | branch | jump => cases first
      | _ => rfl
    rw [List.map_cons, targets_instr, none, ih others, List.append_nil]

/-- Plain work lays down blocks, places no label and jumps nowhere. -/
theorem Plain.lays (plain : Plain l l') : ∃ code done, Lays code done l l' := by
  obtain ⟨added, lines, isPlain⟩ := plain.lines
  refine ⟨added.map .instr, [], ?_⟩
  constructor
  case lines => exact lines
  case routines => rw [plain.routines, List.append_nil]
  case loops => exact plain.loops
  case outer => exact plain.outer
  case blocks => exact blocks_of_plain isPlain
  case counter => exact plain.nextLabel.ge
  case placed => simp [labels_map_instr]
  case targets => simp [targets_of_plain isPlain]
  case finished => exact List.forall_mem_nil _

/-! ### Branches and loops -/

/-- A jump out of a loop lays down one turn: the jump, to a label of an open loop, and a new label.
-/
theorem lays_control (l : Listing) (exit : LoopExit) :
    ∃ code done, Lays code done l (l.control exit) := by
  rcases control_cases l exit with ⟨-, stays⟩ | ⟨loop, isOpen, jumps⟩
  · rw [stays]
    exact ⟨[], [], .refl l⟩
  · have target : loop.target exit ∈ loopLabels l.frame.loops := by
      refine List.mem_flatMap.mpr ⟨loop, isOpen, ?_⟩
      cases exit <;> simp [Loop.target]
    rw [jumps]
    refine ⟨[.instr (.jump (loop.target exit)), .label l.nextLabel], [], ?_⟩
    constructor
    case lines => simp
    case routines => exact (List.append_nil _).symm
    case loops => rfl
    case outer => rfl
    case blocks => exact .turn rfl .nil
    case counter => exact Nat.le_succ _
    case placed =>
      intro id
      change _ ≤ if l.nextLabel ≤ id ∧ id < l.nextLabel + 1 then 1 else 0
      simp only [labels_instr, labels_label, labels_nil, List.flatMap_nil, List.append_nil,
        List.count_singleton]
      grind
    case targets => simp [Instr.targets, target]
    case finished => exact List.forall_mem_nil _

/-- The work of a deferred part that may be missing. -/
theorem lays_afterPart {part : Option (Deferred (StateM Listing) Operand)}
    (each : ∀ y ∈ part, ∀ l, ∃ code done, Lays code done l (y.run l).2) (l : Listing) :
    ∃ code done, Lays code done l (afterPart part l) := by
  cases part with
  | none => exact ⟨[], [], .refl l⟩
  | some y => exact each y rfl l

/-- An `if` without `else`, given what its branch lays down. -/
theorem Lays.ifThen {cond : Operand} (inside : Lays code done (l.openIf cond false).2 l') :
    Lays ([.instr (.branch cond l.nextLabel (l.nextLabel + 2)), .label l.nextLabel] ++ code ++
        [.instr (.jump (l.nextLabel + 2)), .label (l.nextLabel + 2)]) done l
      ((l'.emit (.jump (l.nextLabel + 2))).place (l.nextLabel + 2)) := by
  have counter : l.nextLabel + 3 ≤ l'.nextLabel := inside.counter
  constructor
  case lines => simp [inside.lines]
  case routines => exact inside.routines
  case loops => exact inside.loops
  case outer => exact inside.outer
  case blocks => exact ((blocks_turn rfl _).append inside.blocks).append (blocks_turn rfl _)
  case counter => exact (Nat.le_add_right _ 3).trans counter
  case placed =>
    intro id
    have placed : _ ≤ if l.nextLabel + 3 ≤ id ∧ id < l'.nextLabel then 1 else 0 := inside.placed id
    change _ ≤ if l.nextLabel ≤ id ∧ id < l'.nextLabel then 1 else 0
    simp only [labels_append, labels_instr, labels_label, labels_nil, List.count_append,
      List.count_singleton] at placed ⊢
    grind
  case targets =>
    intro id mem
    have open_ : id ∈ Listing.targets code → id ∈ labels code ∨ id ∈ loopLabels l.frame.loops :=
      inside.targets id
    simp only [targets_append, targets_instr, targets_label, targets_nil, Instr.targets,
      List.append_nil, List.mem_append, List.mem_cons, List.not_mem_nil, or_false, labels_append,
      labels_instr, labels_label, labels_nil] at mem ⊢
    grind
  case finished => exact inside.finished

/-- An `if` with `else`, given what its branches lay down. -/
theorem Lays.ifThenElse {cond : Operand} (inside : Lays code done (l.openIf cond true).2 l')
    (behind : Lays more others ((l'.emit (.jump (l.nextLabel + 2))).place (l.nextLabel + 1)) l'') :
    Lays ([.instr (.branch cond l.nextLabel (l.nextLabel + 1)), .label l.nextLabel] ++ code ++
        [.instr (.jump (l.nextLabel + 2)), .label (l.nextLabel + 1)] ++ more ++
        [.instr (.jump (l.nextLabel + 2)), .label (l.nextLabel + 2)]) (done ++ others) l
      ((l''.emit (.jump (l.nextLabel + 2))).place (l.nextLabel + 2)) := by
  have counter : l.nextLabel + 3 ≤ l'.nextLabel := inside.counter
  have counter' : l'.nextLabel ≤ l''.nextLabel := behind.counter
  have routines : l''.routines.toList = l'.routines.toList ++ others := behind.routines
  have loops : l''.frame.loops = l'.frame.loops := behind.loops
  constructor
  case lines => simp [behind.lines, inside.lines]
  case routines =>
    refine routines.trans ?_
    rw [inside.routines, List.append_assoc]
    rfl
  case loops => exact loops.trans inside.loops
  case outer => exact behind.outer.trans inside.outer
  case blocks =>
    exact ((((blocks_turn rfl _).append inside.blocks).append (blocks_turn rfl _)).append
      behind.blocks).append (blocks_turn rfl _)
  case counter => exact ((Nat.le_add_right _ 3).trans counter).trans counter'
  case placed =>
    -- the own labels come first, then those of the first branch, then those of the second
    intro id
    have placed : _ ≤ if l.nextLabel + 3 ≤ id ∧ id < l'.nextLabel then 1 else 0 := inside.placed id
    have placed' : _ ≤ if l'.nextLabel ≤ id ∧ id < l''.nextLabel then 1 else 0 := behind.placed id
    change _ ≤ if l.nextLabel ≤ id ∧ id < l''.nextLabel then 1 else 0
    simp only [labels_append, labels_instr, labels_label, labels_nil, List.count_append,
      List.count_singleton, List.flatMap_append] at placed placed' ⊢
    grind
  case targets =>
    intro id mem
    have open_ : id ∈ Listing.targets code → id ∈ labels code ∨ id ∈ loopLabels l.frame.loops :=
      inside.targets id
    have open' : id ∈ Listing.targets more → id ∈ labels more ∨ id ∈ loopLabels l.frame.loops := by
      have same : l'.frame.loops = l.frame.loops := inside.loops
      rw [← same]
      exact behind.targets id
    simp only [targets_append, targets_instr, targets_label, targets_nil, Instr.targets,
      List.append_nil, List.mem_append, List.mem_cons, List.not_mem_nil, or_false, labels_append,
      labels_instr, labels_label, labels_nil] at mem ⊢
    grind
  case finished => exact List.forall_mem_append.mpr ⟨inside.finished, behind.finished⟩

/-- A loop, given what its condition and its body lay down. In the body the loop is open. -/
theorem Lays.whileDo {value : Operand} (cond : Lays code done l.openLoop.2 l')
    (body : Lays more others
      (l'.openLoopBody value l.nextLabel (l.nextLabel + 1) (l.nextLabel + 2)) l'') :
    Lays ([.instr (.jump l.nextLabel), .label l.nextLabel] ++ code ++
        [.instr (.branch value (l.nextLabel + 1) (l.nextLabel + 2)), .label (l.nextLabel + 1)] ++
        more ++ [.instr (.jump l.nextLabel), .label (l.nextLabel + 2)]) (done ++ others) l
      (l''.closeLoop l.nextLabel (l.nextLabel + 2)) := by
  have counter : l.nextLabel + 3 ≤ l'.nextLabel := cond.counter
  have counter' : l'.nextLabel ≤ l''.nextLabel := body.counter
  have routines : l''.routines.toList = l'.routines.toList ++ others := body.routines
  have open_ : l''.frame.loops = ⟨l.nextLabel, l.nextLabel + 2⟩ :: l'.frame.loops := body.loops
  have loops : l'.frame.loops = l.frame.loops := cond.loops
  constructor
  case lines => simp [body.lines, cond.lines]
  case routines =>
    refine routines.trans ?_
    rw [cond.routines, List.append_assoc]
    rfl
  case loops =>
    have popped : l''.frame.loops.tail = l'.frame.loops := by rw [open_, List.tail_cons]
    exact popped.trans loops
  case outer => exact body.outer.trans cond.outer
  case blocks =>
    exact ((((blocks_turn rfl _).append cond.blocks).append (blocks_turn rfl _)).append
      body.blocks).append (blocks_turn rfl _)
  case counter => exact ((Nat.le_add_right _ 3).trans counter).trans counter'
  case placed =>
    intro id
    have placed : _ ≤ if l.nextLabel + 3 ≤ id ∧ id < l'.nextLabel then 1 else 0 := cond.placed id
    have placed' : _ ≤ if l'.nextLabel ≤ id ∧ id < l''.nextLabel then 1 else 0 := body.placed id
    change _ ≤ if l.nextLabel ≤ id ∧ id < l''.nextLabel then 1 else 0
    simp only [labels_append, labels_instr, labels_label, labels_nil, List.count_append,
      List.count_singleton, List.flatMap_append] at placed placed' ⊢
    grind
  case targets =>
    intro id mem
    have out : id ∈ Listing.targets code → id ∈ labels code ∨ id ∈ loopLabels l.frame.loops :=
      cond.targets id
    -- the body may also jump to where the loop begins and ends, which are labels placed around it
    have out' : id ∈ Listing.targets more → id ∈ labels more ∨
        id = l.nextLabel ∨ id = l.nextLabel + 2 ∨ id ∈ loopLabels l.frame.loops := by
      intro mem
      have own : loopLabels (l'.openLoopBody value l.nextLabel (l.nextLabel + 1)
          (l.nextLabel + 2)).frame.loops =
            [l.nextLabel, l.nextLabel + 2] ++ loopLabels l'.frame.loops := rfl
      simpa [own, loops] using body.targets id mem
    simp only [targets_append, targets_instr, targets_label, targets_nil, Instr.targets,
      List.append_nil, List.mem_append, List.mem_cons, List.not_mem_nil, or_false, labels_append,
      labels_instr, labels_label, labels_nil] at mem ⊢
    grind
  case finished => exact List.forall_mem_append.mpr ⟨cond.finished, body.finished⟩

/-! ### Routines -/

/-- A routine. Behind its declaration the listing is `around`; its own frame is empty in `start`,
and its block begins in `l'`. -/
theorem Lays.routine {around : Listing} (start : Listing) (declared : Plain l around)
    (opened : start.outer = around.frame :: around.outer) (empty : start.lines = [])
    (noLoop : start.frame.loops = []) (routines : start.routines = around.routines)
    (nextLabel : start.nextLabel = around.nextLabel) (header : Plain start l')
    (inside : Lays code done l' l'') :
    ∃ added, Lays added (done ++ [l''.frame]) l l''.closeRoutine := by
  obtain ⟨added, lines, plain⟩ := declared.lines
  obtain ⟨slots, starts, isPlain⟩ := header.lines
  rw [empty, List.nil_append] at starts
  have outer : l''.outer = around.frame :: around.outer :=
    inside.outer.trans (header.outer.trans opened)
  have closed : l''.closeRoutine =
      { l'' with routines := l''.routines.push l''.frame, frame := around.frame,
                 outer := around.outer } := by
    rw [closeRoutine, outer]
  have whole : l''.frame.lines.toList = slots.map .instr ++ code := by
    rw [← starts]
    exact inside.lines
  have jumps : Listing.targets l''.frame.lines.toList = Listing.targets code := by
    rw [whole, targets_append, targets_of_plain isPlain, List.nil_append]
  have placed : l''.frame.labels = labels code := by
    rw [Frame.labels, whole, labels_append, labels_map_instr, List.nil_append]
  refine ⟨added.map .instr, ?_⟩
  rw [closed]
  constructor
  case lines => exact lines
  case routines =>
    simp [inside.routines, header.routines, routines, declared.routines]
  case loops => exact declared.loops
  case outer => exact declared.outer
  case blocks => exact blocks_of_plain plain
  case counter =>
    rw [← declared.nextLabel, ← nextLabel, ← header.nextLabel]
    exact inside.counter
  case placed =>
    intro id
    have once := inside.placed id
    rw [header.nextLabel, nextLabel, declared.nextLabel] at once
    simp only [labels_map_instr, List.nil_append, List.flatMap_append, List.flatMap_singleton,
      placed, List.count_append] at once ⊢
    omega
  case targets => simp [targets_of_plain plain]
  case finished =>
    refine List.forall_mem_append.mpr ⟨inside.finished, List.forall_mem_singleton.mpr ?_⟩
    constructor
    · rw [whole]
      exact (blocks_of_plain isPlain).append inside.blocks
    · -- no loop of the outer frame is open in the new one, so jumps stay inside of it
      intro id target
      rw [jumps] at target
      have own := inside.targets id target
      rw [header.loops, noLoop] at own
      rw [placed]
      simpa [loopLabels] using own

/-! ### Nests -/

/-- Parameters are names and slots. -/
theorem plain_bindParams (l : Listing) (params : List String) : Plain l (l.bindParams params) := by
  induction params generalizing l with
  | nil => exact .refl l
  | cons param params ih =>
    have first : Plain l
        ((l.freshSlot param).2.bind param (.storage (.slot (l.freshSlot param).1))) :=
      .of_eq rfl rfl rfl rfl rfl
    exact first.trans (ih _)

/-- A function starts with the slot of its result. -/
theorem plain_openFunction (l : Listing) (name : String) (params : List String) :
    Plain (l.functionFrame name params) (l.openFunction name params) := by
  have bound := plain_bindParams (l.functionFrame name params) params
  exact (bound.trans (effects_slot [] _ name).plain).trans (.of_eq rfl rfl rfl rfl rfl)

/-- Every nest of calls lays down blocks. The induction is on how the calls are nested; each
construct needs to know of its parts only what they lay down. -/
theorem Nest.lays {α : Type} {y : StateM Listing α} (nest : Nest y) (l : Listing) :
    ∃ code done, Lays code done l (y.run l).2 := by
  induction nest generalizing l with
  | pure r => exact ⟨[], [], .refl l⟩
  | bind _ _ first next =>
    obtain ⟨code, done, lays⟩ := first l
    obtain ⟨more, others, lays'⟩ := next _ _
    exact ⟨_, _, lays.trans lays'⟩
  | block _ _ _ _ consts vars routines body =>
    rw [block_run]
    obtain ⟨_, _, lays⟩ := lays_afterPart consts l
    obtain ⟨_, _, lays₁⟩ := lays_afterPart vars _
    obtain ⟨_, _, lays₂⟩ := routines _
    obtain ⟨_, _, lays₃⟩ := lays_afterPart body _
    exact ⟨_, _, ((lays.trans lays₁).trans lays₂).trans lays₃⟩
  | constant name value => exact (declares_constant l name value).plain.lays
  | storage name init => exact (declares_storage l name init).plain.lays
  | procedure name _ block =>
    rw [procedure_run]
    obtain ⟨_, _, lays⟩ := block (l.openProcedure name)
    obtain ⟨_, whole⟩ := lays.routine (l.openProcedure name) (plain_bind l name _)
      rfl rfl rfl rfl rfl (.refl _)
    exact ⟨_, _, whole⟩
  | function name params _ block =>
    rw [function_run]
    obtain ⟨_, _, lays⟩ := block (l.openFunction name params)
    obtain ⟨_, whole⟩ := lays.routine (l.functionFrame name params) (plain_bind l name _)
      rfl rfl rfl rfl rfl (plain_openFunction l name params)
    exact ⟨_, _, whole⟩
  | assign name target value => exact (effects_assign l name value).plain.lays
  | @ifThen cond thenBranch elseBranch _ _ inThen inElse =>
    cases elseBranch with
    | none =>
      rw [ifThen_run]
      obtain ⟨_, _, lays⟩ := lays_afterPart inThen (l.openIf cond false).2
      exact ⟨_, _, lays.ifThen⟩
    | some elseBranch =>
      rw [ifThenElse_run]
      obtain ⟨_, _, lays⟩ := lays_afterPart inThen (l.openIf cond true).2
      obtain ⟨_, _, lays'⟩ := lays_afterPart inElse _
      exact ⟨_, _, lays.ifThenElse lays'⟩
  | whileDo _ _ cond body =>
    rw [whileDo_run]
    obtain ⟨_, _, lays⟩ := cond l.openLoop.2
    obtain ⟨_, _, lays'⟩ := lays_afterPart body _
    exact ⟨_, _, lays.whileDo lays'⟩
  | asm text => exact (plain_emit l rfl).lays
  | control exit => exact lays_control l exit
  | odd operand => exact (answers_odd l operand).effects.plain.lays
  | binary op lhs rhs => exact (answers_binary l op lhs rhs).effects.plain.lays
  | call name args => exact (answers_call l name args).effects.plain.lays
  | name name role => exact (answers_name l name role).effects.plain.lays
  | number value => exact ⟨[], [], .refl l⟩

/-! ### Whole listings -/

/-- The frames of a listing: the entry point and the finished routines. -/
def frames (l : Listing) : List Frame := l.moduleFrame :: l.routines.toList

/-- Jumps and labels as they should be: no label is placed twice in the listing, every label that a
routine jumps to is placed once, in the same routine, and all lines are in basic blocks. -/
structure ControlFlow (l : Listing) : Prop where
  placed : (l.frames.flatMap Frame.labels).Nodup
  targets : ∀ f ∈ l.frames, ∀ id ∈ Listing.targets f.lines.toList, f.labels.count id = 1
  blocks : ∀ f ∈ l.frames, InBlocks f.lines.toList

/-- What is laid down from an empty listing is the whole listing, and no loop is open around it. -/
theorem Lays.controlFlow (lays : Lays code done {} l) : ControlFlow l := by
  have whole : l.moduleFrame.lines.toList = code := by
    rw [moduleFrame, lays.outer]
    exact lays.lines
  have entry : l.moduleFrame.Closed := by
    constructor
    · rw [whole]
      exact lays.blocks
    · intro id mem
      rw [whole] at mem
      rw [Frame.labels, whole]
      simpa [loopLabels] using lays.targets id mem
  have finished : l.routines.toList = done := lays.routines
  have closed : ∀ f ∈ l.frames, f.Closed := by
    rw [frames, finished]
    exact List.forall_mem_cons.mpr ⟨entry, lays.finished⟩
  have nodup : (l.frames.flatMap Frame.labels).Nodup := by
    rw [List.nodup_iff_count_le_one, frames, finished, List.flatMap_cons, Frame.labels, whole]
    intro id
    exact (lays.placed id).trans (by split <;> omega)
  constructor
  case placed => exact nodup
  case targets =>
    intro f mem id target
    have own : f.labels.Nodup := (List.nodup_flatMap.mp nodup).1 f mem
    exact List.count_eq_one_of_mem own ((closed f mem).targets id target)
  case blocks =>
    intro f mem
    exact (closed f mem).blocks.inBlocks

/-- Jumps and labels are in order after any nest of calls. -/
theorem Nest.controlFlow {α : Type} {y : StateM Listing α} (nest : Nest y) :
    ControlFlow (y.run {}).2 := by
  obtain ⟨_, _, lays⟩ := nest.lays {}
  exact lays.controlFlow

/-- Jumps and labels are as they should be after any nest of builder calls. In the listing of an
accepted program they lead where the program says besides: the code of a `break` is a jump behind
the innermost loop around it, and the code of a `continue` is a jump to its condition. -/
theorem jumps_resolved :
    (∀ {α : Type} (y : StateM Listing α), Nest y → ControlFlow (y.run {}).2) ∧
      ∀ (options : Options) (source : String) (p : AnalyzedProgram),
        check options source = .ok p →
        ControlFlow p.listing ∧ p.listing.CodeOf options p.program := by
  refine ⟨fun y nest => nest.controlFlow, fun options source p accepted => ⟨?_, ?_⟩⟩
  · exact p.nest_lower.controlFlow
  · exact (AnalyzedProgram.codeOf_listing accepted).1

/-- A routine is made in the body of a loop, and tries to leave the loop; then the body does. And a
program with two nested loops. -/
theorem jumps_resolved_nested :
    let step : StateM Listing (Option Operand) := do
      let _ ← builder.procedure "p" (builder.control .breakLoop)
      builder.ifThen (.imm 1) (some (builder.control .continueLoop)) none
    let y := builder.whileDo (builder.number 1) (some step)
    let source := "var i; while i < 9 do begin while odd i do break; if i = 3 then continue; " ++
      "i := i + 1 end."
    Nest y ∧ ControlFlow (y.run {}).2 ∧ ∃ p, check {} source = .ok p ∧ ControlFlow p.listing ∧
      p.listing.CodeOf {} p.program := by
  intro step y source
  have nest : Nest y := by
    refine .whileDo (.number 1) ?_
    rintro _ ⟨⟩
    refine .bind (.procedure "p" (.control _)) fun _ => .ifThen _ ?_ nofun
    rintro _ ⟨⟩
    exact .control _
  have isOk : (check {} source).toOption.isSome = true := by decide +kernel
  obtain ⟨p, accepted⟩ := exists_check_of_isSome isOk
  exact ⟨nest, jumps_resolved.1 y nest, p, accepted, jumps_resolved.2 {} source p accepted⟩

end PlZero.Listing
