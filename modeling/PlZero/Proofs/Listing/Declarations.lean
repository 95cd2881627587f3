import PlZero.Proofs.Listing.Translation

/-!
Declarations, routines and blocks are lowered to their code, and so are programs.

A declaration adds lines, slots and globals and gives its name a meaning for what follows; a routine
adds its frame to the finished ones (`Listing.Lists`). Slots are numbered by the earlier ones of the
same name (`Listing.Numbered`), so the places of a routine are distinct.

Main statement: `AnalyzedProgram.codeOf_listing`.
-/

namespace PlZero

namespace Listing

variable {options : Options} {means : Meanings} {here : Nesting} {l l' l'' : Listing}
  {name : String} {meaning : Meaning} {home : Home} {code more : List Line}
  {globals others : List Global} {done finished : List Frame} {init : Option Operand}

/-! ### Slots -/

/-- Slots as they are handed out, the latest first: each is numbered by those of its name before
it. -/
def Numbered : List Slot → Prop
  | [] => True
  | s :: rest => s.earlier = (rest.filter (·.name == s.name)).length ∧ Numbered rest

/-- A slot that was handed out has a number below that of the next one of its name. -/
theorem Numbered.earlier_lt {slots : List Slot} (numbered : Numbered slots) {s : Slot}
    (mem : s ∈ slots) : s.earlier < (slots.filter (·.name == s.name)).length := by
  induction slots with
  | nil => cases mem
  | cons t rest ih =>
    obtain ⟨latest, others⟩ := numbered
    rcases List.mem_cons.mp mem with rfl | mem
    · simp [latest]
    · have sub := ((List.sublist_cons_self t rest).filter (·.name == s.name)).length_le
      exact (ih others mem).trans_le sub

/-- No slot is handed out twice. -/
theorem Numbered.nodup {slots : List Slot} (numbered : Numbered slots) : slots.Nodup := by
  induction slots with
  | nil => exact .nil
  | cons s rest ih =>
    obtain ⟨latest, others⟩ := numbered
    refine List.nodup_cons.mpr ⟨?_, ih others⟩
    intro mem
    have smaller := others.earlier_lt mem
    omega

theorem slotsOf_append (code more : List Line) :
    slotsOf (code ++ more) = slotsOf code ++ slotsOf more := List.filterMap_append

/-! ### What is listed -/

/-- From `l` to `l'` the lines `code` and the globals were added and the routines in `done` were
finished. Names may have been bound and runtime functions declared. -/
structure Lists (options : Options) (code : List Line) (globals : List Global) (done : List Frame)
    (l l' : Listing) : Prop where
  lines : l'.lines = l.lines ++ code
  slots : l'.frame.slots = (slotsOf code).reverse ++ l.frame.slots
  numbered : Numbered l.frame.slots → Numbered l'.frame.slots
  symbol : l'.frame.symbol = l.frame.symbol
  params : l'.frame.params = l.frame.params
  result : l'.frame.result = l.frame.result
  loops : l'.frame.loops = l.frame.loops
  outer : l'.outer = l.outer
  globals : l'.globals.toList = l.globals.toList ++ globals
  routines : l'.routines.toList = l.routines.toList ++ done
  imports : Imports options l.externals l'.externals

theorem Lists.externals (lists : Lists options code globals done l l') :
    l.externals ⊆ l'.externals := lists.imports.subset

/-- Work after work: what the second adds stands behind what the first added. -/
theorem Lists.trans (first : Lists options code globals done l l')
    (second : Lists options more others finished l' l'') :
    Lists options (code ++ more) (globals ++ others) (done ++ finished) l l'' := by
  constructor
  case lines => rw [second.lines, first.lines, List.append_assoc]
  case slots =>
    rw [second.slots, first.slots, slotsOf_append, List.reverse_append, List.append_assoc]
  case numbered => exact fun numbered => second.numbered (first.numbered numbered)
  case symbol => exact second.symbol.trans first.symbol
  case params => exact second.params.trans first.params
  case result => exact second.result.trans first.result
  case loops => exact second.loops.trans first.loops
  case outer => exact second.outer.trans first.outer
  case globals => rw [second.globals, first.globals, List.append_assoc]
  case routines => rw [second.routines, first.routines, List.append_assoc]
  case imports => exact first.imports.trans second.imports

/-- Lines that make no slots are listed as they are written. -/
theorem Writes.lists (writes : Writes options code l l') (noSlot : slotsOf code = []) :
    Lists options code [] [] l l' := by
  obtain ⟨frame, outer, routines, globals, imports⟩ := writes
  constructor
  case lines => simp [Listing.lines, frame, Frame.add]
  case slots => simp [frame, Frame.add, noSlot]
  case numbered =>
    rw [frame]
    exact id
  case outer => exact outer
  case globals => rw [globals, List.append_nil]
  case routines => rw [routines, List.append_nil]
  case imports => exact imports
  all_goals rw [frame]; rfl

theorem Lists.refl (l : Listing) : Lists options [] [] [] l l := (Writes.refl l).lists rfl

/-- Binding a name adds nothing to the listing itself. -/
theorem Lists.bind (lists : Lists options code globals done l l') (name : String)
    (binding : Binding) : Lists options code globals done l (l'.bind name binding) :=
  ⟨lists.lines, lists.slots, lists.numbered, lists.symbol, lists.params, lists.result, lists.loops,
    lists.outer, lists.globals, lists.routines, lists.imports⟩

/-- Names go on meaning what they did while lines are added and nothing is bound. -/
theorem Reflects.lists (reflects : Reflects options means here l)
    (lists : Lists options code globals done l l')
    (bindings : l'.frame.bindings = l.frame.bindings) : Reflects options means here l' :=
  reflects.congr bindings lists.outer lists.symbol (reflects.runtime lists.imports)

/-! ### Storage -/

theorem lists_global (options : Options) (l : Listing) (global : Global) :
    Lists options [] [global] [] l { l with globals := l.globals.push global } := by
  have same : Lists options [] [] [] l l := .refl l
  exact ⟨same.lines, same.slots, same.numbered, rfl, rfl, rfl, rfl, rfl, by simp, same.routines,
    same.imports⟩

/-- A slot with its line. -/
theorem lists_slot (l : Listing) (name : String) :
    Lists options [.instr (.slot (l.freshSlot name).1)] [] [] l
      ((l.freshSlot name).2.emit (.slot (l.freshSlot name).1)) := by
  have same : Lists options [] [] [] l l := .refl l
  exact ⟨lines_emit _ _, rfl, fun numbered => ⟨rfl, numbered⟩, rfl, rfl, rfl, rfl, rfl,
    same.globals, same.routines, same.imports⟩

/-- An initial value that has to be computed is stored by a line of its own. -/
theorem lists_store (l : Listing) (address : Address) (value : Operand) :
    Lists options [.instr (.store address value)] [] [] l (l.emit (.store address value)) :=
  (writes_emit l _).lists rfl

/-- Storage in the outermost block is global. -/
theorem storage_global (options : Options) (atTop : l.outer = []) (name : String)
    (init : Option Operand) :
    ∃ l₁ code globals, l.storage name init = l₁.bind name (.storage (.global name)) ∧
      l₁.frame.bindings = l.frame.bindings ∧ Lists options code globals [] l l₁ ∧
      Home.Reserved [] name init (.global name) code globals := by
  have isModule : l.atModule = true := by rw [atModule, atTop]; rfl
  unfold storage
  rw [if_pos isModule]
  match init with
  | none => exact ⟨_, _, _, rfl, rfl, lists_global options l ⟨name, 0⟩, .unset⟩
  | some (.imm value) => exact ⟨_, _, _, rfl, rfl, lists_global options l ⟨name, value⟩, .start⟩
  | some (.temp id) =>
    have stored := (lists_global options l ⟨name, 0⟩).trans
      (lists_store _ (.global name) (.temp id))
    exact ⟨_, _, _, rfl, rfl, stored, .set⟩

/-- Storage in a routine is a slot. -/
theorem storage_slot (options : Options) (inside : l.outer ≠ []) (routine : String)
    (around : Nesting) (name : String) (init : Option Operand) :
    ∃ l₁ slot code, l.storage name init = l₁.bind name (.storage (.slot slot)) ∧
      l₁.frame.bindings = l.frame.bindings ∧ Lists options code [] [] l l₁ ∧
      Home.Reserved (routine :: around) name init (.slot (routine :: around) slot) code [] := by
  have isRoutine : ¬ l.atModule = true := by rwa [atModule, List.isEmpty_iff]
  have reserved (init : Option Operand) :=
    @Home.Reserved.slot routine around (l.freshSlot name).1 init
  unfold storage
  rw [if_neg isRoutine]
  match init with
  | none => exact ⟨_, _, _, rfl, rfl, lists_slot l name, reserved none⟩
  | some value =>
    exact ⟨_, _, _, rfl, rfl, (lists_slot l name).trans (lists_store _ _ value),
      reserved (some value)⟩

/-- The name of what is stored means its storage. -/
theorem Reflects.storage (reflects : Reflects options means here l) (name : String)
    (init : Option Operand) :
    ∃ home code globals, Home.Reserved here name init home code globals ∧
      Lists options code globals [] l (l.storage name init) ∧
      ∀ meaning, meaning = .kept home ∨ meaning = .stored home →
        Reflects options (Function.update means name (some meaning)) here
          (l.storage name init) := by
  have depth := reflects.depth
  cases here with
  | nil =>
    obtain ⟨l₁, code, globals, made, bindings, lists, reserved⟩ :=
      storage_global options (List.eq_nil_of_length_eq_zero depth) name init
    have seen : (Home.global name).SeenFrom [] ((Place.global name).seenFrom 0) := .global
    rw [made]
    refine ⟨_, _, _, reserved, lists.bind _ _, ?_⟩
    rintro _ (rfl | rfl)
    · exact (reflects.lists lists bindings).bind (.kept seen)
    · exact (reflects.lists lists bindings).bind (.stored seen)
  | cons routine around =>
    have inside : l.outer ≠ [] := by
      rw [← List.length_pos_iff, depth]
      exact Nat.succ_pos _
    obtain ⟨l₁, slot, code, made, bindings, lists, reserved⟩ :=
      storage_slot options inside routine around name init
    have seen : (Home.slot (routine :: around) slot).SeenFrom (routine :: around)
        ((Place.slot slot).seenFrom 0) := .slot (List.nil_append _).symm
    rw [made]
    refine ⟨_, _, _, reserved, lists.bind _ _, ?_⟩
    rintro _ (rfl | rfl)
    · exact (reflects.lists lists bindings).bind (.kept seen)
    · exact (reflects.lists lists bindings).bind (.stored seen)

end Listing

open Listing

variable {options : Options} {means : Meanings} {here : Nesting}

/-! ### Definitions -/

/-- Declarations commute with forgetting where things are: analysis sees the symbols of what is
declared. -/
theorem Listing.Meanings.symbols_declareAll (means : Meanings) (entries : List (String × Meaning)) :
    Meanings.symbols (declareAll means entries) =
      declareAll means.symbols (entries.map fun e => (e.1, e.2.symbol)) :=
  funext fun name => declareAll_map means entries Meaning.symbol name

theorem Listing.Meanings.symbols_update (means : Meanings) (name : String) (meaning : Meaning) :
    Meanings.symbols (Function.update means name (some meaning)) =
      Function.update means.symbols name (some meaning.symbol) :=
  means.symbols_declareAll [(name, meaning)]

/-- A constant means its value, or else its storage. -/
theorem Listing.Reflects.constant {l l' : Listing} {code : List Line} {init : Expr}
    {value : Operand} (reflects : Reflects options means here l) (writes : Writes options code l l')
    (isCode : ∀ externals, l'.externals ⊆ externals → init.Code means here externals code value)
    (line : Nat) (name : String) :
    ∃ code globals meaning, meaning.symbol = { role := .const } ∧
      Lists options code globals [] l (l'.constant name value) ∧
      Reflects options (Function.update means name (some meaning)) here (l'.constant name value) ∧
      ∀ externals, (l'.constant name value).externals ⊆ externals →
        (Definition.mk line name (some init)).Code means here externals .const code globals
          meaning := by
  have lists := writes.lists (slotsOf_eq_nil (isCode _ (List.Subset.refl _)).phrase)
  cases value with
  | imm value =>
    exact ⟨_, _, .known value, rfl, lists.bind name (.const value),
      (reflects.writes writes).bind .known, fun externals sub => .known (isCode externals sub)⟩
  | temp id =>
    obtain ⟨home, lines, globals, reserved, listed, means'⟩ :=
      (reflects.writes writes).storage name (some (.temp id))
    exact ⟨_, _, .kept home, rfl, lists.trans listed, means' _ (.inl rfl), fun externals sub =>
      .kept (isCode externals (List.Subset.trans listed.externals sub)) reserved⟩

/-- One definition: its initial value is lowered first, where its name is not declared yet, and the
declaration binds the name to the storage or to the value that was found. -/
theorem Definition.translated {role : Role} (isValue : role = .const ∨ role = .var)
    (d : Definition) (present : role = .const → d.init.isSome = true)
    (resolved : ∀ e ∈ d.init, e.Resolved means.symbols) (l : Listing)
    (reflects : Reflects options means here l) :
    ∃ code globals meaning, meaning.symbol = { role } ∧
      Lists options code globals [] l (d.build role l) ∧
      Reflects options (Function.update means d.name (some meaning)) here (d.build role l) ∧
      ∀ externals, (d.build role l).externals ⊆ externals →
        d.Code means here externals role code globals meaning := by
  obtain ⟨line, name, init⟩ := d
  rcases isValue with rfl | rfl
  · cases init with
    | none => cases present rfl
    | some init =>
      obtain ⟨code, writes, isCode⟩ := (resolved init rfl).translated l reflects
      exact reflects.constant writes isCode line name
  · cases init with
    | none =>
      obtain ⟨home, lines, globals, reserved, listed, means'⟩ := reflects.storage name none
      exact ⟨_, _, .stored home, rfl, listed, means' _ (.inr rfl), fun _ _ => .unset reserved⟩
    | some init =>
      obtain ⟨code, writes, isCode⟩ := (resolved init rfl).translated l reflects
      have lists := writes.lists (slotsOf_eq_nil (isCode _ (List.Subset.refl _)).phrase)
      obtain ⟨home, lines, globals, reserved, listed, means'⟩ :=
        (reflects.writes writes).storage name (some (init.build l).1)
      exact ⟨_, _, .stored home, rfl, lists.trans listed, means' _ (.inr rfl), fun externals sub =>
        .set (isCode externals (List.Subset.trans listed.externals sub)) reserved⟩

/-- A section of definitions, by induction on the section; each definition is lowered among the
meanings that those before it leave. -/
theorem Definition.translated_all {role : Role} (isValue : role = .const ∨ role = .var)
    {defs : List Definition} (resolved : Definition.Resolved role means.symbols defs) (l : Listing)
    (reflects : Reflects options means here l) :
    ∃ code globals behind,
      Meanings.symbols behind = declareAll means.symbols (Definition.symbols role defs) ∧
      Lists options code globals [] l (defs.foldl (Definition.build role) l) ∧
      Reflects options behind here (defs.foldl (Definition.build role) l) ∧
      ∀ externals, (defs.foldl (Definition.build role) l).externals ⊆ externals →
        Definition.CodeAll here externals role means defs code globals behind := by
  induction defs generalizing means l with
  | nil => exact ⟨[], [], means, rfl, .refl l, reflects, fun _ _ => .nil⟩
  | cons d rest ih =>
    obtain ⟨present, init, others⟩ := resolved
    obtain ⟨code, globals, meaning, isRole, lists, reflects₁, isCode⟩ :=
      Definition.translated isValue d present init l reflects
    have symbols : Meanings.symbols (Function.update means d.name (some meaning)) =
        declareAll means.symbols [(d.name, { role })] := by
      rw [Meanings.symbols_update, isRole]
      rfl
    rw [← symbols] at others
    obtain ⟨more, globals', behind, same, lists', reflects₂, areCode⟩ :=
      ih others _ reflects₁
    refine ⟨_, _, behind, ?_, lists.trans lists', reflects₂, fun externals sub => ?_⟩
    · rw [same, symbols]
      rfl
    · exact .cons (isCode externals (List.Subset.trans lists'.externals sub))
        (areCode externals sub)

/-! ### Routines -/

namespace Listing

variable {l l' around : Listing} {name : String} {params : List String}

/-- The symbol of a new routine is made of the names of the routines around it. -/
theorem Reflects.routineSymbol_eq (reflects : Reflects options means here l) (name : String) :
    l.routineSymbol name = Nesting.symbol (name :: here) := by
  have depth := reflects.depth
  unfold routineSymbol
  cases here with
  | nil =>
    have atTop : l.outer = [] := List.eq_nil_of_length_eq_zero depth
    rw [atModule, atTop, Nesting.symbol]
    rfl
  | cons routine around =>
    have inside : ¬ l.atModule = true := by
      rw [atModule, List.isEmpty_iff, ← List.length_eq_zero_iff, depth]
      exact Nat.succ_ne_zero _
    rw [if_neg inside, reflects.symbol, Nesting.symbol]

/-- In a new frame for a routine names mean what they mean around it. -/
theorem Reflects.open (reflects : Reflects options means here l) {frame : Frame}
    (empty : frame.bindings = []) (symbol : frame.symbol = Nesting.symbol (name :: here)) :
    Reflects options means (name :: here)
      { l with frame := frame, outer := l.frame :: l.outer } := by
  constructor
  · intro other meaning known
    rw [resolve?_open l empty]
    exact (reflects.names other meaning known).further name
  · exact congrArg (· + 1) reflects.depth
  · exact symbol
  · exact reflects.externals

/-- In the block of a procedure its own name is known, so it can run itself. -/
theorem Reflects.openProcedure (reflects : Reflects options means here l) (name : String) :
    Reflects options (declareAll means [(name, .procedure (name :: here))]) (name :: here)
      (l.openProcedure name) := by
  have symbol := reflects.routineSymbol_eq name
  have bound : Reflects options (declareAll means [(name, .procedure (name :: here))]) here
      (l.bind name (.proc (l.routineSymbol name))) := by
    rw [symbol]
    exact reflects.bind .procedure
  exact bound.open rfl symbol

/-- In `l` the block of a routine begins, in a frame of its own on top of those of `around`. -/
structure Opens (around l : Listing) : Prop where
  outer : l.outer = around.frame :: around.outer
  globals : l.globals = around.globals
  routines : l.routines = around.routines
  externals : l.externals = around.externals
  loops : l.frame.loops = []
  numbered : Numbered l.frame.slots
  places : l.frame.slots = l.frame.places.reverse

/-- The frame of a procedure is empty when its block begins. -/
theorem opens_procedure (l : Listing) (name : String) :
    Opens (l.bind name (.proc (l.routineSymbol name))) (l.openProcedure name) :=
  ⟨rfl, rfl, rfl, rfl, rfl, trivial, rfl⟩

/-- The slot of a name that has none yet. -/
theorem freshSlot_eq {param : String} (fresh : ∀ s ∈ l.frame.slots, s.name ≠ param) :
    (l.freshSlot param).1 = ⟨param, 0⟩ := by
  have unused : l.frame.slots.filter (·.name == param) = [] := by
    rw [List.filter_eq_nil_iff]
    intro s mem same
    exact fresh s mem (beq_iff_eq.mp same)
  rw [freshSlot, unused]
  rfl

/-- Parameters of distinct names, in a frame that has no slots of these names: the place of each is
its name. -/
theorem Reflects.bindParams {routine : Nesting} (reflects : Reflects options means routine l)
    (distinct : params.Nodup) (fresh : ∀ s ∈ l.frame.slots, s.name ∉ params) :
    Reflects options
        (declareAll means (params.map fun param => (param, .stored (.slot routine ⟨param, 0⟩))))
        routine (l.bindParams params) ∧
      (l.bindParams params).frame.slots = (params.map (⟨·, 0⟩)).reverse ++ l.frame.slots := by
  induction params generalizing means l with
  | nil => exact ⟨reflects, rfl⟩
  | cons param params ih =>
    obtain ⟨notLater, distinct⟩ := List.nodup_cons.mp distinct
    have slot : (l.freshSlot param).1 = ⟨param, 0⟩ :=
      freshSlot_eq fun s mem same => fresh s mem (same ▸ List.mem_cons_self)
    have slots : (l.freshSlot param).2.frame.slots = ⟨param, 0⟩ :: l.frame.slots := by
      rw [← slot]
      rfl
    have others : ∀ s ∈ (l.freshSlot param).2.frame.slots, s.name ∉ params := by
      rw [slots]
      refine List.forall_mem_cons.mpr ⟨notLater, fun s mem isParam => ?_⟩
      exact fresh s mem (List.mem_cons_of_mem _ isParam)
    have seen : (Home.slot routine ⟨param, 0⟩).SeenFrom routine
        ((Place.slot ⟨param, 0⟩).seenFrom 0) := .slot (List.nil_append _).symm
    have taken : Reflects options means routine (l.freshSlot param).2 :=
      reflects.congr rfl rfl rfl reflects.externals
    have bound : Reflects options
        (Function.update means param (some (.stored (.slot routine ⟨param, 0⟩)))) routine
        ((l.freshSlot param).2.bind param (.storage (.slot (l.freshSlot param).1))) := by
      rw [slot]
      exact taken.bind (.stored seen)
    obtain ⟨reflects', slots'⟩ := ih bound distinct others
    refine ⟨reflects', slots'.trans ?_⟩
    rw [List.map_cons, List.reverse_cons, List.append_assoc]
    exact congrArg (_ ++ ·) slots

/-- Parameters take numbered slots like any other storage. -/
theorem numbered_bindParams (numbered : Numbered l.frame.slots) (params : List String) :
    Numbered (l.bindParams params).frame.slots := by
  induction params generalizing l with
  | nil => exact numbered
  | cons param params ih =>
    have next : Numbered (l.freshSlot param).2.frame.slots := ⟨rfl, numbered⟩
    exact ih next

/-- Parameters change only the bindings and the slots of a frame. -/
theorem bindParams_eq (l : Listing) (params : List String) :
    ∃ bindings slots,
      l.bindParams params = { l with frame := { l.frame with bindings, slots } } := by
  induction params generalizing l with
  | nil => exact ⟨_, _, rfl⟩
  | cons param params ih =>
    exact ih ((l.freshSlot param).2.bind param (.storage (.slot (l.freshSlot param).1)))

/-- Gives the result of a function a slot, in a frame that has its parameters. -/
def bindResult (l : Listing) (name symbol : String) : Listing :=
  let slot := (l.freshSlot name).1
  let made := (l.freshSlot name).2.emit (.slot slot)
  { made with frame := { made.frame with result := some slot } }.bind name (.ret symbol slot)

/-- A function is opened in three steps: a frame, its parameters, and the slot of its result. -/
theorem openFunction_eq (l : Listing) (name : String) (params : List String) :
    l.openFunction name params =
      ((l.functionFrame name params).bindParams params).bindResult name (l.routineSymbol name) :=
  rfl

/-- In the block of a function its name means the result, which hides the function that the frame
around knows it as. -/
theorem Reflects.bindResult (reflects : Reflects options means (name :: here) l) (arity : Nat) :
    Reflects options
      (Function.update means name (some (.result (name :: here) (l.freshSlot name).1 arity)))
      (name :: here) (l.bindResult name (Nesting.symbol (name :: here))) := by
  have seen : (Home.slot (name :: here) (l.freshSlot name).1).SeenFrom (name :: here)
      (.slot 0 (l.freshSlot name).1) := .slot (List.nil_append _).symm
  have taken : Reflects options means (name :: here)
      { (l.freshSlot name).2.emit (.slot (l.freshSlot name).1) with
        frame := { ((l.freshSlot name).2.emit (.slot (l.freshSlot name).1)).frame with
          result := some (l.freshSlot name).1 } } :=
    reflects.congr rfl rfl rfl reflects.externals
  exact taken.bind (.result seen)

/-- The block of a function begins behind the slot of its result. -/
theorem opens_function (l : Listing) (name : String)
    (slots : ((l.functionFrame name params).bindParams params).frame.slots =
      (params.map (⟨·, 0⟩)).reverse) :
    let opened := l.openFunction name params
    let slot := (((l.functionFrame name params).bindParams params).freshSlot name).1
    opened.frame.symbol = l.routineSymbol name ∧ opened.frame.params = params ∧
      opened.frame.result = some slot ∧ opened.lines = [.instr (.slot slot)] ∧
      Opens (l.bind name (.func (l.routineSymbol name))) opened := by
  have none : Numbered (l.functionFrame name params).frame.slots := trivial
  have numbered := numbered_bindParams none params
  obtain ⟨bindings, taken, made⟩ := bindParams_eq (l.functionFrame name params) params
  rw [openFunction_eq]
  rw [made] at slots numbered ⊢
  refine ⟨rfl, rfl, rfl, rfl, rfl, rfl, rfl, rfl, rfl, ⟨rfl, numbered⟩, ?_⟩
  dsimp only at slots
  subst slots
  simp [bindResult, Frame.places, functionFrame, slotsOf, Line.slot?, emit, addLine, bind,
    freshSlot]

/-- In a function its name means the result, and parameters mean their places. -/
theorem Reflects.openFunction (reflects : Reflects options means here l)
    (distinct : (name :: params).Nodup) :
    ∃ slot, slot.name = name ∧
      (l.openFunction name params).frame.symbol = Nesting.symbol (name :: here) ∧
      (l.openFunction name params).frame.params = params ∧
      (l.openFunction name params).frame.result = some slot ∧
      (l.openFunction name params).lines = [.instr (.slot slot)] ∧
      Opens (l.bind name (.func (l.routineSymbol name))) (l.openFunction name params) ∧
      Reflects options
        (declareAll means (RoutineKind.meaningsInside (name :: here) name params slot))
        (name :: here) (l.openFunction name params) := by
  obtain ⟨notParam, distinct⟩ := List.nodup_cons.mp distinct
  have symbol := reflects.routineSymbol_eq name
  have around : Reflects options
      (Function.update means name (some (.function (name :: here) params.length))) here
      (l.bind name (.func (l.routineSymbol name))) := by
    rw [symbol]
    exact reflects.bind .function
  have empty : Reflects options _ (name :: here) (l.functionFrame name params) :=
    around.open rfl symbol
  obtain ⟨bound, slots⟩ := empty.bindParams distinct nofun
  obtain ⟨symbol', params', result', lines, opens⟩ :=
    opens_function l name (slots.trans (List.append_nil _))
  have result := bound.bindResult params.length
  have other : name ∉ (params.map fun param =>
      (param, Meaning.stored (.slot (name :: here) ⟨param, 0⟩))).map Prod.fst := by
    simpa using notParam
  -- the result hides the function
  rw [declareAll_update _ _ other, Function.update_idem, ← declareAll_update _ _ other,
    ← symbol] at result
  exact ⟨_, rfl, symbol'.trans symbol, params', result', lines, opens, result⟩

/-! ### Closing a routine -/

variable {code : List Line} {done : List Frame} {around : Listing}

/-- The places of a routine are distinct. -/
theorem Opens.nodup_places (opens : Opens around l) (inside : Lists options code [] done l l') :
    l'.frame.places.Nodup := by
  have same : l'.frame.slots = l'.frame.places.reverse := by
    have lines : l'.frame.lines.toList = l.frame.lines.toList ++ code := inside.lines
    rw [inside.slots, opens.places, Frame.places, Frame.places, inside.params, lines,
      slotsOf_append, ← List.reverse_append, List.append_assoc]
  rw [← List.nodup_reverse, ← same]
  exact (inside.numbered opens.numbered).nodup

/-- Behind a routine the frame around it is the current one again. -/
theorem Opens.closeRoutine_eq {l'' : Listing} (opens : Opens around l')
    (inside : Lists options code [] done l' l'') :
    l''.closeRoutine = { l'' with routines := l''.routines.push l''.frame, frame := around.frame,
                                  outer := around.outer } := by
  rw [closeRoutine, inside.outer, opens.outer]

/-- To the frame around it a routine adds no lines. It adds itself to the finished routines, behind
those that were finished inside it. -/
theorem Opens.close {l'' : Listing} {binding : Binding} (opens : Opens (l.bind name binding) l')
    (inside : Lists options code [] done l' l'') :
    Lists options [] [] (done ++ [l''.frame]) l l''.closeRoutine := by
  have externals : l'.externals = l.externals := opens.externals
  rw [opens.closeRoutine_eq inside]
  constructor
  case lines => exact (List.append_nil _).symm
  case slots => rfl
  case numbered => exact id
  case globals => exact inside.globals.trans (congrArg (·.toList ++ []) opens.globals)
  case routines =>
    have routines : l''.routines.toList = l.routines.toList ++ done :=
      inside.routines.trans (congrArg (·.toList ++ done) opens.routines)
    rw [Array.toList_push, routines, List.append_assoc]
  case imports =>
    rw [← externals]
    exact inside.imports
  all_goals rfl

/-- Behind a routine names mean what they meant before its block, its own name included. -/
theorem Reflects.close {l'' : Listing} (reflects : Reflects options means here around)
    (opens : Opens around l') (inside : Lists options code [] done l' l'') :
    Reflects options means here l''.closeRoutine := by
  rw [opens.closeRoutine_eq inside]
  refine reflects.congr rfl rfl rfl (reflects.runtime ?_)
  rw [← opens.externals]
  exact inside.imports

/-- Functions that were noted inside a routine stay noted behind it. -/
theorem externals_closeRoutine (l : Listing) : l.closeRoutine.externals = l.externals := by
  unfold closeRoutine
  split <;> rfl

end Listing

/-! ### Blocks -/

/-- Inside a routine storage is a slot and never a global. -/
theorem Listing.Home.Reserved.globals_eq_nil {routine name : String} {init : Option Operand}
    {home : Home} {code : List Line} {globals : List Global}
    (reserved : Home.Reserved (routine :: here) name init home code globals) : globals = [] := by
  cases reserved
  rfl

/-- So definitions inside a routine make no globals. -/
theorem Definition.CodeAll.globals_eq_nil {routine : String} {externals : List (String × Nat)}
    {role : Role} {means behind : Meanings} {defs : List Definition} {code : List Line}
    {globals : List Global}
    (areCode : Definition.CodeAll (routine :: here) externals role means defs code globals behind) :
    globals = [] := by
  induction areCode with
  | nil => rfl
  | cons isCode _ ih =>
    rw [ih, List.append_nil]
    cases isCode with
    | known => rfl
    | kept _ reserved | unset reserved | set _ reserved => exact reserved.globals_eq_nil

/-- Only the outermost block makes globals. -/
theorem Block.Code.globals_eq_nil {routine : String} {externals : List (String × Nat)}
    {block : Block} {code : List Line} {globals : List Global} {done : List Frame}
    (isCode : block.Code means (routine :: here) externals code globals done) : globals = [] := by
  obtain ⟨line, consts, vars, routines, body, scope⟩ := block
  rw [Block.Code] at isCode
  obtain ⟨_, _, _, _, _, _, _, _, inConsts, inVars, _, _, _, _, rfl⟩ := isCode
  rw [inConsts.globals_eq_nil, inVars.globals_eq_nil]
  rfl

/-- Wherever names mean what they should and no loop is open, the block is lowered to its code. -/
def Block.Translated (options : Options) (means : Meanings) (here : Nesting) (block : Block) :
    Prop :=
  ∀ l, Reflects options means here l → l.frame.loops = [] →
    ∃ code globals done, Lists options code globals done l (block.buildIn l) ∧
      (∀ f ∈ done, f.places.Nodup) ∧
      ∀ externals, (block.buildIn l).externals ⊆ externals →
        block.Code means here externals code globals done

/-- Wherever names mean what they should, the routine is lowered to its code and declared. -/
def Routine.Translated (options : Options) (means : Meanings) (here : Nesting) (r : Routine) :
    Prop :=
  ∀ l, Reflects options means here l →
    ∃ done, Lists options [] [] done l (r.build l) ∧
      Reflects options (declareAll means [(r.name, r.kind.meaning (r.name :: here))]) here
        (r.build l) ∧
      (∀ f ∈ done, f.places.Nodup) ∧
      ∀ externals, (r.build l).externals ⊆ externals → r.Code means here externals done

/-- The step from the block of a procedure to the procedure: open its frame, lower the block, close
the frame. -/
theorem Routine.procedure_translated {line : Nat} {name : String} {block : Block}
    {scope : Option ScopeId}
    (translated : block.Translated options
      (declareAll means [(name, .procedure (name :: here))]) (name :: here)) :
    (Routine.mk line name .procedure block scope).Translated options means here := by
  intro l reflects
  have opens := opens_procedure l name
  have symbol := reflects.routineSymbol_eq name
  have around : Reflects options (declareAll means [(name, .procedure (name :: here))]) here
      (l.bind name (.proc (l.routineSymbol name))) := by
    rw [symbol]
    exact reflects.bind .procedure
  obtain ⟨code, globals, done, inside, nodup, isCode⟩ :=
    translated _ (reflects.openProcedure name) rfl
  cases (isCode _ (List.Subset.refl _)).globals_eq_nil
  rw [Routine.build_procedure]
  refine ⟨_, opens.close inside, around.close opens inside, ?_, fun externals sub => ?_⟩
  · exact List.forall_mem_append.mpr
      ⟨nodup, List.forall_mem_singleton.mpr (opens.nodup_places inside)⟩
  · rw [externals_closeRoutine] at sub
    have lines : (block.buildIn (l.openProcedure name)).frame.lines.toList = code := inside.lines
    rw [Routine.Code]
    refine ⟨done, _, rfl, inside.symbol.trans symbol, inside.params, inside.result, ?_⟩
    rw [lines]
    exact isCode externals sub

/-- The same step for a function. Its parameters and its name are distinct, so the slot of the
result hides no parameter. -/
theorem Routine.function_translated {line : Nat} {name : String} {params : List String}
    {block : Block} {scope : Option ScopeId} (distinct : (name :: params).Nodup)
    (translated : ∀ slot, block.Translated options
      (declareAll means (RoutineKind.meaningsInside (name :: here) name params slot))
      (name :: here)) :
    (Routine.mk line name (.function params) block scope).Translated options means here := by
  intro l reflects
  obtain ⟨slot, isResult, symbol, header, result, starts, opens, reflects'⟩ :=
    reflects.openFunction distinct
  have around : Reflects options
      (declareAll means [(name, .function (name :: here) params.length)]) here
      (l.bind name (.func (l.routineSymbol name))) := by
    rw [reflects.routineSymbol_eq name]
    exact reflects.bind .function
  obtain ⟨code, globals, done, inside, nodup, isCode⟩ := translated slot _ reflects' opens.loops
  cases (isCode _ (List.Subset.refl _)).globals_eq_nil
  rw [Routine.build_function]
  refine ⟨_, opens.close inside, around.close opens inside, ?_, fun externals sub => ?_⟩
  · exact List.forall_mem_append.mpr
      ⟨nodup, List.forall_mem_singleton.mpr (opens.nodup_places inside)⟩
  · rw [externals_closeRoutine] at sub
    have lines := inside.lines
    rw [starts] at lines
    rw [Routine.Code]
    exact ⟨done, _, slot, code, rfl, inside.symbol.trans symbol, inside.params.trans header,
      inside.result.trans result, isResult, lines, isCode externals sub⟩

/-- What a routine means to the builder is what analysis takes it for. -/
theorem RoutineKind.symbol_meaning (kind : RoutineKind) (routine : Nesting) :
    (kind.meaning routine).symbol = kind.symbol := by
  cases kind <;> rfl

/-- What a function means inside is known to analysis as it should be. -/
theorem RoutineKind.symbols_meaningsInside (means : Meanings) (routine : Nesting) (name : String)
    (params : List String) (slot : Slot) :
    Meanings.symbols (declareAll means (RoutineKind.meaningsInside routine name params slot)) =
      declareAll means.symbols ((RoutineKind.function params).symbolsInside name) := by
  rw [Meanings.symbols_declareAll, RoutineKind.meaningsInside, List.map_cons, List.map_map]
  rfl

mutual

/-- The induction over blocks and routines: constants, variables and routines are declared in this
order, and the statement is lowered where all of them are known. -/
theorem Block.Resolved.translated {means : Meanings} {here : Nesting} :
    (block : Block) → block.Resolved means.symbols → block.Translated options means here
  | { line, consts, vars, routines, body, scope }, resolved => by
    rw [Block.Resolved] at resolved
    obtain ⟨_, inConsts, inVars, inRoutines, inBody⟩ := resolved
    intro l reflects noLoop
    obtain ⟨code₁, globals₁, means₁, symbols₁, lists₁, reflects₁, isCode₁⟩ :=
      Definition.translated_all (.inl rfl) inConsts l reflects
    rw [← symbols₁] at inVars
    obtain ⟨code₂, globals₂, means₂, symbols₂, lists₂, reflects₂, isCode₂⟩ :=
      Definition.translated_all (.inr rfl) inVars _ reflects₁
    rw [declareAll_append, ← symbols₁, ← symbols₂] at inRoutines
    obtain ⟨done, means₃, symbols₃, lists₃, reflects₃, nodup, isCode₃⟩ :=
      Routine.ResolvedAll.translated routines inRoutines _ reflects₂
    rw [declareAll_append, declareAll_append, ← symbols₁, ← symbols₂, ← symbols₃] at inBody
    have before := (lists₁.trans lists₂).trans lists₃
    obtain ⟨part, rfl, writes, isCode₄⟩ := Stmt.translated_option
      (fun s mem => (inBody s mem).translated) _ reflects₃ nofun
    rw [before.loops, noLoop] at isCode₄
    have lists₄ := writes.lists (slotsOf_eq_nil (Stmt.phrase_partLines fun p mem =>
      (isCode₄ _ (List.Subset.refl _) p mem).phrase))
    have whole := before.trans lists₄
    simp only [List.append_nil, List.nil_append] at whole
    rw [Block.buildIn_eq]
    refine ⟨_, _, done, whole, nodup, fun externals sub => ?_⟩
    have sub₃ := List.Subset.trans lists₄.externals sub
    have sub₂ := List.Subset.trans lists₃.externals sub₃
    rw [Block.Code]
    exact ⟨means₁, means₂, means₃, code₁, code₂, globals₁, globals₂, part,
      isCode₁ externals (List.Subset.trans lists₂.externals sub₂), isCode₂ externals sub₂,
      isCode₃ externals sub₃, rfl, isCode₄ externals sub, rfl, rfl⟩

/-- One routine, by its kind. -/
theorem Routine.Resolved.translated {means : Meanings} {here : Nesting} :
    (r : Routine) → r.Resolved means.symbols → r.Translated options means here
  | { line, name, kind := .procedure, block, scope }, resolved => by
    rw [Routine.Resolved] at resolved
    have inside : block.Resolved
        (Meanings.symbols (declareAll means [(name, .procedure (name :: here))])) := by
      rw [Meanings.symbols_declareAll]
      exact resolved.2
    exact Routine.procedure_translated (Block.Resolved.translated block inside)
  | { line, name, kind := .function params, block, scope }, resolved => by
    rw [Routine.Resolved] at resolved
    obtain ⟨nodup, inside⟩ := resolved
    have distinct : (name :: params).Nodup := by
      simpa [RoutineKind.symbolsInside, Function.comp_def] using nodup
    refine Routine.function_translated distinct fun slot => ?_
    rw [← RoutineKind.symbols_meaningsInside means (name :: here) name params slot] at inside
    exact Block.Resolved.translated block inside

/-- Routines in order, each among the meanings that those before it leave. -/
theorem Routine.ResolvedAll.translated {means : Meanings} {here : Nesting} :
    (rs : List Routine) → Routine.ResolvedAll means.symbols rs → ∀ l,
    Reflects options means here l →
    ∃ done behind, Meanings.symbols behind = declareAll means.symbols (Routine.symbols rs) ∧
      Lists options [] [] done l (Routine.buildAll rs l) ∧
      Reflects options behind here (Routine.buildAll rs l) ∧ (∀ f ∈ done, f.places.Nodup) ∧
      ∀ externals, (Routine.buildAll rs l).externals ⊆ externals →
        Routine.CodeAll means here externals rs done behind
  | [], _, l, reflects => by
    rw [Routine.buildAll_nil]
    refine ⟨[], means, rfl, .refl l, reflects, nofun, fun _ _ => ?_⟩
    rw [Routine.CodeAll]
    exact ⟨rfl, rfl⟩
  | r :: rest, resolved, l, reflects => by
    rw [Routine.ResolvedAll] at resolved
    obtain ⟨first, others⟩ := resolved
    obtain ⟨done, lists, reflects₁, nodup, isCode⟩ := Routine.Resolved.translated r first l reflects
    have symbols : Meanings.symbols (declareAll means [(r.name, r.kind.meaning (r.name :: here))]) =
        declareAll means.symbols [(r.name, r.kind.symbol)] := by
      rw [Meanings.symbols_declareAll, List.map_singleton, RoutineKind.symbol_meaning]
    rw [← symbols] at others
    obtain ⟨finished, behind, same, lists', reflects₂, nodup', areCode⟩ :=
      Routine.ResolvedAll.translated rest others _ reflects₁
    rw [Routine.buildAll_cons]
    refine ⟨done ++ finished, behind, ?_, lists.trans lists', reflects₂,
      List.forall_mem_append.mpr ⟨nodup, nodup'⟩, fun externals sub => ?_⟩
    · rw [same, symbols]
      rfl
    · rw [Routine.CodeAll]
      exact ⟨done, finished, rfl, isCode externals (List.Subset.trans lists'.externals sub),
        areCode externals sub⟩

end

/-! ### Programs -/

theorem Options.symbols_meanings (options : Options) :
    options.meanings.symbols = options.names := by
  funext name
  rw [Meanings.symbols, Options.meanings, Options.names]
  split
  · rw [Option.map_map]
    rfl
  · rfl

/-- Before a program nothing is bound, and only runtime functions have a meaning. -/
theorem Listing.reflects_empty : Reflects options options.meanings [] {} := by
  refine ⟨fun name meaning known => ?_, rfl, rfl, nofun⟩
  have isRuntime : ∃ arity, meaning = .runtime arity := by
    rw [Options.meanings] at known
    split at known
    · obtain ⟨primitive, _, rfl⟩ := Option.map_eq_some_iff.mp known
      exact ⟨_, rfl⟩
    · cases known
  obtain ⟨arity, rfl⟩ := isRuntime
  exact .runtime known

/-- The listing of an accepted program holds the code of the program. The places of each routine are
distinct, and only runtime functions are external, in the order of their names. -/
theorem AnalyzedProgram.codeOf_listing {source : String} {p : AnalyzedProgram}
    (accepted : check options source = .ok p) :
    p.listing.CodeOf options p.program ∧ (∀ f ∈ p.listing.routines.toList, f.places.Nodup) ∧
      (∀ external ∈ p.listing.externals,
        options.meanings external.1 = some (.runtime external.2)) ∧
      InOrder p.listing.externals := by
  have resolved := (AnalyzedProgram.resolved_of_check accepted).1
  rw [← Options.symbols_meanings] at resolved
  obtain ⟨code, globals, done, lists, nodup, isCode⟩ :=
    Block.Resolved.translated p.program resolved {} reflects_empty rfl
  have built : p.program.buildIn {} = p.listing := rfl
  rw [built] at lists isCode
  have lines : p.listing.moduleFrame.lines.toList = code := by
    rw [moduleFrame, lists.outer]
    exact lists.lines
  have finished : p.listing.routines.toList = done := lists.routines
  have made : p.listing.globals.toList = globals := lists.globals
  rw [Listing.CodeOf, lines, finished, made]
  exact ⟨isCode _ (List.Subset.refl _), nodup, reflects_empty.runtime lists.imports,
    lists.imports.inOrder .nil⟩

end PlZero
