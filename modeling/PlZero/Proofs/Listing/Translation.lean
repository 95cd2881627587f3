import PlZero.Proofs.Listing.Agreement
import PlZero.Proofs.Listing.Code
import Mathlib.Data.String.Basic

/-!
The listing of an accepted program holds the code of the program.

The invariant is `Listing.Reflects`: for every name, the builder finds in its frames what the name
means. A phrase writes lines into the current frame and leaves the rest of it alone
(`Listing.Writes`); declarations add bindings, slots and globals besides, and a routine adds its
frame to the finished ones (`Listing.Lists`).

Main statement: `AnalyzedProgram.codeOf_listing`.
-/

namespace PlZero

namespace Listing

variable {options : Options} {means : Meanings} {here : Nesting} {l l' l'' : Listing}
  {name : String} {meaning : Meaning} {home : Home} {code more : List Line}

/-! ### Names in frames -/

/-- What the builder finds for a name in the routine `here` is what the name means. -/
inductive Meaning.Bound (options : Options) (here : Nesting) (name : String) :
    Meaning → Option (Nat × Binding) → Prop where
  | known {up : Nat} {value : Int32} :
      Bound options here name (.known value) (some (up, .const value))
  | kept {up : Nat} {home : Home} {place : Place} : home.SeenFrom here (place.seenFrom up) →
      Bound options here name (.kept home) (some (up, .storage place))
  | stored {up : Nat} {home : Home} {place : Place} : home.SeenFrom here (place.seenFrom up) →
      Bound options here name (.stored home) (some (up, .storage place))
  | result {up arity : Nat} {owner : Nesting} {slot : Slot} :
      (Home.slot owner slot).SeenFrom here (.slot up slot) →
      Bound options here name (.result owner slot arity) (some (up, .ret owner.symbol slot))
  | procedure {up : Nat} {routine : Nesting} :
      Bound options here name (.procedure routine) (some (up, .proc routine.symbol))
  | function {up arity : Nat} {routine : Nesting} :
      Bound options here name (.function routine arity) (some (up, .func routine.symbol))
  | runtime {arity : Nat} : options.meanings name = some (.runtime arity) →
      Bound options here name (.runtime arity) none

/-- From inside one more routine, storage is one boundary further out. -/
theorem Home.SeenFrom.further {place : Place} {up : Nat}
    (seen : home.SeenFrom here (place.seenFrom up)) (routine : String) :
    home.SeenFrom (routine :: here) (place.seenFrom (up + 1)) := by
  cases place with
  | global x =>
    cases seen
    exact .global
  | slot s =>
    cases seen with
    | @slot crossed owner _ between =>
      have longer : routine :: here = (routine :: crossed) ++ owner := by rw [between]; rfl
      exact .slot longer

/-- From a routine further in, the same meaning is found one frame further out. -/
theorem Meaning.Bound.further {found : Option (Nat × Binding)}
    (bound : meaning.Bound options here name found) (routine : String) :
    meaning.Bound options (routine :: here) name
      (found.map fun found => (found.1 + 1, found.2)) := by
  cases bound with
  | known => exact .known
  | kept seen => exact .kept (seen.further routine)
  | stored seen => exact .stored (seen.further routine)
  | @result up _ owner slot seen =>
    have placed : (Home.slot owner slot).SeenFrom here ((Place.slot slot).seenFrom up) := seen
    exact .result (placed.further routine)
  | procedure => exact .procedure
  | function => exact .function
  | runtime known => exact .runtime known

/-- In the routine `here` the builder is at work, and it finds for names what they mean. -/
structure Reflects (options : Options) (means : Meanings) (here : Nesting) (l : Listing) :
    Prop where
  names : ∀ name meaning, means name = some meaning →
    meaning.Bound options here name (l.resolve? name)
  depth : l.outer.length = here.length
  symbol : l.frame.symbol = here.symbol
  externals : ∀ external ∈ l.externals, options.meanings external.1 = some (.runtime external.2)

/-- What names mean depends on bindings, on the symbol of the routine and on the functions noted,
and on nothing else. -/
theorem Reflects.congr (reflects : Reflects options means here l)
    (bindings : l'.frame.bindings = l.frame.bindings) (outer : l'.outer = l.outer)
    (symbol : l'.frame.symbol = l.frame.symbol)
    (externals : ∀ external ∈ l'.externals,
      options.meanings external.1 = some (.runtime external.2)) :
    Reflects options means here l' := by
  constructor
  · intro name meaning known
    rw [resolve?_congr bindings outer]
    exact reflects.names name meaning known
  · rw [outer]
    exact reflects.depth
  · rw [symbol]
    exact reflects.symbol
  · exact externals

/-- A binding gives its name a meaning. -/
theorem Reflects.bind {binding : Binding} (reflects : Reflects options means here l)
    (bound : meaning.Bound options here name (some (0, binding))) :
    Reflects options (Function.update means name (some meaning)) here (l.bind name binding) := by
  constructor
  · intro other meaning' known
    rw [resolve?_bind]
    by_cases same : other = name
    · subst same
      rw [Function.update_self] at known
      cases known
      rw [if_pos rfl]
      exact bound
    · rw [Function.update_of_ne same] at known
      rw [if_neg same]
      exact reflects.names other meaning' known
  · exact reflects.depth
  · exact reflects.symbol
  · exact reflects.externals

/-! ### Runtime functions -/

/-- A runtime function is called with the arity it has. -/
theorem Options.meanings_eq_runtime {options : Options} {arity : Nat}
    (known : options.meanings name = some (.runtime arity)) :
    (Primitive.find? name).map (·.arity) = some arity := by
  rw [Options.meanings] at known
  split at known
  · obtain ⟨primitive, found, same⟩ := Option.map_eq_some_iff.mp known
    cases same
    rw [found, Option.map_some]
  · cases known

/-- What was noted stays noted. -/
theorem declareExternal_subset (name : String) (arity : Nat) (externals : List (String × Nat)) :
    externals ⊆ declareExternal name arity externals := by
  induction externals with
  | nil => exact List.nil_subset _
  | cons external rest ih =>
    rw [declareExternal]
    split
    · exact List.Subset.refl _
    · split
      · exact List.subset_cons_self _ _
      · exact List.cons_subset_cons _ ih

/-- Noting a function adds that one at most. -/
theorem mem_declareExternal {external : String × Nat} {arity : Nat}
    {externals : List (String × Nat)} (mem : external ∈ declareExternal name arity externals) :
    external ∈ externals ∨ external = (name, arity) := by
  induction externals with
  | nil => exact .inr (List.mem_singleton.mp mem)
  | cons other rest ih =>
    rw [declareExternal] at mem
    split at mem
    · exact .inl mem
    · split at mem
      · exact (List.mem_cons.mp mem).symm
      · rcases List.mem_cons.mp mem with rfl | mem
        · exact .inl List.mem_cons_self
        · exact (ih mem).imp_left (List.mem_cons_of_mem _)

/-- A runtime function that was declared before was declared with the same arity. -/
theorem self_mem_declareExternal {arity : Nat} {externals : List (String × Nat)}
    (known : options.meanings name = some (.runtime arity))
    (runtime : ∀ external ∈ externals, options.meanings external.1 = some (.runtime external.2)) :
    (name, arity) ∈ declareExternal name arity externals := by
  induction externals with
  | nil => exact List.mem_singleton_self _
  | cons other rest ih =>
    obtain ⟨first, others⟩ := List.forall_mem_cons.mp runtime
    obtain ⟨other, count⟩ := other
    rw [declareExternal]
    split
    · next same =>
      subst same
      rw [known] at first
      cases first
      exact List.mem_cons_self
    · split
      · exact List.mem_cons_self
      · exact List.mem_cons_of_mem _ (ih others)

/-- The names of external functions stand in order. -/
def InOrder (externals : List (String × Nat)) : Prop := externals.Pairwise (·.1 < ·.1)

/-- The names stay in order. -/
theorem inOrder_declareExternal {externals : List (String × Nat)} (inOrder : InOrder externals)
    (name : String) (arity : Nat) : InOrder (declareExternal name arity externals) := by
  induction externals with
  | nil => exact List.pairwise_singleton _ _
  | cons other rest ih =>
    obtain ⟨later, others⟩ := List.pairwise_cons.mp inOrder
    obtain ⟨other, count⟩ := other
    rw [declareExternal]
    split
    · exact inOrder
    · next different =>
      split
      · next before =>
        refine List.pairwise_cons.mpr ⟨?_, inOrder⟩
        intro external mem
        rcases List.mem_cons.mp mem with rfl | mem
        · exact before
        · exact before.trans (later external mem)
      · next notBefore =>
        have behind : other < name := lt_of_le_of_ne (not_lt.mp notBefore) (Ne.symm different)
        refine List.pairwise_cons.mpr ⟨?_, ih others⟩
        intro external mem
        rcases mem_declareExternal mem with mem | rfl
        · exact later external mem
        · exact behind

/-- `after` is `before` with more runtime functions. -/
structure Imports (options : Options) (before after : List (String × Nat)) : Prop where
  subset : before ⊆ after
  runtime : ∀ external ∈ after, external ∈ before ∨
    options.meanings external.1 = some (.runtime external.2)
  inOrder : InOrder before → InOrder after

theorem Imports.refl (externals : List (String × Nat)) : Imports options externals externals :=
  ⟨List.Subset.refl _, fun _ => .inl, id⟩

theorem Imports.trans {before between after : List (String × Nat)}
    (first : Imports options before between) (second : Imports options between after) :
    Imports options before after := by
  refine ⟨List.Subset.trans first.subset second.subset, fun external mem => ?_,
    fun inOrder => second.inOrder (first.inOrder inOrder)⟩
  rcases second.runtime external mem with mem | known
  · exact first.runtime external mem
  · exact .inr known

/-- Noting a runtime function adds a runtime function. -/
theorem imports_declareExternal {arity : Nat}
    (known : options.meanings name = some (.runtime arity)) (externals : List (String × Nat)) :
    Imports options externals (declareExternal name arity externals) := by
  refine ⟨declareExternal_subset name arity externals, fun external mem => ?_,
    fun inOrder => inOrder_declareExternal inOrder name arity⟩
  rcases mem_declareExternal mem with mem | rfl
  · exact .inl mem
  · exact .inr known

/-- Only runtime functions are external. -/
theorem Reflects.runtime (reflects : Reflects options means here l)
    {externals : List (String × Nat)} (imports : Imports options l.externals externals) :
    ∀ external ∈ externals, options.meanings external.1 = some (.runtime external.2) := by
  intro external mem
  rcases imports.runtime external mem with mem | known
  · exact reflects.externals external mem
  · exact known

/-! ### Lines that are written -/

def Frame.add (f : Frame) (code : List Line) : Frame := { f with lines := f.lines ++ code.toArray }

/-- From `l` to `l'` the lines `code` were written, and runtime functions may have been declared. -/
structure Writes (options : Options) (code : List Line) (l l' : Listing) : Prop where
  frame : l'.frame = l.frame.add code
  outer : l'.outer = l.outer
  routines : l'.routines = l.routines
  globals : l'.globals = l.globals
  imports : Imports options l.externals l'.externals

theorem Writes.externals (writes : Writes options code l l') : l.externals ⊆ l'.externals :=
  writes.imports.subset

theorem Frame.add_nil (f : Frame) : f.add [] = f := by
  simp [Frame.add]

theorem Frame.add_add (f : Frame) (code more : List Line) :
    (f.add code).add more = f.add (code ++ more) := by
  simp [Frame.add]

theorem Writes.refl (l : Listing) : Writes options [] l l :=
  ⟨l.frame.add_nil.symm, rfl, rfl, rfl, .refl _⟩

/-- Lines behind lines. -/
theorem Writes.trans (first : Writes options code l l') (second : Writes options more l' l'') :
    Writes options (code ++ more) l l'' := by
  constructor
  · rw [second.frame, first.frame, Frame.add_add]
  · exact second.outer.trans first.outer
  · exact second.routines.trans first.routines
  · exact second.globals.trans first.globals
  · exact first.imports.trans second.imports

theorem writes_addLine (l : Listing) (line : Line) : Writes options [line] l (l.addLine line) := by
  refine ⟨?_, rfl, rfl, rfl, .refl _⟩
  simp [addLine, Frame.add]

theorem writes_emit (l : Listing) (i : Instr) : Writes options [.instr i] l (l.emit i) :=
  writes_addLine l (.instr i)

/-- An instruction with a result is one line, which bears the number of the result. -/
theorem writes_emitResult (l : Listing) (i : Nat → Instr) :
    Writes options [.instr (i l.nextTemp)] l (l.emitResult i).2 := by
  have written : Writes options _ { l with nextTemp := l.nextTemp + 1 } (l.emitResult i).2 :=
    writes_emit _ (i l.nextTemp)
  exact ⟨written.frame, rfl, rfl, rfl, .refl _⟩

/-- Writing lines does not change what names mean. -/
theorem Reflects.writes (reflects : Reflects options means here l)
    (writes : Writes options code l l') : Reflects options means here l' := by
  apply reflects.congr
  · rw [writes.frame]
    rfl
  · exact writes.outer
  · rw [writes.frame]
    rfl
  · exact reflects.runtime writes.imports

theorem Writes.loops (writes : Writes options code l l') : l'.frame.loops = l.frame.loops := by
  rw [writes.frame]
  rfl

/-! ### Requests -/

/-- What a name is known by, from what it takes. -/
theorem Meanings.of_takes {ref : Reference} {count : Nat} (takes : ref.Takes means.symbols count) :
    ∃ meaning, means ref.name = some meaning ∧ meaning.symbol.role = ref.role ∧
      (ref.role.isCallable = true → meaning.symbol.arity = count) := by
  obtain ⟨symbol, found, same, fits⟩ := takes
  rw [Meanings.symbols, Option.map_eq_some_iff] at found
  obtain ⟨meaning, known, rfl⟩ := found
  exact ⟨meaning, known, same, fits⟩

/-- A call of something callable. -/
theorem Reflects.call (reflects : Reflects options means here l) {callee : Reference}
    {args : List Operand} (takes : callee.Takes means.symbols args.length)
    (callable : callee.role.isCallable = true) :
    ∃ symbol id, (l.call callee.name args).1 = .temp id ∧
      Writes options [.instr (.call id symbol args)] l (l.call callee.name args).2 ∧
      ∀ externals, (l.call callee.name args).2.externals ⊆ externals →
        means.Calls externals callee.name symbol args.length := by
  obtain ⟨meaning, known, role, fits⟩ := Meanings.of_takes takes
  have fits := fits callable
  have bound := reflects.names _ _ known
  rw [← role] at callable
  generalize found : l.resolve? callee.name = binding at bound
  cases bound with
  | known | kept | stored | procedure => cases callable
  | @function _ _ routine =>
    cases fits
    have made : l.call callee.name args = l.emitResult (.call · routine.symbol args) := by
      rw [Listing.call, found]
    rw [made]
    exact ⟨_, _, rfl, writes_emitResult l (.call · routine.symbol args),
      fun _ _ => .function known⟩
  | @result _ _ owner =>
    -- inside of a function its name is bound to the result, and a call still finds the function
    cases fits
    have made : l.call callee.name args = l.emitResult (.call · owner.symbol args) := by
      rw [Listing.call, found]
    rw [made]
    exact ⟨_, _, rfl, writes_emitResult l (.call · owner.symbol args), fun _ _ => .result known⟩
  | runtime isRuntime =>
    cases fits
    have made : l.call callee.name args =
        { l with externals := declareExternal callee.name args.length l.externals }.emitResult
          (.call · callee.name args) := by
      rw [Listing.call, found, Options.meanings_eq_runtime isRuntime]
      rfl
    have declared : Writes options []
        l { l with externals := declareExternal callee.name args.length l.externals } :=
      ⟨l.frame.add_nil.symm, rfl, rfl, rfl, imports_declareExternal isRuntime _⟩
    rw [made]
    refine ⟨_, _, rfl, declared.trans (writes_emitResult _ (.call · callee.name args)),
      fun externals sub => ?_⟩
    exact .runtime known (sub (self_mem_declareExternal isRuntime reflects.externals))

/-- The name of a constant that is known is answered without a line. -/
theorem name_of_const {up : Nat} {value : Int32}
    (found : l.resolve? name = some (up, .const value)) :
    l.name name .const = (some (.imm value), l) := by
  unfold Listing.name
  rw [found]

/-- The name of what is stored is answered by a load. -/
theorem name_of_storage {up : Nat} {place : Place} {role : Role}
    (isValue : role = .const ∨ role = .var)
    (found : l.resolve? name = some (up, .storage place)) :
    l.name name role =
      (some (.temp l.nextTemp), (l.emitResult (.load · (place.seenFrom up))).2) := by
  unfold Listing.name
  rw [found]
  rcases isValue with rfl | rfl <;> rfl

/-- A bare name that yields a value. -/
theorem Reflects.operand (reflects : Reflects options means here l) {ref : Reference}
    (takes : ref.Takes means.symbols 0) (yields : ref.role.yieldsValue = true) :
    ∃ operand l' code, l.name ref.name ref.role = (some operand, l') ∧ Writes options code l l' ∧
      ∀ info externals, l'.externals ⊆ externals →
        (Expr.name info ref).Code means here externals code operand := by
  obtain ⟨meaning, known, role, _⟩ := Meanings.of_takes takes
  have bound := reflects.names _ _ known
  by_cases callable : ref.role.isCallable = true
  · have takesNone : ref.Takes means.symbols ([] : List Operand).length := takes
    obtain ⟨symbol, id, value, writes, calls⟩ := reflects.call takesNone callable
    have asked : l.name ref.name ref.role =
        (some (l.call ref.name []).1, (l.call ref.name []).2) := by
      revert callable
      generalize ref.role = r
      intro callable
      cases r with
      | func | ret => rw [Listing.name]
      | _ => cases callable
    refine ⟨_, _, _, asked, writes, fun info externals sub => ?_⟩
    rw [value]
    exact .callName (calls externals sub)
  · generalize found : l.resolve? ref.name = binding at bound
    rw [← role] at yields callable ⊢
    cases bound with
    | known =>
      exact ⟨_, _, _, name_of_const found, .refl l, fun info externals _ => .known known⟩
    | kept seen =>
      exact ⟨_, _, _, name_of_storage (.inl rfl) found, writes_emitResult l (.load · _),
        fun info externals _ => .load known rfl seen⟩
    | stored seen =>
      exact ⟨_, _, _, name_of_storage (.inr rfl) found, writes_emitResult l (.load · _),
        fun info externals _ => .load known rfl seen⟩
    | procedure => cases yields
    | function | result | runtime => exact absurd rfl callable

end Listing

open Listing

variable {options : Options} {means : Meanings} {here : Nesting}

/-! ### Expressions -/

/-- Wherever names mean what they should, the expression is lowered to its code. -/
def Expr.Translated (options : Options) (means : Meanings) (here : Nesting) (e : Expr) : Prop :=
  ∀ l, Reflects options means here l → ∃ code, Writes options code l (e.build l).2 ∧
    ∀ externals, (e.build l).2.externals ⊆ externals →
      e.Code means here externals code (e.build l).1

/-- Arguments are lowered to their code one behind the other. -/
theorem Expr.translated_args {args : List Expr}
    (translated : ∀ e ∈ args, e.Translated options means here) (l : Listing)
    (reflects : Reflects options means here l) :
    ∃ parts : List (Expr × List Line × Operand), args = parts.map (·.1) ∧
      (Expr.buildArgs args l).1 = parts.map (·.2.2) ∧
      Writes options (parts.flatMap (·.2.1)) l (Expr.buildArgs args l).2 ∧
      ∀ externals, (Expr.buildArgs args l).2.externals ⊆ externals →
        ∀ part ∈ parts, part.1.Code means here externals part.2.1 part.2.2 := by
  induction args generalizing l with
  | nil =>
    rw [Expr.buildArgs_nil]
    exact ⟨[], rfl, rfl, .refl l, nofun⟩
  | cons e rest ih =>
    obtain ⟨first, others⟩ := List.forall_mem_cons.mp translated
    obtain ⟨code, writes, isCode⟩ := first l reflects
    obtain ⟨parts, same, values, writes', areCode⟩ := ih others _ (reflects.writes writes)
    rw [Expr.buildArgs_cons]
    refine ⟨(e, code, (e.build l).1) :: parts, ?_, ?_, writes.trans writes', ?_⟩
    · rw [List.map_cons, ← same]
    · rw [List.map_cons, ← values]
    · intro externals sub
      have earlier := List.Subset.trans writes'.externals sub
      exact List.forall_mem_cons.mpr ⟨isCode externals earlier, areCode externals sub⟩

/-- By induction on the resolution of the expression: its parts are lowered to their code, and the
last line, if there is one, puts them together. -/
theorem Expr.Resolved.translated {e : Expr} (resolved : e.Resolved means.symbols) :
    e.Translated options means here := by
  induction resolved with
  | odd _ ih =>
    intro l reflects
    rw [Expr.build_odd]
    obtain ⟨code, writes, isCode⟩ := ih l reflects
    generalize Expr.build _ l = built at writes isCode ⊢
    obtain ⟨_ | id, l₁⟩ := built
    · exact ⟨code, writes, fun externals sub => .oddKnown (isCode externals sub)⟩
    · exact ⟨_, writes.trans (writes_emitResult l₁ (.odd · (.temp id))),
        fun externals sub => .odd (isCode externals sub)⟩
  | @binary info op lhs rhs _ _ left right =>
    intro l reflects
    rw [Expr.build_binary]
    obtain ⟨code, writes, isCode⟩ := left l reflects
    generalize lhs.build l = built at writes isCode ⊢
    obtain ⟨a, l₁⟩ := built
    obtain ⟨code', writes', isCode'⟩ := right l₁ (reflects.writes writes)
    generalize rhs.build l₁ = built at writes' isCode' ⊢
    obtain ⟨b, l₂⟩ := built
    have both := writes.trans writes'
    have earlier {externals} (sub : l₂.externals ⊆ externals) :=
      isCode externals (List.Subset.trans writes'.externals sub)
    cases value : fold? op a b with
    | some v =>
      have made : l₂.binary op a b = (.imm v, l₂) := by rw [Listing.binary, value]
      rw [made]
      exact ⟨_, both, fun externals sub => .folded (earlier sub) (isCode' externals sub) value⟩
    | none =>
      have made : l₂.binary op a b = l₂.emitResult (.binary · op a b) := by
        rw [Listing.binary, value]
      rw [made]
      exact ⟨_, both.trans (writes_emitResult l₂ (.binary · op a b)),
        fun externals sub => .binary (earlier sub) (isCode' externals sub) value⟩
  | @call info callee args takes callable _ ih =>
    intro l reflects
    rw [Expr.build_call]
    obtain ⟨parts, rfl, values, writes, areCode⟩ := Expr.translated_args ih l reflects
    have count : (Expr.buildArgs (parts.map (·.1)) l).1.length = (parts.map (·.1)).length := by
      rw [values, List.length_map, List.length_map]
    generalize Expr.buildArgs (parts.map (·.1)) l = built at values writes areCode count ⊢
    obtain ⟨args, l₁⟩ := built
    dsimp only at values count
    rw [← count] at takes
    obtain ⟨symbol, id, value, written, calls⟩ := (reflects.writes writes).call takes callable
    refine ⟨_, writes.trans written, fun externals sub => ?_⟩
    have called := calls externals sub
    have earlier := List.Subset.trans written.externals sub
    rw [count, List.length_map] at called
    rw [value, values]
    exact .call called (areCode externals earlier)
  | @name info ref takes yields =>
    intro l reflects
    obtain ⟨operand, l', code, asked, writes, isCode⟩ := reflects.operand takes yields
    rw [Expr.build_name info asked]
    exact ⟨code, writes, isCode info⟩
  | number =>
    intro l reflects
    rw [Expr.build_number]
    exact ⟨[], .refl l, fun _ _ => .number⟩

/-! ### Statements -/

/-- Wherever names mean what they should, and there is a loop if the statement stands in one, the
statement is lowered to its code. -/
def Stmt.Translated (options : Options) (means : Meanings) (here : Nesting) (inLoop : Bool)
    (s : Stmt) : Prop :=
  ∀ l, Reflects options means here l → (inLoop = true → l.frame.loops ≠ []) →
    ∃ code, Writes options code l (s.build l) ∧
      ∀ externals, (s.build l).externals ⊆ externals →
        s.Code means here externals l.frame.loops code

variable {inLoop : Bool} {l l' l'' : Listing} {code more : List Line}

/-- Statements are lowered to their code one behind the other. -/
theorem Stmt.translated_all {body : List Stmt}
    (translated : ∀ s ∈ body, s.Translated options means here inLoop) (l : Listing)
    (reflects : Reflects options means here l) (isLoop : inLoop = true → l.frame.loops ≠ []) :
    ∃ parts : List (Stmt × List Line), body = parts.map (·.1) ∧
      Writes options (parts.flatMap (·.2)) l (Stmt.buildAll body l) ∧
      ∀ externals, (Stmt.buildAll body l).externals ⊆ externals →
        ∀ part ∈ parts, part.1.Code means here externals l.frame.loops part.2 := by
  induction body generalizing l with
  | nil =>
    rw [Stmt.buildAll_nil]
    exact ⟨[], rfl, .refl l, nofun⟩
  | cons s rest ih =>
    obtain ⟨first, others⟩ := List.forall_mem_cons.mp translated
    obtain ⟨code, writes, isCode⟩ := first l reflects isLoop
    rw [← writes.loops] at isLoop
    obtain ⟨parts, same, writes', areCode⟩ := ih others _ (reflects.writes writes) isLoop
    rw [Stmt.buildAll_cons]
    refine ⟨(s, code) :: parts, ?_, writes.trans writes', ?_⟩
    · rw [List.map_cons, ← same]
    · intro externals sub
      have earlier := List.Subset.trans writes'.externals sub
      rw [writes.loops] at areCode
      exact List.forall_mem_cons.mpr ⟨isCode externals earlier, areCode externals sub⟩

/-- A missing statement has no lines. -/
theorem Stmt.translated_option {s : Option Stmt}
    (translated : ∀ t ∈ s, t.Translated options means here inLoop) (l : Listing)
    (reflects : Reflects options means here l) (isLoop : inLoop = true → l.frame.loops ≠ []) :
    ∃ part : Option (Stmt × List Line), s = part.map (·.1) ∧
      Writes options (Stmt.partLines part) l (Stmt.buildOption s l) ∧
      ∀ externals, (Stmt.buildOption s l).externals ⊆ externals →
        ∀ p ∈ part, p.1.Code means here externals l.frame.loops p.2 := by
  cases s with
  | none =>
    rw [Stmt.buildOption_none]
    exact ⟨none, rfl, .refl l, nofun⟩
  | some s =>
    obtain ⟨code, writes, isCode⟩ := translated s rfl l reflects isLoop
    rw [Stmt.buildOption_some]
    refine ⟨some (s, code), rfl, writes, fun externals sub => ?_⟩
    rintro _ ⟨⟩
    exact isCode externals sub

namespace Listing

theorem writes_place (l : Listing) (id : Nat) : Writes options [.label id] l (l.place id) :=
  writes_addLine l (.label id)

/-- The lines that open an `if`. -/
theorem writes_openIf (l : Listing) (cond : Operand) (hasElse : Bool) :
    Writes options
      [.instr (.branch cond l.nextLabel (if hasElse then l.nextLabel + 1 else l.nextLabel + 2)),
        .label l.nextLabel] l (l.openIf cond hasElse).2 := by
  have opened : Writes options _ l.freshLabel.2.freshLabel.2.freshLabel.2
      (l.openIf cond hasElse).2 := (writes_emit _ _).trans (writes_place _ _)
  exact ⟨opened.frame, rfl, rfl, rfl, opened.imports⟩

/-- The lines at the end of a branch. -/
theorem writes_leaveBranch (l : Listing) (target label : Nat) :
    Writes options [.instr (.jump target), .label label] l (l.leaveBranch target label) :=
  (writes_emit l _).trans (writes_place _ label)

/-- A loop, given what its condition and its body write. Its own labels are open in the body only.
-/
theorem Writes.loop {value : Operand} (cond : Writes options code l.openLoop.2 l')
    (body : Writes options more (loopBody l l' value) l'') :
    Writes options ([.instr (.jump l.nextLabel), .label l.nextLabel] ++ code ++
      [.instr (.branch value (l.nextLabel + 1) (l.nextLabel + 2)), .label (l.nextLabel + 1)] ++
      more ++ [.instr (.jump l.nextLabel), .label (l.nextLabel + 2)]) l (loopEnd l l'') := by
  constructor
  · have opened : l'.frame =
        (l.frame.add [.instr (.jump l.nextLabel), .label l.nextLabel]).add code := by
      rw [cond.frame]
      simp [openLoop, freshLabel, emit, place, addLine, Frame.add]
    have inside : l''.frame = { l'.frame with
        lines := l'.frame.lines ++ ([Line.instr (.branch value (l.nextLabel + 1)
          (l.nextLabel + 2)), .label (l.nextLabel + 1)] ++ more).toArray
        loops := ⟨l.nextLabel, l.nextLabel + 2⟩ :: l'.frame.loops } := by
      rw [body.frame]
      simp [loopBody, openLoopBody, emit, place, addLine, Frame.add]
    simp [loopEnd, closeLoop, emit, place, addLine, inside, opened, Frame.add]
  · exact body.outer.trans cond.outer
  · exact body.routines.trans cond.routines
  · exact body.globals.trans cond.globals
  · exact cond.imports.trans body.imports

/-- Opening a loop binds nothing. -/
theorem Reflects.openLoop (reflects : Reflects options means here l) :
    Reflects options means here l.openLoop.2 :=
  reflects.congr rfl rfl rfl reflects.externals

theorem Reflects.loopBody (reflects : Reflects options means here l') (value : Operand) :
    Reflects options means here (Listing.loopBody l l' value) :=
  reflects.congr rfl rfl rfl reflects.externals

/-- An assignment is a store to where the name means it to go. -/
theorem Reflects.assign (reflects : Reflects options means here l) {target : Reference}
    {count : Nat} (takes : target.Takes means.symbols count)
    (assignable : target.role.isAssignable = true) (value : Operand) :
    ∃ meaning home address, means target.name = some meaning ∧ meaning.assignable? = some home ∧
      home.SeenFrom here address ∧
      l.assign target.name value = l.emit (.store address value) := by
  obtain ⟨meaning, known, role, _⟩ := Meanings.of_takes takes
  have bound := reflects.names _ _ known
  rw [← role] at assignable
  generalize found : l.resolve? target.name = binding at bound
  cases bound with
  | known | kept | procedure | function | runtime => cases assignable
  | stored seen =>
    refine ⟨_, _, _, known, rfl, seen, ?_⟩
    rw [Listing.assign, found]
  | result seen =>
    refine ⟨_, _, _, known, rfl, seen, ?_⟩
    rw [Listing.assign, found]

/-- The bare name of a procedure runs it. -/
theorem Reflects.run (reflects : Reflects options means here l) {ref : Reference}
    {count : Nat} (takes : ref.Takes means.symbols count) (isProc : ref.role = .proc) :
    ∃ routine, means ref.name = some (.procedure routine) ∧
      (l.name ref.name ref.role).2 = l.emit (.run routine.symbol) := by
  obtain ⟨meaning, known, role, _⟩ := Meanings.of_takes takes
  have bound := reflects.names _ _ known
  rw [isProc] at role ⊢
  generalize found : l.resolve? ref.name = binding at bound
  cases bound with
  | procedure =>
    refine ⟨_, known, ?_⟩
    unfold Listing.name
    rw [found]
  | known | kept | stored | function | result | runtime => cases role

end Listing

/-- By induction on the resolution of the statement. A loop is on the stack of loops while its body
is lowered, so `break` and `continue` in it go to its labels. -/
theorem Stmt.Resolved.translated {s : Stmt} (resolved : s.Resolved means.symbols inLoop) :
    s.Translated options means here inLoop := by
  induction resolved with
  | @assign _ info target value _ takes assignable inner =>
    intro l reflects _
    rw [Stmt.build_assign]
    obtain ⟨code, writes, isCode⟩ := inner.translated l reflects
    generalize value.build l = built at writes isCode ⊢
    obtain ⟨operand, l₁⟩ := built
    obtain ⟨meaning, home, address, known, goes, seen, stored⟩ :=
      (reflects.writes writes).assign takes assignable operand
    rw [stored]
    exact ⟨_, writes.trans (writes_emit l₁ _),
      fun externals sub => .assign (isCode externals sub) known goes seen⟩
  | @sequence _ info body _ ih =>
    intro l reflects isLoop
    rw [Stmt.build_sequence]
    obtain ⟨parts, rfl, writes, areCode⟩ := Stmt.translated_all ih l reflects isLoop
    exact ⟨_, writes, fun externals sub => .sequence (areCode externals sub)⟩
  | @ifThen _ info cond thenBranch elseBranch inner _ _ inThen inElse =>
    intro l reflects isLoop
    obtain ⟨code, writes, isCode⟩ := inner.translated l reflects
    cases elseBranch with
    | none =>
      rw [Stmt.build_ifThen]
      generalize cond.build l = built at writes isCode ⊢
      obtain ⟨operand, l₁⟩ := built
      dsimp only at writes ⊢
      have opened := writes.trans (writes_openIf l₁ operand false)
      obtain ⟨part, rfl, written, areCode⟩ := Stmt.translated_option inThen _
        (reflects.writes opened) (by rwa [opened.loops])
      rw [opened.loops] at areCode
      have whole := (opened.trans written).trans (writes_leaveBranch _ (l₁.nextLabel + 2)
        (l₁.nextLabel + 2))
      refine ⟨_, whole, fun externals sub => ?_⟩
      exact .ifThen (isCode externals (List.Subset.trans written.externals sub))
        (areCode externals sub)
    | some elseBranch =>
      rw [Stmt.build_ifThenElse]
      generalize cond.build l = built at writes isCode ⊢
      obtain ⟨operand, l₁⟩ := built
      dsimp only at writes ⊢
      have opened := writes.trans (writes_openIf l₁ operand true)
      obtain ⟨part, rfl, written, areCode⟩ := Stmt.translated_option inThen _
        (reflects.writes opened) (by rwa [opened.loops])
      rw [opened.loops] at areCode
      have between := (opened.trans written).trans (writes_leaveBranch _ (l₁.nextLabel + 2)
        (l₁.nextLabel + 1))
      obtain ⟨elseCode, written', isElse⟩ := inElse elseBranch rfl _ (reflects.writes between)
        (by rwa [between.loops])
      rw [between.loops] at isElse
      have whole := (between.trans written').trans (writes_leaveBranch _ (l₁.nextLabel + 2)
        (l₁.nextLabel + 2))
      refine ⟨_, whole, fun externals sub => ?_⟩
      have earlier := List.Subset.trans written'.externals sub
      exact .ifThenElse (isCode externals (List.Subset.trans written.externals earlier))
        (areCode externals earlier) (isElse externals sub)
  | @whileDo _ info cond body inner _ ih =>
    intro l reflects isLoop
    rw [Stmt.build_whileDo]
    obtain ⟨code, writes, isCode⟩ := inner.translated _ reflects.openLoop
    have opened := reflects.openLoop.writes writes
    have loops : (cond.build l.openLoop.2).2.frame.loops = l.frame.loops := writes.loops
    generalize cond.build l.openLoop.2 = built at writes isCode opened loops ⊢
    obtain ⟨operand, l₁⟩ := built
    dsimp only at writes opened loops ⊢
    have inside : (loopBody l l₁ operand).frame.loops =
        ⟨l.nextLabel, l.nextLabel + 2⟩ :: l₁.frame.loops := rfl
    obtain ⟨part, rfl, written, areCode⟩ := Stmt.translated_option ih _ (opened.loopBody operand)
      (fun _ => by rw [inside]; exact List.cons_ne_nil _ _)
    rw [inside, loops] at areCode
    refine ⟨_, writes.loop written, fun externals sub => ?_⟩
    exact .whileDo (isCode externals (List.Subset.trans written.externals sub))
      (areCode externals sub)
  | asm =>
    intro l reflects _
    rw [Stmt.build_asm]
    exact ⟨_, writes_emit l _, fun _ _ => .asm⟩
  | @control info exit =>
    intro l reflects isLoop
    obtain ⟨loop, loops, open_⟩ := List.exists_cons_of_ne_nil (isLoop rfl)
    rw [Stmt.build_control, control_of_loop open_, open_]
    have jumped : Writes options _ l (l.emit (.jump (loop.target exit))) := writes_emit l _
    have taken : Writes options [.instr (.jump (loop.target exit))] l
        (l.emit (.jump (loop.target exit))).freshLabel.2 :=
      ⟨jumped.frame, rfl, rfl, rfl, jumped.imports⟩
    exact ⟨_, taken.trans (writes_place _ _), fun _ _ => .control⟩
  | @call _ info callee args takes callable inner =>
    intro l reflects _
    have whole : (Expr.call { line := info.line } callee args).Resolved means.symbols :=
      .call takes callable inner
    obtain ⟨code, writes, isCode⟩ := whole.translated l reflects
    rw [Expr.build_call] at writes isCode
    rw [Stmt.build_call]
    exact ⟨code, writes, fun externals sub => .call (isCode externals sub)⟩
  | @name _ info ref takes kind =>
    intro l reflects _
    rw [Stmt.build_name]
    rcases kind with isProc | yields
    · obtain ⟨routine, known, made⟩ := reflects.run takes isProc
      rw [made]
      exact ⟨_, writes_emit l _, fun _ _ => .run known⟩
    · obtain ⟨operand, l', code, asked, writes, isCode⟩ := reflects.operand takes yields
      rw [asked]
      exact ⟨code, writes, fun externals sub => .name (isCode { line := info.line } externals sub)⟩

end PlZero
