import PlZero.Proofs.Analysis.Classes
import PlZero.Proofs.Listing.Agreement
import PlZero.Proofs.Listing.Visits

/-!
Constant folding. The listing builder yields a known integer for an expression exactly if the
expression is of the class of a constant and has a value; then nothing is added to the listing. In
any other case it yields a temporary.

Analysis classifies by the roles of names, and the builder folds what it finds bound to integers.
`Tracks` holds the two together. A constant that divides by zero is of the class of a constant but
bound to storage, and so is every constant that uses it, in whatever scope or routine.

Main statement: `AnalyzedProgram.visits_folded`.
-/

namespace PlZero

open Listing

variable {options : Options} {env : Env} {known : Constants} {l l' : Listing} {name : String}

/-! ### What is known and what is declared -/

namespace Constants

theorem hide_nil (known : Constants) : known.hide [] = known := by
  funext name
  simp only [hide, List.not_mem_nil, if_false]

theorem hide_singleton (known : Constants) (name : String) :
    known.hide [name] = Function.update known name (.error .notConstant) := by
  funext other
  simp only [hide, List.mem_singleton, Function.update_apply]

/-- Names may be hidden one section after the other. -/
theorem hide_hide (known : Constants) (names others : List String) :
    (known.hide names).hide others = known.hide (names ++ others) := by
  funext name
  simp only [hide, List.mem_append]
  by_cases later : name ∈ others
  · rw [if_pos later, if_pos (.inr later)]
  · simp only [later, if_false, or_false]

/-- Every constant has a value, or divides by zero. -/
def Covers (known : Constants) (env : Env) : Prop :=
  ∀ name, env name = some .const → known name ≠ .error .notConstant

/-- A declaration keeps what is known in step with what is declared, if a constant has a value or
divides by zero. -/
theorem Covers.update (covers : known.Covers env) {role : Role} {found : Except Obstacle Int32}
    (fits : role = .const → found ≠ .error .notConstant) :
    Covers (Function.update known name found) (declareAll env [(name, role)]) := by
  intro other stands
  rw [declareAll_cons, declareAll_nil] at stands
  by_cases same : other = name
  · subst same
    rw [Function.update_self] at stands ⊢
    exact fits (Option.some.inj stands)
  · rw [Function.update_of_ne same] at stands ⊢
    exact covers other stands

/-- Other declarations than those of constants hide constants. -/
theorem Covers.hide (covers : known.Covers env) (entries : List (String × Role))
    (others : ∀ entry ∈ entries, entry.2 ≠ .const) :
    Covers (known.hide (entries.map Prod.fst)) (declareAll env entries) := by
  induction entries generalizing known env with
  | nil =>
    rw [List.map_nil, hide_nil]
    exact covers
  | cons entry entries ih =>
    obtain ⟨first, rest⟩ := List.forall_mem_cons.mp others
    have declared : Covers (known.hide [entry.1]) (declareAll env [entry]) := by
      rw [hide_singleton]
      exact covers.update fun isConst => absurd isConst first
    have whole := ih declared rest
    rwa [hide_hide] at whole

end Constants

/-! ### What is known and what is bound -/

/-- The names bound to integers are the constants that have a value. -/
def Listing.Folds (known : Constants) (l : Listing) : Prop :=
  ∀ name value, known name = .ok value ↔ ∃ up, l.resolve? name = some (up, .const value)

namespace Listing

/-- Steps that bind nothing leave the integers bound to names as they are. -/
theorem Folds.congr (folds : Folds known l) (bindings : l'.frame.bindings = l.frame.bindings)
    (outer : l'.outer = l.outer) : Folds known l' := by
  intro name value
  rw [resolve?_congr bindings outer]
  exact folds name value

/-- A name is bound to an integer just if that is its value. -/
theorem Folds.bind (folds : Folds known l) {found : Except Obstacle Int32} {binding : Binding}
    (same : ∀ value, found = .ok value ↔ binding = .const value) :
    Folds (Function.update known name found) (l.bind name binding) := by
  intro other value
  rw [resolve?_bind]
  by_cases here : other = name
  · subst here
    rw [Function.update_self, if_pos rfl, same]
    constructor
    · rintro rfl
      exact ⟨0, rfl⟩
    · rintro ⟨up, found⟩
      exact congrArg Prod.snd (Option.some.inj found)
  · rw [Function.update_of_ne here, if_neg here]
    exact folds other value

/-- A binding to anything but an integer hides a constant. -/
theorem Folds.bind_other (folds : Folds known l) {binding : Binding}
    (other : ∀ value, binding ≠ .const value) :
    Folds (known.hide [name]) (l.bind name binding) := by
  rw [Constants.hide_singleton]
  refine folds.bind fun value => ⟨?_, fun isConst => absurd isConst (other value)⟩
  rintro ⟨⟩

theorem Folds.open (folds : Folds known l) {frame : Frame} (empty : frame.bindings = []) :
    Folds known { l with frame := frame, outer := l.frame :: l.outer } := by
  intro name value
  rw [resolve?_open l empty, folds name value]
  constructor
  · rintro ⟨up, found⟩
    exact ⟨up + 1, by rw [found]; rfl⟩
  · rintro ⟨up, found⟩
    obtain ⟨⟨up', binding⟩, found', same⟩ := Option.map_eq_some_iff.mp found
    cases same
    exact ⟨up', found'⟩

/-- Parameters hide constants of their names. -/
theorem Folds.bindParams (folds : Folds known l) (params : List String) :
    Folds (known.hide params) (l.bindParams params) := by
  induction params generalizing known l with
  | nil =>
    rw [Constants.hide_nil]
    exact folds
  | cons param params ih =>
    have first : Folds (known.hide [param])
        ((l.freshSlot param).2.bind param (.storage (.slot (l.freshSlot param).1))) :=
      (folds.congr rfl rfl).bind_other (by rintro _ ⟨⟩)
    have whole := ih first
    rwa [Constants.hide_hide] at whole

/-- In the frame of a function its name and its parameters hide constants. -/
theorem Folds.openFunction (folds : Folds known l) (name : String) (params : List String) :
    Folds (known.hide (name :: params)) (l.openFunction name params) := by
  have around : Folds (known.hide [name]) (l.bind name (.func (l.routineSymbol name))) :=
    folds.bind_other (by rintro _ ⟨⟩)
  have inside : Folds _ (l.functionFrame name params) := around.open rfl
  obtain ⟨l₁, symbol, slot, opened, keeps⟩ := openFunction_eq_bind l name params
  have result : Folds _ (l₁.bind name (.ret symbol slot)) :=
    ((inside.bindParams params).congr keeps.bindings keeps.outer).bind_other (by rintro _ ⟨⟩)
  -- The name is hidden twice, by the function and by its result.
  have hides : ((known.hide [name]).hide params).hide [name] = known.hide (name :: params) := by
    rw [Constants.hide_hide, Constants.hide_hide]
    funext other
    simp only [Constants.hide, List.mem_append, List.mem_cons, List.not_mem_nil, or_false]
    congr 1
    simp only [eq_iff_iff]
    tauto
  rw [opened, ← hides]
  exact result

/-! ### The invariant -/

/-- Names are bound to what their roles say, and the constants that are known are those that are
declared, bound to their values if they have any. -/
structure Tracks (options : Options) (env : Env) (known : Constants) (l : Listing) : Prop where
  fits : Fits options env l
  covers : known.Covers env
  folds : Folds known l

theorem Tracks.congr (tracks : Tracks options env known l)
    (bindings : l'.frame.bindings = l.frame.bindings) (outer : l'.outer = l.outer) :
    Tracks options env known l' :=
  ⟨tracks.fits.congr bindings outer, tracks.covers, tracks.folds.congr bindings outer⟩

/-- Steps that bind nothing leave everything tracked. -/
theorem Tracks.keeps (tracks : Tracks options env known l) (keeps : Keeps l l') :
    Tracks options env known l' := tracks.congr keeps.bindings keeps.outer

/-- A variable hides a constant of its name, on both sides. -/
theorem Tracks.storage (tracks : Tracks options env known l) (name : String)
    (init : Option Operand) :
    Tracks options (declareAll env [(name, .var)]) (known.hide [name]) (l.storage name init) := by
  obtain ⟨l₁, place, stored, effects⟩ := storage_eq_bind l name init
  refine ⟨(declared_storage tracks.fits (.refl l) init fun _ => .var).fits,
    tracks.covers.hide [(name, .var)] (by simp), ?_⟩
  rw [stored]
  exact (tracks.keeps effects.keeps).folds.bind_other (by rintro _ ⟨⟩)

/-- In the frame around a routine its name is bound to the routine. -/
theorem Tracks.routine (tracks : Tracks options env known l) (name : String) {role : Role}
    {binding : Binding} (agrees : Agrees options name role (some (0, binding)))
    (notConst : role ≠ .const) (other : ∀ value, binding ≠ .const value) :
    Tracks options (declareAll env [(name, role)]) (known.hide [name]) (l.bind name binding) :=
  ⟨tracks.fits.bind agrees, tracks.covers.hide [(name, role)] (by simpa using notConst),
    tracks.folds.bind_other other⟩

/-- The block of a procedure sees the constants around it, but for one of its name. -/
theorem Tracks.openProcedure (tracks : Tracks options env known l) (name : String) :
    Tracks options (declareAll env [(name, .proc)]) (known.hide [name]) (l.openProcedure name) := by
  have around : Tracks options _ _ (l.bind name (.proc (l.routineSymbol name))) :=
    tracks.routine name .proc (by decide) (by rintro _ ⟨⟩)
  exact ⟨around.fits.open rfl, around.covers, around.folds.open rfl⟩

/-- The block of a function sees the constants around it, but for those of its name and its
parameters. -/
theorem Tracks.openFunction (tracks : Tracks options env known l) {params : List String}
    (distinct : name ∉ params) :
    Tracks options (declareAll env ((RoutineKind.function params).inside name))
      (known.hide (name :: params)) (l.openFunction name params) := by
  refine ⟨(declared_openFunction tracks.fits distinct).fits, ?_,
    tracks.folds.openFunction name params⟩
  have hidden := tracks.covers.hide ((RoutineKind.function params).inside name)
    (by simp [RoutineKind.inside])
  simpa [RoutineKind.inside, Function.comp_def] using hidden

/-- Behind a routine the frame around it is the current one again. -/
theorem Tracks.closeRoutine {around : Listing} (tracks : Tracks options env known around)
    (same : l'.outer = around.frame :: around.outer) :
    Tracks options env known l'.closeRoutine := by
  rw [Listing.closeRoutine, same]
  exact tracks.congr rfl rfl

end Listing

/-! ### Expressions -/

/-- The operand of an expression is its value, if it has one, and then nothing is added to the
listing. Otherwise it is a temporary. -/
def Expr.FoldedAt (known : Constants) (l : Listing) (e : Expr) : Prop :=
  match e.evaluate known with
  | .ok value => e.build l = (.imm value, l)
  | .error _ => ∃ id, (e.build l).1 = .temp id

theorem Expr.FoldedAt.of_ok {e : Expr} {value : Int32} (folded : e.FoldedAt known l)
    (isOk : e.evaluate known = .ok value) : e.build l = (.imm value, l) := by
  rwa [FoldedAt, isOk] at folded

theorem Expr.FoldedAt.of_error {e : Expr} {obstacle : Obstacle} (folded : e.FoldedAt known l)
    (isError : e.evaluate known = .error obstacle) : ∃ id, (e.build l).1 = .temp id := by
  rwa [FoldedAt, isError] at folded

/-- The result of a call is never known. -/
theorem Listing.call_temp (l : Listing) (name : String) (args : List Operand) :
    ∃ id, (l.call name args).1 = .temp id := by
  unfold call
  split <;> exact ⟨_, rfl⟩

/-- An operand that is known is folded, any other has to be tested by an instruction. -/
theorem Expr.foldedAt_odd (info : ExprInfo) {operand : Expr} (inner : operand.FoldedAt known l) :
    (Expr.odd info operand).FoldedAt known l := by
  unfold FoldedAt
  rw [Expr.build_odd, Expr.evaluate]
  cases outcome : operand.evaluate known with
  | ok value =>
    rw [inner.of_ok outcome]
    exact congrArg (fun result => (Operand.imm result, l)) (oddValue_eq value)
  | error obstacle =>
    obtain ⟨id, isTemp⟩ := inner.of_error outcome
    rw [isTemp]
    exact ⟨_, rfl⟩

/-- An operation on an operand that is not known has a temporary as its result. -/
theorem Listing.binary_temp (l : Listing) (op : BinaryOp) {lhs rhs : Operand}
    (unknown : (∃ id, lhs = .temp id) ∨ ∃ id, rhs = .temp id) :
    ∃ id, (l.binary op lhs rhs).1 = .temp id := by
  have unfolded : fold? op lhs rhs = none := by
    rcases unknown with ⟨id, rfl⟩ | ⟨id, rfl⟩
    · rfl
    · cases lhs <;> rfl
  rw [binary, unfolded]
  exact ⟨_, rfl⟩

/-- An operation is folded just if both operands are known and it has a value. Where an operand is
not known, or the divisor is zero, there is an instruction. -/
theorem Expr.foldedAt_binary (info : ExprInfo) (op : BinaryOp) {lhs rhs : Expr}
    (left : lhs.FoldedAt known l) (right : rhs.FoldedAt known l) :
    (Expr.binary info op lhs rhs).FoldedAt known l := by
  unfold FoldedAt
  rw [Expr.build_binary]
  cases leftOutcome : lhs.evaluate known with
  | error obstacle =>
    rw [Expr.evaluate, leftOutcome]
    exact binary_temp _ op (.inl (left.of_error leftOutcome))
  | ok a =>
    rw [left.of_ok leftOutcome]
    cases rightOutcome : rhs.evaluate known with
    | error obstacle =>
      rw [Expr.evaluate, leftOutcome, rightOutcome]
      exact binary_temp _ op (.inr (right.of_error rightOutcome))
    | ok b =>
      rw [Expr.evaluate_binary leftOutcome rightOutcome, right.of_ok rightOutcome, Listing.binary,
        fold?]
      cases op.eval a b with
      | some value => rfl
      | none => exact ⟨_, rfl⟩

/-- A name that yields a value yields the integer it is bound to, or else a temporary. -/
theorem Listing.name_cases {role : Role} (agrees : Agrees options name role (l.resolve? name))
    (yields : role.yieldsValue = true) :
    (∃ up value, l.resolve? name = some (up, .const value) ∧ role = .const ∧
      l.name name role = (some (.imm value), l)) ∨
    (∀ up value, l.resolve? name ≠ some (up, .const value)) ∧
      ∃ id l', l.name name role = (some (.temp id), l') := by
  obtain ⟨id, isTemp⟩ := call_temp l name []
  have called : (some (l.call name []).1, (l.call name []).2) =
      (some (.temp id), (l.call name []).2) := by rw [isTemp]
  unfold Listing.name
  generalize l.resolve? name = found at agrees ⊢
  cases agrees with
  | const => exact .inl ⟨_, _, rfl, rfl, rfl⟩
  | kept | var => exact .inr ⟨by rintro _ _ ⟨⟩, _, _, rfl⟩
  | ret | func | runtime => exact .inr ⟨by rintro _ _ ⟨⟩, id, _, called⟩
  | proc => cases yields

/-- A name is folded just if it is a constant whose value is known. -/
theorem Expr.foldedAt_name (info : ExprInfo) {ref : Reference} (tracks : Tracks options env known l)
    (resolved : ref.ResolvedIn env) (yields : ref.role.yieldsValue = true) :
    (Expr.name info ref).FoldedAt known l := by
  unfold FoldedAt
  rw [Expr.evaluate]
  rcases name_cases (tracks.fits.agrees resolved) yields with
    ⟨up, value, found, -, answered⟩ | ⟨other, id, l', answered⟩
  · rw [(tracks.folds ref.name value).mpr ⟨up, found⟩]
    exact Expr.build_name info answered
  · rw [Expr.build_name info answered]
    cases outcome : known ref.name with
    | error obstacle => exact ⟨id, rfl⟩
    | ok value =>
      obtain ⟨up, found⟩ := (tracks.folds ref.name value).mp outcome
      exact absurd found (other up value)

/-- By induction on the scoping of the expression. While its parts have values nothing is added, so
all of them are lowered on the same listing. -/
theorem Expr.Scoped.foldedAt {e : Expr} (inScope : e.Scoped env)
    (tracks : Tracks options env known l) : e.FoldedAt known l := by
  induction inScope with
  | odd _ inner => exact foldedAt_odd _ inner
  | binary _ _ left right => exact foldedAt_binary _ _ left right
  | call _ _ _ _ =>
    unfold FoldedAt
    rw [Expr.build_call, Expr.evaluate]
    exact call_temp _ _ _
  | name resolved yields => exact foldedAt_name _ tracks resolved yields
  | number =>
    unfold FoldedAt
    rw [Expr.build_number, Expr.evaluate]
    rfl

/-! Classes against values. -/

/-- An expression of the class of a constant has a value, or divides by zero. -/
theorem Expr.Scoped.evaluate_ne {e : Expr} (inScope : e.Scoped env) (covers : known.Covers env)
    (classed : e.Classed) (isConst : e.info.result = .const) :
    e.evaluate known ≠ .error .notConstant := by
  induction inScope with
  | odd _ ih =>
    cases classed with
    | odd inner iff => exact Expr.evaluate_odd_ne (ih inner (iff.mp isConst))
  | binary _ _ left right =>
    cases classed with
    | binary leftClassed rightClassed iff =>
      obtain ⟨leftConst, rightConst⟩ := iff.mp isConst
      exact Expr.evaluate_binary_ne (left leftClassed leftConst) (right rightClassed rightConst)
  | call _ _ _ _ =>
    cases classed with
    | call notConst _ => exact absurd isConst notConst
  | name resolved yields =>
    cases classed with
    | name iff =>
      rw [Expr.evaluate]
      refine covers _ ?_
      rw [← iff.mp isConst]
      exact resolved
  | number =>
    rw [Expr.evaluate]
    rintro ⟨⟩

/-- An expression with a value is of the class of a constant. -/
theorem Expr.Scoped.const_of_evaluate {e : Expr} (inScope : e.Scoped env)
    (tracks : Tracks options env known l) (classed : e.Classed) {value : Int32}
    (isOk : e.evaluate known = .ok value) : e.info.result = .const := by
  induction inScope generalizing value with
  | odd _ ih =>
    cases classed with
    | odd inner iff =>
      obtain ⟨a, operandOk⟩ := Expr.ok_of_evaluate_odd isOk
      exact iff.mpr (ih inner operandOk)
  | binary _ _ left right =>
    cases classed with
    | binary leftClassed rightClassed iff =>
      obtain ⟨⟨a, leftOk⟩, b, rightOk⟩ := Expr.ok_of_evaluate_binary isOk
      exact iff.mpr ⟨left leftClassed leftOk, right rightClassed rightOk⟩
  | call _ _ _ _ => cases isOk
  | name resolved yields =>
    cases classed with
    | name iff =>
      obtain ⟨up, found⟩ := (tracks.folds _ value).mp isOk
      rcases name_cases (tracks.fits.agrees resolved) yields with
        ⟨_, _, _, isConst, _⟩ | ⟨other, _⟩
      · exact iff.mpr isConst
      · exact absurd found (other up value)
  | number =>
    cases classed with
    | number isConst => exact isConst

/-! ### Visits -/

/-- The operand of the visit is the value of its expression just if the expression is of the class
of a constant and no division by zero is in the way, and then nothing is added to the listing. In
any other case the operand is a temporary. -/
structure Visit.Folded (v : Visit) : Prop where
  lowered : (v.operand, v.after) = v.expr.build v.before
  imm_iff : (∃ value, v.operand = .imm value) ↔
    v.expr.info.result = .const ∧ v.expr.evaluate v.known ≠ .error .divisionByZero
  value : ∀ value, v.operand = .imm value →
    v.expr.evaluate v.known = .ok value ∧ v.after = v.before
  temp : ¬(v.expr.info.result = .const ∧ v.expr.evaluate v.known ≠ .error .divisionByZero) →
    ∃ id, v.operand = .temp id

/-- The visit is to an expression where names are tracked. -/
def Visit.Tracked (options : Options) (v : Visit) : Prop :=
  (v.operand, v.after) = v.expr.build v.before ∧
    ∃ env, v.expr.Scoped env ∧ Tracks options env v.known v.before

/-- Where names are tracked the class of an expression decides whether it is folded, a division by
zero apart. -/
theorem Visit.Tracked.folded {v : Visit} (tracked : v.Tracked options) (classed : v.expr.Classed) :
    v.Folded := by
  obtain ⟨lowered, env, inScope, tracks⟩ := tracked
  have folded := inScope.foldedAt tracks
  cases outcome : v.expr.evaluate v.known with
  | ok value =>
    have built := lowered.trans (folded.of_ok outcome)
    obtain ⟨operand, after⟩ := Prod.mk.inj built
    have isConst := inScope.const_of_evaluate tracks classed outcome
    have holds : v.expr.info.result = .const ∧ v.expr.evaluate v.known ≠ .error .divisionByZero :=
      ⟨isConst, by rw [outcome]; rintro ⟨⟩⟩
    refine ⟨lowered, ⟨fun _ => holds, fun _ => ⟨value, operand⟩⟩, fun other isImm => ?_,
      fun fails => absurd holds fails⟩
    rw [operand] at isImm
    exact ⟨outcome.trans (congrArg _ (Operand.imm.inj isImm)), after⟩
  | error obstacle =>
    obtain ⟨id, isTemp⟩ := folded.of_error outcome
    have operand : v.operand = .temp id := (congrArg Prod.fst lowered).trans isTemp
    have notImm (value : Int32) : v.operand ≠ .imm value := by
      rw [operand]
      rintro ⟨⟩
    refine ⟨lowered, ⟨?_, ?_⟩, fun value isImm => absurd isImm (notImm value),
      fun _ => ⟨id, operand⟩⟩
    · rintro ⟨value, isImm⟩
      exact absurd isImm (notImm value)
    · rintro ⟨isConst, noDivision⟩
      have covered := inScope.evaluate_ne tracks.covers classed isConst
      rw [outcome] at noDivision covered
      cases obstacle with
      | divisionByZero => exact absurd rfl noDivision
      | notConstant => exact absurd rfl covered

/-! ### Lowering with visits, expression by expression -/

/-- Lowering the expression notes visits where names are tracked. -/
def Expr.Noted (options : Options) (env : Env) (known : Constants) (e : Expr) : Prop :=
  ∀ l, Tracks options env known l →
    Notes (Visit.Tracked options) (e.lowerWith (noteVisit known) builder) (e.lower builder) l
      e.values

/-- A visit to an expression, with those inside it. -/
theorem Expr.Noted.visited {e : Expr} (noted : e.Noted options env known) (inScope : e.Scoped env)
    (place : ValueUse) (tracks : Tracks options env known l) :
    Notes (Visit.Tracked options) (noteVisit known place e (e.lowerWith (noteVisit known) builder))
      (e.lower builder) l ((place, e) :: e.values) :=
  (noted l tracks).visit ⟨rfl, env, inScope, tracks⟩

/-- Each argument is visited on the listing that the one before it leaves. -/
theorem Expr.notes_lowerArgsWith {args : List Expr} (inScope : ∀ e ∈ args, e.Scoped env)
    (noted : ∀ e ∈ args, e.Noted options env known) (l : Listing)
    (tracks : Tracks options env known l) :
    Notes (Visit.Tracked options) (Expr.lowerArgsWith (noteVisit known) builder args)
      (Expr.lowerArgs builder args) l (Expr.valuesAll args) := by
  induction args generalizing l with
  | nil =>
    rw [Expr.lowerArgsWith, Expr.lowerArgs, Expr.valuesAll]
    exact notes_pure []
  | cons e rest ih =>
    obtain ⟨first, others⟩ := List.forall_mem_cons.mp inScope
    obtain ⟨firstNoted, othersNoted⟩ := List.forall_mem_cons.mp noted
    rw [Expr.lowerArgsWith, Expr.lowerArgs, Expr.valuesAll]
    apply (firstNoted.visited first .argument tracks).bind
    apply (ih others othersNoted _ (tracks.keeps (first.keeps_build tracks.fits))).silent_bind
    exact notes_pure _

/-- Visits inside an expression are made where names are tracked, since lowering an expression binds
nothing. -/
theorem Expr.Scoped.noted {e : Expr} (inScope : e.Scoped env) : e.Noted options env known := by
  induction inScope with
  | odd inScope ih =>
    intro l tracks
    rw [Expr.lowerWith, Expr.lower, Expr.values]
    apply (ih.visited inScope .operand tracks).silent_bind
    exact notes_modifyGet _
  | binary leftScope rightScope left right =>
    intro l tracks
    rw [Expr.lowerWith, Expr.lower, Expr.values]
    apply (left.visited leftScope .operand tracks).bind
    apply (right.visited rightScope .operand
      (tracks.keeps (leftScope.keeps_build tracks.fits))).silent_bind
    exact notes_modifyGet _
  | call _ _ args ih =>
    intro l tracks
    rw [Expr.lowerWith, Expr.lower, Expr.values]
    apply (Expr.notes_lowerArgsWith args ih l tracks).silent_bind
    exact notes_modifyGet _
  | @name info ref resolved yields =>
    intro l tracks
    rw [Expr.lowerWith, Expr.lower, Expr.values, Reference.lowerOperand, Reference.lowerOperand]
    apply (notes_modifyGet _).silent_bind
    split
    · exact notes_pure _
    · exact notes_pure _
  | number =>
    intro l tracks
    rw [Expr.lowerWith, Expr.lower, Expr.values]
    exact notes_pure _

/-! ### Statements -/

/-- Lowering the statement notes visits where names are tracked, with as many loops open as stand
around it. -/
def Stmt.Noted (options : Options) (env : Env) (known : Constants) (depth : Nat) (s : Stmt) :
    Prop :=
  ∀ l, Tracks options env known l → l.frame.loops.length = depth →
    Notes (Visit.Tracked options) (s.lowerWith (noteVisit known) builder) (s.lower builder) l
      s.values

variable {depth : Nat}

/-- Statements one after the other. -/
theorem Stmt.notes_lowerAllWith {body : List Stmt} (inScope : ∀ s ∈ body, s.Scoped env depth)
    (noted : ∀ s ∈ body, s.Noted options env known depth) (l : Listing)
    (tracks : Tracks options env known l) (open_ : l.frame.loops.length = depth) :
    Notes (Visit.Tracked options) (Stmt.lowerAllWith (noteVisit known) builder body)
      (Stmt.lowerAll builder body) l (Stmt.valuesAll body) := by
  induction body generalizing l with
  | nil =>
    rw [Stmt.lowerAllWith, Stmt.lowerAll, Stmt.valuesAll]
    exact notes_pure none
  | cons s rest ih =>
    obtain ⟨first, others⟩ := List.forall_mem_cons.mp inScope
    obtain ⟨firstNoted, othersNoted⟩ := List.forall_mem_cons.mp noted
    rw [Stmt.lowerAllWith, Stmt.lowerAll, Stmt.valuesAll]
    have keeps := (first.served l tracks.fits open_).holds
    apply (firstNoted l tracks open_).bind
    exact ih others othersNoted _ (tracks.keeps keeps) (keeps.loops_length open_)

theorem Stmt.notes_run {s : Option Stmt} (noted : ∀ t ∈ s, t.Noted options env known depth)
    (l : Listing) (tracks : Tracks options env known l) (open_ : l.frame.loops.length = depth) :
    Notes (Visit.Tracked options) (Listing.run (Stmt.deferOptionWith (noteVisit known) builder s))
      (Listing.run (Stmt.deferOption builder s)) l (Stmt.valuesOption s) := by
  cases s with
  | none =>
    rw [Stmt.deferOptionWith, Stmt.deferOption, Stmt.valuesOption]
    exact notes_pure _
  | some s =>
    rw [Stmt.deferOptionWith, Stmt.deferOption, Stmt.valuesOption]
    exact (noted s rfl l tracks open_).deferred

/-- The two branches of an `if`, with the labels around them. -/
theorem Listing.notes_ifThen {thenBranch elseBranch : Option Stmt}
    (inThen : ∀ t ∈ thenBranch, t.Scoped env depth)
    (thenNoted : ∀ t ∈ thenBranch, t.Noted options env known depth)
    (elseNoted : ∀ t ∈ elseBranch, t.Noted options env known depth) (cond : Operand) (l : Listing)
    (tracks : Tracks options env known l) (open_ : l.frame.loops.length = depth) :
    Notes (Visit.Tracked options)
      (builder.ifThen cond (Stmt.deferOptionWith (noteVisit known) builder thenBranch)
        (Stmt.deferOptionWith (noteVisit known) builder elseBranch))
      (builder.ifThen cond (Stmt.deferOption builder thenBranch)
        (Stmt.deferOption builder elseBranch))
      l (Stmt.valuesOption thenBranch ++ Stmt.valuesOption elseBranch) := by
  have opened : Keeps l (l.openIf cond elseBranch.isSome).2 := ⟨rfl, rfl, rfl⟩
  have ready := tracks.keeps opened
  have open₁ := opened.loops_length open_
  have keeps := opened.trans (Stmt.keeps_buildOption inThen ready.fits open₁)
  cases elseBranch with
  | none =>
    rw [Stmt.deferOptionWith, Stmt.deferOption, Stmt.valuesOption, List.append_nil]
    apply notes_modifyGet_bind
    apply (Stmt.notes_run thenNoted _ ready open₁).silent_bind
    apply notes_modify_bind
    apply notes_modify_bind
    exact notes_pure none
  | some s =>
    apply notes_modifyGet_bind
    apply (Stmt.notes_run thenNoted _ ready open₁).bind
    apply notes_modify_bind
    apply notes_modify_bind
    have between (elseLabel endLabel : Nat) : Keeps l
        ((afterPart (Stmt.deferOption builder thenBranch) (l.openIf cond true).2).emit
          (.jump endLabel) |>.place elseLabel) := keeps.trans ⟨rfl, rfl, rfl⟩
    apply (Stmt.notes_run elseNoted _ (tracks.keeps (between _ _))
      ((between _ _).loops_length open_)).silent_bind
    apply notes_modify_bind
    apply notes_modify_bind
    exact notes_pure none

/-- A loop, which is open while its body is lowered. -/
theorem Listing.notes_whileDo {cond : Expr} {body : Option Stmt} (inScope : cond.Scoped env)
    (noted : ∀ t ∈ body, t.Noted options env known (depth + 1)) (l : Listing)
    (tracks : Tracks options env known l) (open_ : l.frame.loops.length = depth) :
    Notes (Visit.Tracked options)
      (builder.whileDo (noteVisit known .condition cond (cond.lowerWith (noteVisit known) builder))
        (Stmt.deferOptionWith (noteVisit known) builder body))
      (builder.whileDo (cond.lower builder) (Stmt.deferOption builder body))
      l ((.condition, cond) :: cond.values ++ Stmt.valuesOption body) := by
  have opened : Keeps l l.openLoop.2 := ⟨rfl, rfl, rfl⟩
  have ready := tracks.keeps opened
  have start := opened.trans (inScope.keeps_build ready.fits)
  apply notes_modifyGet_bind
  apply (inScope.noted.visited inScope .condition ready).bind
  apply notes_modify_bind
  have inside : Tracks options env known
      (loopBody l (cond.build l.openLoop.2).2 (cond.build l.openLoop.2).1) :=
    tracks.congr start.bindings start.outer
  have deeper : (loopBody l (cond.build l.openLoop.2).2
      (cond.build l.openLoop.2).1).frame.loops.length = depth + 1 :=
    congrArg (· + 1) (start.loops_length open_)
  apply (Stmt.notes_run noted _ inside deeper).silent_bind
  apply notes_modify_bind
  exact notes_pure none

/-- Visits inside a statement are made where names are tracked. -/
theorem Stmt.Scoped.noted {s : Stmt} (inScope : s.Scoped env depth) :
    s.Noted options env known depth := by
  induction inScope with
  | assign _ _ value =>
    intro l tracks _
    rw [Stmt.lowerWith, Stmt.lower, Stmt.values]
    apply (value.noted.visited value .assigned tracks).silent_bind
    apply notes_modify_bind
    exact notes_pure none
  | sequence inScope ih =>
    intro l tracks open_
    rw [Stmt.lowerWith, Stmt.lower, Stmt.values]
    exact Stmt.notes_lowerAllWith inScope ih l tracks open_
  | ifThen cond inThen _ thenNoted elseNoted =>
    intro l tracks open_
    rw [Stmt.lowerWith, Stmt.lower, Stmt.values, List.append_assoc]
    have keeps := cond.keeps_build tracks.fits
    apply (cond.noted.visited cond .condition tracks).bind
    exact notes_ifThen inThen thenNoted elseNoted _ _ (tracks.keeps keeps)
      (keeps.loops_length open_)
  | whileDo cond _ noted =>
    intro l tracks open_
    rw [Stmt.lowerWith, Stmt.lower, Stmt.values]
    exact notes_whileDo cond noted l tracks open_
  | asm =>
    intro l _ _
    rw [Stmt.lowerWith, Stmt.lower, Stmt.values]
    apply notes_modify_bind
    exact notes_pure none
  | control _ =>
    intro l _ _
    rw [Stmt.lowerWith, Stmt.lower, Stmt.values]
    apply notes_modify_bind
    exact notes_pure none
  | call _ _ args =>
    intro l tracks _
    rw [Stmt.lowerWith, Stmt.lower, Stmt.values]
    apply (Expr.notes_lowerArgsWith args (fun e mem => (args e mem).noted) l tracks).silent_bind
    apply notes_modifyGet_bind
    exact notes_pure _
  | name _ _ =>
    intro l _ _
    rw [Stmt.lowerWith, Stmt.lower, Stmt.values]
    exact notes_modifyGet _

/-! ### Declarations -/

/-- A constant is bound to its value, and to storage if it has none. -/
theorem Listing.Tracks.constant (tracks : Tracks options env known l) {e : Expr}
    (inScope : e.Scoped env) (classed : e.Classed) (isConst : e.info.result = .const) :
    Tracks options (declareAll env [(name, .const)]) (Function.update known name (e.evaluate known))
      ((e.build l).2.constant name (e.build l).1) := by
  refine ⟨(declared_constant tracks.fits (inScope.keeps_build tracks.fits) _).fits,
    tracks.covers.update fun _ => inScope.evaluate_ne tracks.covers classed isConst, ?_⟩
  have folded := inScope.foldedAt tracks
  cases outcome : e.evaluate known with
  | ok value =>
    rw [folded.of_ok outcome]
    refine tracks.folds.bind fun other => ?_
    rw [Except.ok.injEq, Binding.const.injEq]
  | error obstacle =>
    obtain ⟨id, isTemp⟩ := folded.of_error outcome
    obtain ⟨l₁, place, stored, effects⟩ := storage_eq_bind (e.build l).2 name (some (.temp id))
    have tracked := (tracks.keeps (inScope.keeps_build tracks.fits)).keeps effects.keeps
    have kept : (e.build l).2.constant name (.temp id) = l₁.bind name (.storage place) := stored
    rw [isTemp, kept]
    refine tracked.folds.bind fun other => ⟨?_, ?_⟩
    · rintro ⟨⟩
    · rintro ⟨⟩

/-- The value of a constant is known behind its definition. -/
theorem Definition.tracks_const (d : Definition) (tracks : Tracks options env known l)
    (present : d.init.isSome = true) (init : ∀ e ∈ d.init, e.Scoped env)
    (constant : ∀ e ∈ d.init, e.Classed ∧ e.info.result = .const) :
    Tracks options (declareAll env [(d.name, .const)]) (known.define .const d)
      (Definition.build .const l d) := by
  obtain ⟨line, name, _ | e⟩ := d
  · cases present
  · obtain ⟨classed, isConst⟩ := constant e rfl
    exact tracks.constant (init e rfl) classed isConst

/-- Constants in order; each may use those before it. -/
theorem Definition.tracks_consts {defs : List Definition} (tracks : Tracks options env known l)
    (inScope : Definition.Scoped .const env defs) (inits : Definition.ConstantInits defs) :
    Tracks options (declareAll env (Definition.entries .const defs))
      (defs.foldl (Constants.define .const) known) (defs.foldl (Definition.build .const) l) := by
  induction defs generalizing env known l with
  | nil => exact tracks
  | cons d rest ih =>
    obtain ⟨present, init, others⟩ := inScope
    obtain ⟨first, restInits⟩ := List.forall_mem_cons.mp inits
    exact ih (d.tracks_const tracks (present rfl) init first) others restInits

/-- Initial values of constants are visited where the constants before them are known. -/
theorem Definition.notes_consts {defs : List Definition} (l : Listing)
    (tracks : Tracks options env known l) (inScope : Definition.Scoped .const env defs)
    (inits : Definition.ConstantInits defs) :
    Notes (Visit.Tracked options) (Definition.lowerConstsWith noteVisit builder known defs)
      (Definition.lowerConsts builder defs) l (Definition.values defs) := by
  induction defs generalizing env known l with
  | nil => exact notes_pure none
  | cons d rest ih =>
    obtain ⟨present, init, others⟩ := inScope
    obtain ⟨first, restInits⟩ := List.forall_mem_cons.mp inits
    have declared := d.tracks_const tracks (present rfl) init first
    obtain ⟨line, name, _ | e⟩ := d
    · cases present rfl
    · rw [Definition.lowerConstsWith, Definition.lowerConsts, Definition.values]
      apply ((init e rfl).noted.visited (init e rfl) .initial tracks).bind
      apply notes_modify_bind
      exact ih _ declared others restInits

/-- The initial value of a variable binds nothing. -/
theorem Definition.tracks_var (d : Definition) (tracks : Tracks options env known l)
    (init : ∀ e ∈ d.init, e.Scoped env) :
    Tracks options (declareAll env [(d.name, .var)]) (known.define .var d)
      (Definition.build .var l d) := by
  obtain ⟨line, name, _ | e⟩ := d
  · exact tracks.storage name none
  · exact (tracks.keeps ((init e rfl).keeps_build tracks.fits)).storage name _

/-- Variables in order; each hides a constant of its name from those behind it. -/
theorem Definition.tracks_vars {defs : List Definition} (tracks : Tracks options env known l)
    (inScope : Definition.Scoped .var env defs) :
    Tracks options (declareAll env (Definition.entries .var defs))
      (defs.foldl (Constants.define .var) known) (defs.foldl (Definition.build .var) l) := by
  induction defs generalizing env known l with
  | nil => exact tracks
  | cons d rest ih =>
    obtain ⟨_, init, others⟩ := inScope
    exact ih (d.tracks_var tracks init) others

/-- Initial values of variables are visited where the variables before them hide constants. -/
theorem Definition.notes_vars {defs : List Definition} (l : Listing)
    (tracks : Tracks options env known l) (inScope : Definition.Scoped .var env defs) :
    Notes (Visit.Tracked options) (Definition.lowerVarsWith noteVisit builder known defs)
      (Definition.lowerVars builder defs) l (Definition.values defs) := by
  induction defs generalizing env known l with
  | nil => exact notes_pure none
  | cons d rest ih =>
    obtain ⟨_, init, others⟩ := inScope
    have declared := d.tracks_var tracks init
    obtain ⟨line, name, _ | e⟩ := d
    · rw [Definition.lowerVarsWith, Definition.lowerVars, Definition.values]
      apply notes_modify_bind
      exact ih _ declared others
    · rw [Definition.lowerVarsWith, Definition.lowerVars, Definition.values]
      apply ((init e rfl).noted.visited (init e rfl) .initial tracks).bind
      apply notes_modify_bind
      exact ih _ declared others

/-- A section that may be missing, given how its definitions are lowered. -/
theorem Decls.notes_run {good : Visit → Prop} {decls : Option Decls}
    {x : List Definition → Noting (Option Operand)}
    {y : List Definition → StateM Listing (Option Operand)}
    (lowered : Notes good (x (Decls.definitions decls)) (y (Decls.definitions decls)) l
      (Definition.values (Decls.definitions decls))) :
    Notes good (Listing.run (decls.map fun decls => x decls.defs))
      (Listing.run (decls.map fun decls => y decls.defs)) l
      (Definition.values (Decls.definitions decls)) := by
  cases decls with
  | none => exact notes_pure _
  | some decls => exact lowered.deferred

/-! ### Routines and blocks -/

theorem RoutineKind.not_mem_params {params : List String}
    (nodup : (((RoutineKind.function params).inside name).map Prod.fst).Nodup) :
    name ∉ params := by
  have first := (List.nodup_cons.mp nodup).1
  simpa using first

/-- Behind a routine its name hides a constant. -/
theorem Routine.tracks_build (r : Routine) (tracks : Tracks options env known l)
    (inScope : r.Scoped env) :
    Tracks options (declareAll env [(r.name, r.kind.role)]) (known.hide [r.name]) (r.build l) := by
  obtain ⟨line, name, _ | params, block, scope⟩ := r
  · rw [Routine.Scoped] at inScope
    have inside := tracks.openProcedure name
    have around : Tracks options _ _ (l.bind name (.proc (l.routineSymbol name))) :=
      tracks.routine name .proc (by decide) (by rintro _ ⟨⟩)
    rw [Routine.build_procedure]
    exact around.closeRoutine (Block.Scoped.served block inScope.2 _ inside.fits rfl).holds
  · rw [Routine.Scoped] at inScope
    have distinct := RoutineKind.not_mem_params inScope.1
    have inside := declared_openFunction tracks.fits distinct
    have around : Tracks options _ _ (l.bind name (.func (l.routineSymbol name))) :=
      tracks.routine name .func (by decide) (by rintro _ ⟨⟩)
    rw [Routine.build_function]
    exact around.closeRoutine
      ((Block.Scoped.served block inScope.2 _ inside.fits inside.loops).holds.trans inside.outer)

/-- Behind routines the constants are known that none of them hides. -/
theorem Routine.tracks_buildAll {rs : List Routine} (tracks : Tracks options env known l)
    (inScope : Routine.ScopedAll env rs) :
    Tracks options (declareAll env (Routine.entries rs)) (known.hide (rs.map (·.name)))
      (Routine.buildAll rs l) := by
  induction rs generalizing env known l with
  | nil =>
    rw [Routine.buildAll_nil, List.map_nil, Constants.hide_nil]
    exact tracks
  | cons r rest ih =>
    rw [Routine.ScopedAll] at inScope
    have whole := ih (r.tracks_build tracks inScope.1) inScope.2
    rw [Constants.hide_hide] at whole
    rw [Routine.buildAll_cons]
    exact whole

mutual

/-- The induction over blocks and routines. -/
theorem Block.notes_lowerWith :
    {env : Env} → {known : Constants} → (block : Block) → (l : Listing) →
    Tracks options env known l → l.frame.loops = [] → block.Scoped env → block.ConstantInits →
    Notes (Visit.Tracked options) (block.lowerWith noteVisit builder known) (block.lower builder) l
      block.values
  | _, known, { consts, vars, routines, body, .. }, l, tracks, noLoop, inScope, inits => by
    rw [Block.Scoped] at inScope
    obtain ⟨_, constsInScope, varsInScope, routinesInScope, bodyInScope⟩ := inScope
    rw [Block.ConstantInits] at inits
    rw [declareAll_append] at routinesInScope
    rw [declareAll_append, declareAll_append] at bodyInScope
    -- What is known behind each section, at the listing there.
    have tracks₁ := Definition.tracks_consts tracks constsInScope inits.1
    rw [← Decls.afterPart_consts] at tracks₁
    have tracks₂ := Definition.tracks_vars tracks₁ varsInScope
    rw [← Decls.afterPart_vars] at tracks₂
    have tracks₃ := Routine.tracks_buildAll tracks₂ routinesInScope
    have declared₁ := (Decls.serves_run tracks.fits
      (fun _ inScope => Definition.serves_lowerConsts l inScope tracks.fits) constsInScope).holds
    have declared₂ := (Decls.serves_run tracks₁.fits
      (fun _ inScope => Definition.serves_lowerVars _ inScope tracks₁.fits) varsInScope).holds
    have declared₃ := (Routine.ScopedAll.serves routines routinesInScope _ tracks₂.fits).holds
    have loops := ((declared₁.trans declared₂).trans declared₃).loops
    simp only [Block.lowerWith, Block.lower, Block.values, List.append_assoc]
    apply (Decls.notes_run (Definition.notes_consts l tracks constsInScope inits.1)).bind
    apply (Decls.notes_run (Definition.notes_vars _ tracks₁ varsInScope)).bind
    apply (Routine.notes_lowerRoutinesWith routines _ tracks₂ routinesInScope inits.2).deferred.bind
    apply (Stmt.notes_run (fun s mem => (bodyInScope s mem).noted) _ tracks₃
      (congrArg List.length (loops.trans noLoop))).silent_bind
    exact notes_pure none

theorem Routine.notes_lowerWith :
    {env : Env} → {known : Constants} → (r : Routine) → (l : Listing) →
    Tracks options env known l → r.Scoped env → r.ConstantInits →
    Notes (Visit.Tracked options) (r.lowerWith noteVisit builder known) (r.lower builder) l r.values
  | _, _, { name, kind := .procedure, block, .. }, l, tracks, inScope, inits => by
    rw [Routine.Scoped] at inScope
    rw [Routine.ConstantInits] at inits
    rw [Routine.lowerWith, Routine.lower, Routine.values]
    apply notes_modify_bind
    apply (block.notes_lowerWith _ (tracks.openProcedure name) rfl inScope.2
      inits).deferred.silent_bind
    apply notes_modify_bind
    exact notes_pure none
  | _, _, { name, kind := .function params, block, .. }, l, tracks, inScope, inits => by
    rw [Routine.Scoped] at inScope
    rw [Routine.ConstantInits] at inits
    have distinct := RoutineKind.not_mem_params inScope.1
    have noLoop := (declared_openFunction tracks.fits distinct).loops
    rw [Routine.lowerWith, Routine.lower, Routine.values]
    apply notes_modify_bind
    apply (block.notes_lowerWith _ (tracks.openFunction distinct) noLoop inScope.2
      inits).deferred.silent_bind
    apply notes_modify_bind
    exact notes_pure none

theorem Routine.notes_lowerRoutinesWith : {env : Env} → {known : Constants} → (rs : List Routine) →
    (l : Listing) → Tracks options env known l → Routine.ScopedAll env rs →
    Routine.ConstantInitsAll rs →
    Notes (Visit.Tracked options) (Block.lowerRoutinesWith noteVisit builder known rs)
      (Block.lowerRoutines builder rs) l (Routine.valuesAll rs)
  | _, _, [], l, _, _, _ => by
    rw [Block.lowerRoutinesWith, Block.lowerRoutines, Routine.valuesAll]
    exact notes_pure none
  | _, _, r :: rest, l, tracks, inScope, inits => by
    rw [Routine.ScopedAll] at inScope
    rw [Routine.ConstantInitsAll] at inits
    rw [Block.lowerRoutinesWith, Block.lowerRoutines, Routine.valuesAll]
    apply (r.notes_lowerWith l tracks inScope.1 inits.1).bind
    exact Routine.notes_lowerRoutinesWith rest _ (r.tracks_build tracks inScope.1) inScope.2 inits.2

end

/-! ### Programs -/

/-- Before a program no constant is known. -/
theorem Listing.tracks_empty : Tracks options options.env .nothing {} := by
  refine ⟨fits_empty, fun name stands => ?_, fun name value => ⟨?_, ?_⟩⟩
  · obtain ⟨isFunc, -⟩ := Options.env_eq_some stands
    cases isFunc
  · rintro ⟨⟩
  · rintro ⟨up, ⟨⟩⟩

/-- The visits while the program is lowered from an empty listing, and the listing then. -/
def AnalyzedProgram.visited (p : AnalyzedProgram) : List Visit × Listing :=
  let ran := ((p.program.lowerWith noteVisit builder .nothing).run []).run {}
  (ran.1.2, ran.2)

/-- While an accepted program is lowered, an expression whose value is wanted becomes a known
integer exactly if it is of the class of a constant and neither it nor a constant that it uses
divides by zero; the integer is its value, and the listing stays as it is. In any other case it
becomes a temporary. The visits are to all places of the program where values are wanted, and
lowering with visits is lowering. -/
theorem AnalyzedProgram.visits_folded {source : String} {p : AnalyzedProgram}
    (accepted : check options source = .ok p) :
    (∀ {m : Type → Type} [Monad m] {V : Type} (b : Builder m V),
      p.program.lowerWith (fun _ _ _ work => work) b .nothing = p.lower b) ∧
    p.visited.2 = p.listing ∧
    p.visited.1.map Visit.site = p.program.values ∧
    ∀ v ∈ p.visited.1, v.Folded := by
  obtain ⟨classed, inits⟩ := AnalyzedProgram.classed_of_check accepted
  obtain ⟨visits, ran, sites, tracked⟩ := p.program.notes_lowerWith {} tracks_empty rfl
    (AnalyzedProgram.scoped_of_check accepted) inits
  have visited : p.visited = (visits, p.listing) := by
    rw [AnalyzedProgram.visited, ran]
    rfl
  rw [visited]
  refine ⟨fun b => p.program.lowerWith_id b .nothing, rfl, sites, fun v mem => ?_⟩
  refine (tracked v mem).folded (classed v.site ?_)
  rw [← sites]
  exact List.mem_map_of_mem mem

/-- With a constant that divides by zero and one that uses it, a parameter that hides a constant,
and a constant inside a procedure. The integers are those of the constants in sight. -/
theorem AnalyzedProgram.visits_folded_hidden :
    let source := "const z = 1/0, y = z + 1, a = 6; function f(a); f := a + y; " ++
      "procedure p; const b = a + 1; write(b / a); p."
    ∃ p, check {} source = .ok p ∧
      ((∀ {m : Type → Type} [Monad m] {V : Type} (b : Builder m V),
        p.program.lowerWith (fun _ _ _ work => work) b .nothing = p.lower b) ∧
      p.visited.2 = p.listing ∧
      p.visited.1.map Visit.site = p.program.values ∧
      ∀ v ∈ p.visited.1, v.Folded) ∧
      p.visited.1.map (·.operand) = [.temp 0, .imm 1, .imm 0, .temp 2, .temp 1, .imm 1, .imm 6,
        .temp 5, .temp 3, .temp 4, .imm 7, .imm 6, .imm 1, .imm 1, .imm 7, .imm 6] := by
  intro source
  have operands : ((check {} source).toOption.map fun p => p.visited.1.map (·.operand)) =
      some [.temp 0, .imm 1, .imm 0, .temp 2, .temp 1, .imm 1, .imm 6,
        .temp 5, .temp 3, .temp 4, .imm 7, .imm 6, .imm 1, .imm 1, .imm 7, .imm 6] := by
    decide +kernel
  have isOk : (check {} source).toOption.isSome = true := by
    rw [← Option.isSome_map, operands]
    rfl
  obtain ⟨p, accepted⟩ := exists_check_of_isSome isOk
  rw [accepted] at operands
  exact ⟨p, accepted, AnalyzedProgram.visits_folded accepted, Option.some.inj operands⟩

end PlZero
