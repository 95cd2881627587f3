import PlZero.Proofs.Analysis.Resolved
import PlZero.Proofs.Listing.Build
import PlZero.Proofs.Listing.Watched

/-!
The two views of names agree. Analysis looks names up in a table of scopes, two for each function;
the listing builder looks them up again in a stack of frames, one for each routine. While a
well-scoped program is lowered, every name is bound in the frames to what its role says, so no
request comes to nothing.

The invariant is `Listing.Fits`. Instructions leave bindings, loops and outer frames alone
(`Listing.Keeps`), declarations add the binding they declare, and a routine leaves the frame around
it as it was, but for its own name.
-/

namespace PlZero

namespace Listing

variable {options : Options} {env : Env} {l l' l'' : Listing} {name : String} {role : Role}
  {binding : Binding}

/-! ### Bindings -/

/-- Counting from one frame further out adds one to every position. -/
theorem searchFrames_succ (name : String) (up : Nat) (frames : List Frame) :
    searchFrames name (up + 1) frames =
      (searchFrames name up frames).map fun found => (found.1 + 1, found.2) := by
  induction frames generalizing up with
  | nil => rfl
  | cons frame outer ih =>
    unfold searchFrames
    cases frame.bindings.lookup name with
    | some binding => rfl
    | none => exact ih (up + 1)

/-- A new binding hides those of the same name and no others. -/
theorem resolve?_bind (l : Listing) (name other : String) (binding : Binding) :
    (l.bind name binding).resolve? other =
      if other = name then some (0, binding) else l.resolve? other := by
  unfold resolve? searchFrames bind
  rw [List.lookup_cons]
  by_cases same : other = name
  · simp [same]
  · simp [same, beq_false_of_ne same]

/-- What a name is bound to depends on bindings alone, not on lines, slots or counters. -/
theorem resolve?_congr (bindings : l'.frame.bindings = l.frame.bindings)
    (outer : l'.outer = l.outer) (name : String) : l'.resolve? name = l.resolve? name := by
  rw [resolve?, resolve?, searchFrames, searchFrames, bindings, outer]

/-- From a new frame everything is one frame further out. -/
theorem resolve?_open (l : Listing) {frame : Frame} (empty : frame.bindings = []) (name : String) :
    ({ l with frame := frame, outer := l.frame :: l.outer } : Listing).resolve? name =
      (l.resolve? name).map fun found => (found.1 + 1, found.2) := by
  rw [resolve?, searchFrames, empty]
  exact searchFrames_succ name 0 _

/-- How far out a name is bound makes no difference to its role. -/
theorem Agrees.further {found : Option (Nat × Binding)} (agrees : Agrees options name role found) :
    Agrees options name role (found.map fun found => (found.1 + 1, found.2)) := by
  cases agrees with
  | const => exact .const
  | kept => exact .kept
  | var => exact .var
  | ret => exact .ret
  | proc => exact .proc
  | func => exact .func
  | runtime on known => exact .runtime on known

/-! ### Steps that bind nothing -/

/-- `l'` has the bindings, the loops and the outer frames of `l`. -/
structure Keeps (l l' : Listing) : Prop where
  bindings : l'.frame.bindings = l.frame.bindings
  loops : l'.frame.loops = l.frame.loops
  outer : l'.outer = l.outer

theorem Keeps.refl (l : Listing) : Keeps l l := ⟨rfl, rfl, rfl⟩

theorem Keeps.trans (first : Keeps l l') (second : Keeps l' l'') : Keeps l l'' :=
  ⟨second.bindings.trans first.bindings, second.loops.trans first.loops,
    second.outer.trans first.outer⟩

theorem Keeps.loops_length {depth : Nat} (keeps : Keeps l l')
    (open_ : l.frame.loops.length = depth) : l'.frame.loops.length = depth := by
  rw [keeps.loops, open_]

/-- Instructions, slots, globals and external functions are no bindings. -/
theorem Effect.keeps {uses : List Operand} (effect : Effect uses l l') : Keeps l l' := by
  cases effect <;> exact ⟨rfl, rfl, rfl⟩

/-- So every step that is made of effects binds nothing. -/
theorem Effects.keeps {uses : List Operand} (effects : Effects uses l l') : Keeps l l' := by
  induction effects with
  | refl => exact .refl l
  | tail _ last ih => exact ih.trans last.keeps

/-- A declaration changes what its own name is bound to and nothing else. -/
theorem Declares.resolve?_of_ne {uses : List Operand} {other : String}
    (declares : Declares uses name l l') (ne : other ≠ name) :
    l'.resolve? other = l.resolve? other := by
  obtain ⟨l₁, binding, effects, rfl⟩ := declares
  rw [resolve?_bind, if_neg ne, resolve?_congr effects.keeps.bindings effects.keeps.outer]

theorem keeps_emit (l : Listing) (i : Instr) : Keeps l (l.emit i) := ⟨rfl, rfl, rfl⟩

theorem keeps_control (l : Listing) (exit : LoopExit) : Keeps l (l.control exit) := by
  rcases control_cases l exit with ⟨-, stays⟩ | ⟨loop, -, jumps⟩
  · rw [stays]
    exact .refl l
  · rw [jumps]
    exact ⟨rfl, rfl, rfl⟩

/-! ### The invariant -/

/-- Every name is bound to what its role says. -/
def Fits (options : Options) (env : Env) (l : Listing) : Prop :=
  ∀ name role, env name = some role → Agrees options name role (l.resolve? name)

theorem Fits.congr (fits : Fits options env l) (bindings : l'.frame.bindings = l.frame.bindings)
    (outer : l'.outer = l.outer) : Fits options env l' := by
  intro name role stands
  rw [resolve?_congr bindings outer]
  exact fits name role stands

/-- Names still fit behind steps that bind nothing. -/
theorem Fits.keeps (fits : Fits options env l) (keeps : Keeps l l') : Fits options env l' :=
  fits.congr keeps.bindings keeps.outer

/-- A declaration, on both sides: the environment gets the role, and the frame a binding that agrees
with it. -/
theorem Fits.bind (fits : Fits options env l)
    (agrees : Agrees options name role (some (0, binding))) :
    Fits options (declareAll env [(name, role)]) (l.bind name binding) := by
  intro other role' stands
  rw [resolve?_bind]
  by_cases same : other = name
  · subst same
    rw [declareAll_cons, declareAll_nil, Function.update_self] at stands
    cases stands
    rw [if_pos rfl]
    exact agrees
  · rw [declareAll_cons, declareAll_nil, Function.update_of_ne same] at stands
    rw [if_neg same]
    exact fits other role' stands

/-- A new frame fits what the frame around it fits. -/
theorem Fits.open (fits : Fits options env l) {frame : Frame} (empty : frame.bindings = []) :
    Fits options env { l with frame := frame, outer := l.frame :: l.outer } := by
  intro name role stands
  rw [resolve?_open l empty]
  exact (fits name role stands).further

/-! ### Requests that are met -/

section Requests

variable {ref : Reference} (fits : Fits options env l) (resolved : ref.ResolvedIn env)

include fits resolved

/-- The name of a resolved reference is bound to what its role says. -/
theorem Fits.agrees : Agrees options ref.name ref.role (l.resolve? ref.name) :=
  fits ref.name ref.role resolved

/-- An assignment is one store. -/
theorem Fits.assign (assignable : ref.role.isAssignable = true) (value : Operand) :
    ∃ address, l.assign ref.name value = l.emit (.store address value) := by
  have agrees := fits.agrees resolved
  unfold Listing.assign
  generalize l.resolve? ref.name = found, ref.role = role at agrees assignable ⊢
  cases agrees with
  | var => exact ⟨_, rfl⟩
  | ret => exact ⟨_, rfl⟩
  | const | kept | proc | func | runtime => cases assignable

/-- A bare name of a value has an answer. -/
theorem Fits.name_isSome (yields : ref.role.yieldsValue = true) :
    (l.name ref.name ref.role).1.isSome = true := by
  have agrees := fits.agrees resolved
  unfold Listing.name
  generalize l.resolve? ref.name = found, ref.role = role at agrees yields ⊢
  cases agrees with
  | proc => cases yields
  | const | kept | var | ret | func | runtime => rfl

/-- A bare name of a procedure runs it. -/
theorem Fits.name_proc (isProc : ref.role = .proc) :
    ∃ symbol, (l.name ref.name ref.role).2 = l.emit (.run symbol) := by
  have agrees := fits.agrees resolved
  unfold Listing.name
  generalize l.resolve? ref.name = found, ref.role = role at agrees isProc ⊢
  cases agrees with
  | proc => exact ⟨_, rfl⟩
  | const | kept | var | ret | func | runtime => cases isProc

end Requests

end Listing

open Listing

variable {options : Options} {env : Env}

/-! ### Expressions -/

/-- Lowering the expression meets what it asks for, wherever names fit. -/
def Expr.Served (options : Options) (env : Env) (e : Expr) : Prop :=
  ∀ l, Fits options env l →
    Serves options (e.lower watched) (e.lower builder) l e.asks fun _ l' => Keeps l l'

/-- Arguments one after the other, each where names still fit. -/
theorem Expr.serves_lowerArgs {args : List Expr} (served : ∀ e ∈ args, e.Served options env)
    (l : Listing) (fits : Fits options env l) :
    Serves options (Expr.lowerArgs watched args) (Expr.lowerArgs builder args) l
      (Expr.asksAll args) fun _ l' => Keeps l l' := by
  induction args generalizing l with
  | nil =>
    simp only [Expr.lowerArgs, Expr.asksAll]
    exact serves_pure (.refl l)
  | cons e rest ih =>
    obtain ⟨first, others⟩ := List.forall_mem_cons.mp served
    simp only [Expr.lowerArgs, Expr.asksAll]
    apply (first l fits).bind
    intro value l₁ keeps
    apply (ih others l₁ (fits.keeps keeps)).silent_bind
    intro values l₂ keeps'
    exact serves_pure (keeps.trans keeps')

/-- A call is met: its name is bound to a function, or to nothing if it is one of the runtime. -/
theorem Listing.serves_call {callee : Reference} (l : Listing) (fits : Fits options env l)
    (resolved : callee.ResolvedIn env) (args : List Operand) :
    Serves options (watched.call callee.name args) (builder.call callee.name args) l
      [.call callee] fun _ l' => Keeps l l' :=
  serves_watch (fun _ => rfl) ⟨fits.agrees resolved, args, rfl⟩
    (answers_call l callee.name args).effects.keeps

/-- A name in the place of an operand is met with a value. -/
theorem Listing.serves_operand {ref : Reference} (l : Listing) (fits : Fits options env l)
    (resolved : ref.ResolvedIn env) (yields : ref.role.yieldsValue = true) :
    Serves options (ref.lowerOperand watched) (ref.lowerOperand builder) l [.operand ref]
      fun _ l' => Keeps l l' := by
  have isSome := fits.name_isSome resolved yields
  have asked : Serves options (watched.name ref.name ref.role) (builder.name ref.name ref.role) l
      [.operand ref] fun answer l' => answer.isSome = true ∧ Keeps l l' :=
    serves_watch (fun _ => rfl) ⟨fits.agrees resolved, rfl, isSome⟩
      ⟨isSome, (answers_name l ref.name ref.role).effects.keeps⟩
  apply asked.silent_bind
  rintro (_ | value) l' ⟨answered, keeps⟩
  · cases answered
  · exact serves_pure keeps

/-- By induction on the scoping of the expression. What is lowered inside it binds nothing, so names
fit at every request. -/
theorem Expr.Scoped.served {e : Expr} (inScope : e.Scoped env) : e.Served options env := by
  induction inScope with
  | odd _ ih =>
    intro l fits
    simp only [Expr.lower, Expr.asks]
    apply (ih l fits).silent_bind
    intro operand l₁ keeps
    exact serves_modifyGet (keeps.trans (answers_odd l₁ operand).effects.keeps)
  | binary _ _ left right =>
    intro l fits
    simp only [Expr.lower, Expr.asks]
    apply (left l fits).bind
    intro lhs l₁ keeps
    apply (right l₁ (fits.keeps keeps)).silent_bind
    intro rhs l₂ keeps'
    exact serves_modifyGet ((keeps.trans keeps').trans (answers_binary l₂ _ lhs rhs).effects.keeps)
  | call resolved _ _ ih =>
    intro l fits
    simp only [Expr.lower, Expr.asks]
    apply (Expr.serves_lowerArgs ih l fits).bind
    intro args l₁ keeps
    exact (serves_call l₁ (fits.keeps keeps) resolved args).mono fun _ _ => keeps.trans
  | name resolved yields =>
    intro l fits
    simp only [Expr.lower, Expr.asks]
    exact serves_operand l fits resolved yields
  | number =>
    intro l fits
    simp only [Expr.lower, Expr.asks]
    exact serves_watch (fun _ => rfl) rfl (.refl l)

/-- Lowering a well-scoped expression binds nothing. -/
theorem Expr.Scoped.keeps_build {e : Expr} (inScope : e.Scoped env) {l : Listing}
    (fits : Fits options env l) : Keeps l (e.build l).2 :=
  (inScope.served l fits).holds

/-! ### Statements -/

/-- Lowering the statement meets what it asks for, wherever names fit and as many loops are open as
stand around it. -/
def Stmt.Served (options : Options) (env : Env) (depth : Nat) (s : Stmt) : Prop :=
  ∀ l, Fits options env l → l.frame.loops.length = depth →
    Serves options (s.lower watched) (s.lower builder) l s.asks fun _ l' => Keeps l l'

variable {depth : Nat}

/-- Statements one after the other: none of them binds a name or leaves a loop open. -/
theorem Stmt.serves_lowerAll {body : List Stmt} (served : ∀ s ∈ body, s.Served options env depth)
    (l : Listing) (fits : Fits options env l) (open_ : l.frame.loops.length = depth) :
    Serves options (Stmt.lowerAll watched body) (Stmt.lowerAll builder body) l
      (Stmt.asksAll body) fun _ l' => Keeps l l' := by
  induction body generalizing l with
  | nil =>
    simp only [Stmt.lowerAll, Stmt.asksAll]
    exact serves_pure (.refl l)
  | cons s rest ih =>
    obtain ⟨first, others⟩ := List.forall_mem_cons.mp served
    simp only [Stmt.lowerAll, Stmt.asksAll]
    apply (first l fits open_).bind
    intro _ l₁ keeps
    exact (ih others l₁ (fits.keeps keeps) (keeps.loops_length open_)).mono
      fun _ _ => keeps.trans

/-- A statement that may be missing. -/
theorem Stmt.serves_run {s : Option Stmt} (served : ∀ t ∈ s, t.Served options env depth)
    (l : Listing) (fits : Fits options env l) (open_ : l.frame.loops.length = depth) :
    Serves options (Listing.run (Stmt.deferOption watched s))
      (Listing.run (Stmt.deferOption builder s)) l (Stmt.asksOption s) fun _ l' => Keeps l l' := by
  cases s with
  | none =>
    simp only [Stmt.deferOption, Stmt.asksOption]
    exact serves_pure (.refl l)
  | some s =>
    simp only [Stmt.deferOption, Stmt.asksOption]
    apply (served s rfl l fits open_).silent_bind
    intro _ l' keeps
    exact serves_pure keeps

/-- A name in the place of a statement runs a procedure or calls a function. -/
theorem Listing.serves_statement {ref : Reference} (l : Listing) (fits : Fits options env l)
    (resolved : ref.ResolvedIn env) (kind : ref.role = .proc ∨ ref.role.yieldsValue = true) :
    Serves options (watched.name ref.name ref.role) (builder.name ref.name ref.role) l
      [.statement ref] fun _ l' => Keeps l l' := by
  have done : (l.name ref.name ref.role).1.isSome = true ∨
      ∃ symbol, (l.name ref.name ref.role).2 = l.emit (.run symbol) := by
    rcases kind with isProc | yields
    · exact .inr (fits.name_proc resolved isProc)
    · exact .inl (fits.name_isSome resolved yields)
  exact serves_watch (fun _ => rfl) ⟨fits.agrees resolved, rfl, done⟩
    (answers_name l ref.name ref.role).effects.keeps

/-- The two branches of an `if`, with the labels around them. -/
theorem Listing.serves_ifThen {thenBranch elseBranch : Option Stmt}
    (thenServed : ∀ t ∈ thenBranch, t.Served options env depth)
    (elseServed : ∀ t ∈ elseBranch, t.Served options env depth) (cond : Operand) (l : Listing)
    (fits : Fits options env l) (open_ : l.frame.loops.length = depth) :
    Serves options
      (watched.ifThen cond (Stmt.deferOption watched thenBranch)
        (Stmt.deferOption watched elseBranch))
      (builder.ifThen cond (Stmt.deferOption builder thenBranch)
        (Stmt.deferOption builder elseBranch))
      l (Stmt.asksOption thenBranch ++ Stmt.asksOption elseBranch) fun _ l' => Keeps l l' := by
  have opened : Keeps l (l.openIf cond elseBranch.isSome).2 := ⟨rfl, rfl, rfl⟩
  cases elseBranch with
  | none =>
    simp only [Stmt.deferOption, Stmt.asksOption, List.append_nil]
    apply serves_modifyGet_bind
    apply (Stmt.serves_run thenServed _ (fits.keeps opened) (opened.loops_length open_)).silent_bind
    intro _ l₁ keeps
    apply serves_modify_bind
    apply serves_modify_bind
    exact serves_pure ((opened.trans keeps).trans ⟨rfl, rfl, rfl⟩)
  | some s =>
    apply serves_modifyGet_bind
    apply (Stmt.serves_run thenServed _ (fits.keeps opened) (opened.loops_length open_)).bind
    intro _ l₁ keeps
    have between (elseLabel endLabel : Nat) :
        Keeps l ((l₁.emit (.jump endLabel)).place elseLabel) :=
      (opened.trans keeps).trans ⟨rfl, rfl, rfl⟩
    apply serves_modify_bind
    apply serves_modify_bind
    apply (Stmt.serves_run elseServed _ (fits.keeps (between _ _))
      ((between _ _).loops_length open_)).silent_bind
    intro _ l₂ keeps'
    apply serves_modify_bind
    apply serves_modify_bind
    exact serves_pure (((between _ _).trans keeps').trans ⟨rfl, rfl, rfl⟩)

/-- A loop, which is open while its body is lowered. -/
theorem Listing.serves_whileDo {cond : Expr} {body : Option Stmt}
    (condServed : cond.Served options env)
    (served : ∀ t ∈ body, t.Served options env (depth + 1)) (l : Listing)
    (fits : Fits options env l) (open_ : l.frame.loops.length = depth) :
    Serves options
      (watched.whileDo (cond.lower watched) (Stmt.deferOption watched body))
      (builder.whileDo (cond.lower builder) (Stmt.deferOption builder body))
      l (cond.asks ++ Stmt.asksOption body) fun _ l' => Keeps l l' := by
  have opened : Keeps l l.openLoop.2 := ⟨rfl, rfl, rfl⟩
  apply serves_modifyGet_bind
  apply (condServed _ (fits.keeps opened)).bind
  intro value l₁ keeps
  apply serves_modify_bind
  have start : Keeps l l₁ := opened.trans keeps
  have inside : Fits options env (l₁.openLoopBody value l.nextLabel (l.nextLabel + 1)
      (l.nextLabel + 2)) := fits.congr start.bindings start.outer
  have deeper : (l₁.openLoopBody value l.nextLabel (l.nextLabel + 1)
      (l.nextLabel + 2)).frame.loops.length = depth + 1 :=
    congrArg (· + 1) (start.loops_length open_)
  apply (Stmt.serves_run served _ inside deeper).silent_bind
  intro _ l₂ keeps'
  apply serves_modify_bind
  refine serves_pure ⟨keeps'.bindings.trans start.bindings, ?_, keeps'.outer.trans start.outer⟩
  have popped : l₂.frame.loops.tail = l₁.frame.loops := by rw [keeps'.loops]; rfl
  exact popped.trans start.loops

/-- By induction on the scoping of the statement, which also counts the loops around it. -/
theorem Stmt.Scoped.served {s : Stmt} (inScope : s.Scoped env depth) :
    s.Served options env depth := by
  induction inScope with
  | assign resolved assignable value =>
    intro l fits _
    simp only [Stmt.lower, Stmt.asks]
    apply (value.served l fits).bind
    intro value l₁ keeps
    have fits₁ := fits.keeps keeps
    obtain ⟨address, stored⟩ := fits₁.assign resolved assignable value
    exact serves_watch (fun _ => rfl) ⟨fits₁.agrees resolved, value, address, rfl, stored⟩
      (keeps.trans (effects_assign l₁ _ value).keeps)
  | sequence _ ih =>
    intro l fits open_
    simp only [Stmt.lower, Stmt.asks]
    exact Stmt.serves_lowerAll ih l fits open_
  | ifThen cond _ _ thenServed elseServed =>
    intro l fits open_
    simp only [Stmt.lower, Stmt.asks]
    apply (cond.served l fits).bind
    intro value l₁ keeps
    exact (serves_ifThen thenServed elseServed value l₁ (fits.keeps keeps)
      (keeps.loops_length open_)).mono fun _ _ => keeps.trans
  | whileDo cond _ served =>
    intro l fits open_
    simp only [Stmt.lower, Stmt.asks]
    exact serves_whileDo cond.served served l fits open_
  | asm =>
    intro l fits _
    simp only [Stmt.lower, Stmt.asks]
    exact (serves_modify (keeps_emit l _)).bind_silent fun _ _ keeps => serves_pure keeps
  | control inside =>
    intro l fits open_
    simp only [Stmt.lower, Stmt.asks]
    have isLoop : l.frame.loops ≠ [] := by
      apply List.ne_nil_of_length_pos
      rw [open_]
      exact inside
    exact serves_watch (fun _ => rfl) ⟨rfl, isLoop⟩ (keeps_control l _)
  | call resolved _ args =>
    intro l fits _
    simp only [Stmt.lower, Stmt.asks]
    apply (Expr.serves_lowerArgs (fun e mem => (args e mem).served) l fits).bind
    intro values l₁ keeps
    apply (serves_call l₁ (fits.keeps keeps) resolved values).silent_bind
    intro _ l₂ keeps'
    exact serves_pure (keeps.trans keeps')
  | name resolved kind =>
    intro l fits _
    simp only [Stmt.lower, Stmt.asks]
    exact serves_statement l fits resolved kind

/-- Lowering a well-scoped statement binds nothing and closes the loops that it opens. -/
theorem Stmt.Scoped.keeps_build {s : Stmt} (inScope : s.Scoped env depth) {l : Listing}
    (fits : Fits options env l) (open_ : l.frame.loops.length = depth) : Keeps l (s.build l) :=
  (inScope.served l fits open_).holds

theorem Stmt.keeps_buildOption {s : Option Stmt} (inScope : ∀ t ∈ s, t.Scoped env depth)
    {l : Listing} (fits : Fits options env l) (open_ : l.frame.loops.length = depth) :
    Keeps l (Stmt.buildOption s l) := by
  cases s with
  | none =>
    rw [Stmt.buildOption_none]
    exact .refl l
  | some s =>
    rw [Stmt.buildOption_some]
    exact (inScope s rfl).keeps_build fits open_

/-! ### Declarations -/

namespace Listing

/-- `l'` is `l` after declarations in the same frame, behind which names fit `env`. -/
structure Declared (options : Options) (env : Env) (l l' : Listing) : Prop where
  loops : l'.frame.loops = l.frame.loops
  outer : l'.outer = l.outer
  fits : Fits options env l'

variable {l l' l'' : Listing} {name : String}

theorem Fits.declared (fits : Fits options env l) : Declared options env l l := ⟨rfl, rfl, fits⟩

theorem Declared.trans {env' : Env} (first : Declared options env' l l')
    (second : Declared options env l' l'') : Declared options env l l'' :=
  ⟨second.loops.trans first.loops, second.outer.trans first.outer, second.fits⟩

/-- A name is declared behind steps that bind nothing. -/
theorem declared_bind (fits : Fits options env l) (keeps : Keeps l l') {role : Role}
    {binding : Binding} (agrees : Agrees options name role (some (0, binding))) :
    Declared options (declareAll env [(name, role)]) l (l'.bind name binding) :=
  ⟨keeps.loops, keeps.outer, (fits.keeps keeps).bind agrees⟩

/-- Storage agrees with any role that is kept in storage. -/
theorem declared_storage (fits : Fits options env l) (keeps : Keeps l l')
    (init : Option Operand) {role : Role}
    (agrees : ∀ place, Agrees options name role (some (0, .storage place))) :
    Declared options (declareAll env [(name, role)]) l (l'.storage name init) := by
  obtain ⟨l₁, place, stored, effects⟩ := storage_eq_bind l' name init
  rw [stored]
  exact declared_bind fits (keeps.trans effects.keeps) (agrees place)

/-- A constant is bound to its value or, if that is not known, kept in storage. -/
theorem declared_constant (fits : Fits options env l) (keeps : Keeps l l') (value : Operand) :
    Declared options (declareAll env [(name, .const)]) l (l'.constant name value) := by
  unfold constant
  split
  · exact declared_bind fits keeps .const
  · exact declared_storage fits keeps _ fun _ => .kept

end Listing

/-- Constants in order; each sees those before it. -/
theorem Definition.serves_lowerConsts {defs : List Definition} (l : Listing)
    (inScope : Definition.Scoped .const env defs) (fits : Fits options env l) :
    Serves options (Definition.lowerConsts watched defs) (Definition.lowerConsts builder defs) l
      (Definition.asks defs) fun _ l' =>
        Declared options (declareAll env (Definition.entries .const defs)) l l' := by
  induction defs generalizing env l with
  | nil =>
    simp only [Definition.lowerConsts, Definition.asks]
    exact serves_pure fits.declared
  | cons d rest ih =>
    obtain ⟨present, init, others⟩ := inScope
    obtain ⟨line, name, _ | e⟩ := d
    · cases present rfl
    · simp only [Definition.lowerConsts, Definition.asks]
      apply ((init e rfl).served l fits).bind
      intro value l₁ keeps
      apply serves_modify_bind
      have declared : Declared options _ l (l₁.constant name value) :=
        declared_constant fits keeps value
      exact (ih _ others declared.fits).mono fun _ _ => declared.trans

/-- Variables in order; each sees those before it. -/
theorem Definition.serves_lowerVars {defs : List Definition} (l : Listing)
    (inScope : Definition.Scoped .var env defs) (fits : Fits options env l) :
    Serves options (Definition.lowerVars watched defs) (Definition.lowerVars builder defs) l
      (Definition.asks defs) fun _ l' =>
        Declared options (declareAll env (Definition.entries .var defs)) l l' := by
  induction defs generalizing env l with
  | nil =>
    simp only [Definition.lowerVars, Definition.asks]
    exact serves_pure fits.declared
  | cons d rest ih =>
    obtain ⟨_, init, others⟩ := inScope
    obtain ⟨line, name, _ | e⟩ := d
    · simp only [Definition.lowerVars, Definition.asks]
      apply serves_modify_bind
      have declared : Declared options _ l (l.storage name none) :=
        declared_storage fits (.refl l) none fun _ => .var
      exact (ih _ others declared.fits).mono fun _ _ => declared.trans
    · simp only [Definition.lowerVars, Definition.asks]
      apply ((init e rfl).served l fits).bind
      intro value l₁ keeps
      apply serves_modify_bind
      have declared : Declared options _ l (l₁.storage name (some value)) :=
        declared_storage fits keeps (some value) fun _ => .var
      exact (ih _ others declared.fits).mono fun _ _ => declared.trans

/-- A section that may be missing, given how its definitions are lowered. -/
theorem Decls.serves_run {role : Role} {decls : Option Decls} {l : Listing}
    {x : List Definition → Watching (Option Operand)}
    {y : List Definition → StateM Listing (Option Operand)} (fits : Fits options env l)
    (lowered : ∀ defs, Definition.Scoped role env defs →
      Serves options (x defs) (y defs) l (Definition.asks defs) fun _ l' =>
        Declared options (declareAll env (Definition.entries role defs)) l l')
    (inScope : Definition.Scoped role env (Decls.definitions decls)) :
    Serves options (Listing.run (decls.map fun decls => x decls.defs))
      (Listing.run (decls.map fun decls => y decls.defs)) l (Decls.asks decls) fun _ l' =>
        Declared options (declareAll env (Definition.entries role (Decls.definitions decls))) l
          l' := by
  cases decls with
  | none => exact serves_pure fits.declared
  | some decls =>
    exact (lowered decls.defs inScope).silent_bind fun _ _ declared => serves_pure declared

/-! ### Routines and blocks -/

namespace Listing

variable {l l' : Listing} {name : String}

/-- In the frame of a procedure names fit as in the frame around it, its own name included. -/
theorem Fits.openProcedure (fits : Fits options env l) (name : String) :
    Fits options (declareAll env [(name, .proc)]) (l.openProcedure name) :=
  Fits.open (fits.bind .proc) rfl

/-- What parameters do to a frame. -/
theorem declared_bindParams (fits : Fits options env l) (params : List String) :
    Declared options (declareAll env (params.map fun param => (param, .var))) l
      (l.bindParams params) := by
  induction params generalizing l env with
  | nil => exact fits.declared
  | cons param params ih =>
    have slot : Effect [] l (l.freshSlot param).2 := .slot param
    have first : Declared options (declareAll env [(param, .var)]) l
        ((l.freshSlot param).2.bind param (.storage (.slot (l.freshSlot param).1))) :=
      declared_bind fits slot.keeps .var
    exact first.trans (ih first.fits)

/-- The frame of a function before anything is bound in it. -/
def functionFrame (l : Listing) (name : String) (params : List String) : Listing :=
  let around := l.bind name (.func (l.routineSymbol name))
  { around with
    frame := { symbol := l.routineSymbol name, params }, outer := around.frame :: around.outer }

/-- In the empty frame of a function its own name is still that of the function. -/
theorem Fits.functionFrame (fits : Fits options env l) (name : String) (params : List String) :
    Fits options (declareAll env [(name, .func)]) (l.functionFrame name params) :=
  Fits.open (l := l.bind name (.func (l.routineSymbol name))) (fits.bind .func) rfl

/-- The result is bound last. -/
theorem openFunction_eq_bind (l : Listing) (name : String) (params : List String) :
    ∃ l₁ symbol slot, l.openFunction name params = l₁.bind name (.ret symbol slot) ∧
      Keeps ((l.functionFrame name params).bindParams params) l₁ := by
  refine ⟨_, _, _, rfl, ?_⟩
  exact ⟨rfl, rfl, rfl⟩

/-- In the frame of a function its name is the result and hides the function. -/
theorem declared_openFunction (fits : Fits options env l) {params : List String}
    (distinct : name ∉ params) :
    Declared options (declareAll env ((RoutineKind.function params).inside name))
      (l.functionFrame name params) (l.openFunction name params) := by
  have other : name ∉ (params.map fun param => (param, Role.var)).map Prod.fst := by
    simpa using distinct
  have bound := declared_bindParams (fits.functionFrame name params) params
  obtain ⟨l₁, symbol, slot, opened, keeps⟩ := openFunction_eq_bind l name params
  have result : Declared options (declareAll _ [(name, .ret)]) _
      (l₁.bind name (.ret symbol slot)) := declared_bind bound.fits keeps .ret
  have hides : declareAll (declareAll (declareAll env [(name, .func)])
      (params.map fun param => (param, .var))) [(name, .ret)] =
        declareAll env ((RoutineKind.function params).inside name) := by
    simp only [RoutineKind.inside, declareAll_cons, declareAll_nil, declareAll_update _ _ other,
      Function.update_idem]
  rw [opened, ← hides]
  exact bound.trans result

/-- Behind a routine the frame around it is the current one again. -/
theorem declared_closeRoutine {around : Listing} (declared : Declared options env l around)
    (same : l'.outer = around.frame :: around.outer) :
    Declared options env l l'.closeRoutine := by
  rw [closeRoutine, same]
  exact ⟨declared.loops, declared.outer, declared.fits.congr rfl rfl⟩

end Listing

/-- Lowering the block meets what it asks for, wherever names fit and no loop is open; it leaves the
frames around as they are. -/
def Block.Served (options : Options) (env : Env) (block : Block) : Prop :=
  ∀ l, Fits options env l → l.frame.loops = [] →
    Serves options (block.lower watched) (block.lower builder) l block.asks
      fun _ l' => l'.outer = l.outer

/-- A routine: its frame is opened, its block lowered, and its frame closed. -/
theorem Block.Served.routine {inner outer : Env} {block : Block}
    (served : block.Served options inner) {l around : Listing} {step : Listing → Listing}
    (inside : Fits options inner (step l)) (noLoop : (step l).frame.loops = [])
    (opened : (step l).outer = around.frame :: around.outer)
    (declared : Declared options outer l around) :
    Serves options
      (do
        modifyThe Listing step
        Listing.run (some (block.lower watched))
        modifyThe Listing closeRoutine
        return none)
      (do
        modifyThe Listing step
        Listing.run (some (block.lower builder))
        modifyThe Listing closeRoutine
        return (none : Option Operand))
      l block.asks fun _ l' => Declared options outer l l' := by
  apply serves_modify_bind
  have lowered : Serves options (Listing.run (some (block.lower watched)))
      (Listing.run (some (block.lower builder))) (step l) block.asks
      fun _ l' => l'.outer = (step l).outer :=
    (served _ inside noLoop).silent_bind fun _ _ same => serves_pure same
  apply lowered.silent_bind
  intro _ l₁ same
  apply serves_modify_bind
  exact serves_pure (declared_closeRoutine declared (same.trans opened))

/-- Lowering the routine meets what it asks for and declares its name. -/
def Routine.Served (options : Options) (env : Env) (r : Routine) : Prop :=
  ∀ l, Fits options env l →
    Serves options (r.lower watched) (r.lower builder) l r.asks
      fun _ l' => Declared options (declareAll env [(r.name, r.kind.role)]) l l'

/-- A procedure is served if its block is. -/
theorem Routine.procedure_served {line : Nat} {name : String} {block : Block}
    {scope : Option ScopeId} (served : block.Served options (declareAll env [(name, .proc)])) :
    Routine.Served options env { line, name, kind := .procedure, block, scope } := by
  intro l fits
  simp only [Routine.lower, Routine.asks]
  have declared : Declared options (declareAll env [(name, .proc)]) l
      (l.bind name (.proc (l.routineSymbol name))) := declared_bind fits (.refl l) .proc
  exact served.routine (fits.openProcedure name) rfl rfl declared

/-- A function is served if its block is, in the frame with its parameters and its result. -/
theorem Routine.function_served {line : Nat} {name : String} {params : List String}
    {block : Block} {scope : Option ScopeId} (distinct : name ∉ params)
    (served : block.Served options (declareAll env ((RoutineKind.function params).inside name))) :
    Routine.Served options env { line, name, kind := .function params, block, scope } := by
  intro l fits
  simp only [Routine.lower, Routine.asks]
  have inside := declared_openFunction fits distinct
  have declared : Declared options (declareAll env [(name, .func)]) l
      (l.bind name (.func (l.routineSymbol name))) := declared_bind fits (.refl l) .func
  exact served.routine inside.fits inside.loops inside.outer declared

mutual

/-- The induction over blocks and routines: sections, routines and the statement in order, each
behind the declarations of those before it. -/
theorem Block.Scoped.served {env : Env} :
    (block : Block) → block.Scoped env → block.Served options env
  | { line, consts, vars, routines, body, scope }, inScope => by
    rw [Block.Scoped] at inScope
    obtain ⟨_, constsInScope, varsInScope, routinesInScope, bodyInScope⟩ := inScope
    intro l fits noLoop
    simp only [Block.lower, Block.asks]
    apply (Decls.serves_run fits
      (fun defs inScope => Definition.serves_lowerConsts l inScope fits) constsInScope).bind
    intro _ l₁ declared₁
    apply (Decls.serves_run declared₁.fits
      (fun defs inScope => Definition.serves_lowerVars l₁ inScope declared₁.fits) varsInScope).bind
    intro _ l₂ declared₂
    rw [declareAll_append] at routinesInScope
    have lowered : Serves options (Listing.run (some (Block.lowerRoutines watched routines)))
        (Listing.run (some (Block.lowerRoutines builder routines))) l₂ (Routine.asksAll routines)
        fun _ l' => Declared options _ l₂ l' :=
      (Routine.ScopedAll.serves routines routinesInScope l₂ declared₂.fits).silent_bind
        fun _ _ declared => serves_pure declared
    apply lowered.bind
    intro _ l₃ declared₃
    have all := (declared₁.trans declared₂).trans declared₃
    rw [declareAll_append, declareAll_append] at bodyInScope
    have open_ : l₃.frame.loops.length = 0 := by rw [all.loops, noLoop]; rfl
    apply (Stmt.serves_run (fun s mem => (bodyInScope s mem).served) l₃ all.fits open_).silent_bind
    intro _ l₄ keeps
    exact serves_pure (keeps.outer.trans all.outer)

theorem Routine.Scoped.served {env : Env} :
    (r : Routine) → r.Scoped env → r.Served options env
  | { line, name, kind := .procedure, block, scope }, inScope => by
    rw [Routine.Scoped] at inScope
    exact Routine.procedure_served (Block.Scoped.served block inScope.2)
  | { line, name, kind := .function params, block, scope }, inScope => by
    rw [Routine.Scoped] at inScope
    obtain ⟨nodup, inside⟩ := inScope
    have distinct : name ∉ params := by
      have first := (List.nodup_cons.mp nodup).1
      simpa using first
    exact Routine.function_served distinct (Block.Scoped.served block inside)

theorem Routine.ScopedAll.serves {env : Env} :
    (rs : List Routine) → Routine.ScopedAll env rs → ∀ l, Fits options env l →
    Serves options (Block.lowerRoutines watched rs) (Block.lowerRoutines builder rs) l
      (Routine.asksAll rs) fun _ l' => Declared options (declareAll env (Routine.entries rs)) l l'
  | [], _, l, fits => by
    simp only [Block.lowerRoutines, Routine.asksAll]
    exact serves_pure fits.declared
  | r :: rest, inScope, l, fits => by
    rw [Routine.ScopedAll] at inScope
    obtain ⟨first, others⟩ := inScope
    simp only [Block.lowerRoutines, Routine.asksAll]
    apply (Routine.Scoped.served r first l fits).bind
    intro _ l₁ declared
    exact (Routine.ScopedAll.serves rest others l₁ declared.fits).mono fun _ _ => declared.trans

end

/-! ### Programs -/

/-- Before a program nothing is bound, and only runtime functions have a meaning. -/
theorem Listing.fits_empty : Fits options options.env {} := by
  intro name role stands
  obtain ⟨rfl, on, known⟩ := Options.env_eq_some stands
  exact .runtime on known

/-- The exchanges while the program is lowered from an empty listing, and the listing then. -/
def AnalyzedProgram.watch (p : AnalyzedProgram) : List Exchange × Listing :=
  let ran := ((p.lower watched).run []).run {}
  (ran.1.2, ran.2)

/-- While an accepted program is lowered, every name is bound to what analysis found it to stand
for, and no request is dropped: lowering under observation makes the listing of the program, and the
exchanges meet, one by one, what the program asks for. -/
theorem AnalyzedProgram.exchanges_meet_asks {source : String} {p : AnalyzedProgram}
    (accepted : check options source = .ok p) :
    p.watch.2 = p.listing ∧ List.Forall₂ (Met options) p.program.asks p.watch.1 := by
  have served : p.program.Served options options.env :=
    Block.Scoped.served p.program (AnalyzedProgram.scoped_of_check accepted)
  obtain ⟨log, ran, met⟩ := (served {} fits_empty rfl).log []
  rw [AnalyzedProgram.watch, AnalyzedProgram.lower, ran]
  exact ⟨rfl, met⟩

/-- With shadowing, a recursive function, a constant without a value, a loop and a runtime call. -/
theorem AnalyzedProgram.exchanges_meet_asks_nested :
    let source := "const z = 1/0; procedure p; p; function f(n); var z; " ++
      "while n > 0 do begin z := read; f := f(n - z); break end; write(f(z))."
    ∃ p, check {} source = .ok p ∧ p.watch.2 = p.listing ∧
      List.Forall₂ (Met {}) p.program.asks p.watch.1 := by
  intro source
  have isOk : (check {} source).toOption.isSome = true := by decide +kernel
  obtain ⟨p, accepted⟩ := exists_check_of_isSome isOk
  exact ⟨p, accepted, AnalyzedProgram.exchanges_meet_asks accepted⟩

end PlZero
