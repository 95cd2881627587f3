import PlZero.Analysis.Program
import PlZero.Listing.Builder
import PlZero.Lowering
import PlZero.Request
import Mathlib.Data.List.Forall2

/-!
Lowering under observation. `Listing.watched` is the listing builder that also keeps a log of the
requests that can come to nothing: those that name something, that leave a loop or that want a
number. Each entry holds the request, the listing before and after it, and what it yielded.

What a tree wants of the builder, in the order of lowering, is the list of its `asks`. An entry of
the log meets an ask (`Listing.Met`) if it is the request for it, if the builder's own binding of
the name agrees with the role recorded in the tree, and if the request was not dropped.

`Listing.Serves` relates a piece of watched lowering to the same piece unwatched.
-/

namespace PlZero

/-! ### What a tree asks for -/

/-- Something a tree wants of a builder. -/
inductive Ask where
  | assign (target : Reference)
  | call (callee : Reference)
  /-- A bare name in the place of an operand. -/
  | operand (ref : Reference)
  /-- A bare name as a statement. -/
  | statement (ref : Reference)
  | control (exit : LoopExit)
  | number (value : Int32)

mutual

/-- What an expression asks for. -/
def Expr.asks : Expr → List Ask
  | .odd _ operand => operand.asks
  | .binary _ _ lhs rhs => lhs.asks ++ rhs.asks
  | .call _ callee args => Expr.asksAll args ++ [.call callee]
  | .name _ ref => [.operand ref]
  | .number _ value => [.number value]

def Expr.asksAll : List Expr → List Ask
  | [] => []
  | e :: rest => e.asks ++ Expr.asksAll rest

end

mutual

def Stmt.asks : Stmt → List Ask
  | .assign _ target value => value.asks ++ [.assign target]
  | .sequence _ body => Stmt.asksAll body
  | .ifThen _ cond thenBranch elseBranch =>
    cond.asks ++ (Stmt.asksOption thenBranch ++ Stmt.asksOption elseBranch)
  | .whileDo _ cond body => cond.asks ++ Stmt.asksOption body
  | .asm _ _ => []
  | .control _ exit => [.control exit]
  | .call _ callee args => Expr.asksAll args ++ [.call callee]
  | .name _ ref => [.statement ref]

def Stmt.asksOption : Option Stmt → List Ask
  | none => []
  | some s => s.asks

def Stmt.asksAll : List Stmt → List Ask
  | [] => []
  | s :: rest => s.asks ++ Stmt.asksAll rest

end

def Definition.asks : List Definition → List Ask
  | [] => []
  | d :: rest => (d.init.map Expr.asks).getD [] ++ Definition.asks rest

def Decls.asks (decls : Option Decls) : List Ask :=
  (decls.map fun decls => Definition.asks decls.defs).getD []

mutual

/-- What a block asks for. -/
def Block.asks : Block → List Ask
  | { consts, vars, routines, body, .. } =>
    Decls.asks consts ++ (Decls.asks vars ++ (Routine.asksAll routines ++ Stmt.asksOption body))

def Routine.asks : Routine → List Ask
  | { block, .. } => block.asks

def Routine.asksAll : List Routine → List Ask
  | [] => []
  | r :: rest => r.asks ++ Routine.asksAll rest

end

namespace Listing

/-! ### The watched builder -/

/-- A request, the listing before and after it, and what it yielded. -/
structure Exchange where
  request : Request Operand
  before : Listing
  answer : Option Operand
  after : Listing

/-- Work on a listing that keeps a log. -/
abbrev Watching := StateT (List Exchange) (StateM Listing)

/-- Does a piece of work that answers a request and logs it. -/
def watch {α : Type} (request : Request Operand) (yields : α → Option Operand)
    (work : Watching α) : Watching α := do
  let before ← getThe Listing
  let answer ← work
  let after ← getThe Listing
  modifyThe (List Exchange) (· ++ [{ request, before, answer := yields answer, after }])
  return answer

def watched : Builder Watching Operand :=
  { builder (m := Watching) with
    assign := fun name target value =>
      watch (.assign name target value) id (builder.assign name target value)
    control := fun exit => watch (.control exit) id (builder.control exit)
    call := fun name args => watch (.call name args) some (builder.call name args)
    name := fun name role => watch (.name name role) id (builder.name name role)
    number := fun value => watch (.number value) some (builder.number value) }

/-! ### Asks that are met -/

/-- What the builder finds for a name agrees with the role of the name. A constant whose value is
not known is kept in storage, and a name that is not found is a runtime function. -/
inductive Agrees (options : Options) (name : String) : Role → Option (Nat × Binding) → Prop where
  | const {up : Nat} {value : Int32} : Agrees options name .const (some (up, .const value))
  | kept {up : Nat} {place : Place} : Agrees options name .const (some (up, .storage place))
  | var {up : Nat} {place : Place} : Agrees options name .var (some (up, .storage place))
  | ret {up : Nat} {symbol : String} {slot : Slot} :
      Agrees options name .ret (some (up, .ret symbol slot))
  | proc {up : Nat} {symbol : String} : Agrees options name .proc (some (up, .proc symbol))
  | func {up : Nat} {symbol : String} : Agrees options name .func (some (up, .func symbol))
  | runtime : options.prelude = true → (Primitive.find? name).isSome = true →
      Agrees options name .func none

/-- The exchange is the request for what was asked, and it was not dropped: the binding of a name
agrees with its role, an assignment is one store, an operand has a value, a statement that has none
runs a procedure, and there is a loop to leave. -/
def Met (options : Options) (ask : Ask) (x : Exchange) : Prop :=
  match ask with
  | .assign target =>
    Agrees options target.name target.role (x.before.resolve? target.name) ∧
      ∃ value address, x.request = .assign target.name target.role value ∧
        x.after = x.before.emit (.store address value)
  | .call callee =>
    Agrees options callee.name callee.role (x.before.resolve? callee.name) ∧
      ∃ args, x.request = .call callee.name args
  | .operand ref =>
    Agrees options ref.name ref.role (x.before.resolve? ref.name) ∧
      x.request = .name ref.name ref.role ∧ x.answer.isSome = true
  | .statement ref =>
    Agrees options ref.name ref.role (x.before.resolve? ref.name) ∧
      x.request = .name ref.name ref.role ∧
      (x.answer.isSome = true ∨ ∃ symbol, x.after = x.before.emit (.run symbol))
  | .control exit => x.request = .control exit ∧ x.before.frame.loops ≠ []
  | .number value => x.request = .number value

/-! ### Watched and unwatched work -/

/-- Watched work `x` on `l` does what the unwatched work `y` does, the exchanges that it logs meet
the asks, and the answer and the listing are as `post` says. -/
structure Serves {α : Type} (options : Options) (x : Watching α) (y : StateM Listing α)
    (l : Listing) (asks : List Ask) (post : α → Listing → Prop) : Prop where
  log : ∀ log, ∃ more, (x.run log).run l = (((y.run l).1, log ++ more), (y.run l).2) ∧
    List.Forall₂ (Met options) asks more
  holds : post (y.run l).1 (y.run l).2

section

variable {α β : Type} {options : Options} {x : Watching α} {y : StateM Listing α}
  {f : α → Watching β} {g : α → StateM Listing β} {l : Listing} {asks others : List Ask}
  {mid post : α → Listing → Prop} {last : β → Listing → Prop}

/-- What is known of the answer may be weakened. -/
theorem Serves.mono (serves : Serves options x y l asks mid)
    (weaker : ∀ r l', mid r l' → post r l') : Serves options x y l asks post :=
  ⟨serves.log, weaker _ _ serves.holds⟩

/-- Work after work: the asks of the two are met one behind the other. -/
theorem Serves.bind (first : Serves options x y l asks mid)
    (next : ∀ r l', mid r l' → Serves options (f r) (g r) l' others last) :
    Serves options (x >>= f) (y >>= g) l (asks ++ others) last := by
  have second := next _ _ first.holds
  constructor
  · intro log
    obtain ⟨more, ran, met⟩ := first.log log
    obtain ⟨more', ran', met'⟩ := second.log (log ++ more)
    refine ⟨more ++ more', ?_, List.rel_append met met'⟩
    rw [StateT.run_bind, StateT.run_bind, ran, ← List.append_assoc]
    exact ran'
  · exact second.holds

/-- What asks for nothing can come first. -/
theorem Serves.bind_silent (first : Serves options x y l [] mid)
    (next : ∀ r l', mid r l' → Serves options (f r) (g r) l' asks last) :
    Serves options (x >>= f) (y >>= g) l asks last := first.bind next

/-- What asks for nothing can come last. -/
theorem Serves.silent_bind (first : Serves options x y l asks mid)
    (next : ∀ r l', mid r l' → Serves options (f r) (g r) l' [] last) :
    Serves options (x >>= f) (y >>= g) l asks last := by
  have whole := first.bind next
  rwa [List.append_nil] at whole

theorem serves_pure {r : α} (holds : post r l) :
    Serves options (pure r) (pure r) l [] post :=
  ⟨fun log => ⟨[], by rw [List.append_nil]; rfl, .nil⟩, holds⟩

theorem serves_modify {f : Listing → Listing} {post : PUnit → Listing → Prop}
    (holds : post ⟨⟩ (f l)) :
    Serves options (modifyThe Listing f) (modifyThe Listing f) l [] post :=
  ⟨fun log => ⟨[], by rw [List.append_nil]; rfl, .nil⟩, holds⟩

theorem serves_modifyGet {f : Listing → α × Listing} (holds : post (f l).1 (f l).2) :
    Serves options (modifyGetThe Listing f) (modifyGetThe Listing f) l [] post :=
  ⟨fun log => ⟨[], by rw [List.append_nil]; rfl, .nil⟩, holds⟩

/-! A step of the listing that is not watched is done at once. -/

/-- A silent step on the listing, and then the rest. -/
theorem serves_modify_bind {step : Listing → Listing} {f : PUnit → Watching β}
    {g : PUnit → StateM Listing β} (rest : Serves options (f ⟨⟩) (g ⟨⟩) (step l) asks last) :
    Serves options (modifyThe Listing step >>= f) (modifyThe Listing step >>= g) l asks last :=
  ⟨rest.log, rest.holds⟩

/-- A silent step with an answer, and then the rest. -/
theorem serves_modifyGet_bind {step : Listing → α × Listing}
    (rest : Serves options (f (step l).1) (g (step l).1) (step l).2 asks last) :
    Serves options (modifyGetThe Listing step >>= f) (modifyGetThe Listing step >>= g) l asks
      last :=
  ⟨rest.log, rest.holds⟩

/-- Watched work logs one exchange and otherwise does what it does unwatched. -/
theorem watch_run (request : Request Operand) (yields : α → Option Operand) (x : Watching α)
    (log : List Exchange) (l : Listing) :
    ((watch request yields x).run log).run l =
      (let ran := (x.run log).run l
      ((ran.1.1, ran.1.2 ++ [⟨request, l, yields ran.1.1, ran.2⟩]), ran.2)) := rfl

/-- A request is served if the exchange that is logged for it meets the ask. -/
theorem serves_watch {request : Request Operand} {yields : α → Option Operand} {ask : Ask}
    (plain : ∀ log, (x.run log).run l = (((y.run l).1, log), (y.run l).2))
    (met : Met options ask ⟨request, l, yields (y.run l).1, (y.run l).2⟩)
    (holds : post (y.run l).1 (y.run l).2) :
    Serves options (watch request yields x) y l [ask] post := by
  constructor
  · intro log
    refine ⟨[⟨request, l, yields (y.run l).1, (y.run l).2⟩], ?_, .cons met .nil⟩
    rw [watch_run, plain]
  · exact holds

end

end Listing

end PlZero
