import PlZero.Proofs.Analysis.Resolved

/-!
Where analysis puts the names of a program. In the finished table every block has a scope of its
own, which holds what the block declares, of a name that it declares twice the first declaration.
The scope of a procedure's block is inside that of the block around it; a function has one more
scope between the two, for its own name and its parameters. Scopes are numbered as they are entered,
and every phrase carries the scope of the innermost block around it.

`Block.Placed` says so of an annotated tree and a table. It is kept by whatever happens outside the
scopes it speaks of, so what is known of a routine when its analysis is over still holds at the end.

Main statement: `analyzeProgram_placed`, for every program, faulty or not.
-/

namespace PlZero

open Analysis Lexical

/-! ### Trees in a table -/

/-- Every part of the expression carries the scope. -/
inductive Expr.StandsIn (scope : ScopeId) : Expr → Prop where
  | odd {info : ExprInfo} {operand : Expr} :
      info.scope = some scope → StandsIn scope operand → StandsIn scope (.odd info operand)
  | binary {info : ExprInfo} {op : BinaryOp} {lhs rhs : Expr} :
      info.scope = some scope → StandsIn scope lhs → StandsIn scope rhs →
      StandsIn scope (.binary info op lhs rhs)
  | call {info : ExprInfo} {callee : Reference} {args : List Expr} :
      info.scope = some scope → (∀ e ∈ args, StandsIn scope e) →
      StandsIn scope (.call info callee args)
  | name {info : ExprInfo} {ref : Reference} :
      info.scope = some scope → StandsIn scope (.name info ref)
  | number {info : ExprInfo} {value : Int32} :
      info.scope = some scope → StandsIn scope (.number info value)

inductive Stmt.StandsIn (scope : ScopeId) : Stmt → Prop where
  | assign {info : StmtInfo} {target : Reference} {value : Expr} :
      info.scope = some scope → value.StandsIn scope → StandsIn scope (.assign info target value)
  | sequence {info : StmtInfo} {body : List Stmt} :
      info.scope = some scope → (∀ s ∈ body, StandsIn scope s) →
      StandsIn scope (.sequence info body)
  | ifThen {info : StmtInfo} {cond : Expr} {thenBranch elseBranch : Option Stmt} :
      info.scope = some scope → cond.StandsIn scope → (∀ s ∈ thenBranch, StandsIn scope s) →
      (∀ s ∈ elseBranch, StandsIn scope s) →
      StandsIn scope (.ifThen info cond thenBranch elseBranch)
  | whileDo {info : StmtInfo} {cond : Expr} {body : Option Stmt} :
      info.scope = some scope → cond.StandsIn scope → (∀ s ∈ body, StandsIn scope s) →
      StandsIn scope (.whileDo info cond body)
  | asm {info : StmtInfo} {text : String} :
      info.scope = some scope → StandsIn scope (.asm info text)
  | control {info : StmtInfo} {exit : LoopExit} :
      info.scope = some scope → StandsIn scope (.control info exit)
  | call {info : StmtInfo} {callee : Reference} {args : List Expr} :
      info.scope = some scope → (∀ e ∈ args, e.StandsIn scope) →
      StandsIn scope (.call info callee args)
  | name {info : StmtInfo} {ref : Reference} :
      info.scope = some scope → StandsIn scope (.name info ref)

/-- An expression carries the scope it stands in. -/
theorem Expr.StandsIn.own {e : Expr} {scope : ScopeId} (stands : e.StandsIn scope) :
    e.info.scope = some scope := by
  cases stands <;> assumption

/-- A statement carries the scope it stands in. -/
theorem Stmt.StandsIn.own {s : Stmt} {scope : ScopeId} (stands : s.StandsIn scope) :
    s.info.scope = some scope := by
  cases stands <;> assumption

def Definition.StandIn (scope : ScopeId) (defs : List Definition) : Prop :=
  ∀ d ∈ defs, ∀ e ∈ d.init, e.StandsIn scope

def Decls.StandIn (scope : ScopeId) (decls : Option Decls) : Prop :=
  (∀ d ∈ decls, d.scope = some scope) ∧ Definition.StandIn scope (Decls.definitions decls)

mutual

/-- The number of scopes for the routines of a block. -/
def Block.scopeCount : Block → Nat
  | { routines, .. } => Routine.scopeCountAll routines

/-- The number of scopes for a routine: one for its block and, for a function, one more. -/
def Routine.scopeCount : Routine → Nat
  | { kind := .procedure, block, .. } => 1 + block.scopeCount
  | { kind := .function _, block, .. } => 2 + block.scopeCount

def Routine.scopeCountAll : List Routine → Nat
  | [] => 0
  | r :: rest => r.scopeCount + Routine.scopeCountAll rest

end

mutual

/-- `block.Placed t base scope next`: in the table, the scope of the block holds what it declares
behind what `base` says was there before, and the scopes of its routines are numbered from `next`
on. -/
def Block.Placed (t : ScopeTable) (base : NameMap) (scope next : ScopeId) : Block → Prop
  | { consts, vars, routines, body, scope := own, .. } =>
    own = some scope ∧
      (∀ name, t.find? scope name = (base name).or
        ((Definition.symbols .const (Decls.definitions consts) ++
          Definition.symbols .var (Decls.definitions vars) ++ Routine.symbols routines).lookup
          name)) ∧
      Decls.StandIn scope consts ∧ Decls.StandIn scope vars ∧
      Routine.PlacedAll t scope next routines ∧ ∀ s ∈ body, s.StandsIn scope

/-- A routine declared in the scope `outer`, with its own scopes from `next` on. -/
def Routine.Placed (t : ScopeTable) (outer next : ScopeId) : Routine → Prop
  | { kind := .procedure, block, scope, .. } =>
    scope = some outer ∧ t.parent? next = some outer ∧ block.Placed t .empty next (next + 1)
  | { name, kind := .function params, block, scope, .. } =>
    scope = some next ∧ t.parent? next = some outer ∧
      (∀ other, t.find? next other =
        ((RoutineKind.function params).symbolsInside name).lookup other) ∧
      t.parent? (next + 1) = some next ∧ block.Placed t .empty (next + 1) (next + 2)

def Routine.PlacedAll (t : ScopeTable) (outer next : ScopeId) : List Routine → Prop
  | [] => True
  | r :: rest => r.Placed t outer next ∧ Routine.PlacedAll t outer (next + r.scopeCount) rest

end

/-! ### What a piece of analysis ensures -/

/-- The analysis, started in `a`, gives an answer and a state as `post` says. -/
def Ensures {α : Type} (x : Analysis α) (a : Analyzer) (post : α → Analyzer → Prop) : Prop :=
  post (x.run a).1 (x.run a).2

section

variable {α β : Type} {x : Analysis α} {f : α → Analysis β} {a : Analyzer}
  {post mid : α → Analyzer → Prop} {last : β → Analyzer → Prop}

/-- What is known of the answer may be weakened. -/
theorem Ensures.mono (ensures : Ensures x a mid) (weaker : ∀ r a', mid r a' → post r a') :
    Ensures x a post := weaker _ _ ensures

/-- Analysis after analysis. -/
theorem Ensures.bind (first : Ensures x a mid) (next : ∀ r a', mid r a' → Ensures (f r) a' last) :
    Ensures (x >>= f) a last := next _ _ first

theorem ensures_pure {r : α} (holds : post r a) : Ensures (pure r) a post := holds

/-- What follows a judgement ensures what can be said of its own answer. -/
theorem Follows.ensures {n : Noted β} {both : α → β → Analyzer → Prop}
    (follows : Follows x a n both) (weaker : ∀ r v a', both r v a' → post r a') :
    Ensures x a post := weaker _ _ _ follows.holds

theorem ensures_get {f : Analyzer → Analysis β} (rest : Ensures (f a) a last) :
    Ensures (get >>= f) a last := rest

theorem ensures_resolve? {name : String} {f : Option Symbol → Analysis β}
    (rest : Ensures (f (a.table.resolve? a.scope name)) a last) :
    Ensures (resolve? name >>= f) a last := rest

theorem ensures_currentScope {f : ScopeId → Analysis β} (rest : Ensures (f a.scope) a last) :
    Ensures (currentScope >>= f) a last := rest

theorem ensures_newScope {parent : ScopeId} {f : ScopeId → Analysis β}
    (rest : Ensures (f a.table.size) { a with table := a.table.push (some parent) } last) :
    Ensures (newScope parent >>= f) a last := rest

theorem ensures_annotateExpr {info : ExprInfo} {result : Role} {f : ExprInfo → Analysis β}
    (rest : Ensures (f { info with result, scope := some a.scope }) a last) :
    Ensures (info.annotate result >>= f) a last := rest

theorem ensures_annotateStmt {info : StmtInfo} {f : StmtInfo → Analysis β}
    (rest : Ensures (f { info with scope := some a.scope }) a last) :
    Ensures (info.annotate >>= f) a last := rest

theorem ensures_inScope {scope : ScopeId}
    (work : Ensures x { a with scope } fun r a' => post r { a' with scope := a.scope }) :
    Ensures (inScope scope x) a post := work

theorem ensures_inLoop
    (work : Ensures x { a with loopDepth := a.loopDepth + 1 } fun r a' =>
      post r { a' with loopDepth := a'.loopDepth - 1 }) :
    Ensures (inLoop x) a post := work

end

variable {a : Analyzer}

/-- A rule adds reports at most. -/
theorem ensures_settle (line : Nat) (ident : Option String) (rule : Except AnalysisFault Role) :
    Ensures (Analysis.settle line ident rule) a fun _ a' => a.Same a' :=
  (follows_settle line ident rule).ensures fun _ _ _ known => known.2

theorem ensures_resolveBy (line : Nat) (ref : Reference)
    (rule : Symbol → Except AnalysisFault Role) :
    Ensures (Analysis.resolveBy line ref rule) a fun _ a' => a.Same a' := by
  unfold Analysis.resolveBy
  apply ensures_resolve?
  split
  · exact ⟨rfl, rfl, rfl⟩
  · next symbol _ => exact (ensures_settle line ref.name (rule symbol)).bind fun _ _ same => same

theorem ensures_analyzeCall (line : Nat) (callee : Reference) (count : Nat) (argsOk : Bool) :
    Ensures (callee.analyzeCall line count argsOk) a fun _ a' => a.Same a' := by
  unfold Reference.analyzeCall
  apply ensures_resolve?
  split
  · exact ⟨rfl, rfl, rfl⟩
  · dsimp only
    split
    · exact ⟨rfl, rfl, rfl⟩
    · split <;> exact ⟨rfl, rfl, rfl⟩

/-! ### Expressions and statements -/

mutual

/-- All parts of an analyzed expression carry the scope in which it was analyzed. -/
theorem Expr.standsIn_analyze (a : Analyzer) :
    (e : Expr) → Ensures e.analyze a fun r a' => r.StandsIn a.scope ∧ a.Same a'
  | .odd info operand => by
    rw [Expr.analyze]
    apply (operand.standsIn_analyze a).bind
    rintro operand' a₁ ⟨stands, same₁⟩
    rw [classifyOdd_eq_settle]
    apply (ensures_settle _ _ _).bind
    intro result a₂ same₂
    have same := same₁.trans same₂
    exact ensures_annotateExpr ⟨.odd (congrArg some same.scope) stands, same⟩
  | .binary info op lhs rhs => by
    rw [Expr.analyze]
    apply (lhs.standsIn_analyze a).bind
    rintro lhs' a₁ ⟨left, same₁⟩
    apply (rhs.standsIn_analyze a₁).bind
    rintro rhs' a₂ ⟨right, same₂⟩
    rw [classifyBinary_eq_settle]
    apply (ensures_settle _ _ _).bind
    intro result a₃ same₃
    have same := (same₁.trans same₂).trans same₃
    rw [same₁.scope] at right
    exact ensures_annotateExpr ⟨.binary (congrArg some same.scope) left right, same⟩
  | .call info callee args => by
    rw [Expr.analyze]
    apply (Expr.standsIn_analyzeArgs a info.line callee.name args).bind
    rintro ⟨args', ok⟩ a₁ ⟨stand, same₁⟩
    apply (ensures_analyzeCall _ _ _ _).bind
    rintro ⟨callee', result⟩ a₂ same₂
    have same := same₁.trans same₂
    exact ensures_annotateExpr ⟨.call (congrArg some same.scope) stand, same⟩
  | .name info ref => by
    rw [Expr.analyze, Reference.analyze_eq_resolveBy]
    apply (ensures_resolveBy _ _ _).bind
    rintro ⟨ref', result⟩ a₁ same
    exact ensures_annotateExpr ⟨.name (congrArg some same.scope), same⟩
  | .number info value => by
    rw [Expr.analyze]
    exact ensures_annotateExpr ⟨.number rfl, .refl a⟩

theorem Expr.standsIn_analyzeArgs (a : Analyzer) (line : Nat) (callee : String) :
    (args : List Expr) → Ensures (Expr.analyzeArgs line callee args) a
      fun r a' => (∀ e ∈ r.1, e.StandsIn a.scope) ∧ a.Same a'
  | [] => by
    rw [Expr.analyzeArgs]
    exact ensures_pure ⟨nofun, .refl a⟩
  | arg :: args => by
    rw [Expr.analyzeArgs]
    apply (arg.standsIn_analyze a).bind
    rintro arg' a₁ ⟨first, same₁⟩
    apply ((follows_checkArgument line callee arg'.info.result).ensures
      fun _ _ _ known => known.2).bind
    intro ok a₂ same₂
    have same := same₁.trans same₂
    apply (Expr.standsIn_analyzeArgs a₂ line callee args).bind
    rintro ⟨args', argsOk⟩ a₃ ⟨others, same₃⟩
    rw [same.scope] at others
    exact ensures_pure ⟨List.forall_mem_cons.mpr ⟨first, others⟩, same.trans same₃⟩

end

mutual

/-- All parts of an analyzed statement carry the scope in which it was analyzed: statements open no
scopes. -/
theorem Stmt.standsIn_analyze (a : Analyzer) :
    (s : Stmt) → Ensures s.analyze a fun r a' => r.1.StandsIn a.scope ∧ a.Same a'
  | .assign info target value => by
    rw [Stmt.analyze]
    apply ensures_annotateStmt
    apply (value.standsIn_analyze a).bind
    rintro value' a₁ ⟨stands, same₁⟩
    rw [Reference.analyzeTarget_eq_resolveBy]
    apply (ensures_resolveBy _ _ _).bind
    rintro ⟨target', result⟩ a₂ same₂
    exact ensures_pure ⟨.assign rfl stands, same₁.trans same₂⟩
  | .sequence info body => by
    rw [Stmt.analyze]
    apply ensures_annotateStmt
    apply (Stmt.standsIn_analyzeAll a body).bind
    rintro ⟨body', ok⟩ a₁ ⟨stand, same⟩
    exact ensures_pure ⟨.sequence rfl stand, same⟩
  | .ifThen info cond thenBranch elseBranch => by
    rw [Stmt.analyze]
    apply ensures_annotateStmt
    apply (cond.standsIn_analyze a).bind
    rintro cond' a₁ ⟨test, same₁⟩
    apply (Stmt.standsIn_analyzeOption a₁ thenBranch).bind
    rintro ⟨then', thenOk⟩ a₂ ⟨inThen, same₂⟩
    have same := same₁.trans same₂
    apply (Stmt.standsIn_analyzeOption a₂ elseBranch).bind
    rintro ⟨else', elseOk⟩ a₃ ⟨inElse, same₃⟩
    rw [same₁.scope] at inThen
    rw [same.scope] at inElse
    exact ensures_pure ⟨.ifThen rfl test inThen inElse, same.trans same₃⟩
  | .whileDo info cond body => by
    rw [Stmt.analyze]
    apply ensures_annotateStmt
    apply (cond.standsIn_analyze a).bind
    rintro cond' a₁ ⟨test, same₁⟩
    have work : Ensures (inLoop (Stmt.analyzeOption body)) a₁
        fun r a' => (∀ s ∈ r.1, s.StandsIn a₁.scope) ∧ a₁.Same a' := by
      apply ensures_inLoop
      apply (Stmt.standsIn_analyzeOption _ body).mono
      rintro r a' ⟨stand, same⟩
      exact ⟨stand, same.table, same.scope, by rw [same.loopDepth]; rfl⟩
    apply work.bind
    rintro ⟨body', ok⟩ a₂ ⟨inBody, same₂⟩
    rw [same₁.scope] at inBody
    exact ensures_pure ⟨.whileDo rfl test inBody, same₁.trans same₂⟩
  | .asm info text => by
    rw [Stmt.analyze]
    exact ensures_annotateStmt ⟨.asm rfl, .refl a⟩
  | .control info exit => by
    rw [Stmt.analyze]
    apply ensures_annotateStmt
    apply ensures_get
    split
    · exact ⟨.control rfl, rfl, rfl, rfl⟩
    · exact ⟨.control rfl, .refl a⟩
  | .call info callee args => by
    rw [Stmt.analyze]
    apply ensures_annotateStmt
    apply (Expr.standsIn_analyzeArgs a info.line callee.name args).bind
    rintro ⟨args', ok⟩ a₁ ⟨stand, same₁⟩
    apply (ensures_analyzeCall _ _ _ _).bind
    rintro ⟨callee', result⟩ a₂ same₂
    exact ensures_pure ⟨.call rfl stand, same₁.trans same₂⟩
  | .name info ref => by
    rw [Stmt.analyze]
    apply ensures_annotateStmt
    rw [Reference.analyze_eq_resolveBy]
    apply (ensures_resolveBy _ _ _).bind
    rintro ⟨ref', result⟩ a₁ same
    exact ensures_pure ⟨.name rfl, same⟩

theorem Stmt.standsIn_analyzeOption (a : Analyzer) :
    (s : Option Stmt) → Ensures (Stmt.analyzeOption s) a
      fun r a' => (∀ s ∈ r.1, s.StandsIn a.scope) ∧ a.Same a'
  | none => by
    rw [Stmt.analyzeOption]
    exact ensures_pure ⟨nofun, .refl a⟩
  | some s => by
    rw [Stmt.analyzeOption]
    apply (s.standsIn_analyze a).bind
    rintro ⟨s', result⟩ a₁ ⟨stands, same⟩
    refine ensures_pure ⟨?_, same⟩
    rintro _ ⟨⟩
    exact stands

theorem Stmt.standsIn_analyzeAll (a : Analyzer) :
    (body : List Stmt) → Ensures (Stmt.analyzeAll body) a
      fun r a' => (∀ s ∈ r.1, s.StandsIn a.scope) ∧ a.Same a'
  | [] => by
    rw [Stmt.analyzeAll]
    exact ensures_pure ⟨nofun, .refl a⟩
  | s :: rest => by
    rw [Stmt.analyzeAll]
    apply (s.standsIn_analyze a).bind
    rintro ⟨s', result⟩ a₁ ⟨first, same₁⟩
    apply (Stmt.standsIn_analyzeAll a₁ rest).bind
    rintro ⟨rest', ok⟩ a₂ ⟨others, same₂⟩
    rw [same₁.scope] at others
    exact ensures_pure ⟨List.forall_mem_cons.mpr ⟨first, others⟩, same₁.trans same₂⟩

end

/-! ### Declarations -/

/-- From `a` to `a'` the names of `scope` have been extended by the entries, of which the first one
of a name counts, and `count` scopes have been added; all else in the table is as it was. -/
structure Analyzer.Grows (scope : ScopeId) (entries : List (String × Symbol)) (count : Nat)
    (a a' : Analyzer) : Prop where
  stays : a'.scope = a.scope
  size : a'.table.size = a.table.size + count
  parent : a'.table.parent? scope = a.table.parent? scope
  others : ∀ i : Nat, i < a.table.size → i ≠ scope → a'.table.scopes[i]? = a.table.scopes[i]?
  own : ∀ name, a'.table.find? scope name = (a.table.find? scope name).or (entries.lookup name)

section

variable {scope : ScopeId} {entries more : List (String × Symbol)} {count further : Nat}
  {a' a'' : Analyzer}

/-- Names and scopes are added behind those that were added before. -/
theorem Analyzer.Grows.trans (first : a.Grows scope entries count a')
    (second : a'.Grows scope more further a'') :
    a.Grows scope (entries ++ more) (count + further) a'' := by
  constructor
  case stays => exact second.stays.trans first.stays
  case size => rw [second.size, first.size, Nat.add_assoc]
  case parent => exact second.parent.trans first.parent
  case others =>
    intro i made other
    have still : i < a'.table.size := by rw [first.size]; omega
    rw [second.others i still other, first.others i made other]
  case own =>
    intro name
    rw [second.own, first.own, List.lookup_append, Option.or_assoc]

theorem Analyzer.Same.grows (same : a.Same a') (scope : ScopeId) : a.Grows scope [] 0 a' := by
  constructor
  case stays => exact same.scope
  all_goals simp [same.table]

/-- A declaration adds its name, if that is free. -/
theorem grows_declare (made : scope < a.table.size) (name : String) (symbol : Symbol) (line : Nat) :
    Ensures (declare scope name symbol line) a fun _ a' => a.Grows scope [(name, symbol)] 0 a' := by
  unfold Ensures
  rw [declare_run]
  cases inserted : a.table.insert scope name symbol with
  | ok table =>
    refine ⟨rfl, ScopeTable.size_insert inserted, ScopeTable.parent?_insert inserted scope,
      fun _ _ other => ScopeTable.insert_other inserted other, fun other => ?_⟩
    dsimp only
    rw [ScopeTable.find?_insert inserted made, List.lookup_cons, List.lookup_nil]
    by_cases same : other = name
    · rw [if_pos same, same, ScopeTable.find?_of_insert inserted, beq_self_eq_true]
      rfl
    · rw [if_neg same, beq_false_of_ne same, Option.or_none]
  | error existing =>
    refine ⟨rfl, rfl, rfl, fun _ _ _ => rfl, fun other => ?_⟩
    have found := ScopeTable.find?_of_insert_error inserted
    by_cases same : other = name
    · rw [same]
      exact found.trans (by rw [found]; rfl)
    · rw [List.lookup_cons, beq_false_of_ne same]
      exact Option.or_none.symm

theorem grows_declareParams (made : scope < a.table.size) (line : Nat) (params : List String) :
    Ensures (declareParams scope line params) a fun _ a' =>
      a.Grows scope (params.map fun param => (param, { role := .var })) 0 a' := by
  induction params generalizing a with
  | nil =>
    rw [declareParams]
    exact ensures_pure ((Analyzer.Same.refl a).grows scope)
  | cons param params ih =>
    rw [declareParams]
    apply (grows_declare made param _ line).bind
    intro ok a₁ first
    have made₁ : scope < a₁.table.size := by rw [first.size]; exact made
    exact (ih made₁).bind fun _ _ others => ensures_pure (first.trans others)

/-- A definition adds its name to the scope that its initial value stands in. -/
theorem Definition.grows_analyze (made : a.scope < a.table.size) (role : Role) (d : Definition) :
    Ensures (d.analyze role) a fun r a' => Definition.StandIn a.scope [r.1] ∧
      a.Grows a.scope (Definition.symbols role [r.1]) 0 a' := by
  have init : Ensures (Definition.analyzeInit d.init) a
      fun r a' => (∀ e ∈ r, e.StandsIn a.scope) ∧ a.Same a' := by
    cases d.init with
    | none => exact ensures_pure ⟨nofun, .refl a⟩
    | some e =>
      apply (e.standsIn_analyze a).bind
      rintro e' a₁ ⟨stands, same⟩
      refine ensures_pure ⟨?_, same⟩
      rintro _ ⟨⟩
      exact stands
  unfold Definition.analyze
  apply init.bind
  rintro init' a₁ ⟨stand, same₁⟩
  apply ((Definition.follows_checkInit _ _ _ _).ensures fun _ _ _ known => known).bind
  intro ok a₂ same₂
  have same := same₁.trans same₂
  apply ensures_currentScope
  have made₂ : a₂.scope < a₂.table.size := by rw [same.scope, same.table]; exact made
  apply (grows_declare made₂ d.name _ d.line).bind
  intro declared a₃ grows
  rw [same.scope] at grows
  refine ensures_pure ⟨List.forall_mem_singleton.mpr stand, ?_⟩
  exact (same.grows a.scope).trans grows

/-- Definitions add their names in order. -/
theorem Definition.grows_analyzeAll (made : a.scope < a.table.size) (role : Role)
    (defs : List Definition) :
    Ensures (Definition.analyzeAll role defs) a fun r a' => Definition.StandIn a.scope r.1 ∧
      a.Grows a.scope (Definition.symbols role r.1) 0 a' := by
  induction defs generalizing a with
  | nil =>
    rw [Definition.analyzeAll]
    exact ensures_pure ⟨List.forall_mem_nil _, (Analyzer.Same.refl a).grows a.scope⟩
  | cons d rest ih =>
    rw [Definition.analyzeAll]
    apply (d.grows_analyze made role).bind
    rintro ⟨d', ok⟩ a₁ ⟨stands, first⟩
    have made₁ : a₁.scope < a₁.table.size := by rw [first.stays, first.size]; exact made
    apply (ih made₁).bind
    rintro ⟨rest', restOk⟩ a₂ ⟨stand, others⟩
    rw [first.stays] at stand others
    refine ensures_pure ⟨?_, first.trans others⟩
    exact List.forall_mem_cons.mpr ⟨List.forall_mem_singleton.mp stands, stand⟩

theorem Decls.grows_analyze (made : a.scope < a.table.size) (role : Role) (decls : Option Decls) :
    Ensures (Decls.analyzeOption role decls) a fun r a' => Decls.StandIn a.scope r.1 ∧
      a.Grows a.scope (Definition.symbols role (Decls.definitions r.1)) 0 a' := by
  cases decls with
  | none =>
    exact ensures_pure ⟨⟨nofun, nofun⟩, (Analyzer.Same.refl a).grows a.scope⟩
  | some decls =>
    rw [Decls.analyzeOption, Decls.analyze, bind_assoc]
    apply ensures_currentScope
    rw [bind_assoc]
    apply (Definition.grows_analyzeAll made role decls.defs).bind
    rintro ⟨defs, ok⟩ a₁ ⟨stand, grows⟩
    rw [pure_bind]
    refine ensures_pure ⟨⟨?_, stand⟩, grows⟩
    rintro _ ⟨⟩
    rfl

end

/-! ### Routines and blocks -/

/-- The scopes with numbers from `first` to before `last` are the same in both tables. -/
def ScopeTable.Agrees (t t' : ScopeTable) (first last : Nat) : Prop :=
  ∀ i : Nat, first ≤ i → i < last → t.scopes[i]? = t'.scopes[i]?

theorem ScopeTable.parent?_congr {t t' : ScopeTable} {i : ScopeId}
    (same : t.scopes[i]? = t'.scopes[i]?) : t.parent? i = t'.parent? i := by
  rw [parent?, same, ← parent?]

theorem ScopeTable.find?_congr {t t' : ScopeTable} {i : ScopeId}
    (same : t.scopes[i]? = t'.scopes[i]?) (name : String) : t.find? i name = t'.find? i name := by
  rw [find?, same, ← find?]

/-- Analysis of the block fills the scope with what it declares and places its routines, whatever
happens to other scopes afterwards. -/
def Block.GetsPlaced (block : Block) : Prop :=
  ∀ (a : Analyzer) (scope : ScopeId), scope < a.table.size →
    Ensures (block.analyzeIn scope) a fun r a' =>
      a.Grows scope r.1.symbols r.1.scopeCount a' ∧
        ∀ t : ScopeTable, t.scopes[scope]? = a'.table.scopes[scope]? →
          t.Agrees a'.table a.table.size a'.table.size →
          r.1.Placed t (a.table.find? scope) scope a.table.size

/-- Analysis of the routine declares its name and places it, whatever happens to the scopes around
it afterwards. -/
def Routine.GetsPlaced (r : Routine) : Prop :=
  ∀ a : Analyzer, a.scope < a.table.size → Ensures r.analyze a fun r a' =>
    a.Grows a.scope (Routine.symbols [r.1]) r.1.scopeCount a' ∧
      ∀ t : ScopeTable, t.Agrees a'.table a.table.size a'.table.size →
        r.1.Placed t a.scope a.table.size

/-- The block of a routine, in a new scope. -/
theorem Block.GetsPlaced.inside {block : Block} (places : block.GetsPlaced) {scope : ScopeId}
    (made : scope < a.table.size) (parent : ScopeId) :
    Ensures (block.analyzeIn a.table.size) { a with table := a.table.push (some parent) }
      fun r a' => a.Grows scope [] (1 + r.1.scopeCount) a' ∧
        ∀ t : ScopeTable, t.Agrees a'.table a.table.size a'.table.size →
          t.parent? a.table.size = some parent ∧
            r.1.Placed t .empty a.table.size (a.table.size + 1) := by
  have new : a.table.size < (a.table.push (some parent)).size := by simp
  apply (places { a with table := a.table.push (some parent) } _ new).mono
  rintro r a' ⟨grows, placed⟩
  have size : a'.table.size = a.table.size + (1 + r.1.scopeCount) := by
    rw [grows.size, ScopeTable.size_push, Nat.add_assoc]
  have old (i : ScopeId) (before : i < a.table.size) :
      a'.table.scopes[i]? = a.table.scopes[i]? := by
    rw [grows.others i (Nat.lt_trans before new) (Nat.ne_of_lt before),
      ScopeTable.push_below _ _ before]
  constructor
  · refine ⟨grows.stays, size, ScopeTable.parent?_congr (old scope made),
      fun i before _ => old i before, fun name => ?_⟩
    rw [ScopeTable.find?_congr (old scope made), List.lookup_nil, Option.or_none]
  · intro t agrees
    have own := agrees a.table.size (Nat.le_refl _) (by omega)
    constructor
    · rw [ScopeTable.parent?_congr own, grows.parent, ScopeTable.parent?_push]
    · have empty : (a.table.push (some parent)).find? a.table.size = NameMap.empty :=
        funext fun name => ScopeTable.find?_push _ _ name
      have inside := placed t own fun i after before =>
        agrees i (Nat.le_trans (Nat.le_of_lt new) after) before
      dsimp only at inside
      rw [empty, ScopeTable.size_push] at inside
      exact inside

/-- A procedure has one scope, for its block. -/
theorem Routine.procedure_getsPlaced {line : Nat} {name : String} {block : Block}
    {scope : Option ScopeId} (places : block.GetsPlaced) :
    Routine.GetsPlaced { line, name, kind := .procedure, block, scope } := by
  intro a made
  rw [Routine.analyze]
  apply ensures_currentScope
  apply (grows_declare made name _ line).bind
  intro declared a₁ named
  have size : a₁.table.size = a.table.size := named.size
  have made₁ : a.scope < a₁.table.size := by rw [size]; exact made
  apply ensures_newScope
  apply (places.inside made₁ a.scope).bind
  rintro ⟨block', result⟩ a₂ ⟨grows, placed⟩
  rw [size] at placed
  refine ensures_pure ⟨?_, fun t agrees => ?_⟩
  · have whole := named.trans grows
    rw [Nat.zero_add] at whole
    rw [Routine.scopeCount]
    exact whole
  · rw [Routine.Placed]
    exact ⟨rfl, placed t agrees⟩

/-- A function has two scopes: one for its parameters and its name, and inside that one for its
block. -/
theorem Routine.function_getsPlaced {line : Nat} {name : String} {params : List String}
    {block : Block} {scope : Option ScopeId} (places : block.GetsPlaced) :
    Routine.GetsPlaced { line, name, kind := .function params, block, scope } := by
  intro a made
  rw [Routine.analyze]
  apply ensures_currentScope
  apply ensures_newScope
  -- the own scope, with the name and the parameters
  have new : a.table.size < (a.table.push (some a.scope)).size := by simp
  apply (grows_declare new name _ line).bind
  intro nameOk a₁ named
  have made₁ : a.table.size < a₁.table.size := by rw [named.size]; exact new
  apply (grows_declareParams made₁ line params).bind
  intro paramsOk a₂ withParams
  have own := named.trans withParams
  have size₂ : a₂.table.size = a.table.size + 1 := by rw [own.size, ScopeTable.size_push]
  -- the name around it
  have made₂ : a.scope < a₂.table.size := by rw [size₂]; exact Nat.lt_succ_of_lt made
  apply (grows_declare made₂ name _ line).bind
  intro declared a₃ around
  have size₃ : a₃.table.size = a.table.size + 1 := around.size.trans size₂
  have made₃ : a.scope < a₃.table.size := by rw [size₃]; exact Nat.lt_succ_of_lt made
  apply ensures_newScope
  apply (places.inside made₃ a.table.size).bind
  rintro ⟨block', result⟩ a₄ ⟨grows, placed⟩
  have old (i : ScopeId) (before : i < a.table.size) :
      a₂.table.scopes[i]? = a.table.scopes[i]? := by
    rw [own.others i (Nat.lt_trans before new) (Nat.ne_of_lt before),
      ScopeTable.push_below _ _ before]
  have entered : a.Grows a.scope [] 1 a₂ := by
    refine ⟨own.stays, size₂, ScopeTable.parent?_congr (old _ made), fun i before _ => old i before,
      fun other => ?_⟩
    rw [ScopeTable.find?_congr (old _ made), List.lookup_nil, Option.or_none]
  refine ensures_pure ⟨?_, fun t agrees => ?_⟩
  · have whole := (entered.trans around).trans grows
    rw [Routine.scopeCount, show 2 + block'.scopeCount = 1 + 0 + (1 + block'.scopeCount) by omega]
    exact whole
  · have sizes : a₄.table.size = a₃.table.size + (1 + block'.scopeCount) := grows.size
    obtain ⟨innerParent, inner⟩ := placed t fun i after before => agrees i (by omega) before
    rw [size₃] at innerParent inner
    -- the own scope is as it was when its names were declared
    have ownScope : t.scopes[a.table.size]? = a₂.table.scopes[a.table.size]? := by
      rw [agrees _ (Nat.le_refl _) (by omega), grows.others _ (by omega) (Nat.ne_of_gt made),
        around.others _ (by omega) (Nat.ne_of_gt made)]
    rw [Routine.Placed]
    refine ⟨rfl, ?_, fun other => ?_, innerParent, inner⟩
    · rw [ScopeTable.parent?_congr ownScope, own.parent, ScopeTable.parent?_push]
    · rw [ScopeTable.find?_congr ownScope, own.own]
      dsimp only
      rw [ScopeTable.find?_push]
      rfl

mutual

/-- The induction over blocks and routines. Later work adds scopes with higher numbers, so the
scopes of a routine stay as they were left. -/
theorem Block.getsPlaced : (block : Block) → block.GetsPlaced
  | { line, consts, vars, routines, body, .. } => by
    intro a scope made
    rw [Block.analyzeIn]
    apply ensures_inScope
    have made₀ : ({ a with scope } : Analyzer).scope < a.table.size := made
    apply (Decls.grows_analyze made₀ .const consts).bind
    rintro ⟨consts', constsOk⟩ a₁ ⟨inConsts, grows₁⟩
    have made₁ : a₁.scope < a₁.table.size := by rw [grows₁.stays, grows₁.size]; exact made
    apply (Decls.grows_analyze made₁ .var vars).bind
    rintro ⟨vars', varsOk⟩ a₂ ⟨inVars, grows₂⟩
    rw [grows₁.stays] at inVars grows₂
    have values := grows₁.trans grows₂
    have made₂ : a₂.scope < a₂.table.size := by rw [values.stays, values.size]; exact made
    apply (Routine.getPlaced routines made₂).bind
    rintro ⟨routines', routinesOk⟩ a₃ ⟨grows₃, placed⟩
    -- definitions make no scopes, so the first routine gets the next number there was
    have size₂ : a₂.table.size = a.table.size := values.size
    rw [values.stays] at grows₃ placed
    rw [size₂] at placed
    have all := values.trans grows₃
    apply (Stmt.standsIn_analyzeOption a₃ body).bind
    rintro ⟨body', bodyOk⟩ a₄ ⟨inBody, same⟩
    rw [all.stays] at inBody
    refine ensures_pure ⟨⟨rfl, ?_, ?_, ?_, ?_⟩, fun t own agrees => ?_⟩
    · dsimp only
      rw [same.table, all.size, Block.scopeCount, Nat.zero_add]
    · dsimp only
      rw [same.table]
      exact all.parent
    · dsimp only
      rw [same.table]
      exact all.others
    · dsimp only
      rw [same.table]
      exact all.own
    · dsimp only at own agrees
      rw [same.table] at own agrees
      rw [Block.Placed]
      refine ⟨rfl, fun name => ?_, inConsts, inVars, placed t agrees, inBody⟩
      rw [ScopeTable.find?_congr own]
      exact all.own name

theorem Routine.getsPlaced : (r : Routine) → r.GetsPlaced
  | ⟨_, _, .procedure, block, _⟩ => Routine.procedure_getsPlaced block.getsPlaced
  | ⟨_, _, .function _, block, _⟩ => Routine.function_getsPlaced block.getsPlaced

theorem Routine.getPlaced {a : Analyzer} : (rs : List Routine) → a.scope < a.table.size →
    Ensures (Block.analyzeRoutines rs) a fun r a' =>
      a.Grows a.scope (Routine.symbols r.1) (Routine.scopeCountAll r.1) a' ∧
        ∀ t : ScopeTable, t.Agrees a'.table a.table.size a'.table.size →
          Routine.PlacedAll t a.scope a.table.size r.1
  | [], _ => by
    rw [Block.analyzeRoutines]
    refine ensures_pure ⟨?_, fun t _ => ?_⟩
    · rw [Routine.scopeCountAll]
      exact (Analyzer.Same.refl a).grows a.scope
    · rw [Routine.PlacedAll]
      trivial
  | r :: rest, made => by
    rw [Block.analyzeRoutines]
    apply (r.getsPlaced a made).bind
    rintro ⟨r', result⟩ a₁ ⟨grows₁, placed₁⟩
    have size₁ : a₁.table.size = a.table.size + r'.scopeCount := grows₁.size
    have made₁ : a₁.scope < a₁.table.size := by
      rw [grows₁.stays, size₁]
      exact Nat.lt_add_right _ made
    apply (Routine.getPlaced rest made₁).bind
    rintro ⟨rest', ok⟩ a₂ ⟨grows₂, placed₂⟩
    rw [grows₁.stays] at grows₂ placed₂
    have size₂ : a₂.table.size = a₁.table.size + Routine.scopeCountAll rest' := grows₂.size
    refine ensures_pure ⟨?_, fun t agrees => ?_⟩
    · rw [Routine.scopeCountAll]
      exact grows₁.trans grows₂
    · rw [Routine.PlacedAll]
      constructor
      · refine placed₁ t fun i after before => ?_
        rw [agrees i after (by omega), grows₂.others i before
          (Nat.ne_of_gt (Nat.lt_of_lt_of_le made after))]
      · rw [← size₁]
        exact placed₂ t fun i after before => agrees i (by omega) before

end

/-! ### Programs -/

/-- In the table that analysis ends with, every scope and every phrase of the program is placed. -/
theorem analyzeProgram_placed (options : Options) (program : Block) :
    (analyzeProgram options program).program.Placed (analyzeProgram options program).table
        options.names 0 options.table.size ∧
      (analyzeProgram options program).table.size =
        options.table.size + (analyzeProgram options program).program.scopeCount := by
  have root := options.shows_table
  obtain ⟨grows, placed⟩ := program.getsPlaced { table := options.table, scope := 0 } 0 root.made
  have placed := placed _ rfl fun _ _ _ => rfl
  rw [root.inner] at placed
  exact ⟨placed, grows.size⟩

end PlZero
