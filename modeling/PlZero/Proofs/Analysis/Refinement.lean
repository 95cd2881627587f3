import PlZero.Pipeline
import PlZero.Proofs.Analysis.Lexical
import PlZero.Proofs.Analysis.Table

/-!
Analysis is lexical. It works on one table of scopes that only grows and a number for the scope it
is in; what it finds is what `Block.judge` finds with a stack of name maps that is handed along.

A scope of the table shows a stack (`ScopeTable.Shows`) if the names of the scope and of those
around it are the maps of the stack. A piece of analysis in a scope changes that scope and makes new
ones (`ScopeTable.ChangesOnly`), so the scopes that a routine leaves behind are never looked at
again.

Main statement: `analyzeProgram_eq_judgeProgram`.
-/

namespace PlZero

open Analysis Lexical

/-! ### Tables as stacks -/

namespace ScopeTable

variable {t t' t'' : ScopeTable} {scope outer : ScopeId} {s : Stack}

/-- The names of a scope and of the scopes around it, innermost first. -/
def maps (t : ScopeTable) (scope : ScopeId) : List NameMap :=
  t.find? scope ::
    match t.parent? scope with
    | some parent => if parent < scope then t.maps parent else []
    | none => []
termination_by scope

/-- Looking a name up scope by scope is looking it up in the list of name maps. -/
theorem resolve?_eq_findSome? (t : ScopeTable) (scope : ScopeId) (name : String) :
    t.resolve? scope name = (t.maps scope).findSome? (· name) := by
  induction scope using Nat.strongRecOn with
  | ind scope ih =>
    rw [resolve?, maps, List.findSome?_cons]
    cases t.find? scope name with
    | some symbol => rfl
    | none =>
      cases t.parent? scope with
      | none => rfl
      | some parent =>
        by_cases inside : parent < scope
        · simp only [inside, if_true, ih parent inside]
        · simp only [inside, if_false, List.findSome?_nil]

/-- The maps of a scope are its own and those of the scope around it. -/
theorem maps_of_parent (parent : t.parent? scope = some outer) (inside : outer < scope) :
    t.maps scope = t.find? scope :: t.maps outer := by
  rw [maps, parent]
  simp only [inside, if_true]

/-- The maps of a scope depend on it and on the scopes before it only. -/
theorem maps_congr (scope : ScopeId) (same : ∀ i ≤ scope, t'.scopes[i]? = t.scopes[i]?) :
    t'.maps scope = t.maps scope := by
  induction scope using Nat.strongRecOn with
  | ind scope ih =>
    have own := same scope (Nat.le_refl scope)
    have found : t'.find? scope = t.find? scope := by
      funext name
      rw [find?, own, find?]
    have parent : t'.parent? scope = t.parent? scope := by rw [parent?, own, parent?]
    rw [maps, maps, found, parent]
    cases t.parent? scope with
    | none => rfl
    | some p =>
      by_cases inside : p < scope
      · have further := ih p inside fun i le => same i (Nat.le_trans le (Nat.le_of_lt inside))
        simp only [inside, if_true, further]
      · simp only [inside, if_false]

/-- The scope has been made, and its names are the maps of the stack. -/
structure Shows (t : ScopeTable) (scope : ScopeId) (s : Stack) : Prop where
  made : scope < t.size
  maps : t.maps scope = s.maps

/-- Where the table shows a stack, names stand for what the stack says. -/
theorem Shows.resolve? (shows_ : t.Shows scope s) (name : String) :
    t.resolve? scope name = s.lookup? name := by
  rw [resolve?_eq_findSome?, shows_.maps, Stack.lookup?]

theorem Shows.inner (shows_ : t.Shows scope s) : t.find? scope = s.inner := by
  have maps := shows_.maps
  rw [ScopeTable.maps, Stack.maps] at maps
  exact (List.cons.inj maps).1

/-- From `t` to `t'` only `scope` has changed, by new names, and scopes have been added. -/
structure ChangesOnly (scope : ScopeId) (t t' : ScopeTable) : Prop where
  size : t.size ≤ t'.size
  parent : t'.parent? scope = t.parent? scope
  others : ∀ i < t.size, i ≠ scope → t'.scopes[i]? = t.scopes[i]?

theorem ChangesOnly.refl (scope : ScopeId) (t : ScopeTable) : ChangesOnly scope t t :=
  ⟨Nat.le_refl _, rfl, fun _ _ _ => rfl⟩

theorem ChangesOnly.trans (first : ChangesOnly scope t t') (second : ChangesOnly scope t' t'') :
    ChangesOnly scope t t'' := by
  refine ⟨Nat.le_trans first.size second.size, second.parent.trans first.parent, ?_⟩
  intro i made other
  rw [second.others i (Nat.lt_of_lt_of_le made first.size) other, first.others i made other]

/-- What a scope shows depends on the scopes with smaller numbers, since the scopes around it have
those. -/
theorem Shows.congr (shows_ : t.Shows scope s) (size : t.size ≤ t'.size)
    (same : ∀ i ≤ scope, t'.scopes[i]? = t.scopes[i]?) : t'.Shows scope s :=
  ⟨Nat.lt_of_lt_of_le shows_.made size, (maps_congr scope same).trans shows_.maps⟩

/-- What is done in a scope does not show further out. -/
theorem Shows.outside {inner : ScopeId} (shows_ : t.Shows outer s)
    (changes : ChangesOnly inner t t') (inside : outer < inner) : t'.Shows outer s := by
  apply shows_.congr changes.size
  intro i le
  have before : i < inner := Nat.lt_of_le_of_lt le inside
  exact changes.others i (Nat.lt_of_le_of_lt le shows_.made) (Nat.ne_of_lt before)

/-- A new scope changes nothing for the others. -/
theorem Shows.pushed (shows_ : t.Shows scope s) (parent : Option ScopeId) :
    (t.push parent).Shows scope s := by
  apply shows_.congr (by simp)
  intro i le
  exact push_below t parent (Nat.lt_of_le_of_lt le shows_.made)

/-- A new scope is an empty map on top of the stack. -/
theorem Shows.push (shows_ : t.Shows outer s) :
    (t.push (some outer)).Shows t.size (s.push .empty) := by
  constructor
  · simp
  · have empty : (t.push (some outer)).find? t.size = NameMap.empty := by
      funext name
      rw [find?_push, NameMap.empty]
    rw [maps_of_parent (parent?_push t _) shows_.made, empty, (shows_.pushed _).maps]
    rfl

/-- What happens in and behind a new scope happens behind the scopes that were there. -/
theorem ChangesOnly.of_pushed {parent : Option ScopeId}
    (changes : ChangesOnly t.size (t.push parent) t') (made : scope < t.size) :
    ChangesOnly scope t t' := by
  have old (i : ScopeId) (before : i < t.size) : t'.scopes[i]? = t.scopes[i]? := by
    have stillOld : i < (t.push parent).size := Nat.lt_of_lt_of_le before (by simp)
    rw [changes.others i stillOld (Nat.ne_of_lt before), push_below t parent before]
  constructor
  · exact Nat.le_trans (by simp) changes.size
  · rw [parent?, old scope made, parent?]
  · intro i before _
    exact old i before

section Insert

variable {name : String} {symbol : Symbol} (inserted : t.insert scope name symbol = .ok t')

include inserted

theorem changesOnly_insert : ChangesOnly scope t t' :=
  ⟨Nat.le_of_eq (size_insert inserted).symm, parent?_insert inserted scope,
    fun _ _ other => insert_other inserted other⟩

/-- A name that is declared is in the innermost map. -/
theorem Shows.insert (shows_ : t.Shows scope s) :
    t'.Shows scope { s with inner := Function.update s.inner name (some symbol) } := by
  have around : (t'.maps scope).tail = (t.maps scope).tail := by
    rw [ScopeTable.maps, ScopeTable.maps, List.tail_cons, List.tail_cons, parent?_insert inserted]
    cases t.parent? scope with
    | none => rfl
    | some p =>
      by_cases inside : p < scope
      · have below : t'.maps p = t.maps p := maps_congr p fun i le =>
          insert_other inserted (Nat.ne_of_lt (Nat.lt_of_le_of_lt le inside))
        simp only [inside, if_true, below]
      · simp only [inside, if_false]
  have own : t'.find? scope = Function.update s.inner name (some symbol) := by
    funext other
    rw [find?_insert inserted shows_.made, shows_.inner, Function.update_apply]
  constructor
  · rw [size_insert inserted]
    exact shows_.made
  · rw [ScopeTable.maps, List.tail_cons, shows_.maps] at around
    rw [ScopeTable.maps, own, around]
    rfl

end Insert

end ScopeTable

open ScopeTable

/-! ### Analysis and judgement side by side -/

/-- The analysis, started in `a`, reports what the judgement notes; the two answers and the state
the analysis ends in are as `post` says. -/
structure Follows {α β : Type} (x : Analysis α) (a : Analyzer) (n : Noted β)
    (post : α → β → Analyzer → Prop) : Prop where
  faults : (x.run a).2.diagnostics = a.diagnostics ++ n.faults
  holds : post (x.run a).1 n.value (x.run a).2

section

variable {α β γ δ : Type} {x : Analysis α} {n : Noted β} {f : α → Analysis γ} {g : β → Noted δ}
  {a : Analyzer} {post mid : α → β → Analyzer → Prop} {last : γ → δ → Analyzer → Prop}

theorem Follows.mono (follows : Follows x a n mid)
    (weaker : ∀ r v a', mid r v a' → post r v a') : Follows x a n post :=
  ⟨follows.faults, weaker _ _ _ follows.holds⟩

/-- Analysis after analysis, beside judgement after judgement. -/
theorem Follows.bind (first : Follows x a n mid)
    (next : ∀ r v a', mid r v a' → Follows (f r) a' (g v) last) :
    Follows (x >>= f) a (n >>= g) last := by
  have second := next _ _ _ first.holds
  constructor
  · rw [faults_bind, ← List.append_assoc, ← first.faults]
    exact second.faults
  · exact second.holds

/-- An answer that the judgement does not give. -/
theorem Follows.map {h : α → γ} {weaker : γ → β → Analyzer → Prop} (follows : Follows x a n mid)
    (holds : ∀ r v a', mid r v a' → weaker (h r) v a') :
    Follows (x >>= fun r => pure (h r)) a n weaker :=
  ⟨follows.faults, holds _ _ _ follows.holds⟩

theorem follows_pure {r : α} {v : β} (holds : post r v a) : Follows (pure r) a (pure v) post :=
  ⟨(List.append_nil _).symm, holds⟩

/-! Steps that only look at the state, or add a scope, have no counterpart. -/

theorem follows_get {f : Analyzer → Analysis γ} {m : Noted δ} (rest : Follows (f a) a m last) :
    Follows (get >>= f) a m last := ⟨rest.faults, rest.holds⟩

theorem follows_resolve? {name : String} {f : Option Symbol → Analysis γ} {m : Noted δ}
    (rest : Follows (f (a.table.resolve? a.scope name)) a m last) :
    Follows (resolve? name >>= f) a m last := ⟨rest.faults, rest.holds⟩

theorem follows_currentScope {f : ScopeId → Analysis γ} {m : Noted δ}
    (rest : Follows (f a.scope) a m last) :
    Follows (currentScope >>= f) a m last := ⟨rest.faults, rest.holds⟩

theorem follows_newScope {parent : ScopeId} {f : ScopeId → Analysis γ} {m : Noted δ}
    (rest : Follows (f a.table.size) { a with table := a.table.push (some parent) } m last) :
    Follows (newScope parent >>= f) a m last := ⟨rest.faults, rest.holds⟩

theorem follows_annotateExpr {info : ExprInfo} {result : Role} {f : ExprInfo → Analysis γ}
    {m : Noted δ} (rest : Follows (f { info with result, scope := some a.scope }) a m last) :
    Follows (info.annotate result >>= f) a m last := ⟨rest.faults, rest.holds⟩

theorem follows_annotateStmt {info : StmtInfo} {f : StmtInfo → Analysis γ} {m : Noted δ}
    (rest : Follows (f { info with scope := some a.scope }) a m last) :
    Follows (info.annotate >>= f) a m last := ⟨rest.faults, rest.holds⟩

theorem follows_inScope {scope : ScopeId} {m : Noted β}
    (work : Follows x { a with scope } m fun r v a' => post r v { a' with scope := a.scope }) :
    Follows (inScope scope x) a m post := ⟨work.faults, work.holds⟩

theorem follows_inLoop
    (work : Follows x { a with loopDepth := a.loopDepth + 1 } n fun r v a' =>
      post r v { a' with loopDepth := a'.loopDepth - 1 }) :
    Follows (inLoop x) a n post := ⟨work.faults, work.holds⟩

end

/-- From `a` to `a'` nothing but the reports has changed. -/
structure Analyzer.Same (a a' : Analyzer) : Prop where
  table : a'.table = a.table
  scope : a'.scope = a.scope
  loopDepth : a'.loopDepth = a.loopDepth

theorem Analyzer.Same.refl (a : Analyzer) : a.Same a := ⟨rfl, rfl, rfl⟩

theorem Analyzer.Same.trans {a a' a'' : Analyzer} (first : a.Same a') (second : a'.Same a'') :
    a.Same a'' :=
  ⟨second.table.trans first.table, second.scope.trans first.scope,
    second.loopDepth.trans first.loopDepth⟩

/-- Names stand for what the stack says where the analysis is. -/
def Analyzer.Mirrors (a : Analyzer) (s : Stack) : Prop := a.table.Shows a.scope s

variable {a : Analyzer} {s : Stack}

/-- Reports do not change what names stand for. -/
theorem Analyzer.Mirrors.same {a' : Analyzer} (mirrors : a.Mirrors s) (same : a.Same a') :
    a'.Mirrors s := by
  rw [Analyzer.Mirrors, same.table, same.scope]
  exact mirrors

/-! ### Rules -/

/-- The class that a rule gives, reported where it finds a fault. -/
def Analysis.settle (line : Nat) (ident : Option String) : Except AnalysisFault Role → Analysis Role
  | .ok result => pure result
  | .error fault =>
    match ident with
    | none => report line fault
    | some name => reportName line name fault

/-- The class that a rule gives, and the report or the note where it finds a fault. -/
theorem follows_settle (line : Nat) (ident : Option String) (rule : Except AnalysisFault Role) :
    Follows (Analysis.settle line ident rule) a (Lexical.settle line ident rule)
      fun r v a' => r = v ∧ a.Same a' := by
  cases rule with
  | ok result => exact follows_pure ⟨rfl, .refl a⟩
  | error fault =>
    cases ident with
    | none => exact ⟨rfl, rfl, rfl, rfl, rfl⟩
    | some name => exact ⟨rfl, rfl, rfl, rfl, rfl⟩

/-! Each elementary classification is a rule that is settled. -/

/-- The class of `odd` is given by a rule. -/
theorem classifyOdd_eq_settle (line : Nat) (operand : Role) :
    classifyOdd line operand = Analysis.settle line none (demand .invalidOperand operand) := by
  cases operand <;> rfl

theorem classifyBinary_eq_settle (line : Nat) (lhs rhs : Role) :
    classifyBinary line lhs rhs = Analysis.settle line none (binaryRule lhs rhs) := by
  cases lhs <;> cases rhs <;> rfl

theorem follows_checkArgument (line : Nat) (callee : String) (arg : Role) :
    Follows (checkArgument line callee arg) a
      (Lexical.settle line callee (demand .invalidArgument arg))
      fun r _ a' => r = arg.isValue ∧ a.Same a' := by
  cases arg with
  | error | const | var => exact ⟨(List.append_nil _).symm, rfl, .refl a⟩
  | proc | func | ret | void => exact ⟨rfl, rfl, rfl, rfl, rfl⟩

theorem Definition.checkInit_eq_settle (line : Nat) (name : String) (role : Role)
    (init : Option Role) :
    Definition.checkInit line name role init =
      return (← Analysis.settle line name (initRule role init)) != .error := by
  cases init with
  | none => cases role <;> rfl
  | some init => cases role <;> cases init <;> rfl

/-- Resolves a name and classifies its use by a rule. -/
def Analysis.resolveBy (line : Nat) (ref : Reference)
    (rule : Symbol → Except AnalysisFault Role) : Analysis (Reference × Role) := do
  match ← resolve? ref.name with
  | none => return (ref, ← reportName line ref.name .undefined)
  | some symbol =>
    let result ← Analysis.settle line ref.name (rule symbol)
    return ({ ref with role := symbol.role }, result)

/-- A bare name is classified by a rule. -/
theorem Reference.analyze_eq_resolveBy (line : Nat) (ref : Reference) :
    ref.analyze line = Analysis.resolveBy line ref nameRule := by
  unfold Reference.analyze Analysis.resolveBy
  congr 1
  funext found
  cases found with
  | none => rfl
  | some symbol =>
    obtain ⟨role, arity⟩ := symbol
    by_cases noArgs : arity = 0 <;> cases role <;> simp [nameRule, noArgs, Analysis.settle]

/-- A call is classified by a rule, in which the classes of all arguments have a part. -/
theorem Reference.analyzeCall_eq_resolveBy (line : Nat) (callee : Reference) (args : List Role) :
    callee.analyzeCall line args.length (args.all Role.isValue) =
      Analysis.resolveBy line callee (callRule args) := by
  unfold Reference.analyzeCall Analysis.resolveBy
  congr 1
  funext found
  cases found with
  | none => rfl
  | some symbol =>
    obtain ⟨role, arity⟩ := symbol
    by_cases same : arity = args.length <;> cases role <;>
      simp [callRule, same, Analysis.settle, Role.isCallable]

theorem Reference.analyzeTarget_eq_resolveBy (line : Nat) (target : Reference) (value : Role) :
    target.analyzeTarget line value =
      Analysis.resolveBy line target (assignRule value) := by
  unfold Reference.analyzeTarget Analysis.resolveBy
  congr 1
  funext found
  cases found with
  | none => rfl
  | some symbol =>
    obtain ⟨role, arity⟩ := symbol
    cases role <;> cases value <;> rfl

/-- A name is looked up in the table on one side and in the stack on the other. -/
theorem follows_resolveBy (mirrors : a.Mirrors s) (line : Nat) (ref : Reference)
    (rule : Symbol → Except AnalysisFault Role) :
    Follows (Analysis.resolveBy line ref rule) a (s.resolve line ref rule)
      fun r v a' => r = v ∧ a.Same a' := by
  unfold Analysis.resolveBy Stack.resolve
  apply follows_resolve?
  rw [mirrors.resolve?]
  cases s.lookup? ref.name with
  | none => exact ⟨rfl, rfl, rfl, rfl, rfl⟩
  | some symbol =>
    apply (follows_settle line ref.name (rule symbol)).bind
    rintro result _ a' ⟨rfl, same⟩
    exact follows_pure ⟨rfl, same⟩

/-! ### Expressions -/

theorem Expr.info_unscoped (e : Expr) : e.unscoped.info = e.info.unscoped := by
  cases e <;> rw [Expr.unscoped] <;> rfl

theorem Expr.result_unscoped (e : Expr) : e.unscoped.info.result = e.info.result := by
  rw [Expr.info_unscoped]
  rfl

theorem Expr.results_unscopedAll (args : List Expr) :
    (Expr.unscopedAll args).map (·.info.result) = args.map (·.info.result) := by
  induction args with
  | nil => rfl
  | cons e rest ih =>
    rw [Expr.unscopedAll, List.map_cons, List.map_cons, e.result_unscoped, ih]

/-- A call whose arguments have been analyzed. -/
theorem Reference.follows_call (mirrors : a.Mirrors s) (line : Nat) (callee : Reference)
    (args : List Expr) :
    Follows (callee.analyzeCall line args.length (args.all (·.info.result.isValue))) a
      (s.resolve line callee (callRule ((Expr.unscopedAll args).map (·.info.result))))
      fun r v a' => r = v ∧ a.Same a' := by
  have count : args.length = (args.map (·.info.result)).length := (List.length_map _).symm
  have values : args.all (·.info.result.isValue) = (args.map (·.info.result)).all Role.isValue := by
    rw [List.all_map]
    rfl
  rw [Expr.results_unscopedAll, count, values, Reference.analyzeCall_eq_resolveBy]
  exact follows_resolveBy mirrors line callee _

mutual

/-- Analysis of an expression follows its judgement, by induction on the expression. -/
theorem Expr.follows_judge {a : Analyzer} (mirrors : a.Mirrors s) :
    (e : Expr) → Follows e.analyze a (e.judge s) fun r v a' => r.unscoped = v ∧ a.Same a'
  | .odd info operand => by
    rw [Expr.analyze, Expr.judge]
    apply (operand.follows_judge mirrors).bind
    rintro operand' _ a₁ ⟨rfl, same⟩
    rw [classifyOdd_eq_settle, Expr.result_unscoped]
    apply (follows_settle _ _ _).bind
    rintro result _ a₂ ⟨rfl, same'⟩
    apply follows_annotateExpr
    exact follows_pure ⟨by rw [Expr.unscoped]; rfl, same.trans same'⟩
  | .binary info op lhs rhs => by
    rw [Expr.analyze, Expr.judge]
    apply (lhs.follows_judge mirrors).bind
    rintro lhs' _ a₁ ⟨rfl, same⟩
    apply (rhs.follows_judge (mirrors.same same)).bind
    rintro rhs' _ a₂ ⟨rfl, same'⟩
    rw [classifyBinary_eq_settle, Expr.result_unscoped, Expr.result_unscoped]
    apply (follows_settle _ _ _).bind
    rintro result _ a₃ ⟨rfl, same''⟩
    apply follows_annotateExpr
    exact follows_pure ⟨by rw [Expr.unscoped]; rfl, (same.trans same').trans same''⟩
  | .call info callee args => by
    rw [Expr.analyze, Expr.judge]
    apply (Expr.follows_judgeArgs mirrors info.line callee.name args).bind
    rintro ⟨args', ok⟩ _ a₁ ⟨rfl, allValues, same⟩
    obtain rfl : ok = args'.all (·.info.result.isValue) := allValues
    apply (Reference.follows_call (mirrors.same same) info.line callee args').bind
    rintro ⟨callee', result⟩ _ a₂ ⟨rfl, same'⟩
    apply follows_annotateExpr
    exact follows_pure ⟨by rw [Expr.unscoped]; rfl, same.trans same'⟩
  | .name info ref => by
    rw [Expr.analyze, Expr.judge, Reference.analyze_eq_resolveBy]
    apply (follows_resolveBy mirrors info.line ref nameRule).bind
    rintro ⟨ref', result⟩ _ a₁ ⟨rfl, same⟩
    apply follows_annotateExpr
    exact follows_pure ⟨by rw [Expr.unscoped]; rfl, same⟩
  | .number info value => by
    rw [Expr.analyze, Expr.judge]
    apply follows_annotateExpr
    exact follows_pure ⟨by rw [Expr.unscoped]; rfl, .refl a⟩

theorem Expr.follows_judgeArgs {a : Analyzer} (mirrors : a.Mirrors s) (line : Nat)
    (callee : String) :
    (args : List Expr) → Follows (Expr.analyzeArgs line callee args) a
      (Expr.judgeArgs s line callee args) fun r v a' => Expr.unscopedAll r.1 = v ∧
        r.2 = r.1.all (·.info.result.isValue) ∧ a.Same a'
  | [] => by
    rw [Expr.analyzeArgs, Expr.judgeArgs]
    exact follows_pure ⟨by rw [Expr.unscopedAll], rfl, .refl a⟩
  | arg :: args => by
    rw [Expr.analyzeArgs, Expr.judgeArgs]
    apply (arg.follows_judge mirrors).bind
    rintro arg' _ a₁ ⟨rfl, same⟩
    rw [Expr.result_unscoped]
    apply (follows_checkArgument line callee arg'.info.result).bind
    rintro _ _ a₂ ⟨rfl, same'⟩
    have further := same.trans same'
    apply (Expr.follows_judgeArgs (mirrors.same further) line callee args).bind
    rintro ⟨args', ok⟩ _ a₃ ⟨rfl, allValues, same''⟩
    obtain rfl : ok = args'.all (·.info.result.isValue) := allValues
    exact follows_pure ⟨by rw [Expr.unscopedAll], rfl, further.trans same''⟩

end

/-! ### Statements -/

mutual

/-- Analysis of a statement follows its judgement; the number of loops around it says whether it
stands in one. -/
theorem Stmt.follows_judge {a : Analyzer} {looping : Bool} (mirrors : a.Mirrors s)
    (depth : looping = (a.loopDepth != 0)) :
    (stmt : Stmt) → Follows stmt.analyze a (stmt.judge s looping)
      fun r v a' => r.1.unscoped = v ∧ a.Same a'
  | .assign info target value => by
    rw [Stmt.analyze, Stmt.judge]
    apply follows_annotateStmt
    apply (value.follows_judge mirrors).bind
    rintro value' _ a₁ ⟨rfl, same⟩
    rw [Reference.analyzeTarget_eq_resolveBy, Expr.result_unscoped]
    apply (follows_resolveBy (mirrors.same same) _ _ _).bind
    rintro ⟨target', result⟩ _ a₂ ⟨rfl, same'⟩
    exact follows_pure ⟨by rw [Stmt.unscoped]; rfl, same.trans same'⟩
  | .sequence info body => by
    rw [Stmt.analyze, Stmt.judge]
    apply follows_annotateStmt
    apply (Stmt.follows_judgeAll mirrors depth body).bind
    rintro ⟨body', ok⟩ _ a₁ ⟨rfl, same⟩
    exact follows_pure ⟨by rw [Stmt.unscoped]; rfl, same⟩
  | .ifThen info cond thenBranch elseBranch => by
    rw [Stmt.analyze, Stmt.judge]
    apply follows_annotateStmt
    apply (cond.follows_judge mirrors).bind
    rintro cond' _ a₁ ⟨rfl, same₁⟩
    have depth₁ : looping = (a₁.loopDepth != 0) := by rw [same₁.loopDepth, depth]
    apply (Stmt.follows_judgeOption (mirrors.same same₁) depth₁ thenBranch).bind
    rintro ⟨then', thenOk⟩ _ a₂ ⟨rfl, same₂⟩
    have same := same₁.trans same₂
    have depth₂ : looping = (a₂.loopDepth != 0) := by rw [same.loopDepth, depth]
    apply (Stmt.follows_judgeOption (mirrors.same same) depth₂ elseBranch).bind
    rintro ⟨else', elseOk⟩ _ a₃ ⟨rfl, same₃⟩
    exact follows_pure ⟨by rw [Stmt.unscoped]; rfl, same.trans same₃⟩
  | .whileDo info cond body => by
    rw [Stmt.analyze, Stmt.judge]
    apply follows_annotateStmt
    apply (cond.follows_judge mirrors).bind
    rintro cond' _ a₁ ⟨rfl, same₁⟩
    have still : a₁.Mirrors s := mirrors.same same₁
    have inside : Analyzer.Mirrors { a₁ with loopDepth := a₁.loopDepth + 1 } s := still
    have work : Follows (inLoop (Stmt.analyzeOption body)) a₁
        (Stmt.judgeOption s true body)
        fun r v a' => Stmt.unscopedOption r.1 = v ∧ a₁.Same a' := by
      apply follows_inLoop
      apply (Stmt.follows_judgeOption inside rfl body).mono
      rintro r v a' ⟨erased, same⟩
      exact ⟨erased, same.table, same.scope, by rw [same.loopDepth]; rfl⟩
    apply work.bind
    rintro ⟨body', ok⟩ _ a₂ ⟨rfl, same₂⟩
    exact follows_pure ⟨by rw [Stmt.unscoped]; rfl, same₁.trans same₂⟩
  | .asm info text => by
    rw [Stmt.analyze, Stmt.judge]
    apply follows_annotateStmt
    exact follows_pure ⟨by rw [Stmt.unscoped]; rfl, .refl a⟩
  | .control info exit => by
    rw [Stmt.analyze, Stmt.judge]
    apply follows_annotateStmt
    apply follows_get
    by_cases outside : a.loopDepth = 0
    · obtain rfl : looping = false := by rw [depth, outside]; rfl
      simp only [outside, if_true]
      have reported : Follows (report info.line .strayLoopExit) a
          (note info.line none .strayLoopExit) fun _ _ a' => a.Same a' := ⟨rfl, rfl, rfl, rfl⟩
      apply reported.bind
      rintro _ _ a₁ same
      exact follows_pure ⟨by rw [Stmt.unscoped]; rfl, same⟩
    · obtain rfl : looping = true := by rw [depth]; simpa using outside
      simp only [outside, if_false]
      exact follows_pure ⟨by rw [Stmt.unscoped]; rfl, .refl a⟩
  | .call info callee args => by
    rw [Stmt.analyze, Stmt.judge]
    apply follows_annotateStmt
    apply (Expr.follows_judgeArgs mirrors info.line callee.name args).bind
    rintro ⟨args', ok⟩ _ a₁ ⟨rfl, allValues, same⟩
    obtain rfl : ok = args'.all (·.info.result.isValue) := allValues
    apply (Reference.follows_call (mirrors.same same) info.line callee args').bind
    rintro ⟨callee', result⟩ _ a₂ ⟨rfl, same'⟩
    exact follows_pure ⟨by rw [Stmt.unscoped]; rfl, same.trans same'⟩
  | .name info ref => by
    rw [Stmt.analyze, Stmt.judge]
    apply follows_annotateStmt
    rw [Reference.analyze_eq_resolveBy]
    apply (follows_resolveBy mirrors info.line ref nameRule).bind
    rintro ⟨ref', result⟩ _ a₁ ⟨rfl, same⟩
    exact follows_pure ⟨by rw [Stmt.unscoped]; rfl, same⟩

theorem Stmt.follows_judgeOption {a : Analyzer} {looping : Bool} (mirrors : a.Mirrors s)
    (depth : looping = (a.loopDepth != 0)) :
    (stmt : Option Stmt) → Follows (Stmt.analyzeOption stmt) a
      (Stmt.judgeOption s looping stmt) fun r v a' => Stmt.unscopedOption r.1 = v ∧ a.Same a'
  | none => by
    rw [Stmt.analyzeOption, Stmt.judgeOption]
    exact follows_pure ⟨by rw [Stmt.unscopedOption], .refl a⟩
  | some stmt => by
    rw [Stmt.analyzeOption, Stmt.judgeOption]
    apply (stmt.follows_judge mirrors depth).bind
    rintro ⟨stmt', result⟩ _ a₁ ⟨rfl, same⟩
    exact follows_pure ⟨by rw [Stmt.unscopedOption], same⟩

theorem Stmt.follows_judgeAll {a : Analyzer} {looping : Bool} (mirrors : a.Mirrors s)
    (depth : looping = (a.loopDepth != 0)) :
    (body : List Stmt) → Follows (Stmt.analyzeAll body) a
      (Stmt.judgeAll s looping body) fun r v a' => Stmt.unscopedAll r.1 = v ∧ a.Same a'
  | [] => by
    rw [Stmt.analyzeAll, Stmt.judgeAll]
    exact follows_pure ⟨by rw [Stmt.unscopedAll], .refl a⟩
  | stmt :: rest => by
    rw [Stmt.analyzeAll, Stmt.judgeAll]
    apply (stmt.follows_judge mirrors depth).bind
    rintro ⟨stmt', result⟩ _ a₁ ⟨rfl, same⟩
    have depth₁ : looping = (a₁.loopDepth != 0) := by rw [same.loopDepth, depth]
    apply (Stmt.follows_judgeAll (mirrors.same same) depth₁ rest).bind
    rintro ⟨rest', ok⟩ _ a₂ ⟨rfl, same'⟩
    exact follows_pure ⟨by rw [Stmt.unscopedAll], same.trans same'⟩

end

/-! ### Declarations -/

/-- From `a` to `a'` the analysis has worked on `scope`, which shows the stack now; it is where it
was, with as many loops around it. -/
structure Analyzer.Reaches (scope : ScopeId) (s : Stack) (a a' : Analyzer) : Prop where
  stays : a'.scope = a.scope
  loopDepth : a'.loopDepth = a.loopDepth
  table : ChangesOnly scope a.table a'.table
  shows_ : a'.table.Shows scope s

theorem Analyzer.Reaches.refl {scope : ScopeId} (shows_ : a.table.Shows scope s) :
    a.Reaches scope s a := ⟨rfl, rfl, .refl _ _, shows_⟩

theorem Analyzer.Reaches.trans {scope : ScopeId} {s' : Stack} {a' a'' : Analyzer}
    (first : a.Reaches scope s' a') (second : a'.Reaches scope s a'') : a.Reaches scope s a'' :=
  ⟨second.stays.trans first.stays, second.loopDepth.trans first.loopDepth,
    first.table.trans second.table, second.shows_⟩

theorem Analyzer.Reaches.mirrors {a' : Analyzer} (reaches : a.Reaches a.scope s a') :
    a'.Mirrors s := by
  rw [Analyzer.Mirrors, reaches.stays]
  exact reaches.shows_

theorem Analyzer.Same.reaches {a' : Analyzer} (same : a.Same a') (mirrors : a.Mirrors s) :
    a.Reaches a.scope s a' := by
  refine ⟨same.scope, same.loopDepth, ?_, ?_⟩
  · rw [same.table]
    exact .refl _ _
  · rw [same.table]
    exact mirrors

/-- What declaring a name does to the state. -/
theorem declare_run (scope : ScopeId) (name : String) (symbol : Symbol) (line : Nat)
    (a : Analyzer) :
    (declare scope name symbol line).run a = match a.table.insert scope name symbol with
      | .ok table => (true, { a with table })
      | .error _ => (false, ((reportName line name .alreadyDefined).run a).2) := by
  simp only [declare, StateT.run_bind, StateT.run_get, pure_bind]
  cases a.table.insert scope name symbol <;> rfl

/-- A name is declared in the table on one side and in the innermost map on the other. -/
theorem follows_declare {scope : ScopeId} (shows_ : a.table.Shows scope s) (name : String)
    (symbol : Symbol) (line : Nat) :
    Follows (declare scope name symbol line) a (s.declare line name symbol)
      fun _ s' a' => a.Reaches scope s' a' := by
  have own : s.inner name = a.table.find? scope name := by rw [shows_.inner]
  cases inserted : a.table.insert scope name symbol with
  | ok table =>
    have free : s.inner name = none := own.trans (find?_of_insert inserted)
    rw [Stack.declare_of_free free]
    constructor
    · rw [declare_run, inserted]
      exact (List.append_nil _).symm
    · rw [declare_run, inserted]
      exact ⟨rfl, rfl, changesOnly_insert inserted, shows_.insert inserted⟩
  | error existing =>
    have taken : (s.inner name).isSome = true := by
      rw [own]
      unfold ScopeTable.insert at inserted
      split at inserted
      · next found => rw [found]; rfl
      · cases inserted
    have refused : s.declare line name symbol = do
        note line name .alreadyDefined
        return s := by
      rw [Stack.declare, if_pos taken]
    rw [refused]
    constructor
    · rw [declare_run, inserted]
      rfl
    · rw [declare_run, inserted]
      exact ⟨rfl, rfl, .refl _ _, shows_⟩

/-- Parameters in order. -/
theorem follows_declareParams {scope : ScopeId} (shows_ : a.table.Shows scope s) (line : Nat)
    (params : List String) :
    Follows (declareParams scope line params) a (Stack.declareParams line s params)
      fun _ s' a' => a.Reaches scope s' a' := by
  induction params generalizing a s with
  | nil =>
    rw [declareParams, Stack.declareParams]
    exact follows_pure (.refl shows_)
  | cons param params ih =>
    rw [declareParams, Stack.declareParams]
    apply (follows_declare shows_ _ _ _).bind
    rintro _ s₁ a₁ first
    exact (ih first.shows_).map fun _ _ _ others => first.trans others

theorem Definition.follows_judgeInit (mirrors : a.Mirrors s) (init : Option Expr) :
    Follows (Definition.analyzeInit init) a (Definition.judgeInit s init)
      fun r v a' => r.map Expr.unscoped = v ∧ a.Same a' := by
  cases init with
  | none => exact follows_pure ⟨rfl, .refl a⟩
  | some e =>
    apply (e.follows_judge mirrors).bind
    rintro e' _ a₁ ⟨rfl, same⟩
    exact follows_pure ⟨rfl, same⟩

theorem Definition.follows_checkInit (line : Nat) (name : String) (role : Role)
    (init : Option Role) :
    Follows (Definition.checkInit line name role init) a
      (Lexical.settle line name (initRule role init)) fun _ _ a' => a.Same a' := by
  rw [Definition.checkInit_eq_settle]
  exact (follows_settle line name (initRule role init)).map fun _ _ _ known => known.2

/-- A definition: its initial value, the rule for it, and then its name. -/
theorem Definition.follows_judge (role : Role) (mirrors : a.Mirrors s) (d : Definition) :
    Follows (d.analyze role) a (d.judge role s)
      fun r v a' => r.1.unscoped = v.2 ∧ a.Reaches a.scope v.1 a' := by
  unfold Definition.analyze Definition.judge
  apply (Definition.follows_judgeInit mirrors d.init).bind
  rintro init _ a₁ ⟨rfl, same₁⟩
  have results : (init.map Expr.unscoped).map (·.info.result) = init.map (·.info.result) := by
    rw [Option.map_map]
    exact congrArg (init.map ·) (funext Expr.result_unscoped)
  rw [results]
  apply (Definition.follows_checkInit _ _ _ _).bind
  rintro ok _ a₂ same₂
  have same := same₁.trans same₂
  have mirrors₂ := mirrors.same same
  apply follows_currentScope
  apply (follows_declare mirrors₂ _ _ _).bind
  rintro declared s' a₃ reaches
  rw [same.scope] at reaches
  exact follows_pure ⟨rfl, (same.reaches mirrors).trans reaches⟩

/-- Definitions in order. -/
theorem Definition.follows_judgeAll (role : Role) (mirrors : a.Mirrors s)
    (defs : List Definition) :
    Follows (Definition.analyzeAll role defs) a (Definition.judgeAll role s defs)
      fun r v a' => r.1.map Definition.unscoped = v.2 ∧ a.Reaches a.scope v.1 a' := by
  induction defs generalizing a s with
  | nil =>
    rw [Definition.analyzeAll, Definition.judgeAll]
    exact follows_pure ⟨rfl, .refl mirrors⟩
  | cons d rest ih =>
    rw [Definition.analyzeAll, Definition.judgeAll]
    apply (d.follows_judge role mirrors).bind
    rintro ⟨d', ok⟩ ⟨s₁, _⟩ a₁ ⟨rfl, first⟩
    apply (ih first.mirrors).bind
    rintro ⟨rest', restOk⟩ ⟨s₂, _⟩ a₂ ⟨rfl, others⟩
    rw [first.stays] at others
    exact follows_pure ⟨rfl, first.trans others⟩

theorem Decls.follows_judge (role : Role) (mirrors : a.Mirrors s) (decls : Option Decls) :
    Follows (Decls.analyzeOption role decls) a (Decls.judge role s decls)
      fun r v a' => r.1.map Decls.unscoped = v.2 ∧ a.Reaches a.scope v.1 a' := by
  cases decls with
  | none => exact follows_pure ⟨rfl, .refl mirrors⟩
  | some decls =>
    rw [Decls.analyzeOption, Decls.judge, Decls.analyze, bind_assoc]
    apply follows_currentScope
    rw [bind_assoc]
    apply (Definition.follows_judgeAll role mirrors decls.defs).bind
    rintro ⟨defs, ok⟩ ⟨s₁, _⟩ a₁ ⟨rfl, reaches⟩
    rw [pure_bind]
    exact follows_pure ⟨rfl, reaches⟩

/-! ### Routines and blocks -/

/-- Analysis of the block, in a scope that shows a stack, finds what the judgement finds and changes
nothing outside the scope. -/
def Block.FollowsJudge (block : Block) : Prop :=
  ∀ (a : Analyzer) (scope : ScopeId) (s : Stack), a.table.Shows scope s → a.loopDepth = 0 →
    Follows (block.analyzeIn scope) a (block.judge s) fun r v a' => r.1.unscoped = v ∧
      a'.scope = a.scope ∧ a'.loopDepth = 0 ∧ ChangesOnly scope a.table a'.table

/-- A block in a new scope changes nothing outside. -/
theorem Block.FollowsJudge.inside {block : Block} (follows : block.FollowsJudge)
    {scope parent : ScopeId} {around : Stack} (mirrors : a.table.Shows scope s)
    (shows_ : a.table.Shows parent around) (noLoop : a.loopDepth = 0) :
    Follows (block.analyzeIn a.table.size) { a with table := a.table.push (some parent) }
      (block.judge (around.push .empty))
      fun r v a' => r.1.unscoped = v ∧ a.Reaches scope s a' := by
  apply (follows { a with table := a.table.push (some parent) } _ _ shows_.push noLoop).mono
  rintro r v a' ⟨erased, stays, loopDepth, changes⟩
  have table := changes.of_pushed mirrors.made
  exact ⟨erased, stays, loopDepth.trans noLoop.symm, table,
    (mirrors.pushed _).outside changes mirrors.made⟩

/-- A procedure: its block is analyzed in a new scope, which shows the stack with an empty map
pushed. -/
theorem Routine.procedure_follows_judge {line : Nat} {name : String} {block : Block}
    {scope : Option ScopeId} (follows : block.FollowsJudge) (mirrors : a.Mirrors s)
    (noLoop : a.loopDepth = 0) :
    Follows (Routine.analyze { line, name, kind := .procedure, block, scope }) a
      (Routine.judge s { line, name, kind := .procedure, block, scope })
      fun r v a' => r.1.unscoped = v.2 ∧ a.Reaches a.scope v.1 a' := by
  rw [Routine.analyze, Routine.judge, RoutineKind.enter, bind_assoc]
  apply follows_currentScope
  apply (follows_declare mirrors _ _ _).bind
  rintro ok s₁ a₁ declared
  apply follows_newScope
  rw [pure_bind]
  have noLoop₁ : a₁.loopDepth = 0 := declared.loopDepth.trans noLoop
  apply (follows.inside declared.shows_ declared.shows_ noLoop₁).bind
  rintro ⟨block', result⟩ _ a₂ ⟨rfl, reaches⟩
  exact follows_pure ⟨by rw [Routine.unscoped], declared.trans reaches⟩

/-- Behind the declaration of a function around its own scope, that scope has the function around
it. -/
theorem ScopeTable.Shows.declaredAround {t t' : ScopeTable} {outer own : ScopeId}
    {around ownStack : Stack} (ownShows : t.Shows own ownStack)
    (parent : t.parent? own = some outer) (inside : outer < own)
    (changes : ChangesOnly outer t t') (shows_ : t'.Shows outer around) :
    t'.Shows own (around.push ownStack.inner) := by
  have same : t'.scopes[own]? = t.scopes[own]? :=
    changes.others own ownShows.made (Nat.ne_of_gt inside)
  have parent' : t'.parent? own = some outer := by rw [parent?, same, ← parent?, parent]
  have found : t'.find? own = ownStack.inner := by
    rw [← ownShows.inner]
    funext name
    rw [find?, same, find?]
  constructor
  · exact Nat.lt_of_lt_of_le ownShows.made changes.size
  · rw [maps_of_parent parent' inside, found, shows_.maps]
    rfl

/-- A function: its parameters and its name are in a scope between that of its block and the one it
is declared in. -/
theorem Routine.function_follows_judge {line : Nat} {name : String} {params : List String}
    {block : Block} {scope : Option ScopeId} (follows : block.FollowsJudge) (mirrors : a.Mirrors s)
    (noLoop : a.loopDepth = 0) :
    Follows (Routine.analyze { line, name, kind := .function params, block, scope }) a
      (Routine.judge s { line, name, kind := .function params, block, scope })
      fun r v a' => r.1.unscoped = v.2 ∧ a.Reaches a.scope v.1 a' := by
  rw [Routine.analyze, Routine.judge, RoutineKind.enter]
  simp only [bind_assoc]
  apply follows_currentScope
  apply follows_newScope
  -- the own scope, with the name and the parameters
  apply (follows_declare mirrors.push _ _ _).bind
  rintro nameOk own₁ a₁ named
  apply (follows_declareParams named.shows_ _ _).bind
  rintro paramsOk own₂ a₂ withParams
  have own := named.trans withParams
  have ownParent : a₂.table.parent? a.table.size = some a.scope :=
    own.table.parent.trans (parent?_push _ _)
  have outer : a₂.table.Shows a.scope s := (mirrors.pushed _).outside own.table mirrors.made
  -- the name around it
  apply (follows_declare outer _ _ _).bind
  rintro declared s₁ a₃ around
  have ownShows : a₃.table.Shows a.table.size (s₁.push own₂.inner) :=
    withParams.shows_.declaredAround ownParent mirrors.made around.table around.shows_
  have noLoop₃ : a₃.loopDepth = 0 := around.loopDepth.trans (own.loopDepth.trans noLoop)
  apply follows_newScope
  rw [pure_bind]
  apply (follows.inside around.shows_ ownShows noLoop₃).bind
  rintro ⟨block', result⟩ _ a₄ ⟨rfl, reaches⟩
  have whole : a.Reaches a.scope s a₂ :=
    ⟨own.stays, own.loopDepth, own.table.of_pushed mirrors.made, outer⟩
  exact follows_pure ⟨by rw [Routine.unscoped], (whole.trans around).trans reaches⟩

mutual

/-- The induction over blocks and routines. -/
theorem Block.follows_judge : (block : Block) → block.FollowsJudge
  | { line, consts, vars, routines, body, .. } => by
    intro a scope s shows_ noLoop
    rw [Block.analyzeIn, Block.judge]
    apply follows_inScope
    have mirrors : Analyzer.Mirrors { a with scope } s := shows_
    apply (Decls.follows_judge .const mirrors consts).bind
    rintro ⟨consts', constsOk⟩ ⟨s₁, _⟩ a₁ ⟨rfl, reaches₁⟩
    apply (Decls.follows_judge .var reaches₁.mirrors vars).bind
    rintro ⟨vars', varsOk⟩ ⟨s₂, _⟩ a₂ ⟨rfl, reaches₂⟩
    rw [reaches₁.stays] at reaches₂
    have values := reaches₁.trans reaches₂
    have noLoop₂ : a₂.loopDepth = 0 := values.loopDepth.trans noLoop
    apply (Routine.follows_judgeAll routines values.mirrors noLoop₂).bind
    rintro ⟨routines', routinesOk⟩ ⟨s₃, _⟩ a₃ ⟨rfl, reaches₃⟩
    rw [values.stays] at reaches₃
    have all := values.trans reaches₃
    have noLoop₃ : a₃.loopDepth = 0 := all.loopDepth.trans noLoop
    have outside : false = (a₃.loopDepth != 0) := by rw [noLoop₃]; rfl
    apply (Stmt.follows_judgeOption all.mirrors outside body).bind
    rintro ⟨body', bodyOk⟩ _ a₄ ⟨rfl, same⟩
    have changes : ChangesOnly scope a.table a₄.table := by
      rw [same.table]
      exact all.table
    exact follows_pure ⟨by rw [Block.unscoped], rfl, same.loopDepth.trans noLoop₃, changes⟩

theorem Routine.follows_judge {a : Analyzer} {s : Stack} :
    (r : Routine) → a.Mirrors s → a.loopDepth = 0 →
    Follows r.analyze a (r.judge s)
      fun r v a' => r.1.unscoped = v.2 ∧ a.Reaches a.scope v.1 a'
  | ⟨_, _, .procedure, block, _⟩, mirrors, noLoop =>
    Routine.procedure_follows_judge block.follows_judge mirrors noLoop
  | ⟨_, _, .function _, block, _⟩, mirrors, noLoop =>
    Routine.function_follows_judge block.follows_judge mirrors noLoop

theorem Routine.follows_judgeAll {a : Analyzer} {s : Stack} : (rs : List Routine) →
    a.Mirrors s → a.loopDepth = 0 →
    Follows (Block.analyzeRoutines rs) a (Routine.judgeAll s rs)
      fun r v a' => Routine.unscopedAll r.1 = v.2 ∧ a.Reaches a.scope v.1 a'
  | [], mirrors, _ => by
    rw [Block.analyzeRoutines, Routine.judgeAll]
    exact follows_pure ⟨by rw [Routine.unscopedAll], .refl mirrors⟩
  | r :: rest, mirrors, noLoop => by
    rw [Block.analyzeRoutines, Routine.judgeAll]
    apply (r.follows_judge mirrors noLoop).bind
    rintro ⟨r', result⟩ ⟨s₁, _⟩ a₁ ⟨rfl, first⟩
    apply (Routine.follows_judgeAll rest first.mirrors (first.loopDepth.trans noLoop)).bind
    rintro ⟨rest', ok⟩ ⟨s₂, _⟩ a₂ ⟨rfl, others⟩
    rw [first.stays] at others
    exact follows_pure ⟨by rw [Routine.unscopedAll], first.trans others⟩

end

/-! ### Programs -/

namespace ScopeTable

/-- A name is refused only where it was declared. -/
theorem find?_of_insert_error {t : ScopeTable} {scope : ScopeId} {name : String}
    {symbol existing : Symbol} (refused : t.insert scope name symbol = .error existing) :
    t.find? scope name = some existing := by
  unfold ScopeTable.insert at refused
  split at refused
  · next found =>
    cases refused
    exact found
  · cases refused

/-- What the root holds after symbols were declared in it, of a name that occurs twice the first. -/
theorem root_foldl_insert (symbols : List (String × Symbol)) {t : ScopeTable}
    (made : 0 < t.size) :
    let t' := symbols.foldl (fun t entry => (t.insert 0 entry.1 entry.2).toOption.getD t) t
    0 < t'.size ∧ t'.parent? 0 = t.parent? 0 ∧
      ∀ name, t'.find? 0 name = (t.find? 0 name).or (symbols.lookup name) := by
  induction symbols generalizing t with
  | nil => exact ⟨made, rfl, fun name => Option.or_none.symm⟩
  | cons entry symbols ih =>
    obtain ⟨name, symbol⟩ := entry
    rw [List.foldl_cons]
    cases inserted : t.insert 0 name symbol with
    | ok t₁ =>
      have made₁ : 0 < t₁.size := by
        rw [size_insert inserted]
        exact made
      obtain ⟨size, parent, found⟩ := ih made₁
      refine ⟨size, parent.trans (parent?_insert inserted 0), fun other => ?_⟩
      refine (found other).trans ?_
      rw [find?_insert inserted made, List.lookup_cons]
      by_cases same : other = name
      · rw [if_pos same, same, find?_of_insert inserted, beq_self_eq_true]
        rfl
      · rw [if_neg same, beq_false_of_ne same]
    | error existing =>
      obtain ⟨size, parent, found⟩ := ih made
      refine ⟨size, parent, fun other => ?_⟩
      refine (found other).trans ?_
      rw [List.lookup_cons]
      by_cases same : other = name
      · rw [same, find?_of_insert_error inserted, Option.some_or, Option.some_or]
      · rw [beq_false_of_ne same]

/-- The table that a program starts with shows one map. -/
theorem shows_ofSymbols (symbols : List (String × Symbol)) :
    (ofSymbols symbols).Shows 0 ⟨(symbols.lookup ·), []⟩ := by
  obtain ⟨made, root, found⟩ :=
    root_foldl_insert symbols (t := ScopeTable.push {} none) Nat.one_pos
  have root' : (ofSymbols symbols).parent? 0 = none := root
  have own : (ofSymbols symbols).find? 0 = (symbols.lookup ·) := funext found
  constructor
  · exact made
  · rw [ScopeTable.maps, own, root']
    rfl

end ScopeTable

theorem Primitive.lookup_map {β : Type} (primitives : List Primitive) (f : Primitive → β)
    (name : String) :
    (primitives.map fun p => (p.name, f p)).lookup name =
      (primitives.find? (·.name == name)).map f := by
  induction primitives with
  | nil => rfl
  | cons p rest ih =>
    rw [List.map_cons, List.lookup_cons, List.find?_cons]
    by_cases same : name = p.name
    · simp [same]
    · simp only [beq_false_of_ne same, beq_false_of_ne (Ne.symm same), ih]

/-- The names before a program are those of its options. -/
theorem Options.shows_table (options : Options) : options.table.Shows 0 ⟨options.names, []⟩ := by
  have names : options.names = fun name => List.lookup name (if options.prelude then
      Primitive.all.map fun p => (p.name, { role := .func, arity := p.arity }) else []) := by
    funext name
    rw [Options.names]
    split
    · rw [Primitive.lookup_map, Primitive.find?]
    · rfl
  rw [names, Options.table]
  exact shows_ofSymbols _

/-- The tree that analysis makes of a program, and the faults it finds. -/
theorem analyzeProgram_judged (options : Options) (program : Block) :
    (analyzeProgram options program).program.unscoped = (program.judgeProgram options).value ∧
      (analyzeProgram options program).diagnostics = (program.judgeProgram options).faults := by
  have follows := program.follows_judge { table := options.table, scope := 0 } 0 _
    options.shows_table rfl
  exact ⟨follows.holds.1, follows.faults⟩

/-- Analysis of a program finds what lexical scoping gives: the same faults in the same order, and
on every expression the same class and on every name the same role. There, a routine makes a
difference behind it to its own name only, its own name has a meaning in its block, and what is
declared later has no part in the judgement of what comes before. -/
theorem analyzeProgram_eq_judgeProgram (options : Options) (program : Block) :
    ((analyzeProgram options program).program.unscoped = (program.judgeProgram options).value ∧
        (analyzeProgram options program).diagnostics = (program.judgeProgram options).faults) ∧
      (∀ (s : Stack) (r : Routine), ∃ symbol, (r.judge s).value.1.lookup? =
        Function.update s.lookup? r.name (some symbol)) ∧
      (∀ (s : Stack) (r : Routine),
        ((r.kind.enter s r.line r.name).value.1.lookup? r.name).isSome = true) ∧
      (∀ (role : Role) (s : Stack) (earlier later : List Definition),
        Definition.judgeAll role s (earlier ++ later) = do
          let (s, earlier) ← Definition.judgeAll role s earlier
          let (s, later) ← Definition.judgeAll role s later
          return (s, earlier ++ later)) ∧
      ∀ (s : Stack) (earlier later : List Routine),
        Routine.judgeAll s (earlier ++ later) = do
          let (s, earlier) ← Routine.judgeAll s earlier
          let (s, later) ← Routine.judgeAll s later
          return (s, earlier ++ later) :=
  ⟨analyzeProgram_judged options program, Routine.lookup?_behind, Routine.isSome_lookup?_inside,
    Definition.judgeAll_append, Routine.judgeAll_append⟩

/-! ### Accepted programs -/

section

variable {options : Options} {source : String} {tree : Block} {p : AnalyzedProgram}

/-- A tree is accepted if nothing is reported, as what analysis made of it. -/
theorem analyze_eq_ok_iff : analyze options tree = .ok p ↔
    (analyzeProgram options tree).diagnostics = [] ∧
      p = { program := (analyzeProgram options tree).program
            table := (analyzeProgram options tree).table
            root := (analyzeProgram options tree).root } := by
  rw [analyze]
  split
  · next none => simp [List.isEmpty_iff.mp none, eq_comm]
  · next some => simp [List.isEmpty_iff.not.mp some]

/-- A text is accepted if it is that of a tree that is. -/
theorem check_eq_ok_iff : check options source = .ok p ↔
    ∃ tree, parse source = .ok tree ∧ analyze options tree = .ok p := by
  rw [check]
  cases parse source with
  | ok tree => simp [bind, Except.bind]
  | error failure => simp [bind, Except.bind]

/-- Behind the parser a text counts by its tree alone. -/
theorem check_of_parse (parsed : parse source = .ok tree) (options : Options) :
    check options source = analyze options tree := by
  rw [check, parsed]
  rfl

/-- An accepted text, from the answer alone. -/
theorem exists_check_of_isSome (accepted : (check options source).toOption.isSome = true) :
    ∃ p, check options source = .ok p := by
  cases outcome : check options source with
  | ok p => exact ⟨p, rfl⟩
  | error failure =>
    rw [outcome] at accepted
    cases accepted

end

end PlZero
