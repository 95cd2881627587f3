import PlZero.Proofs.Analysis.Faults
import PlZero.Proofs.Analysis.Operands

/-!
What classes say. In a tree that analysis accepts, the class of an expression follows from its
parts: it is that of a constant if no function is called in it and all its names name constants
(`Expr.Classed`). The initial value of a constant is of that class.

Analysis keeps both up where it finds no fault, so they hold of accepted programs
(`AnalyzedProgram.classed_of_check`).
-/

namespace PlZero

open Analysis Lexical

/-! ### Classed expressions -/

/-- The class of every part of the expression is constant just if that of its own parts is. -/
inductive Expr.Classed : Expr → Prop where
  | odd {info : ExprInfo} {operand : Expr} : Classed operand →
      (info.result = .const ↔ operand.info.result = .const) → Classed (.odd info operand)
  | binary {info : ExprInfo} {op : BinaryOp} {lhs rhs : Expr} : Classed lhs → Classed rhs →
      (info.result = .const ↔ lhs.info.result = .const ∧ rhs.info.result = .const) →
      Classed (.binary info op lhs rhs)
  | call {info : ExprInfo} {callee : Reference} {args : List Expr} : info.result ≠ .const →
      (∀ e ∈ args, Classed e) → Classed (.call info callee args)
  | name {info : ExprInfo} {ref : Reference} : (info.result = .const ↔ ref.role = .const) →
      Classed (.name info ref)
  | number {info : ExprInfo} {value : Int32} : info.result = .const → Classed (.number info value)

mutual

/-- In a classed expression all the expressions inside are classed. -/
theorem Expr.Classed.values : {e : Expr} → e.Classed → ∀ x ∈ e.values, x.2.Classed
  | .odd _ _, .odd inner _ => List.forall_mem_cons.mpr ⟨inner, inner.values⟩
  | .binary _ _ _ _, .binary left right _ => List.forall_mem_append.mpr
      ⟨List.forall_mem_cons.mpr ⟨left, left.values⟩,
        List.forall_mem_cons.mpr ⟨right, right.values⟩⟩
  | .call _ _ _, .call _ each => Expr.classed_valuesAll each
  | .name _ _, _ => List.forall_mem_nil _
  | .number _ _, _ => List.forall_mem_nil _

theorem Expr.classed_valuesAll : {args : List Expr} → (∀ e ∈ args, e.Classed) →
    ∀ x ∈ Expr.valuesAll args, x.2.Classed
  | [], _ => List.forall_mem_nil _
  | arg :: args, each => by
    obtain ⟨first, others⟩ := List.forall_mem_cons.mp each
    rw [Expr.valuesAll]
    exact List.forall_mem_append.mpr
      ⟨List.forall_mem_cons.mpr ⟨first, first.values⟩, Expr.classed_valuesAll others⟩

end

/-! ### Rules -/

section Rules

variable {a : Analyzer}

/-- A class that is no error was given by the rule. -/
theorem ensures_settle_ok (line : Nat) (ident : Option String)
    (rule : Except AnalysisFault Role) :
    Ensures (Analysis.settle line ident rule) a fun r _ => r ≠ .error → rule = .ok r := by
  cases rule with
  | ok result => exact ensures_pure fun _ => rfl
  | error fault =>
    cases ident with
    | none => exact fun fine => absurd rfl fine
    | some name => exact fun fine => absurd rfl fine

/-- A name that is used without fault was resolved and accepted by the rule. -/
theorem ensures_resolveBy_ok (line : Nat) (ref : Reference)
    (rule : Symbol → Except AnalysisFault Role) :
    Ensures (Analysis.resolveBy line ref rule) a fun r _ => r.2 ≠ .error →
      ∃ symbol, rule symbol = .ok r.2 ∧ r.1.role = symbol.role := by
  unfold Analysis.resolveBy
  apply ensures_resolve?
  split
  · exact fun fine => absurd rfl fine
  · next symbol _ =>
    apply (ensures_settle_ok line ref.name (rule symbol)).bind
    intro result a₁ accepts
    exact ensures_pure fun fine => ⟨symbol, accepts fine, rfl⟩

theorem ensures_analyzeCall_ok (line : Nat) (callee : Reference) (count : Nat) (argsOk : Bool) :
    Ensures (callee.analyzeCall line count argsOk) a fun r _ => r.2 ≠ .error →
      argsOk = true ∧ r.2 = .var := by
  unfold Reference.analyzeCall
  apply ensures_resolve?
  split
  · exact fun fine => absurd rfl fine
  · dsimp only
    split
    · exact fun fine => absurd rfl fine
    · split
      · exact fun fine => absurd rfl fine
      · cases argsOk with
        | true => exact fun _ => ⟨rfl, rfl⟩
        | false => exact fun fine => absurd rfl fine

/-- Where a value is wanted, a constant stays a constant. -/
theorem demand_const {fault : AnalysisFault} {value result : Role}
    (accepts : demand fault value = .ok result) : result = .const ↔ value = .const := by
  cases value <;> cases accepts <;> simp

/-- An operation is constant just if both its operands are. -/
theorem binaryRule_const {lhs rhs result : Role} (accepts : binaryRule lhs rhs = .ok result) :
    result = .const ↔ lhs = .const ∧ rhs = .const := by
  cases lhs <;> cases rhs <;> cases accepts <;> simp

/-- A name is constant just if it stands for a constant. -/
theorem nameRule_const {symbol : Symbol} {result : Role} (accepts : nameRule symbol = .ok result) :
    result = .const ↔ symbol.role = .const := by
  obtain ⟨role, arity⟩ := symbol
  by_cases noArgs : arity = 0 <;> cases role <;> simp [nameRule, noArgs] at accepts <;>
    simp [← accepts]

/-- A constant is given a constant expression. -/
theorem initRule_const {init : Option Role} {result : Role} (fine : result ≠ .error)
    (accepts : initRule .const init = .ok result) : init = some .const := by
  cases init with
  | none => cases accepts
  | some init =>
    cases init with
    | const => rfl
    | error =>
      cases accepts
      exact absurd rfl fine
    | var | proc | func | ret | void => cases accepts

end Rules

/-! ### Analyzed expressions -/

mutual

/-- An expression that analysis accepts is classed, by induction on the expression. -/
theorem Expr.classed_analyze (a : Analyzer) : (e : Expr) →
    Ensures e.analyze a fun r _ => r.info.result ≠ .error → r.Classed
  | .odd info operand => by
    rw [Expr.analyze]
    apply (operand.classed_analyze a).bind
    intro operand' a₁ inner
    rw [classifyOdd_eq_settle]
    apply (ensures_settle_ok _ _ _).bind
    intro result a₂ accepts
    apply ensures_annotateExpr
    refine ensures_pure fun fine => ?_
    have rule := accepts fine
    have operandFine : operand'.info.result ≠ .error := mt (demand_passes _ _ rule).mpr fine
    exact .odd (inner operandFine) (demand_const rule)
  | .binary info op lhs rhs => by
    rw [Expr.analyze]
    apply (lhs.classed_analyze a).bind
    intro lhs' a₁ left
    apply (rhs.classed_analyze a₁).bind
    intro rhs' a₂ right
    rw [classifyBinary_eq_settle]
    apply (ensures_settle_ok _ _ _).bind
    intro result a₃ accepts
    apply ensures_annotateExpr
    refine ensures_pure fun fine => ?_
    have rule := accepts fine
    obtain ⟨leftFine, rightFine⟩ := not_or.mp (mt (binaryRule_passes _ _ rule).mpr fine)
    exact .binary (left leftFine) (right rightFine) (binaryRule_const rule)
  | .call info callee args => by
    rw [Expr.analyze]
    apply (Expr.classed_analyzeArgs a info.line callee.name args).bind
    rintro ⟨args', ok⟩ a₁ inner
    apply (ensures_analyzeCall_ok _ _ _ _).bind
    rintro ⟨callee', result⟩ a₂ known
    apply ensures_annotateExpr
    refine ensures_pure fun fine => ?_
    obtain ⟨argsOk, isVar⟩ := known fine
    have notConst : result ≠ .const := by
      rw [show result = .var from isVar]
      decide
    exact .call notConst (inner argsOk)
  | .name info ref => by
    rw [Expr.analyze, Reference.analyze_eq_resolveBy]
    apply (ensures_resolveBy_ok _ _ _).bind
    rintro ⟨ref', result⟩ a₁ known
    apply ensures_annotateExpr
    refine ensures_pure fun fine => ?_
    obtain ⟨symbol, accepts, role⟩ := known fine
    refine .name ?_
    rw [show ref'.role = symbol.role from role]
    exact nameRule_const accepts
  | .number info value => by
    rw [Expr.analyze]
    apply ensures_annotateExpr
    exact ensures_pure fun _ => .number rfl

theorem Expr.classed_analyzeArgs (a : Analyzer) (line : Nat) (callee : String) :
    (args : List Expr) → Ensures (Expr.analyzeArgs line callee args) a fun r _ =>
      r.2 = true → ∀ e ∈ r.1, e.Classed
  | [] => by
    rw [Expr.analyzeArgs]
    exact ensures_pure fun _ => List.forall_mem_nil _
  | arg :: args => by
    rw [Expr.analyzeArgs]
    apply (arg.classed_analyze a).bind
    intro arg' a₁ first
    apply ((follows_checkArgument line callee arg'.info.result).ensures
      fun _ _ _ known => known.1).bind
    rintro _ a₂ rfl
    apply (Expr.classed_analyzeArgs a₂ line callee args).bind
    rintro ⟨args', ok⟩ a₃ others
    refine ensures_pure fun fine => ?_
    obtain ⟨isValue, argsOk⟩ := Bool.and_eq_true_iff.mp fine
    exact List.forall_mem_cons.mpr ⟨first (Role.ne_error isValue), others argsOk⟩

end

/-! ### Analyzed statements -/

/-- Wherever a value is wanted among these places, the expression is classed. -/
def AllClassed (places : List (ValueUse × Expr)) : Prop := ∀ x ∈ places, x.2.Classed

theorem allClassed_nil : AllClassed [] := List.forall_mem_nil _

theorem AllClassed.append {places others : List (ValueUse × Expr)} (first : AllClassed places)
    (second : AllClassed others) : AllClassed (places ++ others) :=
  List.forall_mem_append.mpr ⟨first, second⟩

theorem Expr.Classed.all {e : Expr} (classed : e.Classed) (place : ValueUse) :
    AllClassed ((place, e) :: e.values) := List.forall_mem_cons.mpr ⟨classed, classed.values⟩

theorem Role.ofOk_ne_error_iff {ok : Bool} : Role.ofOk ok ≠ .error ↔ ok = true := by
  rw [ne_eq, Role.ofOk_eq_error, Bool.not_eq_false]

mutual

/-- All expressions of an accepted statement are classed. -/
theorem Stmt.classed_analyze (a : Analyzer) : (s : Stmt) →
    Ensures s.analyze a fun r _ => r.2 ≠ .error → AllClassed r.1.values
  | .assign info target value => by
    rw [Stmt.analyze]
    apply ensures_annotateStmt
    apply (value.classed_analyze a).bind
    intro value' a₁ inner
    rw [Reference.analyzeTarget_eq_resolveBy]
    apply (ensures_resolveBy_ok _ _ _).bind
    rintro ⟨target', result⟩ a₂ known
    refine ensures_pure fun fine => ?_
    obtain ⟨symbol, accepts, -⟩ := known fine
    exact (inner (mt (assignRule_passes _ symbol accepts).mpr fine)).all .assigned
  | .sequence info body => by
    rw [Stmt.analyze]
    apply ensures_annotateStmt
    apply (Stmt.classed_analyzeAll a body).bind
    rintro ⟨body', ok⟩ a₁ inner
    exact ensures_pure fun fine => inner (Role.ofOk_ne_error_iff.mp fine)
  | .ifThen info cond thenBranch elseBranch => by
    rw [Stmt.analyze]
    apply ensures_annotateStmt
    apply (cond.classed_analyze a).bind
    intro cond' a₁ test
    apply (Stmt.classed_analyzeOption a₁ thenBranch).bind
    rintro ⟨then', thenOk⟩ a₂ inThen
    apply (Stmt.classed_analyzeOption a₂ elseBranch).bind
    rintro ⟨else', elseOk⟩ a₃ inElse
    refine ensures_pure fun fine => ?_
    have all := Role.ofOk_ne_error_iff.mp fine
    simp only [Bool.and_eq_true, bne_iff_ne] at all
    obtain ⟨⟨testFine, thenFine⟩, elseFine⟩ := all
    exact (((test testFine).all .condition).append (inThen thenFine)).append (inElse elseFine)
  | .whileDo info cond body => by
    rw [Stmt.analyze]
    apply ensures_annotateStmt
    apply (cond.classed_analyze a).bind
    intro cond' a₁ test
    have work : Ensures (inLoop (Stmt.analyzeOption body)) a₁
        fun r _ => r.2 = true → AllClassed (Stmt.valuesOption r.1) :=
      ensures_inLoop (Stmt.classed_analyzeOption _ body)
    apply work.bind
    rintro ⟨body', ok⟩ a₂ inBody
    refine ensures_pure fun fine => ?_
    have all := Role.ofOk_ne_error_iff.mp fine
    simp only [Bool.and_eq_true, bne_iff_ne] at all
    exact ((test all.1).all .condition).append (inBody all.2)
  | .asm info text => by
    rw [Stmt.analyze]
    apply ensures_annotateStmt
    exact ensures_pure fun _ => allClassed_nil
  | .control info exit => by
    rw [Stmt.analyze]
    apply ensures_annotateStmt
    apply ensures_get
    split
    · exact fun _ => allClassed_nil
    · exact fun _ => allClassed_nil
  | .call info callee args => by
    rw [Stmt.analyze]
    apply ensures_annotateStmt
    apply (Expr.classed_analyzeArgs a info.line callee.name args).bind
    rintro ⟨args', ok⟩ a₁ inner
    apply (ensures_analyzeCall_ok _ _ _ _).bind
    rintro ⟨callee', result⟩ a₂ known
    refine ensures_pure fun fine => ?_
    exact Expr.classed_valuesAll (inner (known (mt Role.ofOk_ne_error.mpr fine)).1)
  | .name info ref => by
    rw [Stmt.analyze]
    apply ensures_annotateStmt
    rw [Reference.analyze_eq_resolveBy]
    apply (ensures_resolveBy _ _ _).bind
    rintro ⟨ref', result⟩ a₁ -
    exact ensures_pure fun _ => allClassed_nil

theorem Stmt.classed_analyzeOption (a : Analyzer) : (s : Option Stmt) →
    Ensures (Stmt.analyzeOption s) a fun r _ => r.2 = true → AllClassed (Stmt.valuesOption r.1)
  | none => by
    rw [Stmt.analyzeOption]
    exact ensures_pure fun _ => allClassed_nil
  | some s => by
    rw [Stmt.analyzeOption]
    apply (s.classed_analyze a).bind
    rintro ⟨s', result⟩ a₁ inner
    exact ensures_pure fun fine => inner (bne_iff_ne.mp fine)

theorem Stmt.classed_analyzeAll (a : Analyzer) : (body : List Stmt) →
    Ensures (Stmt.analyzeAll body) a fun r _ => r.2 = true → AllClassed (Stmt.valuesAll r.1)
  | [] => by
    rw [Stmt.analyzeAll]
    exact ensures_pure fun _ => allClassed_nil
  | s :: rest => by
    rw [Stmt.analyzeAll]
    apply (s.classed_analyze a).bind
    rintro ⟨s', result⟩ a₁ first
    apply (Stmt.classed_analyzeAll a₁ rest).bind
    rintro ⟨rest', ok⟩ a₂ others
    refine ensures_pure fun fine => ?_
    obtain ⟨firstFine, restFine⟩ := Bool.and_eq_true_iff.mp fine
    exact (first (bne_iff_ne.mp firstFine)).append (others restFine)

end

/-! ### Analyzed declarations and blocks -/

def Definition.ConstantInits (defs : List Definition) : Prop :=
  ∀ d ∈ defs, ∀ e ∈ d.init, e.Classed ∧ e.info.result = .const

mutual

/-- In the block and in its routines, constants have constant expressions as their values. -/
def Block.ConstantInits : Block → Prop
  | { consts, routines, .. } =>
    Definition.ConstantInits (Decls.definitions consts) ∧ Routine.ConstantInitsAll routines

def Routine.ConstantInits : Routine → Prop
  | { block, .. } => block.ConstantInits

def Routine.ConstantInitsAll : List Routine → Prop
  | [] => True
  | r :: rest => r.ConstantInits ∧ Routine.ConstantInitsAll rest

end

/-- So is the initial value of an accepted definition, and that of a constant is constant. -/
theorem Definition.classed_analyze (a : Analyzer) (role : Role) (d : Definition) :
    Ensures (d.analyze role) a fun r _ => r.2 = true →
      (∀ e ∈ r.1.init, e.Classed) ∧ (role = .const → ∀ e ∈ r.1.init, e.info.result = .const) := by
  have init : Ensures (Definition.analyzeInit d.init) a
      fun r _ => r.map (·.info.result) ≠ some .error → ∀ e ∈ r, e.Classed := by
    cases d.init with
    | none =>
      refine ensures_pure fun _ => ?_
      rintro _ ⟨⟩
    | some e =>
      apply (e.classed_analyze a).bind
      intro e' a₁ inner
      refine ensures_pure fun fine => ?_
      rintro _ ⟨⟩
      exact inner fun isError => fine (congrArg some isError)
  unfold Definition.analyze
  apply init.bind
  intro init' a₁ inner
  rw [Definition.checkInit_eq_settle, bind_assoc]
  apply (ensures_settle_ok _ _ _).bind
  intro result a₂ accepts
  rw [pure_bind]
  apply ensures_currentScope
  apply (accounts_declare _ _ _ _ _).bind
  intro declared a₃ _
  refine ensures_pure fun fine => ?_
  have resultFine := bne_iff_ne.mp (Bool.and_eq_true_iff.mp fine).1
  have rule := accepts resultFine
  refine ⟨inner (mt (initRule_passes _ _ rule).mpr resultFine), ?_⟩
  rintro rfl e mem
  have isConst := initRule_const resultFine rule
  rw [show init' = some e from mem] at isConst
  exact Option.some.inj isConst

theorem Definition.classed_analyzeAll (a : Analyzer) (role : Role) (defs : List Definition) :
    Ensures (Definition.analyzeAll role defs) a fun r _ => r.2 = true →
      AllClassed (Definition.values r.1) ∧ (role = .const → Definition.ConstantInits r.1) := by
  induction defs generalizing a with
  | nil =>
    rw [Definition.analyzeAll]
    exact ensures_pure fun _ => ⟨allClassed_nil, fun _ => List.forall_mem_nil _⟩
  | cons d rest ih =>
    rw [Definition.analyzeAll]
    apply (d.classed_analyze a role).bind
    rintro ⟨d', ok⟩ a₁ first
    apply (ih a₁).bind
    rintro ⟨rest', restOk⟩ a₂ others
    refine ensures_pure fun fine => ?_
    obtain ⟨firstFine, restFine⟩ := Bool.and_eq_true_iff.mp fine
    obtain ⟨classed, isConst⟩ := first firstFine
    obtain ⟨allClassed, constants⟩ := others restFine
    constructor
    · obtain ⟨line, name, _ | init⟩ := d'
      · exact allClassed
      · exact ((classed init rfl).all .initial).append allClassed
    · intro role
      refine List.forall_mem_cons.mpr ⟨fun e mem => ?_, constants role⟩
      exact ⟨classed e mem, isConst role e mem⟩

theorem Decls.classed_analyzeOption (a : Analyzer) (role : Role) (decls : Option Decls) :
    Ensures (Decls.analyzeOption role decls) a fun r _ => r.2 = true →
      AllClassed (Definition.values (Decls.definitions r.1)) ∧
        (role = .const → Definition.ConstantInits (Decls.definitions r.1)) := by
  cases decls with
  | none => exact ensures_pure fun _ => ⟨allClassed_nil, fun _ => List.forall_mem_nil _⟩
  | some decls =>
    rw [Decls.analyzeOption, Decls.analyze, bind_assoc]
    apply ensures_currentScope
    rw [bind_assoc]
    apply (Definition.classed_analyzeAll a role decls.defs).bind
    rintro ⟨defs, ok⟩ a₁ inner
    rw [pure_bind]
    exact ensures_pure fun fine => inner (Role.ofOk_ne_error_iff.mp (bne_iff_ne.mp fine))

mutual

/-- The induction over blocks and routines. -/
theorem Block.classed_analyzeIn (a : Analyzer) (scope : ScopeId) : (block : Block) →
    Ensures (block.analyzeIn scope) a fun r _ => r.2 ≠ .error →
      AllClassed r.1.values ∧ r.1.ConstantInits
  | { line, consts, vars, routines, body, .. } => by
    rw [Block.analyzeIn]
    apply ensures_inScope
    apply (Decls.classed_analyzeOption _ .const consts).bind
    rintro ⟨consts', constsOk⟩ a₁ inConsts
    apply (Decls.classed_analyzeOption a₁ .var vars).bind
    rintro ⟨vars', varsOk⟩ a₂ inVars
    apply (Block.classed_analyzeRoutines a₂ routines).bind
    rintro ⟨routines', routinesOk⟩ a₃ inRoutines
    apply (Stmt.classed_analyzeOption a₃ body).bind
    rintro ⟨body', bodyOk⟩ a₄ inBody
    refine ensures_pure fun fine => ?_
    have all := Role.ofOk_ne_error_iff.mp fine
    simp only [Bool.and_eq_true] at all
    obtain ⟨⟨⟨constsFine, varsFine⟩, routinesFine⟩, bodyFine⟩ := all
    obtain ⟨constsClassed, constants⟩ := inConsts constsFine
    obtain ⟨routinesClassed, inside⟩ := inRoutines routinesFine
    have declared := constsClassed.append (inVars varsFine).1
    rw [Block.values, Block.ConstantInits]
    exact ⟨(declared.append routinesClassed).append (inBody bodyFine), constants rfl, inside⟩

theorem Routine.classed_analyze (a : Analyzer) : (r : Routine) →
    Ensures r.analyze a fun r _ => r.2 ≠ .error → AllClassed r.1.values ∧ r.1.ConstantInits
  | { line, name, kind := .procedure, block, .. } => by
    rw [Routine.analyze]
    apply ensures_currentScope
    apply (accounts_declare _ _ _ _ _).bind
    intro declared a₁ _
    apply ensures_newScope
    apply (block.classed_analyzeIn _ _).bind
    rintro ⟨block', result⟩ a₂ inner
    refine ensures_pure fun fine => ?_
    have all := Bool.and_eq_true_iff.mp (Role.ofOk_ne_error_iff.mp fine)
    rw [Routine.values, Routine.ConstantInits]
    exact inner (bne_iff_ne.mp all.2)
  | { line, name, kind := .function params, block, .. } => by
    rw [Routine.analyze]
    apply ensures_currentScope
    apply ensures_newScope
    apply (accounts_declare _ _ _ _ _).bind
    intro nameOk a₁ _
    apply (accounts_declareParams _ _ _ _).bind
    intro paramsOk a₂ _
    apply (accounts_declare _ _ _ _ _).bind
    intro declared a₃ _
    apply ensures_newScope
    apply (block.classed_analyzeIn _ _).bind
    rintro ⟨block', result⟩ a₄ inner
    refine ensures_pure fun fine => ?_
    have all := Bool.and_eq_true_iff.mp (Role.ofOk_ne_error_iff.mp fine)
    rw [Routine.values, Routine.ConstantInits]
    exact inner (bne_iff_ne.mp all.2)

theorem Block.classed_analyzeRoutines (a : Analyzer) : (rs : List Routine) →
    Ensures (Block.analyzeRoutines rs) a fun r _ => r.2 = true →
      AllClassed (Routine.valuesAll r.1) ∧ Routine.ConstantInitsAll r.1
  | [] => by
    rw [Block.analyzeRoutines]
    exact ensures_pure fun _ => ⟨allClassed_nil, trivial⟩
  | r :: rest => by
    rw [Block.analyzeRoutines]
    apply (r.classed_analyze a).bind
    rintro ⟨r', result⟩ a₁ first
    apply (Block.classed_analyzeRoutines a₁ rest).bind
    rintro ⟨rest', ok⟩ a₂ others
    refine ensures_pure fun fine => ?_
    obtain ⟨firstFine, restFine⟩ := Bool.and_eq_true_iff.mp fine
    obtain ⟨firstClassed, firstInside⟩ := first (bne_iff_ne.mp firstFine)
    obtain ⟨othersClassed, othersInside⟩ := others restFine
    rw [Routine.valuesAll, Routine.ConstantInitsAll]
    exact ⟨firstClassed.append othersClassed, firstInside, othersInside⟩

end

/-! ### Programs -/

/-- In an accepted program all expressions are classed, and constants have constant values. -/
theorem AnalyzedProgram.classed_of_check {options : Options} {source : String}
    {p : AnalyzedProgram} (accepted : check options source = .ok p) :
    AllClassed p.program.values ∧ p.program.ConstantInits := by
  obtain ⟨program, -, analyzed⟩ := check_eq_ok_iff.mp accepted
  obtain ⟨clean, rfl⟩ := analyze_eq_ok_iff.mp analyzed
  have fine := (diagnostics_eq_nil_iff options program).mp clean
  exact program.classed_analyzeIn { table := options.table, scope := 0 } 0 fine

end PlZero
