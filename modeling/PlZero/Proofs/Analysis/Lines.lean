import PlZero.Proofs.Analysis.Declared
import PlZero.Proofs.Parser.Lines
import PlZero.Proofs.Token.Pieces

/-!
Lines decide nothing.

Analysis is natural in the lines of a tree: whatever function is applied to the lines before it, the
annotated tree and the diagnostics are those without it, with the function applied to their lines
(`analyzeProgram_relabel`). Parsing finds the same tree but for its lines in two texts with the same
kinds of tokens, and lowering reads no lines.

Main statement: `compile_unlined`.
-/

namespace PlZero

open Analysis

variable (move : Nat → Nat)

/-! ### Other lines -/

/-- A diagnostic on another line. -/
def Diagnostic.relabel (d : Diagnostic) : Diagnostic := { d with line := move d.line }

def Analyzer.relabel (a : Analyzer) : Analyzer :=
  { a with diagnostics := a.diagnostics.map (Diagnostic.relabel move) }

def Report.relabel (r : Report) : Report :=
  { r with program := r.program.relabel (.lines move)
           diagnostics := r.diagnostics.map (Diagnostic.relabel move) }

/-- The outcome of an analysis without its lines. -/
def Report.unlined : Report → Report := Report.relabel fun _ => 0

/-! ### Natural pieces of analysis -/

section Natural

variable {α β : Type} {move : Nat → Nat} {view : α → α} {view' : β → β} {x y : Analysis α}
  {f f' : α → Analysis β}

/-- Started with other lines, `y` does what `x` does but for the lines, and its result is what
`view` makes of that of `x`. -/
def Natural (move : Nat → Nat) (view : α → α) (x y : Analysis α) : Prop :=
  ∀ a, y.run (a.relabel move) = (view (x.run a).1, (x.run a).2.relabel move)

theorem natural_pure (r : α) : Natural move view (pure r) (pure (view r)) := fun _ => rfl

/-- Analysis after analysis, on other lines. -/
theorem Natural.bind (first : Natural move view x y)
    (next : ∀ r, Natural move view' (f r) (f' (view r))) :
    Natural move view' (x >>= f) (y >>= f') := by
  intro a
  rw [StateT.run_bind, StateT.run_bind, first a]
  exact next _ _

theorem Natural.bind_same (first : Natural move id x y)
    (next : ∀ r, Natural move view' (f r) (f' r)) : Natural move view' (x >>= f) (y >>= f') :=
  first.bind next

/-- A step on the state that has nothing to do with lines. -/
theorem natural_modify {g g' : Analyzer → Analyzer}
    (same : ∀ a, g' (a.relabel move) = (g a).relabel move) :
    Natural move id (modify g) (modify g') := by
  intro a
  change ((), g' (a.relabel move)) = ((), (g a).relabel move)
  rw [same a]

/-- A step that looks at the analysis goes on alike if what it goes on with does. -/
theorem natural_get {f f' : Analyzer → Analysis β}
    (next : ∀ a, Natural move view' (f a) (f' (a.relabel move))) :
    Natural move view' (get >>= f) (get >>= f') := fun a => next a a

/-- A fault is reported on the line it is found on. -/
theorem natural_report (line : Nat) (fault : AnalysisFault) :
    Natural move id (report line fault) (report (move line) fault) := by
  refine (natural_modify fun a => ?_).bind fun _ => natural_pure Role.error
  simp [Analyzer.relabel, Diagnostic.relabel]

theorem natural_reportName (line : Nat) (name : String) (fault : AnalysisFault) :
    Natural move id (reportName line name fault) (reportName (move line) name fault) := by
  refine (natural_modify fun a => ?_).bind fun _ => natural_pure Role.error
  simp [Analyzer.relabel, Diagnostic.relabel]

theorem natural_currentScope : Natural move id currentScope currentScope := fun _ => rfl

theorem natural_resolve? (name : String) : Natural move id (resolve? name) (resolve? name) :=
  fun _ => rfl

theorem natural_newScope (parent : ScopeId) : Natural move id (newScope parent) (newScope parent) :=
  fun _ => rfl

/-- A name that is declared twice is reported on its line, and nothing else depends on that. -/
theorem natural_declare (scope : ScopeId) (name : String) (symbol : Symbol) (line : Nat) :
    Natural move id (declare scope name symbol line) (declare scope name symbol (move line)) := by
  refine natural_get fun a => ?_
  have same : (a.relabel move).table = a.table := rfl
  rw [same]
  cases a.table.insert scope name symbol with
  | ok table =>
    refine (natural_modify ?_).bind fun _ => ?_
    · exact fun _ => rfl
    · exact natural_pure true
  | error existing =>
    refine (natural_reportName line name .alreadyDefined).bind fun _ => ?_
    exact natural_pure false

/-- Work in another scope, on other lines. -/
theorem Natural.inScope (work : Natural move view x y) (scope : ScopeId) :
    Natural move view (inScope scope x) (inScope scope y) := by
  refine natural_currentScope.bind fun outer => ?_
  refine (natural_modify ?_).bind_same fun _ => work.bind fun result => ?_
  · exact fun _ => rfl
  · refine (natural_modify ?_).bind_same fun _ => ?_
    · exact fun _ => rfl
    · exact natural_pure result

theorem Natural.inLoop (work : Natural move view x y) :
    Natural move view (inLoop x) (inLoop y) := by
  refine (natural_modify ?_).bind_same fun _ => work.bind fun result => ?_
  · exact fun _ => rfl
  · refine (natural_modify ?_).bind_same fun _ => ?_
    · exact fun _ => rfl
    · exact natural_pure result

theorem natural_ite {condition : Prop} [Decidable condition] {x' y' : Analysis α}
    (yes : Natural move view x y) (no : Natural move view x' y') :
    Natural move view (if condition then x else x') (if condition then y else y') := by
  split
  · exact yes
  · exact no

end Natural

variable {move : Nat → Nat}

/-! ### Expressions -/

section Expressions

theorem ExprInfo.natural_annotate (info : ExprInfo) (result : Role) :
    Natural move (ExprInfo.relabel (.lines move)) (info.annotate result)
      ((info.relabel (.lines move)).annotate result) := fun _ => rfl

theorem Natural.pair (ref : Reference) {x y : Analysis Role} (classify : Natural move id x y) :
    Natural move id (x >>= fun result => pure (ref, result))
      (y >>= fun result => pure (ref, result)) :=
  classify.bind_same fun result => natural_pure (ref, result)

/-- What a name stands for does not depend on the line. -/
theorem Reference.natural_analyze (line : Nat) (ref : Reference) :
    Natural move id (ref.analyze line) (ref.analyze (move line)) := by
  refine (natural_resolve? ref.name).bind_same fun found => ?_
  cases found with
  | none => exact (natural_reportName line ref.name .undefined).pair ref
  | some symbol =>
    obtain ⟨role, arity⟩ := symbol
    cases role with
    | proc | const | var => exact (natural_pure _).pair _
    | func | ret => exact natural_ite ((natural_pure _).pair _) ((natural_reportName _ _ _).pair _)
    | error | void => exact (natural_reportName _ _ _).pair _

theorem Reference.natural_analyzeCall (line : Nat) (callee : Reference) (count : Nat)
    (argsOk : Bool) :
    Natural move id (callee.analyzeCall line count argsOk)
      (callee.analyzeCall (move line) count argsOk) := by
  refine (natural_resolve? callee.name).bind_same fun found => ?_
  cases found with
  | none => exact (natural_reportName line callee.name .undefined).pair callee
  | some symbol =>
    exact natural_ite ((natural_reportName _ _ _).pair _)
      (natural_ite ((natural_reportName _ _ _).pair _) ((natural_pure _).pair _))

theorem natural_classifyOdd (line : Nat) (operand : Role) :
    Natural move id (classifyOdd line operand) (classifyOdd (move line) operand) :=
  natural_ite (natural_pure _) (natural_ite (natural_pure _) (natural_report _ _))

theorem natural_classifyBinary (line : Nat) (lhs rhs : Role) :
    Natural move id (classifyBinary line lhs rhs) (classifyBinary (move line) lhs rhs) :=
  natural_ite (natural_pure _) (natural_ite (natural_report _ _) (natural_ite (natural_report _ _)
    (natural_ite (natural_pure _) (natural_pure _))))

theorem natural_checkArgument (line : Nat) (callee : String) (arg : Role) :
    Natural move id (checkArgument line callee arg) (checkArgument (move line) callee arg) := by
  refine natural_ite (natural_pure _) (natural_ite (natural_pure _) ?_)
  refine (natural_reportName line callee .invalidArgument).bind_same fun _ => ?_
  exact natural_pure false

mutual

/-- Analysis of an expression commutes with moving its lines. -/
theorem Expr.natural_analyze : (e : Expr) →
    Natural move (Expr.relabel (.lines move)) e.analyze (e.relabel (.lines move)).analyze
  | .odd info operand => by
    rw [Expr.relabel, Expr.analyze, Expr.analyze]
    refine operand.natural_analyze.bind fun operand => ?_
    rw [Expr.result_relabel]
    refine (natural_classifyOdd info.line operand.info.result).bind_same fun result => ?_
    refine (info.natural_annotate result).bind fun info => ?_
    exact natural_pure (Expr.odd info operand)
  | .binary info op lhs rhs => by
    rw [Expr.relabel, Expr.analyze, Expr.analyze]
    refine lhs.natural_analyze.bind fun lhs => rhs.natural_analyze.bind fun rhs => ?_
    rw [Expr.result_relabel, Expr.result_relabel]
    refine (natural_classifyBinary info.line lhs.info.result rhs.info.result).bind_same ?_
    intro result
    refine (info.natural_annotate result).bind fun info => ?_
    exact natural_pure (Expr.binary info op lhs rhs)
  | .call info callee args => by
    rw [Expr.relabel, Expr.analyze, Expr.analyze]
    refine (Expr.natural_analyzeArgs info.line callee.name args).bind ?_
    rintro ⟨args, argsOk⟩
    simp only [Prod.map, Expr.length_relabelAll, id]
    refine (callee.natural_analyzeCall info.line args.length argsOk).bind_same ?_
    rintro ⟨callee, result⟩
    refine (info.natural_annotate result).bind fun info => ?_
    exact natural_pure (Expr.call info callee args)
  | .name info ref => by
    rw [Expr.relabel, Expr.analyze, Expr.analyze]
    refine (ref.natural_analyze info.line).bind_same ?_
    rintro ⟨ref, result⟩
    refine (info.natural_annotate result).bind fun info => ?_
    exact natural_pure (Expr.name info ref)
  | .number info value => by
    rw [Expr.relabel, Expr.analyze, Expr.analyze]
    refine (info.natural_annotate .const).bind fun info => ?_
    exact natural_pure (Expr.number info value)

theorem Expr.natural_analyzeArgs (line : Nat) (callee : String) : (args : List Expr) →
    Natural move (Prod.map (Expr.relabelAll (.lines move)) id) (Expr.analyzeArgs line callee args)
      (Expr.analyzeArgs (move line) callee (Expr.relabelAll (.lines move) args))
  | [] => by
    rw [Expr.relabelAll, Expr.analyzeArgs, Expr.analyzeArgs]
    exact natural_pure ([], true)
  | arg :: args => by
    rw [Expr.relabelAll, Expr.analyzeArgs, Expr.analyzeArgs]
    refine arg.natural_analyze.bind fun arg => ?_
    rw [Expr.result_relabel]
    refine (natural_checkArgument line callee arg.info.result).bind_same fun argOk => ?_
    refine (Expr.natural_analyzeArgs line callee args).bind ?_
    rintro ⟨args, argsOk⟩
    exact natural_pure (arg :: args, argOk && argsOk)

end

end Expressions

/-! ### Statements -/

theorem StmtInfo.natural_annotate (info : StmtInfo) :
    Natural move (StmtInfo.relabel (.lines move)) info.annotate
      (info.relabel (.lines move)).annotate := fun _ => rfl

theorem Reference.natural_analyzeTarget (line : Nat) (target : Reference) (value : Role) :
    Natural move id (target.analyzeTarget line value) (target.analyzeTarget (move line) value) := by
  refine (natural_resolve? target.name).bind_same fun found => ?_
  cases found with
  | none => exact (natural_reportName line target.name .undefined).pair target
  | some symbol =>
    exact natural_ite ((natural_reportName _ _ _).pair _) (natural_ite ((natural_pure _).pair _)
      (natural_ite ((natural_reportName _ _ _).pair _) ((natural_pure _).pair _)))

mutual

/-- Analysis of a statement commutes with moving its lines. -/
theorem Stmt.natural_analyze : (s : Stmt) →
    Natural move (Prod.map (Stmt.relabel (.lines move)) id) s.analyze
      (s.relabel (.lines move)).analyze
  | .assign info target value => by
    rw [Stmt.relabel, Stmt.analyze, Stmt.analyze]
    refine info.natural_annotate.bind fun info => value.natural_analyze.bind fun value => ?_
    rw [Expr.result_relabel]
    refine (target.natural_analyzeTarget info.line value.info.result).bind_same ?_
    rintro ⟨target, result⟩
    exact natural_pure (Stmt.assign info target value, result)
  | .sequence info body => by
    rw [Stmt.relabel, Stmt.analyze, Stmt.analyze]
    refine info.natural_annotate.bind fun info => (Stmt.natural_analyzeAll body).bind ?_
    rintro ⟨body, bodyOk⟩
    exact natural_pure (Stmt.sequence info body, Role.ofOk bodyOk)
  | .ifThen info cond thenBranch elseBranch => by
    rw [Stmt.relabel, Stmt.analyze, Stmt.analyze]
    refine info.natural_annotate.bind fun info => cond.natural_analyze.bind fun cond => ?_
    rw [Expr.result_relabel]
    refine (Stmt.natural_analyzeOption thenBranch).bind ?_
    rintro ⟨thenBranch, thenOk⟩
    refine (Stmt.natural_analyzeOption elseBranch).bind ?_
    rintro ⟨elseBranch, elseOk⟩
    exact natural_pure (Stmt.ifThen info cond thenBranch elseBranch,
      Role.ofOk (cond.info.result != .error && thenOk && elseOk))
  | .whileDo info cond body => by
    rw [Stmt.relabel, Stmt.analyze, Stmt.analyze]
    refine info.natural_annotate.bind fun info => cond.natural_analyze.bind fun cond => ?_
    rw [Expr.result_relabel]
    refine (Stmt.natural_analyzeOption body).inLoop.bind ?_
    rintro ⟨body, bodyOk⟩
    exact natural_pure (Stmt.whileDo info cond body,
      Role.ofOk (cond.info.result != .error && bodyOk))
  | .asm info text => by
    rw [Stmt.relabel, Stmt.analyze, Stmt.analyze]
    refine info.natural_annotate.bind fun info => ?_
    exact natural_pure (Stmt.asm info text, Role.void)
  | .control info exit => by
    rw [Stmt.relabel, Stmt.analyze, Stmt.analyze]
    refine info.natural_annotate.bind fun info => natural_get fun a => natural_ite ?_ ?_
    · refine (natural_report info.line .strayLoopExit).bind_same fun result => ?_
      exact natural_pure (Stmt.control info exit, result)
    · exact natural_pure (Stmt.control info exit, Role.void)
  | .call info callee args => by
    rw [Stmt.relabel, Stmt.analyze, Stmt.analyze]
    refine info.natural_annotate.bind fun info => ?_
    refine (Expr.natural_analyzeArgs info.line callee.name args).bind ?_
    rintro ⟨args, argsOk⟩
    simp only [Prod.map, Expr.length_relabelAll, id]
    refine (callee.natural_analyzeCall info.line args.length argsOk).bind_same ?_
    rintro ⟨callee, result⟩
    exact natural_pure (Stmt.call info callee args, Role.ofOk (result != .error))
  | .name info ref => by
    rw [Stmt.relabel, Stmt.analyze, Stmt.analyze]
    refine info.natural_annotate.bind fun info => (ref.natural_analyze info.line).bind_same ?_
    rintro ⟨ref, result⟩
    exact natural_pure (Stmt.name info ref, Role.ofOk (result != .error))

theorem Stmt.natural_analyzeOption : (s : Option Stmt) →
    Natural move (Prod.map (Stmt.relabelOption (.lines move)) id) (Stmt.analyzeOption s)
      (Stmt.analyzeOption (Stmt.relabelOption (.lines move) s))
  | none => by
    rw [Stmt.relabelOption, Stmt.analyzeOption]
    exact natural_pure (none, true)
  | some s => by
    rw [Stmt.relabelOption, Stmt.analyzeOption, Stmt.analyzeOption]
    refine s.natural_analyze.bind ?_
    rintro ⟨s, result⟩
    exact natural_pure (some s, result != .error)

theorem Stmt.natural_analyzeAll : (body : List Stmt) →
    Natural move (Prod.map (Stmt.relabelAll (.lines move)) id) (Stmt.analyzeAll body)
      (Stmt.analyzeAll (Stmt.relabelAll (.lines move) body))
  | [] => by
    rw [Stmt.relabelAll, Stmt.analyzeAll]
    exact natural_pure ([], true)
  | s :: body => by
    rw [Stmt.relabelAll, Stmt.analyzeAll, Stmt.analyzeAll]
    refine s.natural_analyze.bind ?_
    rintro ⟨s, result⟩
    refine (Stmt.natural_analyzeAll body).bind ?_
    rintro ⟨body, bodyOk⟩
    exact natural_pure (s :: body, result != .error && bodyOk)

end

/-! ### Declarations -/

theorem Definition.natural_checkInit (line : Nat) (name : String) (role : Role)
    (init : Option Role) :
    Natural move id (Definition.checkInit line name role init)
      (Definition.checkInit (move line) name role init) := by
  have fails (fault : AnalysisFault) : Natural move id
      (do let _ ← reportName line name fault; return false)
      (do let _ ← reportName (move line) name fault; return false) :=
    (natural_reportName line name fault).bind_same fun _ => natural_pure false
  cases init with
  | none => exact natural_ite (fails _) (natural_pure _)
  | some init =>
    cases init with
    | error => exact natural_pure false
    | _ => exact natural_ite (fails _) (natural_ite (fails _) (natural_pure _))

theorem Definition.natural_analyzeInit (init : Option Expr) :
    Natural move (Option.map (Expr.relabel (.lines move))) (Definition.analyzeInit init)
      (Definition.analyzeInit (init.map (Expr.relabel (.lines move)))) := by
  cases init with
  | none => exact natural_pure none
  | some init => exact init.natural_analyze.bind fun init => natural_pure (some init)

/-- Analysis of a definition commutes with moving its lines. -/
theorem Definition.natural_analyze (role : Role) (d : Definition) :
    Natural move (Prod.map (Definition.relabel (.lines move)) id) (d.analyze role)
      ((d.relabel (.lines move)).analyze role) := by
  refine (Definition.natural_analyzeInit d.init).bind fun init => ?_
  have results : (init.map (Expr.relabel (.lines move))).map (·.info.result) =
      init.map (·.info.result) := by
    simp [Function.comp_def, Expr.result_relabel]
  rw [results]
  refine (Definition.natural_checkInit d.line d.name role _).bind_same fun initOk => ?_
  refine natural_currentScope.bind_same fun scope => ?_
  refine (natural_declare scope d.name { role } d.line).bind_same fun declared => ?_
  exact natural_pure ({ d with init }, initOk && declared)

theorem Definition.natural_analyzeAll (role : Role) (defs : List Definition) :
    Natural move (Prod.map (List.map (Definition.relabel (.lines move))) id)
      (Definition.analyzeAll role defs)
      (Definition.analyzeAll role (defs.map (Definition.relabel (.lines move)))) := by
  induction defs with
  | nil => exact natural_pure ([], true)
  | cons d rest ih =>
    rw [List.map_cons, Definition.analyzeAll, Definition.analyzeAll]
    refine (d.natural_analyze role).bind ?_
    rintro ⟨d, ok⟩
    refine ih.bind ?_
    rintro ⟨rest, restOk⟩
    exact natural_pure (d :: rest, ok && restOk)

theorem Decls.natural_analyze (role : Role) (decls : Decls) :
    Natural move (Prod.map (Decls.relabel (.lines move)) id) (decls.analyze role)
      ((decls.relabel (.lines move)).analyze role) := by
  refine natural_currentScope.bind_same fun scope => ?_
  refine (Definition.natural_analyzeAll role decls.defs).bind ?_
  rintro ⟨defs, ok⟩
  exact natural_pure ({ decls with defs, scope := some scope }, Role.ofOk ok)

theorem Decls.natural_analyzeOption (role : Role) (decls : Option Decls) :
    Natural move (Prod.map (Option.map (Decls.relabel (.lines move))) id)
      (Decls.analyzeOption role decls)
      (Decls.analyzeOption role (decls.map (Decls.relabel (.lines move)))) := by
  cases decls with
  | none => exact natural_pure (none, true)
  | some decls =>
    refine (decls.natural_analyze role).bind ?_
    rintro ⟨decls, result⟩
    exact natural_pure (some decls, result != .error)

/-! ### Routines and blocks -/

theorem natural_declareParams (scope : ScopeId) (line : Nat) (params : List String) :
    Natural move id (declareParams scope line params) (declareParams scope (move line) params) := by
  induction params with
  | nil => exact natural_pure true
  | cons param params ih =>
    refine (natural_declare scope param { role := .var } line).bind_same fun ok => ?_
    exact ih.bind_same fun restOk => natural_pure (ok && restOk)

mutual

/-- Analysis of a block commutes with moving its lines, by induction over blocks and routines. -/
theorem Block.natural_analyzeIn (scope : ScopeId) : (block : Block) →
    Natural move (Prod.map (Block.relabel (.lines move)) id) (block.analyzeIn scope)
      ((block.relabel (.lines move)).analyzeIn scope)
  | { line, consts, vars, routines, body, .. } => by
    rw [Block.relabel, Block.analyzeIn, Block.analyzeIn]
    refine Natural.inScope ?_ scope
    refine (Decls.natural_analyzeOption .const consts).bind ?_
    rintro ⟨consts, constsOk⟩
    refine (Decls.natural_analyzeOption .var vars).bind ?_
    rintro ⟨vars, varsOk⟩
    refine (Block.natural_analyzeRoutines routines).bind ?_
    rintro ⟨routines, routinesOk⟩
    refine (Stmt.natural_analyzeOption body).bind ?_
    rintro ⟨body, bodyOk⟩
    exact natural_pure (Block.mk line consts vars routines body (some scope),
      Role.ofOk (constsOk && varsOk && routinesOk && bodyOk))

theorem Routine.natural_analyze : (r : Routine) →
    Natural move (Prod.map (Routine.relabel (.lines move)) id) r.analyze
      (r.relabel (.lines move)).analyze
  | { line, name, kind := .procedure, block, .. } => by
    rw [Routine.relabel, Routine.analyze, Routine.analyze]
    refine natural_currentScope.bind_same fun outer => ?_
    refine (natural_declare outer name { role := .proc } line).bind_same fun declared => ?_
    refine (natural_newScope outer).bind_same fun inner => (block.natural_analyzeIn inner).bind ?_
    rintro ⟨block, result⟩
    exact natural_pure (Routine.mk line name .procedure block (some outer),
      Role.ofOk (declared && result != .error))
  | { line, name, kind := .function params, block, .. } => by
    rw [Routine.relabel, Routine.analyze, Routine.analyze]
    refine natural_currentScope.bind_same fun outer => (natural_newScope outer).bind_same ?_
    intro own
    refine (natural_declare own name _ line).bind_same fun nameOk => ?_
    refine (natural_declareParams own line params).bind_same fun paramsOk => ?_
    refine (natural_declare outer name _ line).bind_same fun declared => ?_
    refine (natural_newScope own).bind_same fun inner => (block.natural_analyzeIn inner).bind ?_
    rintro ⟨block, result⟩
    exact natural_pure (Routine.mk line name (.function params) block (some own),
      Role.ofOk (nameOk && paramsOk && declared && result != .error))

theorem Block.natural_analyzeRoutines : (rs : List Routine) →
    Natural move (Prod.map (Routine.relabelAll (.lines move)) id) (Block.analyzeRoutines rs)
      (Block.analyzeRoutines (Routine.relabelAll (.lines move) rs))
  | [] => by
    rw [Routine.relabelAll, Block.analyzeRoutines]
    exact natural_pure ([], true)
  | r :: rest => by
    rw [Routine.relabelAll, Block.analyzeRoutines, Block.analyzeRoutines]
    refine r.natural_analyze.bind ?_
    rintro ⟨r, result⟩
    refine (Block.natural_analyzeRoutines rest).bind ?_
    rintro ⟨rest, restOk⟩
    exact natural_pure (r :: rest, result != .error && restOk)

end

/-- Analysis on other lines is the analysis, on other lines. -/
theorem analyzeProgram_relabel (options : Options) (program : Block) :
    analyzeProgram options (program.relabel (.lines move)) =
      (analyzeProgram options program).relabel move := by
  let start : Analyzer := { table := options.table, scope := 0 }
  have natural : ((program.relabel (.lines move)).analyzeIn 0).run start =
      (Prod.map (Block.relabel (.lines move)) id ((program.analyzeIn 0).run start).1,
        ((program.analyzeIn 0).run start).2.relabel move) :=
    program.natural_analyzeIn 0 start
  rw [analyzeProgram, natural]
  rfl

/-! ### Tokens at fault -/

/-- The kind of a token that is one. -/
def Token.Kind.known? : Token.Kind → Option Token.Kind
  | .invalid _ => none
  | kind => some kind

/-- Lexical faults have different messages. -/
theorem LexicalFault.message_injective {fault fault' : LexicalFault}
    (same : fault.message = fault'.message) : fault = fault' := by
  cases fault <;> cases fault' <;> first | rfl | exact absurd same (by decide)

/-- Kinds that are known as the same are the same, or both are invalid. -/
theorem Token.Kind.eq_of_known? {kind kind' : Token.Kind} (same : kind.known? = kind'.known?) :
    kind = kind' ∨ ∃ fault fault', kind = .invalid fault ∧ kind' = .invalid fault' := by
  cases kind with
  | invalid fault =>
    cases kind' with
    | invalid fault' => exact .inr ⟨fault, fault', rfl, rfl⟩
    | _ => cases same
  | _ =>
    cases kind' with
    | invalid fault' => cases same
    | _ => exact .inl (Option.some.inj same)

/-- A token is known by its kind if it is one, and by its message if it is none. -/
theorem Token.Kind.eq_of_messages {kinds kinds' : List Token.Kind}
    (known : kinds.map known? = kinds'.map known?)
    (messages : kinds.filterMap (·.fault?.map LexicalFault.message) =
      kinds'.filterMap (·.fault?.map LexicalFault.message)) : kinds = kinds' := by
  induction kinds generalizing kinds' with
  | nil => exact (List.map_eq_nil_iff.mp known.symm).symm
  | cons kind kinds ih =>
    cases kinds' with
    | nil => cases known
    | cons kind' kinds' =>
      obtain ⟨first, others⟩ := List.cons.inj known
      obtain rfl | ⟨fault, fault', rfl, rfl⟩ := eq_of_known? first
      · rw [List.filterMap_cons, List.filterMap_cons] at messages
        cases fault : kind.fault?.map LexicalFault.message with
        | none =>
          rw [fault] at messages
          rw [ih others messages]
        | some message =>
          rw [fault] at messages
          rw [ih others (List.cons.inj messages).2]
      · obtain ⟨same, messages⟩ := List.cons.inj messages
        rw [LexicalFault.message_injective same, ih others messages]

/-- The messages of the scanner are those of the tokens at fault. -/
theorem Scanner.messages_drain (source : String) :
    (ofString source).drain.2.diagnostics.map (·.message) =
      ((tokenize source).map (·.kind)).filterMap (·.fault?.map LexicalFault.message) := by
  obtain ⟨pieces, cuts⟩ := Piece.exists_cuts source.toList
  rw [tokenize, drain_ofString cuts, List.map_filterMap, List.filterMap_map]
  congr 1
  funext token
  rw [Token.diagnostic?, Option.map_map]
  rfl

/-! ### Programs -/

/-- The outcome of an analysis does not depend on the lines but for the lines in it. -/
theorem unlined_analyzeProgram {tree tree' : Block}
    (same : tree.relabel .unlined = tree'.relabel .unlined) (options : Options) :
    (analyzeProgram options tree).unlined = (analyzeProgram options tree').unlined := by
  rw [Report.unlined, ← analyzeProgram_relabel, ← analyzeProgram_relabel]
  exact congrArg (analyzeProgram options) same

/-- Programs that differ in their lines only have the same code. -/
theorem analyze_unlined {tree tree' : Block}
    (same : tree.relabel .unlined = tree'.relabel .unlined) (options : Options) (target : Target) :
    (analyze options tree).map (·.code target) = (analyze options tree').map (·.code target) := by
  have reports := unlined_analyzeProgram same options
  have counts : (analyzeProgram options tree).diagnostics.length =
      (analyzeProgram options tree').diagnostics.length := by
    simpa [Report.unlined, Report.relabel] using congrArg (·.diagnostics.length) reports
  have trees : (analyzeProgram options tree).program.relabel .unlined =
      (analyzeProgram options tree').program.relabel .unlined := congrArg (·.program) reports
  simp only [analyze, List.isEmpty_iff_length_eq_zero, counts]
  split
  · exact congrArg Except.ok (AnalyzedProgram.code_eq_of_relabel .unlined trees target)
  · rfl

theorem compile_of_parse {source : String} {tree : Block} (parsed : parse source = .ok tree)
    (options : Options) (target : Target) :
    compile options target source = (analyze options tree).map (·.code target) := by
  rw [compile, check_of_parse parsed]
  cases analyze options tree <;> rfl

/-- A text that cannot be parsed has no code. -/
theorem compile_of_parse_error {source : String} {failure : Failure}
    (stopped : parse source = .error failure) (options : Options) (target : Target) :
    compile options target source = .error failure := by
  rw [compile, check, stopped]
  rfl

/-- Two texts with the same tokens, whatever lines they are on, are compiled to the same code or
fail alike, and analysis finds the same in them. -/
theorem compile_unlined {source source' : String}
    (kinds : (tokenize source).map (·.kind.known?) = (tokenize source').map (·.kind.known?))
    (messages : (Scanner.ofString source).drain.2.diagnostics.map (·.message) =
      (Scanner.ofString source').drain.2.diagnostics.map (·.message)) (options : Options) :
    (∀ target, (compile options target source).mapError Failure.unlined =
        (compile options target source').mapError Failure.unlined) ∧
      ∀ tree tree', parse source = .ok tree → parse source' = .ok tree' →
        (analyzeProgram options tree).unlined = (analyzeProgram options tree').unlined := by
  have sameKinds : (tokenize source).map (·.kind) = (tokenize source').map (·.kind) := by
    rw [Scanner.messages_drain, Scanner.messages_drain] at messages
    refine Token.Kind.eq_of_messages ?_ messages
    rw [List.map_map, List.map_map]
    exact kinds
  obtain ⟨tree, tree', parsed, parsed', same⟩ | ⟨failure, failure', stopped, stopped', same⟩ :=
    parse_alike sameKinds
  · refine ⟨fun target => ?_, ?_⟩
    · rw [compile_of_parse parsed, compile_of_parse parsed', analyze_unlined same]
    · intro other other' isOther isOther'
      rw [parsed] at isOther
      rw [parsed'] at isOther'
      cases isOther
      cases isOther'
      exact unlined_analyzeProgram same options
  · refine ⟨fun target => ?_, fun _ _ parsed => absurd (stopped.symm.trans parsed) nofun⟩
    rw [compile_of_parse_error stopped, compile_of_parse_error stopped']
    exact congrArg Except.error same

/-- A program on one line and on four, with a comment. -/
theorem compile_unlined_spread :
    ∃ tree tree', parse "var x; x := 1." = .ok tree ∧
      parse "var x;\n\x7b set \x7d\nx :=\r\n1." = .ok tree' ∧
      (analyzeProgram {} tree).unlined = (analyzeProgram {} tree').unlined ∧
      (compile {} .text "var x; x := 1.").mapError Failure.unlined =
        (compile {} .text "var x;\n\x7b set \x7d\nx :=\r\n1.").mapError Failure.unlined := by
  have first : (check {} "var x; x := 1.").toOption.isSome = true := by decide +kernel
  have second : (check {} "var x;\n\x7b set \x7d\nx :=\r\n1.").toOption.isSome = true := by
    decide +kernel
  obtain ⟨p, accepted⟩ := exists_check_of_isSome first
  obtain ⟨p', accepted'⟩ := exists_check_of_isSome second
  obtain ⟨tree, parsed, -⟩ := check_eq_ok_iff.mp accepted
  obtain ⟨tree', parsed', -⟩ := check_eq_ok_iff.mp accepted'
  have kinds : (tokenize "var x; x := 1.").map (·.kind.known?) =
      (tokenize "var x;\n\x7b set \x7d\nx :=\r\n1.").map (·.kind.known?) := by decide +kernel
  have messages : (Scanner.ofString "var x; x := 1.").drain.2.diagnostics.map (·.message) =
      (Scanner.ofString "var x;\n\x7b set \x7d\nx :=\r\n1.").drain.2.diagnostics.map
        (·.message) := by
    decide +kernel
  obtain ⟨compiled, analyzed⟩ := compile_unlined kinds messages {}
  exact ⟨tree, tree', parsed, parsed', analyzed tree tree' parsed parsed', compiled .text⟩

end PlZero
