import PlZero.Proofs.Analysis.Placement
import PlZero.Proofs.Analysis.Prelude
import PlZero.Proofs.Tree.Bare

/-!
What a piece of analysis leaves behind, in any context. Faults are only ever added, the names and
scopes that were there stay, and the analysis comes back to the scope and the loop it started in. A
phrase is classified as faulty exactly if something was reported on the way.

Expressions and statements declare nothing. What they add depends on the names around them and not
on earlier reports (`Gives`), nor on annotations they carry: an annotated phrase is analyzed to
itself, with the same reports.

Main statement: `analysis_fails_iff_reports`.
-/

namespace PlZero

open Analysis Lexical

/-! ### Analysis that declares nothing -/

/-- In the context of `a`, whatever was reported before, the analysis answers `r` and adds the
reports `new`; nothing else changes. -/
def Gives {α : Type} (x : Analysis α) (a : Analyzer) (r : α) (new : List Diagnostic) : Prop :=
  ∀ earlier, x.run { a with diagnostics := earlier } =
    (r, { a with diagnostics := earlier ++ new })

section

variable {α β : Type} {x : Analysis α} {f : α → Analysis β} {a : Analyzer} {r : α} {v : β}
  {new more : List Diagnostic}

theorem append_ne_nil : new ++ more ≠ [] ↔ new ≠ [] ∨ more ≠ [] := by
  rw [ne_eq, List.append_eq_nil_iff, not_and_or]

theorem gives_pure (r : α) : Gives (pure r) a r [] := fun earlier => by
  rw [List.append_nil]
  rfl

/-- Analysis after analysis: the reports of the two are added one behind the other. -/
theorem Gives.bind (first : Gives x a r new) (next : Gives (f r) a v more) :
    Gives (x >>= f) a v (new ++ more) := fun earlier => by
  rw [StateT.run_bind, first earlier, ← List.append_assoc]
  exact next (earlier ++ new)

/-- The rest reports nothing. -/
theorem Gives.andThen (first : Gives x a r new) (next : Gives (f r) a v []) :
    Gives (x >>= f) a v new := by
  have whole := first.bind next
  rwa [List.append_nil] at whole

/-- The state may be looked at. What is done then must not depend on the reports before. -/
theorem gives_get {f : Analyzer → Analysis β}
    (rest : ∀ earlier, Gives (f { a with diagnostics := earlier }) a v new) :
    Gives (get >>= f) a v new := fun earlier => rest earlier earlier

theorem gives_resolve? {name : String} {f : Option Symbol → Analysis β}
    (rest : Gives (f (a.table.resolve? a.scope name)) a v new) :
    Gives (resolve? name >>= f) a v new := rest

theorem gives_annotateExpr {info : ExprInfo} {result : Role} {f : ExprInfo → Analysis β}
    (rest : Gives (f { info with result, scope := some a.scope }) a v new) :
    Gives (info.annotate result >>= f) a v new := rest

theorem gives_annotateStmt {info : StmtInfo} {f : StmtInfo → Analysis β}
    (rest : Gives (f { info with scope := some a.scope }) a v new) :
    Gives (info.annotate >>= f) a v new := rest

theorem inLoop_run (x : Analysis α) (a : Analyzer) :
    (inLoop x).run a =
      ((x.run { a with loopDepth := a.loopDepth + 1 }).1,
        { (x.run { a with loopDepth := a.loopDepth + 1 }).2 with
          loopDepth := (x.run { a with loopDepth := a.loopDepth + 1 }).2.loopDepth - 1 }) := rfl

/-- Work inside one more loop leaves the number of loops as it was. -/
theorem gives_inLoop (work : Gives x { a with loopDepth := a.loopDepth + 1 } r new) :
    Gives (inLoop x) a r new := fun earlier => by
  rw [inLoop_run, work earlier]
  rfl

end

variable {a : Analyzer}

/-! ### Rules

A rule that finds no fault passes on what was faulty before, the debt. -/

/-- Where a rule finds no fault, the class is `error` just if it was before: a fault is reported
once, where it is found. -/
theorem demand_passes (fault : AnalysisFault) (value : Role) {result : Role}
    (passes : demand fault value = .ok result) : result = .error ↔ value = .error := by
  cases value <;> cases passes <;> simp

theorem binaryRule_passes (lhs rhs : Role) {result : Role}
    (passes : binaryRule lhs rhs = .ok result) :
    result = .error ↔ lhs = .error ∨ rhs = .error := by
  cases lhs <;> cases rhs <;> cases passes <;> simp

theorem nameRule_passes (symbol : Symbol) {result : Role}
    (passes : nameRule symbol = .ok result) :
    result = .error ↔ False := by
  obtain ⟨role, arity⟩ := symbol
  by_cases noArgs : arity = 0 <;> cases role <;> simp [nameRule, noArgs] at passes <;>
    simp [← passes]

/-- A call that the rule accepts is faulty just if an argument is no value. -/
theorem callRule_passes (args : List Role) (symbol : Symbol) {result : Role}
    (passes : callRule args symbol = .ok result) :
    result = .error ↔ args.all Role.isValue = false := by
  unfold callRule at passes
  split at passes
  · cases passes
  · split at passes <;> cases passes
    cases args.all Role.isValue <;> simp

theorem assignRule_passes (value : Role) (symbol : Symbol) {result : Role}
    (passes : assignRule value symbol = .ok result) : result = .error ↔ value = .error := by
  unfold assignRule at passes
  split at passes
  · cases value <;> cases passes <;> simp [Role.ofOk]
  · cases passes

theorem initRule_passes (role : Role) (init : Option Role) {result : Role}
    (passes : initRule role init = .ok result) : result = .error ↔ init = some .error := by
  cases init with
  | none =>
    by_cases const : role = .const <;> simp [initRule, const] at passes
    simp [← passes]
  | some init =>
    by_cases const : role = .const
    · cases init <;> simp [initRule, const] at passes <;> simp [← passes]
    · simp only [initRule, if_pos (show role ≠ .const from const)] at passes
      simpa using demand_passes _ _ passes

/-- What a rule gives, together with whether there is a report. The class is `error` just if it was
due to be, for a fault inside, or one is reported here. -/
theorem gives_settle (line : Nat) (ident : Option String) {rule : Except AnalysisFault Role}
    {debt : Prop} (passes : ∀ {result}, rule = .ok result → (result = .error ↔ debt)) :
    ∃ result new, Gives (Analysis.settle line ident rule) a result new ∧
      (result = .error ↔ debt ∨ new ≠ []) := by
  cases rule with
  | ok result => exact ⟨result, [], gives_pure result, by simpa using passes rfl⟩
  | error fault =>
    cases ident with
    | none => exact ⟨.error, [_], fun _ => rfl, by simp⟩
    | some name => exact ⟨.error, [_], fun _ => rfl, by simp⟩

/-- The reference that resolving gives is resolved to itself. -/
theorem gives_resolveBy (line : Nat) (ref : Reference) {rule : Symbol → Except AnalysisFault Role}
    {debt : Prop}
    (passes : ∀ symbol {result}, rule symbol = .ok result → (result = .error ↔ debt)) :
    ∃ role result new,
      Gives (Analysis.resolveBy line ref rule) a ({ ref with role }, result) new ∧
      Gives (Analysis.resolveBy line { ref with role } rule) a ({ ref with role }, result) new ∧
      (result = .error ↔ debt ∨ new ≠ []) := by
  cases found : a.table.resolve? a.scope ref.name with
  | none =>
    have undefined : Gives (Analysis.resolveBy line ref rule) a (ref, .error)
        [{ stage := .analyzer, line, ident := some ref.name,
           message := AnalysisFault.undefined.message }] := by
      unfold Analysis.resolveBy
      apply gives_resolve?
      rw [found]
      exact fun _ => rfl
    exact ⟨ref.role, .error, _, undefined, undefined, by simp⟩
  | some symbol =>
    obtain ⟨result, new, settles, faulty⟩ :=
      gives_settle (a := a) line ref.name (passes symbol)
    have resolves (role : Role) : Gives (Analysis.resolveBy line { ref with role } rule) a
        ({ ref with role := symbol.role }, result) new := by
      unfold Analysis.resolveBy
      apply gives_resolve?
      rw [found]
      exact settles.andThen (gives_pure _)
    exact ⟨symbol.role, result, new, resolves ref.role, resolves symbol.role, faulty⟩

/-- A call is faulty just if an argument is no value or the call is reported. With the role filled
in that was found, it gives the same again. -/
theorem gives_call (line : Nat) (callee : Reference) (args : List Expr) :
    ∃ role result new,
      Gives (callee.analyzeCall line args.length (args.all (·.info.result.isValue))) a
        ({ callee with role }, result) new ∧
      Gives (Reference.analyzeCall line { callee with role } args.length
        (args.all (·.info.result.isValue))) a ({ callee with role }, result) new ∧
      (result = .error ↔ args.all (·.info.result.isValue) = false ∨ new ≠ []) := by
  have count : args.length = (args.map (·.info.result)).length := (List.length_map _).symm
  have values : args.all (·.info.result.isValue) = (args.map (·.info.result)).all Role.isValue := by
    rw [List.all_map]
    rfl
  rw [count, values]
  simp only [Reference.analyzeCall_eq_resolveBy]
  exact gives_resolveBy line callee (callRule_passes _)

/-- An argument that is no value is reported, unless it was faulty already. -/
theorem gives_checkArgument (line : Nat) (callee : String) (arg : Role) :
    ∃ new, Gives (checkArgument line callee arg) a arg.isValue new ∧
      (arg.isValue = false ↔ arg = .error ∨ new ≠ []) := by
  cases arg with
  | error | const | var => exact ⟨[], gives_pure _, by simp [Role.isValue]⟩
  | proc | func | ret | void => exact ⟨[_], fun _ => rfl, by simp [Role.isValue]⟩

/-! ### Expressions -/

/-- In the context of `a` the expression is analyzed to `e'`, with the reports `new`, and so is
`e'`. The two differ in their annotations only, and `e'` is faulty if there are reports. -/
structure Expr.AnnotatedAs (a : Analyzer) (e e' : Expr) (new : List Diagnostic) : Prop where
  gives : Gives e.analyze a e' new
  again : Gives e'.analyze a e' new
  bare : e'.bare = e.bare
  faulty : e'.info.result = .error ↔ new ≠ []

section

variable {info : ExprInfo} {result : Role} {new more further : List Diagnostic}

/-- How `odd` is analyzed, given what the analysis of its operand gives. -/
theorem Expr.gives_odd {operand operand' : Expr} (inner : Gives operand.analyze a operand' new)
    (settles : Gives (Analysis.settle info.line none
      (demand .invalidOperand operand'.info.result)) a result more) :
    Gives (Expr.odd info operand).analyze a
      (.odd { info with result, scope := some a.scope } operand') (new ++ more) := by
  rw [Expr.analyze]
  apply inner.bind
  rw [classifyOdd_eq_settle]
  exact settles.andThen (gives_annotateExpr (gives_pure _))

/-- How an operation is analyzed, given what the analysis of its operands gives. -/
theorem Expr.gives_binary {op : BinaryOp} {lhs lhs' rhs rhs' : Expr}
    (left : Gives lhs.analyze a lhs' new) (right : Gives rhs.analyze a rhs' more)
    (settles : Gives (Analysis.settle info.line none
      (binaryRule lhs'.info.result rhs'.info.result)) a result further) :
    Gives (Expr.binary info op lhs rhs).analyze a
      (.binary { info with result, scope := some a.scope } op lhs' rhs')
      (new ++ (more ++ further)) := by
  rw [Expr.analyze]
  apply left.bind
  apply right.bind
  rw [classifyBinary_eq_settle]
  exact settles.andThen (gives_annotateExpr (gives_pure _))

theorem Expr.gives_name {ref ref' : Reference}
    (resolves : Gives (Analysis.resolveBy info.line ref nameRule) a (ref', result) new) :
    Gives (Expr.name info ref).analyze a
      (.name { info with result, scope := some a.scope } ref') new := by
  rw [Expr.analyze, Reference.analyze_eq_resolveBy]
  exact resolves.andThen (gives_annotateExpr (gives_pure _))

/-- How a call is analyzed, given what the analysis of its arguments gives. -/
theorem Expr.gives_callExpr {callee callee' : Reference} {args args' : List Expr} {ok : Bool}
    (inner : Gives (Expr.analyzeArgs info.line callee.name args) a (args', ok) new)
    (resolves : Gives (callee.analyzeCall info.line args'.length ok) a (callee', result) more) :
    Gives (Expr.call info callee args).analyze a
      (.call { info with result, scope := some a.scope } callee' args') (new ++ more) := by
  rw [Expr.analyze]
  apply inner.bind
  exact resolves.andThen (gives_annotateExpr (gives_pure _))

end

mutual

/-- Every expression is annotated in some way, and annotating it again changes nothing. The
induction is on the expression. -/
theorem Expr.annotated (a : Analyzer) : (e : Expr) → ∃ e' new, e.AnnotatedAs a e' new
  | .odd info operand => by
    obtain ⟨operand', new, inner⟩ := operand.annotated a
    obtain ⟨result, more, settles, faulty⟩ :=
      gives_settle (a := a) info.line none (demand_passes .invalidOperand operand'.info.result)
    refine ⟨_, _, Expr.gives_odd inner.gives settles, Expr.gives_odd inner.again settles, ?_, ?_⟩
    · simp only [Expr.bare, inner.bare]
    · rw [inner.faulty, ← append_ne_nil] at faulty
      exact faulty
  | .binary info op lhs rhs => by
    obtain ⟨lhs', new, left⟩ := lhs.annotated a
    obtain ⟨rhs', more, right⟩ := rhs.annotated a
    obtain ⟨result, further, settles, faulty⟩ :=
      gives_settle (a := a) info.line none (binaryRule_passes lhs'.info.result rhs'.info.result)
    refine ⟨_, _, Expr.gives_binary left.gives right.gives settles,
      Expr.gives_binary left.again right.again settles, ?_, ?_⟩
    · simp only [Expr.bare, left.bare, right.bare]
    · rw [left.faulty, right.faulty, or_assoc, ← append_ne_nil, ← append_ne_nil] at faulty
      exact faulty
  | .call info callee args => by
    obtain ⟨args', new, gives, again, bare, unfit⟩ :=
      Expr.annotatedArgs a info.line callee.name args
    obtain ⟨role, result, more, resolves, still, faulty⟩ :=
      gives_call (a := a) info.line callee args'
    refine ⟨_, _, Expr.gives_callExpr gives resolves, Expr.gives_callExpr again still, ?_, ?_⟩
    · simp only [Expr.bare, bare]
    · rw [unfit, ← append_ne_nil] at faulty
      exact faulty
  | .name info ref => by
    obtain ⟨role, result, new, resolves, still, faulty⟩ :=
      gives_resolveBy (a := a) info.line ref nameRule_passes
    refine ⟨_, _, Expr.gives_name resolves, Expr.gives_name still, ?_, ?_⟩
    · simp only [Expr.bare]
    · simpa [Expr.info] using faulty
  | .number info value => by
    have gives (info : ExprInfo) : Gives (Expr.number info value).analyze a
        (.number { info with result := .const, scope := some a.scope } value) [] := by
      rw [Expr.analyze]
      exact gives_annotateExpr (gives_pure _)
    exact ⟨_, [], gives info, gives _, by simp only [Expr.bare], by simp [Expr.info]⟩

theorem Expr.annotatedArgs (a : Analyzer) (line : Nat) (callee : String) : (args : List Expr) →
    ∃ args' new,
      Gives (Expr.analyzeArgs line callee args) a
        (args', args'.all (·.info.result.isValue)) new ∧
      Gives (Expr.analyzeArgs line callee args') a
        (args', args'.all (·.info.result.isValue)) new ∧
      Expr.bareAll args' = Expr.bareAll args ∧
      (args'.all (·.info.result.isValue) = false ↔ new ≠ [])
  | [] => by
    have gives : Gives (Expr.analyzeArgs line callee []) a ([], true) [] := by
      rw [Expr.analyzeArgs]
      exact gives_pure _
    exact ⟨[], [], gives, gives, rfl, by simp⟩
  | arg :: args => by
    obtain ⟨arg', new, first⟩ := arg.annotated a
    obtain ⟨more, checks, wrong⟩ := gives_checkArgument (a := a) line callee arg'.info.result
    obtain ⟨args', further, gives, again, bare, unfit⟩ := Expr.annotatedArgs a line callee args
    have whole {arg : Expr} {args : List Expr} (head : Gives arg.analyze a arg' new)
        (tail : Gives (Expr.analyzeArgs line callee args) a
          (args', args'.all (·.info.result.isValue)) further) :
        Gives (Expr.analyzeArgs line callee (arg :: args)) a
          (arg' :: args', (arg' :: args').all (·.info.result.isValue))
          (new ++ (more ++ further)) := by
      rw [Expr.analyzeArgs]
      apply head.bind
      apply checks.bind
      exact tail.andThen (gives_pure _)
    refine ⟨arg' :: args', _, whole first.gives gives, whole first.again again, ?_, ?_⟩
    · simp only [Expr.bareAll, first.bare, bare]
    · rw [first.faulty] at wrong
      rw [List.all_cons, Bool.and_eq_false_iff, wrong, unfit, or_assoc, ← append_ne_nil,
        ← append_ne_nil]

end

/-! ### Statements -/

/-- In the context of `a` the statement is analyzed to `s'`, with the class `result` and the reports
`new`, and so is `s'`. The two differ in their annotations only, and the class is `error` if there
are reports. -/
structure Stmt.AnnotatedAs (a : Analyzer) (s s' : Stmt) (result : Role) (new : List Diagnostic) :
    Prop where
  gives : Gives s.analyze a (s', result) new
  again : Gives s'.analyze a (s', result) new
  bare : s'.bare = s.bare
  faulty : result = .error ↔ new ≠ []

theorem Role.ofOk_eq_error {ok : Bool} : Role.ofOk ok = .error ↔ ok = false := by
  cases ok <;> simp [Role.ofOk]

theorem Role.ofOk_ne_error {result : Role} :
    Role.ofOk (result != .error) = .error ↔ result = .error := by
  rw [Role.ofOk_eq_error, bne_eq_false_iff_eq]

section

variable {info : StmtInfo} {result : Role} {ok thenOk elseOk : Bool}
  {new more further : List Diagnostic}

/-- How an assignment is analyzed, given what the analysis of its value gives. -/
theorem Stmt.gives_assign {target target' : Reference} {value value' : Expr}
    (inner : Gives value.analyze a value' new)
    (resolves : Gives (Analysis.resolveBy info.line target (assignRule value'.info.result)) a
      (target', result) more) :
    Gives (Stmt.assign info target value).analyze a
      (.assign { info with scope := some a.scope } target' value', result) (new ++ more) := by
  rw [Stmt.analyze]
  apply gives_annotateStmt
  apply inner.bind
  rw [Reference.analyzeTarget_eq_resolveBy]
  exact resolves.andThen (gives_pure _)

theorem Stmt.gives_sequence {body body' : List Stmt}
    (inner : Gives (Stmt.analyzeAll body) a (body', ok) new) :
    Gives (Stmt.sequence info body).analyze a
      (.sequence { info with scope := some a.scope } body', .ofOk ok) new := by
  rw [Stmt.analyze]
  apply gives_annotateStmt
  exact inner.andThen (gives_pure _)

/-- How an `if` is analyzed, given what the analysis of its parts gives. -/
theorem Stmt.gives_ifThen {cond cond' : Expr} {thenBranch then' elseBranch else' : Option Stmt}
    (test : Gives cond.analyze a cond' new)
    (inThen : Gives (Stmt.analyzeOption thenBranch) a (then', thenOk) more)
    (inElse : Gives (Stmt.analyzeOption elseBranch) a (else', elseOk) further) :
    Gives (Stmt.ifThen info cond thenBranch elseBranch).analyze a
      (.ifThen { info with scope := some a.scope } cond' then' else',
        .ofOk (cond'.info.result != .error && thenOk && elseOk)) (new ++ (more ++ further)) := by
  rw [Stmt.analyze]
  apply gives_annotateStmt
  apply test.bind
  apply inThen.bind
  exact inElse.andThen (gives_pure _)

/-- How a loop is analyzed; its body is analyzed with one more loop around it. -/
theorem Stmt.gives_whileDo {cond cond' : Expr} {body body' : Option Stmt}
    (test : Gives cond.analyze a cond' new)
    (inner : Gives (Stmt.analyzeOption body) { a with loopDepth := a.loopDepth + 1 } (body', ok)
      more) :
    Gives (Stmt.whileDo info cond body).analyze a
      (.whileDo { info with scope := some a.scope } cond' body',
        .ofOk (cond'.info.result != .error && ok)) (new ++ more) := by
  rw [Stmt.analyze]
  apply gives_annotateStmt
  apply test.bind
  exact (gives_inLoop inner).andThen (gives_pure _)

/-- `break` and `continue` are reported outside of loops. What is carried by the statement has no
part in that. -/
theorem Stmt.gives_control (info : StmtInfo) (exit : LoopExit) :
    ∃ result new, (result = .error ↔ new ≠ []) ∧ ∀ scope,
      Gives (Stmt.control { info with scope } exit).analyze a
        (.control { info with scope := some a.scope } exit, result) new := by
  by_cases outside : a.loopDepth = 0
  · refine ⟨.error,
      [{ stage := .analyzer, line := info.line, message := AnalysisFault.strayLoopExit.message }],
      by simp, fun scope => ?_⟩
    rw [Stmt.analyze]
    apply gives_annotateStmt
    refine gives_get fun earlier => ?_
    rw [if_pos outside]
    exact fun _ => rfl
  · refine ⟨.void, [], by simp, fun scope => ?_⟩
    rw [Stmt.analyze]
    apply gives_annotateStmt
    refine gives_get fun earlier => ?_
    rw [if_neg outside]
    exact gives_pure _

theorem Stmt.gives_callStmt {callee callee' : Reference} {args args' : List Expr}
    (inner : Gives (Expr.analyzeArgs info.line callee.name args) a (args', ok) new)
    (resolves : Gives (callee.analyzeCall info.line args'.length ok) a (callee', result) more) :
    Gives (Stmt.call info callee args).analyze a
      (.call { info with scope := some a.scope } callee' args', .ofOk (result != .error))
      (new ++ more) := by
  rw [Stmt.analyze]
  apply gives_annotateStmt
  apply inner.bind
  exact resolves.andThen (gives_pure _)

theorem Stmt.gives_name {ref ref' : Reference}
    (resolves : Gives (Analysis.resolveBy info.line ref nameRule) a (ref', result) new) :
    Gives (Stmt.name info ref).analyze a
      (.name { info with scope := some a.scope } ref', .ofOk (result != .error)) new := by
  rw [Stmt.analyze]
  apply gives_annotateStmt
  rw [Reference.analyze_eq_resolveBy]
  exact resolves.andThen (gives_pure _)

end

mutual

/-- Every statement is annotated in some way, and annotating it again changes nothing. -/
theorem Stmt.annotated (a : Analyzer) : (s : Stmt) → ∃ s' result new, s.AnnotatedAs a s' result new
  | .assign info target value => by
    obtain ⟨value', new, inner⟩ := value.annotated a
    obtain ⟨role, result, more, resolves, still, faulty⟩ :=
      gives_resolveBy (a := a) info.line target (assignRule_passes value'.info.result)
    refine ⟨_, _, _, Stmt.gives_assign inner.gives resolves, Stmt.gives_assign inner.again still,
      ?_, ?_⟩
    · simp only [Stmt.bare, inner.bare]
    · rwa [inner.faulty, ← append_ne_nil] at faulty
  | .sequence info body => by
    obtain ⟨body', ok, new, gives, again, bare, wrong⟩ := Stmt.annotatedAll a body
    refine ⟨_, _, _, Stmt.gives_sequence gives, Stmt.gives_sequence again, ?_, ?_⟩
    · simp only [Stmt.bare, bare]
    · rw [Role.ofOk_eq_error, wrong]
  | .ifThen info cond thenBranch elseBranch => by
    obtain ⟨cond', new, test⟩ := cond.annotated a
    obtain ⟨then', thenOk, more, inThen, inThen', thenBare, thenWrong⟩ :=
      Stmt.annotatedOption a thenBranch
    obtain ⟨else', elseOk, further, inElse, inElse', elseBare, elseWrong⟩ :=
      Stmt.annotatedOption a elseBranch
    refine ⟨_, _, _, Stmt.gives_ifThen test.gives inThen inElse,
      Stmt.gives_ifThen test.again inThen' inElse', ?_, ?_⟩
    · simp only [Stmt.bare, test.bare, thenBare, elseBare]
    · rw [Role.ofOk_eq_error, Bool.and_eq_false_iff, Bool.and_eq_false_iff, bne_eq_false_iff_eq,
        test.faulty, thenWrong, elseWrong, or_assoc, ← append_ne_nil, ← append_ne_nil]
  | .whileDo info cond body => by
    obtain ⟨cond', new, test⟩ := cond.annotated a
    obtain ⟨body', ok, more, gives, again, bare, wrong⟩ :=
      Stmt.annotatedOption { a with loopDepth := a.loopDepth + 1 } body
    refine ⟨_, _, _, Stmt.gives_whileDo test.gives gives, Stmt.gives_whileDo test.again again,
      ?_, ?_⟩
    · simp only [Stmt.bare, test.bare, bare]
    · rw [Role.ofOk_eq_error, Bool.and_eq_false_iff, bne_eq_false_iff_eq, test.faulty, wrong,
        ← append_ne_nil]
  | .asm info text => by
    have gives (info : StmtInfo) : Gives (Stmt.asm info text).analyze a
        (.asm { info with scope := some a.scope } text, .void) [] := by
      rw [Stmt.analyze]
      exact gives_annotateStmt (gives_pure _)
    exact ⟨_, _, [], gives info, gives _, by simp only [Stmt.bare], by simp⟩
  | .control info exit => by
    obtain ⟨result, new, faulty, gives⟩ := Stmt.gives_control (a := a) info exit
    exact ⟨_, _, _, gives info.scope, gives (some a.scope), by simp only [Stmt.bare], faulty⟩
  | .call info callee args => by
    obtain ⟨args', new, gives, again, bare, unfit⟩ :=
      Expr.annotatedArgs a info.line callee.name args
    obtain ⟨role, result, more, resolves, still, faulty⟩ :=
      gives_call (a := a) info.line callee args'
    refine ⟨_, _, _, Stmt.gives_callStmt gives resolves, Stmt.gives_callStmt again still, ?_, ?_⟩
    · simp only [Stmt.bare, bare]
    · rw [Role.ofOk_ne_error, faulty, unfit, ← append_ne_nil]
  | .name info ref => by
    obtain ⟨role, result, new, resolves, still, faulty⟩ :=
      gives_resolveBy (a := a) info.line ref nameRule_passes
    refine ⟨_, _, _, Stmt.gives_name resolves, Stmt.gives_name still, ?_, ?_⟩
    · simp only [Stmt.bare]
    · rw [Role.ofOk_ne_error, faulty, false_or]

theorem Stmt.annotatedOption (a : Analyzer) : (s : Option Stmt) → ∃ s' ok new,
    Gives (Stmt.analyzeOption s) a (s', ok) new ∧ Gives (Stmt.analyzeOption s') a (s', ok) new ∧
      Stmt.bareOption s' = Stmt.bareOption s ∧ (ok = false ↔ new ≠ [])
  | none => by
    have gives : Gives (Stmt.analyzeOption none) a (none, true) [] := by
      rw [Stmt.analyzeOption]
      exact gives_pure _
    exact ⟨none, true, [], gives, gives, rfl, by simp⟩
  | some s => by
    obtain ⟨s', result, new, inner⟩ := s.annotated a
    have whole {s : Stmt} (gives : Gives s.analyze a (s', result) new) :
        Gives (Stmt.analyzeOption (some s)) a (some s', result != .error) new := by
      rw [Stmt.analyzeOption]
      exact gives.andThen (gives_pure _)
    refine ⟨_, _, _, whole inner.gives, whole inner.again, ?_, ?_⟩
    · simp only [Stmt.bareOption, inner.bare]
    · rw [bne_eq_false_iff_eq, inner.faulty]

theorem Stmt.annotatedAll (a : Analyzer) : (body : List Stmt) → ∃ body' ok new,
    Gives (Stmt.analyzeAll body) a (body', ok) new ∧
      Gives (Stmt.analyzeAll body') a (body', ok) new ∧
      Stmt.bareAll body' = Stmt.bareAll body ∧ (ok = false ↔ new ≠ [])
  | [] => by
    have gives : Gives (Stmt.analyzeAll []) a ([], true) [] := by
      rw [Stmt.analyzeAll]
      exact gives_pure _
    exact ⟨[], true, [], gives, gives, rfl, by simp⟩
  | s :: rest => by
    obtain ⟨s', result, new, first⟩ := s.annotated a
    obtain ⟨rest', ok, more, gives, again, bare, wrong⟩ := Stmt.annotatedAll a rest
    have whole {s : Stmt} {rest : List Stmt} (head : Gives s.analyze a (s', result) new)
        (tail : Gives (Stmt.analyzeAll rest) a (rest', ok) more) :
        Gives (Stmt.analyzeAll (s :: rest)) a (s' :: rest', result != .error && ok)
          (new ++ more) := by
      rw [Stmt.analyzeAll]
      apply head.bind
      exact tail.andThen (gives_pure _)
    refine ⟨_, _, _, whole first.gives gives, whole first.again again, ?_, ?_⟩
    · simp only [Stmt.bareAll, first.bare, bare]
    · rw [Bool.and_eq_false_iff, bne_eq_false_iff_eq, first.faulty, wrong, ← append_ne_nil]

end

/-! ### Declarations -/

/-- What the first table has is in the second one too: its scopes, each inside the same one, and the
names declared in them, each with the same symbol. -/
structure ScopeTable.KeptBy (t t' : ScopeTable) : Prop where
  size : t.size ≤ t'.size
  parent : ∀ i : Nat, i < t.size → t'.parent? i = t.parent? i
  symbol : ∀ {i name symbol}, t.find? i name = some symbol → t'.find? i name = some symbol

namespace ScopeTable

variable {t t' t'' : ScopeTable}

theorem KeptBy.refl (t : ScopeTable) : t.KeptBy t := ⟨Nat.le_refl _, fun _ _ => rfl, id⟩

theorem KeptBy.trans (first : t.KeptBy t') (second : t'.KeptBy t'') : t.KeptBy t'' where
  size := Nat.le_trans first.size second.size
  parent i made :=
    (second.parent i (Nat.lt_of_lt_of_le made first.size)).trans (first.parent i made)
  symbol found := second.symbol (first.symbol found)

/-- A name can be found only in a scope that was made. -/
theorem lt_size_of_find? {i : ScopeId} {name : String} {symbol : Symbol}
    (found : t.find? i name = some symbol) : i < t.size := by
  by_contra beyond
  rw [find?, Array.getElem?_eq_none (Nat.le_of_not_lt beyond)] at found
  cases found

/-- A new scope leaves the others as they are. -/
theorem keptBy_push (t : ScopeTable) (parent : Option ScopeId) : t.KeptBy (t.push parent) where
  size := by rw [size_push]; exact Nat.le_succ _
  parent i made := parent?_congr (push_below t parent made)
  symbol found := (find?_congr (push_below t parent (lt_size_of_find? found)) _).trans found

/-- A new name takes the place of none. -/
theorem keptBy_insert {scope : ScopeId} {name : String} {symbol : Symbol}
    (inserted : t.insert scope name symbol = .ok t') : t.KeptBy t' where
  size := Nat.le_of_eq (size_insert inserted).symm
  parent i _ := parent?_insert inserted i
  symbol {i other _} found := by
    by_cases own : i = scope
    · subst own
      have free := find?_of_insert inserted
      have different : other ≠ name := by
        rintro rfl
        rw [free] at found
        cases found
      rw [find?_insert inserted (lt_size_of_find? found), if_neg different, found]
    · rw [find?_congr (insert_other inserted own), found]

end ScopeTable

/-- From `a` to `a'` reports were only added, and at least one was added just if `fails`. All names
and scopes are kept, and the analysis is back in the scope and the loop it was in. -/
def Analyzer.Accounts (a : Analyzer) (fails : Prop) (a' : Analyzer) : Prop :=
  a.table.KeptBy a'.table ∧ a'.scope = a.scope ∧ a'.loopDepth = a.loopDepth ∧
    ∃ new, a'.diagnostics = a.diagnostics ++ new ∧ (fails ↔ new ≠ [])

namespace Analyzer

variable {a' a'' : Analyzer} {fails others : Prop}

theorem Accounts.refl (a : Analyzer) : a.Accounts False a :=
  ⟨.refl _, rfl, rfl, [], by rw [List.append_nil], by simp⟩

/-- Analysis after analysis: reports were added just if the first or the second added some. -/
theorem Accounts.trans (first : a.Accounts fails a') (second : a'.Accounts others a'') :
    a.Accounts (fails ∨ others) a'' := by
  obtain ⟨kept, scope, depth, new, reports, iff⟩ := first
  obtain ⟨kept', scope', depth', more, reports', iff'⟩ := second
  refine ⟨kept.trans kept', scope'.trans scope, depth'.trans depth, new ++ more, ?_, ?_⟩
  · rw [reports', reports, List.append_assoc]
  · rw [iff, iff', append_ne_nil]

theorem Accounts.congr (accounts : a.Accounts fails a') (same : others ↔ fails) :
    a.Accounts others a' := by
  rwa [propext same]

/-- A new scope is no fault. -/
theorem Accounts.pushed {parent : Option ScopeId}
    (accounts : ({ a with table := a.table.push parent } : Analyzer).Accounts fails a') :
    a.Accounts fails a' :=
  ⟨(a.table.keptBy_push parent).trans accounts.1, accounts.2⟩

end Analyzer

/-- Analysis that declares nothing accounts for its reports. -/
theorem Gives.ensures {α : Type} {x : Analysis α} {r : α} {new : List Diagnostic} {fails : Prop}
    (gives : Gives x a r new) (iff : fails ↔ new ≠ []) :
    Ensures x a fun r' a' => r' = r ∧ a.Accounts fails a' := by
  rw [Ensures, gives a.diagnostics]
  exact ⟨rfl, .refl _, rfl, rfl, new, rfl, iff⟩

/-- A name is refused just if a report is added. -/
theorem accounts_declare (a : Analyzer) (scope : ScopeId) (name : String) (symbol : Symbol)
    (line : Nat) :
    Ensures (declare scope name symbol line) a fun ok a' => a.Accounts (ok = false) a' := by
  rw [Ensures, declare_run]
  cases inserted : a.table.insert scope name symbol with
  | ok table =>
    exact ⟨ScopeTable.keptBy_insert inserted, rfl, rfl, [], (List.append_nil _).symm, by simp⟩
  | error existing => exact ⟨.refl _, rfl, rfl, [_], rfl, by simp⟩

theorem accounts_declareParams (a : Analyzer) (scope : ScopeId) (line : Nat)
    (params : List String) :
    Ensures (declareParams scope line params) a fun ok a' => a.Accounts (ok = false) a' := by
  induction params generalizing a with
  | nil =>
    rw [declareParams]
    exact ensures_pure ((Analyzer.Accounts.refl a).congr (by simp))
  | cons param params ih =>
    rw [declareParams]
    apply (accounts_declare a scope param _ line).bind
    intro ok a₁ first
    apply (ih a₁).bind
    intro restOk a₂ others
    exact ensures_pure ((first.trans others).congr (by rw [Bool.and_eq_false_iff]))

theorem Definition.accounts_analyzeInit (a : Analyzer) (init : Option Expr) :
    Ensures (Definition.analyzeInit init) a fun r a' => r.map Expr.bare = init.map Expr.bare ∧
      a.Accounts (r.map (·.info.result) = some .error) a' := by
  cases init with
  | none => exact ensures_pure ⟨rfl, (Analyzer.Accounts.refl a).congr (by simp)⟩
  | some e =>
    obtain ⟨e', new, inner⟩ := e.annotated a
    apply (inner.gives.ensures inner.faulty).bind
    rintro _ a₁ ⟨rfl, accounts⟩
    refine ensures_pure ⟨congrArg some inner.bare, accounts.congr ?_⟩
    rw [Option.map_some, Option.some_inj]

/-- A definition is faulty just if a report is added, for its initial value or its name. -/
theorem Definition.accounts_analyze (a : Analyzer) (role : Role) (d : Definition) :
    Ensures (d.analyze role) a fun r a' => r.1.bare = d.bare ∧ a.Accounts (r.2 = false) a' := by
  unfold Definition.analyze
  apply (Definition.accounts_analyzeInit a d.init).bind
  rintro init a₁ ⟨bare, first⟩
  rw [Definition.checkInit_eq_settle, bind_assoc]
  obtain ⟨result, new, settles, faulty⟩ :=
    gives_settle (a := a₁) d.line d.name (initRule_passes role (init.map (·.info.result)))
  apply (settles.ensures Iff.rfl).bind
  rintro _ a₂ ⟨rfl, second⟩
  rw [pure_bind]
  apply ensures_currentScope
  apply (accounts_declare a₂ _ d.name _ d.line).bind
  intro declared a₃ third
  refine ensures_pure ⟨?_, ((first.trans second).trans third).congr ?_⟩
  · simp only [Definition.bare, bare]
  · rw [Bool.and_eq_false_iff, bne_eq_false_iff_eq, faulty]

/-- Definitions are faulty just if a report is added for one of them. -/
theorem Definition.accounts_analyzeAll (a : Analyzer) (role : Role) (defs : List Definition) :
    Ensures (Definition.analyzeAll role defs) a fun r a' =>
      r.1.map Definition.bare = defs.map Definition.bare ∧ a.Accounts (r.2 = false) a' := by
  induction defs generalizing a with
  | nil =>
    rw [Definition.analyzeAll]
    exact ensures_pure ⟨rfl, (Analyzer.Accounts.refl a).congr (by simp)⟩
  | cons d rest ih =>
    rw [Definition.analyzeAll]
    apply (d.accounts_analyze a role).bind
    rintro ⟨d', ok⟩ a₁ ⟨bare, first⟩
    apply (ih a₁).bind
    rintro ⟨rest', restOk⟩ a₂ ⟨bares, others⟩
    refine ensures_pure ⟨?_, (first.trans others).congr (by rw [Bool.and_eq_false_iff])⟩
    rw [List.map_cons, List.map_cons, bare, bares]

theorem Decls.accounts_analyze (a : Analyzer) (role : Role) (decls : Decls) :
    Ensures (decls.analyze role) a fun r a' =>
      r.1.bare = decls.bare ∧ a.Accounts (r.2 = .error) a' := by
  unfold Decls.analyze
  apply ensures_currentScope
  apply (Definition.accounts_analyzeAll a role decls.defs).bind
  rintro ⟨defs, ok⟩ a₁ ⟨bares, accounts⟩
  refine ensures_pure ⟨?_, accounts.congr Role.ofOk_eq_error⟩
  simp only [Decls.bare, bares]

theorem Decls.accounts_analyzeOption (a : Analyzer) (role : Role) (decls : Option Decls) :
    Ensures (Decls.analyzeOption role decls) a fun r a' =>
      r.1.map Decls.bare = decls.map Decls.bare ∧ a.Accounts (r.2 = false) a' := by
  cases decls with
  | none => exact ensures_pure ⟨rfl, (Analyzer.Accounts.refl a).congr (by simp)⟩
  | some decls =>
    apply (decls.accounts_analyze a role).bind
    rintro ⟨decls', result⟩ a₁ ⟨bare, accounts⟩
    exact ensures_pure ⟨congrArg some bare, accounts.congr bne_eq_false_iff_eq⟩

/-! ### Routines and blocks -/

/-- Work in another scope, and back. -/
theorem Analyzer.Accounts.inScope {scope : ScopeId} {fails : Prop} {a' : Analyzer}
    (accounts : ({ a with scope } : Analyzer).Accounts fails a') :
    a.Accounts fails { a' with scope := a.scope } :=
  ⟨accounts.1, rfl, accounts.2.2⟩

theorem Stmt.accounts_analyzeOption (a : Analyzer) (s : Option Stmt) :
    Ensures (Stmt.analyzeOption s) a fun r a' =>
      Stmt.bareOption r.1 = Stmt.bareOption s ∧ a.Accounts (r.2 = false) a' := by
  obtain ⟨s', ok, new, gives, -, bare, wrong⟩ := Stmt.annotatedOption a s
  apply (gives.ensures wrong).mono
  rintro _ a' ⟨rfl, accounts⟩
  exact ⟨bare, accounts⟩

mutual

/-- The induction over blocks and routines: a block is faulty just if a report is added for
something in it. -/
theorem Block.accounts_analyzeIn (a : Analyzer) (scope : ScopeId) : (block : Block) →
    Ensures (block.analyzeIn scope) a fun r a' =>
      r.1.bare = block.bare ∧ a.Accounts (r.2 = .error) a'
  | { line, consts, vars, routines, body, .. } => by
    rw [Block.analyzeIn]
    apply ensures_inScope
    apply (Decls.accounts_analyzeOption _ .const consts).bind
    rintro ⟨consts', constsOk⟩ a₁ ⟨inConsts, first⟩
    apply (Decls.accounts_analyzeOption a₁ .var vars).bind
    rintro ⟨vars', varsOk⟩ a₂ ⟨inVars, second⟩
    apply (Block.accounts_analyzeRoutines a₂ routines).bind
    rintro ⟨routines', routinesOk⟩ a₃ ⟨inRoutines, third⟩
    apply (Stmt.accounts_analyzeOption a₃ body).bind
    rintro ⟨body', bodyOk⟩ a₄ ⟨inBody, fourth⟩
    have whole := ((first.trans second).trans third).trans fourth
    refine ensures_pure ⟨?_, whole.inScope.congr ?_⟩
    · simp only [Block.bare, inConsts, inVars, inRoutines, inBody]
    · simp only [Role.ofOk_eq_error, Bool.and_eq_false_iff]

theorem Routine.accounts_analyze (a : Analyzer) : (r : Routine) →
    Ensures r.analyze a fun res a' => res.1.bare = r.bare ∧ a.Accounts (res.2 = .error) a'
  | { line, name, kind := .procedure, block, .. } => by
    rw [Routine.analyze]
    apply ensures_currentScope
    apply (accounts_declare a a.scope name _ line).bind
    intro declared a₁ first
    apply ensures_newScope
    apply (block.accounts_analyzeIn _ _).bind
    rintro ⟨block', result⟩ a₂ ⟨bare, second⟩
    refine ensures_pure ⟨?_, (first.trans second.pushed).congr ?_⟩
    · simp only [Routine.bare, bare]
    · simp only [Role.ofOk_eq_error, Bool.and_eq_false_iff, bne_eq_false_iff_eq]
  | { line, name, kind := .function params, block, .. } => by
    rw [Routine.analyze]
    apply ensures_currentScope
    apply ensures_newScope
    apply (accounts_declare _ _ name _ line).bind
    intro nameOk a₁ first
    apply (accounts_declareParams a₁ _ line params).bind
    intro paramsOk a₂ second
    apply (accounts_declare a₂ a.scope name _ line).bind
    intro declared a₃ third
    apply ensures_newScope
    apply (block.accounts_analyzeIn _ _).bind
    rintro ⟨block', result⟩ a₄ ⟨bare, fourth⟩
    have whole := ((first.pushed.trans second).trans third).trans fourth.pushed
    refine ensures_pure ⟨?_, whole.congr ?_⟩
    · simp only [Routine.bare, bare]
    · simp only [Role.ofOk_eq_error, Bool.and_eq_false_iff, bne_eq_false_iff_eq]

theorem Block.accounts_analyzeRoutines (a : Analyzer) : (rs : List Routine) →
    Ensures (Block.analyzeRoutines rs) a fun r a' =>
      Routine.bareAll r.1 = Routine.bareAll rs ∧ a.Accounts (r.2 = false) a'
  | [] => by
    rw [Block.analyzeRoutines]
    exact ensures_pure ⟨rfl, (Analyzer.Accounts.refl a).congr (by simp)⟩
  | r :: rest => by
    rw [Block.analyzeRoutines]
    apply (r.accounts_analyze a).bind
    rintro ⟨r', result⟩ a₁ ⟨bare, first⟩
    apply (Block.accounts_analyzeRoutines a₁ rest).bind
    rintro ⟨rest', ok⟩ a₂ ⟨bares, others⟩
    refine ensures_pure ⟨?_, (first.trans others).congr ?_⟩
    · simp only [Routine.bareAll, bare, bares]
    · rw [Bool.and_eq_false_iff, bne_eq_false_iff_eq]

end

theorem Block.accounts_analyze (a : Analyzer) (block : Block) :
    Ensures block.analyze a fun r a' => r.1.bare = block.bare ∧ a.Accounts (r.2 = .error) a' := by
  unfold Block.analyze
  apply ensures_currentScope
  apply ensures_newScope
  apply (block.accounts_analyzeIn _ _).mono
  rintro r a' ⟨bare, accounts⟩
  exact ⟨bare, accounts.pushed⟩

/-! ### Programs -/

/-- There are no diagnostics just if the program is classified as being in order. -/
theorem diagnostics_eq_nil_iff (options : Options) (program : Block) :
    (analyzeProgram options program).diagnostics = [] ↔
      ((program.analyzeIn 0).run { table := options.table, scope := 0 }).1.2 ≠ .error := by
  obtain ⟨-, -, -, -, new, reports, iff⟩ :=
    program.accounts_analyzeIn { table := options.table, scope := 0 } 0
  rw [List.nil_append] at reports
  rw [ne_eq, iff, not_not, ← reports]
  rfl

/-- In any context a phrase is classified as faulty just if a fault was reported, nothing that was
there is lost, and an annotated expression or statement is analyzed to itself. So a program is
accepted just if its block is not classified as faulty. -/
theorem analysis_fails_iff_reports (a : Analyzer) :
    (∀ e : Expr, ∃ e' new, e.AnnotatedAs a e' new) ∧
    (∀ s : Stmt, ∃ s' result new, s.AnnotatedAs a s' result new) ∧
    (∀ role (decls : Decls), Ensures (decls.analyze role) a fun r a' =>
      r.1.bare = decls.bare ∧ a.Accounts (r.2 = .error) a') ∧
    (∀ routine : Routine, Ensures routine.analyze a fun r a' =>
      r.1.bare = routine.bare ∧ a.Accounts (r.2 = .error) a') ∧
    (∀ block : Block, Ensures block.analyze a fun r a' =>
      r.1.bare = block.bare ∧ a.Accounts (r.2 = .error) a') ∧
    (∀ scope (block : Block), Ensures (block.analyzeIn scope) a fun r a' =>
      r.1.bare = block.bare ∧ a.Accounts (r.2 = .error) a') ∧
    ∀ options program, (∃ p, analyze options program = .ok p) ↔
      ((program.analyzeIn 0).run { table := options.table, scope := 0 }).1.2 ≠ .error := by
  refine ⟨Expr.annotated a, Stmt.annotated a, Decls.accounts_analyze a, Routine.accounts_analyze a,
    Block.accounts_analyze a, Block.accounts_analyzeIn a, fun options program => ?_⟩
  rw [exists_analyze_iff, ← (analyzeProgram_judged options program).2, diagnostics_eq_nil_iff]

end PlZero
