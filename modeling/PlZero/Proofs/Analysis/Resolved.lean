import PlZero.Proofs.Analysis.Refinement
import PlZero.Proofs.Analysis.Scoping
import PlZero.Proofs.Parser.Shape
import PlZero.Pipeline

/-!
What a program without faults looks like. A tree is resolved in a name map if every name it uses
stands for the role recorded beside it, is of use in that place and, if it is called, takes as many
arguments as there are. The names that one block declares are distinct, and so are the name and the
parameters of a function.

Main statements: the tree of an accepted program is resolved (`AnalyzedProgram.resolved_of_check`)
and so, the roles being all that lowering reads, well scoped (`AnalyzedProgram.scoped_of_check`).
-/

namespace PlZero

open Lexical

/-! ### Resolved trees -/

/-- The name stands for the role recorded beside it and, if that is called, takes `count`
arguments. -/
def Reference.Takes (names : NameMap) (ref : Reference) (count : Nat) : Prop :=
  ∃ symbol, names ref.name = some symbol ∧ symbol.role = ref.role ∧
    (ref.role.isCallable = true → symbol.arity = count)

/-- A resolved expression that yields a value. -/
inductive Expr.Resolved (names : NameMap) : Expr → Prop where
  | odd {info : ExprInfo} {operand : Expr} :
      Resolved names operand → Resolved names (.odd info operand)
  | binary {info : ExprInfo} {op : BinaryOp} {lhs rhs : Expr} :
      Resolved names lhs → Resolved names rhs → Resolved names (.binary info op lhs rhs)
  | call {info : ExprInfo} {callee : Reference} {args : List Expr} :
      callee.Takes names args.length → callee.role.isCallable = true →
      (∀ e ∈ args, Resolved names e) → Resolved names (.call info callee args)
  | name {info : ExprInfo} {ref : Reference} :
      ref.Takes names 0 → ref.role.yieldsValue = true → Resolved names (.name info ref)
  | number {info : ExprInfo} {value : Int32} : Resolved names (.number info value)

/-- A resolved statement, which stands in a loop or not. -/
inductive Stmt.Resolved (names : NameMap) : Bool → Stmt → Prop where
  | assign {inLoop : Bool} {info : StmtInfo} {target : Reference} {value : Expr} {count : Nat} :
      target.Takes names count → target.role.isAssignable = true → value.Resolved names →
      Resolved names inLoop (.assign info target value)
  | sequence {inLoop : Bool} {info : StmtInfo} {body : List Stmt} :
      (∀ s ∈ body, Resolved names inLoop s) → Resolved names inLoop (.sequence info body)
  | ifThen {inLoop : Bool} {info : StmtInfo} {cond : Expr} {thenBranch elseBranch : Option Stmt} :
      cond.Resolved names → (∀ s ∈ thenBranch, Resolved names inLoop s) →
      (∀ s ∈ elseBranch, Resolved names inLoop s) →
      Resolved names inLoop (.ifThen info cond thenBranch elseBranch)
  | whileDo {inLoop : Bool} {info : StmtInfo} {cond : Expr} {body : Option Stmt} :
      cond.Resolved names → (∀ s ∈ body, Resolved names true s) →
      Resolved names inLoop (.whileDo info cond body)
  | asm {inLoop : Bool} {info : StmtInfo} {text : String} :
      Resolved names inLoop (.asm info text)
  | control {info : StmtInfo} {exit : LoopExit} : Resolved names true (.control info exit)
  | call {inLoop : Bool} {info : StmtInfo} {callee : Reference} {args : List Expr} :
      callee.Takes names args.length → callee.role.isCallable = true →
      (∀ e ∈ args, e.Resolved names) → Resolved names inLoop (.call info callee args)
  | name {inLoop : Bool} {info : StmtInfo} {ref : Reference} :
      ref.Takes names 0 → (ref.role = .proc ∨ ref.role.yieldsValue = true) →
      Resolved names inLoop (.name info ref)

def Definition.symbols (role : Role) (defs : List Definition) : List (String × Symbol) :=
  defs.map fun d => (d.name, { role })

/-- Resolved definitions of the given role: each sees those before it, and a constant has a
value. -/
def Definition.Resolved (role : Role) (names : NameMap) : List Definition → Prop
  | [] => True
  | d :: rest => (role = .const → d.init.isSome = true) ∧ (∀ e ∈ d.init, e.Resolved names) ∧
      Definition.Resolved role (declareAll names [(d.name, { role })]) rest

/-- What the name of a routine stands for behind its declaration. -/
def RoutineKind.symbol : RoutineKind → Symbol
  | .procedure => { role := .proc }
  | .function params => { role := .func, arity := params.length }

def Routine.symbols (routines : List Routine) : List (String × Symbol) :=
  routines.map fun r => (r.name, r.kind.symbol)

/-- What the name and the parameters of a routine stand for in its own block. -/
def RoutineKind.symbolsInside (name : String) : RoutineKind → List (String × Symbol)
  | .procedure => [(name, { role := .proc })]
  | .function params =>
    (name, { role := .ret, arity := params.length }) ::
      params.map fun param => (param, { role := .var })

def Block.symbols (block : Block) : List (String × Symbol) :=
  Definition.symbols .const (Decls.definitions block.consts) ++
    Definition.symbols .var (Decls.definitions block.vars) ++ Routine.symbols block.routines

mutual

def Block.Resolved (names : NameMap) : Block → Prop
  | { consts, vars, routines, body, .. } =>
    let constants := Definition.symbols .const (Decls.definitions consts)
    let values := constants ++ Definition.symbols .var (Decls.definitions vars)
    let all := values ++ Routine.symbols routines
    (all.map Prod.fst).Nodup ∧
      Definition.Resolved .const names (Decls.definitions consts) ∧
      Definition.Resolved .var (declareAll names constants) (Decls.definitions vars) ∧
      Routine.ResolvedAll (declareAll names values) routines ∧
      ∀ s ∈ body, s.Resolved (declareAll names all) false

/-- A resolved routine. Its parameters are distinct from each other and from its name. -/
def Routine.Resolved (names : NameMap) : Routine → Prop
  | { name, kind, block, .. } =>
    ((kind.symbolsInside name).map Prod.fst).Nodup ∧
      block.Resolved (declareAll names (kind.symbolsInside name))

/-- Resolved routines: each sees those before it. -/
def Routine.ResolvedAll (names : NameMap) : List Routine → Prop
  | [] => True
  | r :: rest =>
    r.Resolved names ∧ Routine.ResolvedAll (declareAll names [(r.name, r.kind.symbol)]) rest

end

/-- A resolved block declares no name twice. -/
theorem Block.Resolved.nodup_symbols {block : Block} {names : NameMap}
    (resolved : block.Resolved names) : (block.symbols.map Prod.fst).Nodup := by
  obtain ⟨line, consts, vars, routines, body, scope⟩ := block
  rw [Block.Resolved] at resolved
  exact resolved.1

/-! ### Judgements without faults -/

namespace Lexical

variable {s : Stack} {line : Nat} {ident : Option String} {role result : Role}

/-- Where no fault is noted the rule accepts. -/
theorem settle_of_clean {rule : Except AnalysisFault Role}
    (clean : (settle line ident rule).faults = []) :
    rule = .ok (settle line ident rule).value := by
  cases rule with
  | ok result => rfl
  | error fault => cases clean

theorem demand_eq_ok {fault : AnalysisFault} (accepts : demand fault role = .ok result) :
    result = role ∧ (role = .error ∨ role.isValue = true) := by
  cases role with
  | error => exact ⟨(Except.ok.inj accepts).symm, .inl rfl⟩
  | const | var => exact ⟨(Except.ok.inj accepts).symm, .inr rfl⟩
  | proc | func | ret | void => cases accepts

/-- A name that is used without fault stands for something, and the rule accepts it. -/
theorem Stack.resolve_of_clean {ref : Reference} {rule : Symbol → Except AnalysisFault Role}
    (clean : (s.resolve line ref rule).faults = []) :
    ∃ symbol, s.lookup? ref.name = some symbol ∧
      rule symbol = .ok (s.resolve line ref rule).value.2 ∧
      (s.resolve line ref rule).value.1 = { ref with role := symbol.role } := by
  unfold Stack.resolve at clean ⊢
  cases found : s.lookup? ref.name with
  | none =>
    rw [found] at clean
    cases clean
  | some symbol =>
    rw [found] at clean
    have settled : (settle line ref.name (rule symbol)).faults = [] :=
      (List.append_eq_nil_iff.mp clean).1
    exact ⟨symbol, rfl, settle_of_clean settled, rfl⟩

/-- A bare name that is accepted runs a procedure or yields a value, and takes no arguments. -/
theorem nameRule_eq_ok {symbol : Symbol} (accepts : nameRule symbol = .ok result) :
    (symbol.role.isCallable = true → symbol.arity = 0) ∧
      (symbol.role = .proc ∧ result = .void ∨
        symbol.role.yieldsValue = true ∧ result.isValue = true) := by
  obtain ⟨role, arity⟩ := symbol
  cases role with
  | const | var =>
    cases accepts
    exact ⟨nofun, .inr ⟨rfl, rfl⟩⟩
  | proc =>
    cases accepts
    exact ⟨nofun, .inl ⟨rfl, rfl⟩⟩
  | func | ret =>
    rw [nameRule] at accepts
    dsimp only at accepts
    split at accepts
    · next none =>
      cases accepts
      exact ⟨fun _ => none, .inr ⟨rfl, rfl⟩⟩
    · cases accepts
  | error | void => cases accepts

/-- A call that is accepted is one of a routine, with as many arguments as that takes. -/
theorem callRule_eq_ok {symbol : Symbol} {args : List Role}
    (accepts : callRule args symbol = .ok result) :
    symbol.role.isCallable = true ∧ symbol.arity = args.length ∧
      (args.all Role.isValue = true → result = .var) := by
  unfold callRule at accepts
  split at accepts
  · cases accepts
  · next callable =>
    split at accepts
    · cases accepts
    · next fits =>
      cases accepts
      refine ⟨?_, not_not.mp fits, fun values => if_pos values⟩
      rw [not_and_or, not_not, not_not] at callable
      rcases callable with same | same <;> rw [same] <;> rfl

/-- An assignment that is accepted has a target that can be assigned. -/
theorem assignRule_eq_ok {symbol : Symbol} {value : Role}
    (accepts : assignRule value symbol = .ok result) :
    symbol.role.isAssignable = true ∧ (value = .error ∨ value.isValue = true) := by
  unfold assignRule at accepts
  split at accepts
  · next assignable =>
    refine ⟨?_, ?_⟩
    · rcases assignable with h | h <;> rw [h] <;> rfl
    · cases demanded : demand .invalidAssignment value with
      | ok value' => exact (demand_eq_ok demanded).2
      | error fault =>
        rw [demanded] at accepts
        cases accepts
  · cases accepts

/-- An operation that is accepted has two values. -/
theorem binaryRule_eq_ok {lhs rhs : Role} (accepts : binaryRule lhs rhs = .ok result)
    (left : lhs ≠ .error) (right : rhs ≠ .error) :
    lhs.isValue = true ∧ rhs.isValue = true ∧ result.isValue = true := by
  cases lhs <;> cases rhs <;> simp_all [binaryRule, demand, bind, Except.bind, pure, Except.pure] <;>
    cases accepts <;> simp [Role.isValue]

end Lexical

variable {s : Stack}

/-! ### Expressions -/

/-- The judged expression yields a value and is resolved. -/
def Expr.Valued (s : Stack) (e : Expr) : Prop :=
  e.info.result.isValue = true ∧ e.Resolved s.lookup?

theorem Role.ne_error {role : Role} (value : role.isValue = true) : role ≠ .error := by
  rintro rfl
  cases value

/-- An expression of which a value is wanted. -/
theorem Expr.Valued.of_demand {e : Expr} (known : e.Valued s ∨ e.info.result = .void)
    (wanted : e.info.result = .error ∨ e.info.result.isValue = true) : e.Valued s := by
  rcases known with valued | isVoid
  · exact valued
  · rw [isVoid] at wanted
    rcases wanted with h | h <;> cases h

/-- A call without faults takes its arguments. -/
theorem Stack.takes_of_call {line : Nat} {callee : Reference} {args : List Expr}
    (clean : (s.resolve line callee (callRule (args.map (·.info.result)))).faults = []) :
    let resolved := (s.resolve line callee (callRule (args.map (·.info.result)))).value
    resolved.1.Takes s.lookup? args.length ∧ resolved.1.role.isCallable = true ∧
      ((∀ e ∈ args, e.Valued s) → resolved.2 = .var) := by
  obtain ⟨symbol, found, accepts, same⟩ := Stack.resolve_of_clean clean
  obtain ⟨callable, fits, result⟩ := callRule_eq_ok accepts
  dsimp only
  rw [same]
  rw [List.length_map] at fits
  refine ⟨⟨symbol, found, rfl, fun _ => fits⟩, callable, fun valued => result ?_⟩
  rw [List.all_eq_true]
  intro role mem
  obtain ⟨e, isArg, rfl⟩ := List.mem_map.mp mem
  exact (valued e isArg).1

/-- A bare name without faults takes none. -/
theorem Stack.takes_of_name {line : Nat} {ref : Reference}
    (clean : (s.resolve line ref nameRule).faults = []) :
    let resolved := (s.resolve line ref nameRule).value
    resolved.1.Takes s.lookup? 0 ∧ (resolved.1.role = .proc ∧ resolved.2 = .void ∨
      resolved.1.role.yieldsValue = true ∧ resolved.2.isValue = true) := by
  obtain ⟨symbol, found, accepts, same⟩ := Stack.resolve_of_clean clean
  obtain ⟨fits, kind⟩ := nameRule_eq_ok accepts
  dsimp only
  rw [same]
  exact ⟨⟨symbol, found, rfl, fits⟩, kind⟩

mutual

/-- An expression without faults is resolved, unless it is the bare name of a procedure. -/
theorem Expr.resolved_judge : (e : Expr) → (e.judge s).faults = [] →
    (e.judge s).value.Valued s ∨ (e.judge s).value.info.result = .void ∧ ¬ e.IsTest
  | .odd info operand, clean => by
    rw [Expr.judge] at clean ⊢
    simp only [faults_bind, faults_pure, List.append_eq_nil_iff, and_true] at clean
    obtain ⟨cleanOperand, settled⟩ := clean
    have accepts := settle_of_clean settled
    obtain ⟨same, wanted⟩ := demand_eq_ok accepts
    have known := (operand.resolved_judge cleanOperand).imp_right And.left
    have valued := Expr.Valued.of_demand known wanted
    have isValue := (congrArg Role.isValue same).trans valued.1
    exact .inl ⟨isValue, .odd valued.2⟩
  | .binary info op lhs rhs, clean => by
    rw [Expr.judge] at clean ⊢
    simp only [faults_bind, faults_pure, List.append_eq_nil_iff, and_true] at clean
    obtain ⟨cleanLeft, cleanRight, settled⟩ := clean
    have left := (lhs.resolved_judge cleanLeft).imp_right And.left
    have right := (rhs.resolved_judge cleanRight).imp_right And.left
    have accepts := settle_of_clean settled
    have notError {e : Expr} (known : e.Valued s ∨ e.info.result = .void) :
        e.info.result ≠ .error := by
      rcases known with valued | isVoid
      · exact Role.ne_error valued.1
      · rw [isVoid]
        nofun
    obtain ⟨isLeft, isRight, isResult⟩ :=
      binaryRule_eq_ok accepts (notError left) (notError right)
    have leftValued := Expr.Valued.of_demand left (.inr isLeft)
    have rightValued := Expr.Valued.of_demand right (.inr isRight)
    exact .inl ⟨isResult, .binary leftValued.2 rightValued.2⟩
  | .call info callee args, clean => by
    rw [Expr.judge] at clean ⊢
    simp only [faults_bind, faults_pure, List.append_eq_nil_iff, and_true] at clean
    obtain ⟨cleanArgs, resolved⟩ := clean
    have valued := Expr.resolved_judgeArgs args cleanArgs
    obtain ⟨takes, callable, result⟩ := Stack.takes_of_call resolved
    have isValue := congrArg Role.isValue (result valued)
    exact .inl ⟨isValue, .call takes callable fun e mem => (valued e mem).2⟩
  | .name info ref, clean => by
    rw [Expr.judge] at clean ⊢
    simp only [faults_bind, faults_pure, List.append_eq_nil_iff, and_true] at clean
    obtain ⟨takes, ⟨_, isVoid⟩ | ⟨yields, isValue⟩⟩ := Stack.takes_of_name clean
    · exact .inr ⟨isVoid, nofun⟩
    · exact .inl ⟨isValue, .name takes yields⟩
  | .number info value, clean => by
    rw [Expr.judge]
    exact .inl ⟨rfl, .number⟩

/-- Arguments without faults yield values. -/
theorem Expr.resolved_judgeArgs {line : Nat} {callee : String} : (args : List Expr) →
    (Expr.judgeArgs s line callee args).faults = [] →
    ∀ e ∈ (Expr.judgeArgs s line callee args).value, e.Valued s
  | [], _ => by
    rw [Expr.judgeArgs]
    nofun
  | arg :: args, clean => by
    rw [Expr.judgeArgs] at clean ⊢
    simp only [faults_bind, faults_pure, List.append_eq_nil_iff, and_true] at clean
    obtain ⟨cleanArg, settled, cleanArgs⟩ := clean
    have wanted := (demand_eq_ok (settle_of_clean settled)).2
    have known := (arg.resolved_judge cleanArg).imp_right And.left
    exact List.forall_mem_cons.mpr
      ⟨Expr.Valued.of_demand known wanted, Expr.resolved_judgeArgs args cleanArgs⟩

end

/-! ### Statements -/

/-- A condition without faults is resolved. -/
theorem Expr.resolved_judge_test {e : Expr} (isTest : e.IsTest) (clean : (e.judge s).faults = []) :
    (e.judge s).value.Resolved s.lookup? := by
  rcases e.resolved_judge clean with valued | ⟨_, isName⟩
  · exact valued.2
  · exact absurd isTest isName

mutual

/-- A statement without faults is resolved. -/
theorem Stmt.resolved_judge {inLoop : Bool} : (stmt : Stmt) → stmt.Tested →
    (stmt.judge s inLoop).faults = [] → (stmt.judge s inLoop).value.Resolved s.lookup? inLoop
  | .assign info target value, _, clean => by
    rw [Stmt.judge] at clean ⊢
    simp only [faults_bind, faults_pure, List.append_eq_nil_iff, and_true] at clean
    obtain ⟨cleanValue, resolved⟩ := clean
    obtain ⟨symbol, found, accepts, same⟩ := Stack.resolve_of_clean resolved
    obtain ⟨assignable, wanted⟩ := assignRule_eq_ok accepts
    have known := (value.resolved_judge cleanValue).imp_right And.left
    have valued := Expr.Valued.of_demand known wanted
    have takes : Reference.Takes s.lookup? { target with role := symbol.role } symbol.arity :=
      ⟨symbol, found, rfl, fun _ => rfl⟩
    simp only [value_bind, value_pure, same]
    exact .assign takes assignable valued.2
  | .sequence info body, tested, clean => by
    rw [Stmt.judge] at clean ⊢
    simp only [faults_bind, faults_pure, List.append_nil] at clean
    cases tested with
    | sequence each => exact .sequence (Stmt.resolved_judgeAll body each clean)
  | .ifThen info cond thenBranch elseBranch, tested, clean => by
    rw [Stmt.judge] at clean ⊢
    simp only [faults_bind, faults_pure, List.append_eq_nil_iff, and_true] at clean
    obtain ⟨cleanCond, cleanThen, cleanElse⟩ := clean
    cases tested with
    | ifThen isTest inThen inElse =>
      exact .ifThen (Expr.resolved_judge_test isTest cleanCond)
        (Stmt.resolved_judgeOption thenBranch inThen cleanThen)
        (Stmt.resolved_judgeOption elseBranch inElse cleanElse)
  | .whileDo info cond body, tested, clean => by
    rw [Stmt.judge] at clean ⊢
    simp only [faults_bind, faults_pure, List.append_eq_nil_iff, and_true] at clean
    obtain ⟨cleanCond, cleanBody⟩ := clean
    cases tested with
    | whileDo isTest inBody =>
      exact .whileDo (Expr.resolved_judge_test isTest cleanCond)
        (Stmt.resolved_judgeOption body inBody cleanBody)
  | .asm info text, _, _ => by
    rw [Stmt.judge]
    exact .asm
  | .control info exit, _, clean => by
    rw [Stmt.judge] at clean ⊢
    cases inLoop with
    | false => cases clean
    | true => exact .control
  | .call info callee args, _, clean => by
    rw [Stmt.judge] at clean ⊢
    simp only [faults_bind, faults_pure, List.append_eq_nil_iff, and_true] at clean
    obtain ⟨cleanArgs, resolved⟩ := clean
    have valued := Expr.resolved_judgeArgs args cleanArgs
    obtain ⟨takes, callable, _⟩ := Stack.takes_of_call resolved
    exact .call takes callable fun e mem => (valued e mem).2
  | .name info ref, _, clean => by
    rw [Stmt.judge] at clean ⊢
    simp only [faults_bind, faults_pure, List.append_eq_nil_iff, and_true] at clean
    obtain ⟨takes, kind⟩ := Stack.takes_of_name clean
    exact .name takes (kind.imp And.left And.left)

theorem Stmt.resolved_judgeOption {inLoop : Bool} : (stmt : Option Stmt) →
    (∀ t ∈ stmt, t.Tested) → (Stmt.judgeOption s inLoop stmt).faults = [] →
    ∀ t ∈ (Stmt.judgeOption s inLoop stmt).value, t.Resolved s.lookup? inLoop
  | none, _, _ => by
    rw [Stmt.judgeOption]
    nofun
  | some stmt, tested, clean => by
    rw [Stmt.judgeOption] at clean ⊢
    simp only [faults_bind, faults_pure, List.append_nil] at clean
    have resolved := stmt.resolved_judge (tested stmt rfl) clean
    rintro _ ⟨⟩
    exact resolved

theorem Stmt.resolved_judgeAll {inLoop : Bool} : (body : List Stmt) → (∀ t ∈ body, t.Tested) →
    (Stmt.judgeAll s inLoop body).faults = [] →
    ∀ t ∈ (Stmt.judgeAll s inLoop body).value, t.Resolved s.lookup? inLoop
  | [], _, _ => by
    rw [Stmt.judgeAll]
    nofun
  | stmt :: rest, tested, clean => by
    rw [Stmt.judgeAll] at clean ⊢
    simp only [faults_bind, faults_pure, List.append_eq_nil_iff, and_true] at clean
    obtain ⟨first, others⟩ := List.forall_mem_cons.mp tested
    exact List.forall_mem_cons.mpr
      ⟨stmt.resolved_judge first clean.1, Stmt.resolved_judgeAll rest others clean.2⟩

end

/-! ### Declarations without faults -/

namespace Lexical.Stack

/-- A map on top comes first. -/
theorem lookup?_push (s : Stack) (map : NameMap) (name : String) :
    (s.push map).lookup? name = (map name).or (s.lookup? name) := lookup?_eq_or _ _

/-- `s'` is `s` behind declarations of distinct names that were free in the innermost map. -/
structure Declares (s s' : Stack) (entries : List (String × Symbol)) : Prop where
  inner : s'.inner = declareAll s.inner entries
  outer : s'.outer = s.outer
  nodup : (entries.map Prod.fst).Nodup
  free : ∀ name ∈ entries.map Prod.fst, s.inner name = none

variable {s' s'' : Stack} {line : Nat} {name : String} {symbol : Symbol}
  {entries others : List (String × Symbol)}

theorem Declares.refl (s : Stack) : Declares s s [] := ⟨rfl, rfl, .nil, nofun⟩

/-- Declarations behind declarations: the names of the second are none of those of the first. -/
theorem Declares.trans (first : Declares s s' entries) (second : Declares s' s'' others) :
    Declares s s'' (entries ++ others) := by
  have apart : ∀ name ∈ others.map Prod.fst, name ∉ entries.map Prod.fst := by
    intro name mem isEntry
    have taken := isSome_declareAll s.inner isEntry
    rw [← first.inner, second.free name mem] at taken
    cases taken
  constructor
  · rw [second.inner, first.inner, declareAll_append]
  · exact second.outer.trans first.outer
  · rw [List.map_append, List.nodup_append']
    exact ⟨first.nodup, second.nodup, fun name mem mem' => apart name mem' mem⟩
  · intro name mem
    rw [List.map_append, List.mem_append] at mem
    rcases mem with mem | mem
    · exact first.free name mem
    · have free := second.free name mem
      rwa [first.inner, declareAll_of_not_mem (apart name mem)] at free

/-- Behind declarations of distinct names each stands for what it was declared as. -/
theorem Declares.lookup? (declares : Declares s s' entries) :
    s'.lookup? = declareAll s.lookup? entries := by
  have before : s.lookup? = fun name => (s.inner name).or (s.outer.findSome? (· name)) :=
    funext (lookup?_eq_or s)
  funext name
  rw [lookup?_eq_or, declares.inner, declares.outer, declareAll_or _ _ (fun name =>
    s.outer.findSome? (· name)), before]

/-- A name that is declared without fault was free. -/
theorem declares_of_clean (clean : (s.declare line name symbol).faults = []) :
    Declares s (s.declare line name symbol).value [(name, symbol)] := by
  cases known : s.inner name with
  | some found =>
    rw [declare, known] at clean
    cases clean
  | none =>
    rw [declare_of_free known]
    exact ⟨rfl, rfl, List.nodup_singleton _, List.forall_mem_singleton.mpr known⟩

theorem declares_params {params : List String} (clean : (declareParams line s params).faults = []) :
    Declares s (declareParams line s params).value
      (params.map fun param => (param, { role := .var })) := by
  induction params generalizing s with
  | nil => exact .refl s
  | cons param params ih =>
    rw [declareParams, faults_bind, List.append_eq_nil_iff] at clean
    exact (declares_of_clean clean.1).trans (ih clean.2)

end Lexical.Stack

theorem Lexical.initRule_eq_ok {role result : Role} {init : Option Role}
    (accepts : initRule role init = .ok result) :
    (role = .const → init.isSome = true) ∧ ∀ r ∈ init, r = .error ∨ r.isValue = true := by
  cases init with
  | none =>
    refine ⟨?_, nofun⟩
    rintro rfl
    cases accepts
  | some init =>
    refine ⟨fun _ => rfl, ?_⟩
    rintro _ ⟨⟩
    unfold initRule at accepts
    dsimp only at accepts
    split at accepts
    · exact (demand_eq_ok accepts).2
    · split at accepts
      · next known =>
        rcases known with rfl | rfl
        · exact .inr rfl
        · exact .inl rfl
      · cases accepts

/-- An initial value without faults is resolved where the names before it are declared. -/
theorem Definition.resolved_judgeInit {init : Option Expr}
    (clean : (Definition.judgeInit s init).faults = [])
    (wanted : ∀ r ∈ (Definition.judgeInit s init).value.map (·.info.result),
      r = .error ∨ r.isValue = true) :
    ∀ e ∈ (Definition.judgeInit s init).value, e.Resolved s.lookup? := by
  cases init with
  | none => nofun
  | some e =>
    rw [Definition.judgeInit] at clean wanted ⊢
    simp only [faults_bind, faults_pure, List.append_nil] at clean
    have known := (e.resolved_judge clean).imp_right And.left
    have valued := Expr.Valued.of_demand known (wanted _ rfl)
    rintro _ ⟨⟩
    exact valued.2

/-- A definition without faults. -/
theorem Definition.resolved_judge {role : Role} {d : Definition}
    (clean : (d.judge role s).faults = []) :
    let judged := (d.judge role s).value
    s.Declares judged.1 [(judged.2.name, { role })] ∧
      (role = .const → judged.2.init.isSome = true) ∧
      ∀ e ∈ judged.2.init, e.Resolved s.lookup? := by
  rw [Definition.judge] at clean ⊢
  simp only [faults_bind, faults_pure, List.append_eq_nil_iff, and_true] at clean
  obtain ⟨cleanInit, settled, declared⟩ := clean
  obtain ⟨present, wanted⟩ := initRule_eq_ok (settle_of_clean settled)
  refine ⟨Stack.declares_of_clean declared, ?_, Definition.resolved_judgeInit cleanInit wanted⟩
  intro isConst
  have isSome := present isConst
  rwa [Option.isSome_map] at isSome

/-- Definitions without faults are resolved, each among those before it. -/
theorem Definition.resolved_judgeAll {role : Role} {defs : List Definition}
    (clean : (Definition.judgeAll role s defs).faults = []) :
    let judged := (Definition.judgeAll role s defs).value
    s.Declares judged.1 (Definition.symbols role judged.2) ∧
      Definition.Resolved role s.lookup? judged.2 := by
  induction defs generalizing s with
  | nil => exact ⟨.refl s, trivial⟩
  | cons d rest ih =>
    rw [Definition.judgeAll] at clean ⊢
    simp only [faults_bind, faults_pure, List.append_eq_nil_iff, and_true] at clean
    obtain ⟨declared, present, init⟩ := Definition.resolved_judge clean.1
    obtain ⟨others, resolved⟩ := ih clean.2
    rw [declared.lookup?] at resolved
    exact ⟨declared.trans others, present, init, resolved⟩

/-- A section without faults. -/
theorem Decls.resolved_judge {role : Role} {decls : Option Decls}
    (clean : (Decls.judge role s decls).faults = []) :
    let judged := (Decls.judge role s decls).value
    s.Declares judged.1 (Definition.symbols role (Decls.definitions judged.2)) ∧
      Definition.Resolved role s.lookup? (Decls.definitions judged.2) := by
  cases decls with
  | none => exact ⟨.refl s, trivial⟩
  | some decls =>
    rw [Decls.judge] at clean ⊢
    simp only [faults_bind, faults_pure, List.append_nil] at clean
    exact Definition.resolved_judgeAll clean

/-! ### Routines and blocks -/

/-- A routine that is declared without faults. -/
theorem RoutineKind.declares_enter {line : Nat} {name : String} {kind : RoutineKind}
    (clean : (kind.enter s line name).faults = []) :
    let entered := (kind.enter s line name).value
    s.Declares entered.2 [(name, kind.symbol)] ∧
      ((kind.symbolsInside name).map Prod.fst).Nodup ∧
      entered.1.lookup? = declareAll s.lookup? (kind.symbolsInside name) := by
  cases kind with
  | procedure =>
    rw [RoutineKind.enter] at clean ⊢
    simp only [faults_bind, faults_pure, List.append_nil] at clean
    have declared := Stack.declares_of_clean clean
    refine ⟨declared, declared.nodup, ?_⟩
    simp only [value_bind, value_pure, Stack.lookup?_push_empty]
    exact declared.lookup?
  | function params =>
    rw [RoutineKind.enter] at clean ⊢
    simp only [faults_bind, faults_pure, List.append_eq_nil_iff, and_true] at clean
    obtain ⟨cleanOwn, cleanParams, cleanName⟩ := clean
    have own := (Stack.declares_of_clean cleanOwn).trans (Stack.declares_params cleanParams)
    have declared := Stack.declares_of_clean cleanName
    refine ⟨declared, own.nodup, ?_⟩
    simp only [value_bind, value_pure, Stack.lookup?_push_empty]
    -- The scope of the parameters stands over that of the function, whose name it hides.
    funext other
    rw [Stack.lookup?_push, own.inner, declareAll_or, declared.lookup?]
    exact congrFun (congrArg (declareAll · _) (Function.update_idem _ _ _)) other

mutual

/-- A block without faults is resolved, and what it declares was free before it. -/
theorem Block.resolved_judge {s : Stack} : (block : Block) → block.Tested →
    (block.judge s).faults = [] →
    (block.judge s).value.Resolved s.lookup? ∧
      ∀ name ∈ (block.judge s).value.symbols.map Prod.fst, s.inner name = none
  | { line, consts, vars, routines, body, scope }, tested, clean => by
    rw [Block.judge] at clean ⊢
    simp only [faults_bind, faults_pure, List.append_eq_nil_iff, and_true] at clean
    obtain ⟨cleanConsts, cleanVars, cleanRoutines, cleanBody⟩ := clean
    cases tested with
    | intro inRoutines inBody =>
      obtain ⟨declared₁, resolved₁⟩ := Decls.resolved_judge cleanConsts
      obtain ⟨declared₂, resolved₂⟩ := Decls.resolved_judge cleanVars
      obtain ⟨declared₃, resolved₃⟩ := Routine.resolved_judgeAll routines inRoutines cleanRoutines
      have resolved₄ := Stmt.resolved_judgeOption body inBody cleanBody
      have values := declared₁.trans declared₂
      have all := values.trans declared₃
      rw [declared₁.lookup?] at resolved₂
      rw [values.lookup?] at resolved₃
      rw [all.lookup?] at resolved₄
      refine ⟨?_, all.free⟩
      simp only [value_bind, value_pure]
      rw [Block.Resolved]
      exact ⟨all.nodup, resolved₁, resolved₂, resolved₃, resolved₄⟩

/-- A routine without faults is resolved, and declared. -/
theorem Routine.resolved_judge {s : Stack} : (r : Routine) → r.block.Tested →
    (r.judge s).faults = [] →
    s.Declares (r.judge s).value.1 [((r.judge s).value.2.name, (r.judge s).value.2.kind.symbol)] ∧
      (r.judge s).value.2.Resolved s.lookup?
  | { line, name, kind, block, scope }, tested, clean => by
    rw [Routine.judge] at clean ⊢
    simp only [faults_bind, faults_pure, List.append_eq_nil_iff, and_true] at clean
    obtain ⟨declared, nodup, inside⟩ := RoutineKind.declares_enter clean.1
    have resolved := (Block.resolved_judge block tested clean.2).1
    rw [inside] at resolved
    refine ⟨declared, ?_⟩
    simp only [value_bind, value_pure]
    rw [Routine.Resolved]
    exact ⟨nodup, resolved⟩

theorem Routine.resolved_judgeAll {s : Stack} : (rs : List Routine) →
    (∀ r ∈ rs, r.block.Tested) → (Routine.judgeAll s rs).faults = [] →
    s.Declares (Routine.judgeAll s rs).value.1
        (Routine.symbols (Routine.judgeAll s rs).value.2) ∧
      Routine.ResolvedAll s.lookup? (Routine.judgeAll s rs).value.2
  | [], _, _ => by
    rw [Routine.judgeAll]
    refine ⟨.refl s, ?_⟩
    rw [value_pure, Routine.ResolvedAll]
    trivial
  | r :: rest, tested, clean => by
    rw [Routine.judgeAll] at clean ⊢
    simp only [faults_bind, faults_pure, List.append_eq_nil_iff, and_true] at clean
    obtain ⟨first, others⟩ := List.forall_mem_cons.mp tested
    obtain ⟨declared, resolved⟩ := Routine.resolved_judge r first clean.1
    obtain ⟨declared', resolved'⟩ := Routine.resolved_judgeAll rest others clean.2
    rw [declared.lookup?] at resolved'
    refine ⟨declared.trans declared', ?_⟩
    simp only [value_bind, value_pure]
    rw [Routine.ResolvedAll]
    exact ⟨resolved, resolved'⟩

end

/-! ### Scopes do not matter -/

variable {names : NameMap}

theorem Expr.length_unscopedAll (args : List Expr) :
    (Expr.unscopedAll args).length = args.length := by
  induction args with
  | nil => rfl
  | cons e rest ih => exact congrArg (· + 1) ih

mutual

/-- Whether an expression is resolved has nothing to do with its scopes. -/
theorem Expr.resolved_of_unscoped : (e : Expr) → e.unscoped.Resolved names → e.Resolved names
  | .odd _ operand, resolved => by
    rw [Expr.unscoped] at resolved
    cases resolved with
    | odd inner => exact .odd (operand.resolved_of_unscoped inner)
  | .binary _ _ lhs rhs, resolved => by
    rw [Expr.unscoped] at resolved
    cases resolved with
    | binary left right =>
      exact .binary (lhs.resolved_of_unscoped left) (rhs.resolved_of_unscoped right)
  | .call _ callee args, resolved => by
    rw [Expr.unscoped] at resolved
    cases resolved with
    | call takes callable each =>
      rw [Expr.length_unscopedAll] at takes
      exact .call takes callable (Expr.resolved_of_unscopedAll args each)
  | .name _ ref, resolved => by
    rw [Expr.unscoped] at resolved
    cases resolved with
    | name takes yields => exact .name takes yields
  | .number _ value, _ => .number

theorem Expr.resolved_of_unscopedAll : (args : List Expr) →
    (∀ e ∈ Expr.unscopedAll args, e.Resolved names) → ∀ e ∈ args, e.Resolved names
  | [], _ => nofun
  | arg :: args, each => by
    rw [Expr.unscopedAll] at each
    obtain ⟨first, others⟩ := List.forall_mem_cons.mp each
    exact List.forall_mem_cons.mpr
      ⟨arg.resolved_of_unscoped first, Expr.resolved_of_unscopedAll args others⟩

end

mutual

/-- Whether a statement is resolved has nothing to do with its scopes. -/
theorem Stmt.resolved_of_unscoped {inLoop : Bool} : (s : Stmt) →
    s.unscoped.Resolved names inLoop → s.Resolved names inLoop
  | .assign _ target value, resolved => by
    rw [Stmt.unscoped] at resolved
    cases resolved with
    | assign takes assignable inner =>
      exact .assign takes assignable (value.resolved_of_unscoped inner)
  | .sequence _ body, resolved => by
    rw [Stmt.unscoped] at resolved
    cases resolved with
    | sequence each => exact .sequence (Stmt.resolved_of_unscopedAll body each)
  | .ifThen _ cond thenBranch elseBranch, resolved => by
    rw [Stmt.unscoped] at resolved
    cases resolved with
    | ifThen inCond inThen inElse =>
      exact .ifThen (cond.resolved_of_unscoped inCond)
        (Stmt.resolved_of_unscopedOption thenBranch inThen)
        (Stmt.resolved_of_unscopedOption elseBranch inElse)
  | .whileDo _ cond body, resolved => by
    rw [Stmt.unscoped] at resolved
    cases resolved with
    | whileDo inCond inBody =>
      exact .whileDo (cond.resolved_of_unscoped inCond)
        (Stmt.resolved_of_unscopedOption body inBody)
  | .asm _ text, _ => .asm
  | .control _ exit, resolved => by
    rw [Stmt.unscoped] at resolved
    cases resolved with
    | control => exact .control
  | .call _ callee args, resolved => by
    rw [Stmt.unscoped] at resolved
    cases resolved with
    | call takes callable each =>
      rw [Expr.length_unscopedAll] at takes
      exact .call takes callable (Expr.resolved_of_unscopedAll args each)
  | .name _ ref, resolved => by
    rw [Stmt.unscoped] at resolved
    cases resolved with
    | name takes kind => exact .name takes kind

theorem Stmt.resolved_of_unscopedOption {inLoop : Bool} : (s : Option Stmt) →
    (∀ t ∈ Stmt.unscopedOption s, t.Resolved names inLoop) → ∀ t ∈ s, t.Resolved names inLoop
  | none, _ => nofun
  | some s, each => by
    rw [Stmt.unscopedOption] at each
    have resolved := s.resolved_of_unscoped (each s.unscoped rfl)
    rintro _ ⟨⟩
    exact resolved

theorem Stmt.resolved_of_unscopedAll {inLoop : Bool} : (body : List Stmt) →
    (∀ t ∈ Stmt.unscopedAll body, t.Resolved names inLoop) → ∀ t ∈ body, t.Resolved names inLoop
  | [], _ => nofun
  | s :: rest, each => by
    rw [Stmt.unscopedAll] at each
    obtain ⟨first, others⟩ := List.forall_mem_cons.mp each
    exact List.forall_mem_cons.mpr
      ⟨s.resolved_of_unscoped first, Stmt.resolved_of_unscopedAll rest others⟩

end

theorem Definition.symbols_unscoped (role : Role) (defs : List Definition) :
    Definition.symbols role (defs.map Definition.unscoped) = Definition.symbols role defs := by
  rw [Definition.symbols, List.map_map]
  rfl

theorem Definition.resolved_of_unscoped {role : Role} {defs : List Definition}
    (resolved : Definition.Resolved role names (defs.map Definition.unscoped)) :
    Definition.Resolved role names defs := by
  induction defs generalizing names with
  | nil => trivial
  | cons d rest ih =>
    obtain ⟨line, name, init⟩ := d
    obtain ⟨present, value, others⟩ := resolved
    refine ⟨fun isConst => ?_, ?_, ih others⟩
    · have isSome := present isConst
      rwa [Definition.unscoped, Option.isSome_map] at isSome
    · rintro e ⟨⟩
      exact e.resolved_of_unscoped (value e.unscoped rfl)

theorem Decls.definitions_unscoped (decls : Option Decls) :
    Decls.definitions (decls.map Decls.unscoped) =
      (Decls.definitions decls).map Definition.unscoped := by
  cases decls <;> rfl

theorem Routine.symbols_unscoped (rs : List Routine) :
    Routine.symbols (Routine.unscopedAll rs) = Routine.symbols rs := by
  induction rs with
  | nil => rfl
  | cons r rest ih =>
    obtain ⟨line, name, kind, block, scope⟩ := r
    rw [Routine.unscopedAll, Routine.unscoped, Routine.symbols, List.map_cons]
    exact congrArg (_ :: ·) ih

mutual

/-- Whether a block is resolved has nothing to do with its scopes. -/
theorem Block.resolved_of_unscoped {names : NameMap} : (block : Block) →
    block.unscoped.Resolved names → block.Resolved names
  | { line, consts, vars, routines, body, scope }, resolved => by
    rw [Block.unscoped, Block.Resolved] at resolved
    rw [Block.Resolved]
    simp only [Decls.definitions_unscoped, Definition.symbols_unscoped, Routine.symbols_unscoped]
      at resolved
    obtain ⟨nodup, inConsts, inVars, inRoutines, inBody⟩ := resolved
    exact ⟨nodup, Definition.resolved_of_unscoped inConsts, Definition.resolved_of_unscoped inVars,
      Routine.resolved_of_unscopedAll routines inRoutines,
      Stmt.resolved_of_unscopedOption body inBody⟩

theorem Routine.resolved_of_unscoped {names : NameMap} : (r : Routine) →
    r.unscoped.Resolved names → r.Resolved names
  | { line, name, kind, block, scope }, resolved => by
    rw [Routine.unscoped, Routine.Resolved] at resolved
    rw [Routine.Resolved]
    exact ⟨resolved.1, Block.resolved_of_unscoped block resolved.2⟩

theorem Routine.resolved_of_unscopedAll {names : NameMap} : (rs : List Routine) →
    Routine.ResolvedAll names (Routine.unscopedAll rs) → Routine.ResolvedAll names rs
  | [], _ => by
    rw [Routine.ResolvedAll]
    trivial
  | r :: rest, resolved => by
    obtain ⟨line, name, kind, block, scope⟩ := r
    rw [Routine.unscopedAll, Routine.ResolvedAll] at resolved
    rw [Routine.ResolvedAll]
    refine ⟨Routine.resolved_of_unscoped _ resolved.1, Routine.resolved_of_unscopedAll rest ?_⟩
    rw [Routine.unscoped] at resolved
    exact resolved.2

end

theorem Block.symbols_unscoped (block : Block) : block.unscoped.symbols = block.symbols := by
  obtain ⟨line, consts, vars, routines, body, scope⟩ := block
  rw [Block.unscoped, Block.symbols, Block.symbols]
  simp only [Decls.definitions_unscoped, Definition.symbols_unscoped, Routine.symbols_unscoped]

/-! ### Roles alone

Lowering reads the roles of names only. A resolved tree is well scoped in the environment that keeps
the roles. -/

/-- The roles that names stand for. -/
def Lexical.NameMap.roles (names : NameMap) : Env := fun name => (names name).map (·.role)

theorem NameMap.roles_declareAll (names : NameMap) (entries : List (String × Symbol)) :
    NameMap.roles (declareAll names entries) =
      declareAll (NameMap.roles names) (entries.map fun e => (e.1, e.2.role)) :=
  funext (declareAll_map names entries (·.role))

/-- Arities are more than is needed for scoping. -/
theorem Reference.Takes.resolvedIn {ref : Reference} {count : Nat} (takes : ref.Takes names count) :
    ref.ResolvedIn (NameMap.roles names) := by
  obtain ⟨symbol, found, same, _⟩ := takes
  rw [Reference.ResolvedIn, NameMap.roles, found, Option.map_some, same]

/-- A resolved expression is well-scoped. -/
theorem Expr.Resolved.scoped {e : Expr} (resolved : e.Resolved names) :
    e.Scoped (NameMap.roles names) := by
  induction resolved with
  | odd _ operand => exact .odd operand
  | binary _ _ lhs rhs => exact .binary lhs rhs
  | call takes callable _ args => exact .call takes.resolvedIn callable args
  | name takes yields => exact .name takes.resolvedIn yields
  | number => exact .number

/-- A resolved statement is well-scoped, at any depth that has a loop where it needs one. -/
theorem Stmt.Resolved.scoped {s : Stmt} {inLoop : Bool} (resolved : s.Resolved names inLoop)
    {depth : Nat} (deep : inLoop = true → 0 < depth) : s.Scoped (NameMap.roles names) depth := by
  induction resolved generalizing depth with
  | assign takes assignable value => exact .assign takes.resolvedIn assignable value.scoped
  | sequence _ body => exact .sequence fun s mem => body s mem deep
  | ifThen cond _ _ inThen inElse =>
    exact .ifThen cond.scoped (fun s mem => inThen s mem deep) fun s mem => inElse s mem deep
  | whileDo cond _ body =>
    exact .whileDo cond.scoped fun s mem => body s mem fun _ => Nat.succ_pos depth
  | asm => exact .asm
  | control => exact .control (deep rfl)
  | call takes callable args =>
    exact .call takes.resolvedIn callable fun e mem => (args e mem).scoped
  | name takes kind => exact .name takes.resolvedIn kind

theorem Definition.roles_symbols (role : Role) (defs : List Definition) :
    ((Definition.symbols role defs).map fun e => (e.1, e.2.role)) =
      Definition.entries role defs := by
  rw [Definition.symbols, List.map_map]
  rfl

theorem Definition.Resolved.scoped {role : Role} {defs : List Definition}
    (resolved : Definition.Resolved role names defs) :
    Definition.Scoped role (NameMap.roles names) defs := by
  induction defs generalizing names with
  | nil => trivial
  | cons d rest ih =>
    obtain ⟨present, init, others⟩ := resolved
    refine ⟨present, fun e mem => (init e mem).scoped, ?_⟩
    have behind := ih others
    rwa [NameMap.roles_declareAll] at behind

theorem RoutineKind.roles_symbolsInside (name : String) (kind : RoutineKind) :
    ((kind.symbolsInside name).map fun e => (e.1, e.2.role)) = kind.inside name := by
  cases kind with
  | procedure => rfl
  | function params =>
    rw [RoutineKind.symbolsInside, List.map_cons, List.map_map]
    rfl

theorem RoutineKind.role_symbol (kind : RoutineKind) : kind.symbol.role = kind.role := by
  cases kind <;> rfl

theorem Routine.roles_symbols (rs : List Routine) :
    ((Routine.symbols rs).map fun e => (e.1, e.2.role)) = Routine.entries rs := by
  simp [Routine.symbols, Routine.entries, RoutineKind.role_symbol]

mutual

/-- A resolved block is well-scoped, by induction over blocks and routines. -/
theorem Block.Resolved.scoped {names : NameMap} : (block : Block) → block.Resolved names →
    block.Scoped (NameMap.roles names)
  | { consts, vars, routines, body, .. }, resolved => by
    rw [Block.Resolved] at resolved
    obtain ⟨nodup, inConsts, inVars, inRoutines, inBody⟩ := resolved
    rw [Block.Scoped]
    have values := inVars.scoped
    have routinesScoped := Routine.ResolvedAll.scoped routines inRoutines
    have bodyScoped : ∀ s ∈ body, s.Scoped _ 0 := fun s mem => (inBody s mem).scoped nofun
    simp only [NameMap.roles_declareAll, List.map_append, Definition.roles_symbols,
      Routine.roles_symbols] at values routinesScoped bodyScoped
    refine ⟨?_, inConsts.scoped, values, routinesScoped, bodyScoped⟩
    simp only [← Definition.roles_symbols, ← Routine.roles_symbols, ← List.map_append]
    rwa [List.map_map]

theorem Routine.Resolved.scoped {names : NameMap} : (r : Routine) → r.Resolved names →
    r.Scoped (NameMap.roles names)
  | { name, kind, block, .. }, resolved => by
    rw [Routine.Resolved] at resolved
    rw [Routine.Scoped, ← RoutineKind.roles_symbolsInside, List.map_map]
    have inside := Block.Resolved.scoped block resolved.2
    rw [NameMap.roles_declareAll] at inside
    exact ⟨resolved.1, inside⟩

theorem Routine.ResolvedAll.scoped {names : NameMap} : (rs : List Routine) →
    Routine.ResolvedAll names rs → Routine.ScopedAll (NameMap.roles names) rs
  | [], _ => by
    rw [Routine.ScopedAll]
    trivial
  | r :: rest, resolved => by
    rw [Routine.ResolvedAll] at resolved
    rw [Routine.ScopedAll]
    have behind := Routine.ResolvedAll.scoped rest resolved.2
    rw [NameMap.roles_declareAll, List.map_singleton, RoutineKind.role_symbol] at behind
    exact ⟨Routine.Resolved.scoped r resolved.1, behind⟩

end

/-! ### Programs -/

/-- A program in which analysis finds no fault is resolved, and it declares no name that was taken
before it. -/
theorem AnalyzedProgram.resolved_of_analyze {options : Options} {program : Block}
    {p : AnalyzedProgram} (tested : program.Tested) (accepted : analyze options program = .ok p) :
    p.program.Resolved options.names ∧
      ∀ name ∈ p.program.symbols.map Prod.fst, options.names name = none := by
  obtain ⟨tree, faults⟩ := analyzeProgram_judged options program
  obtain ⟨none, rfl⟩ := analyze_eq_ok_iff.mp accepted
  have clean : (program.judgeProgram options).faults = [] := faults.symm.trans none
  obtain ⟨resolved, free⟩ := program.resolved_judge tested clean
  have outside : (⟨options.names, []⟩ : Stack).lookup? = options.names := by
    funext name
    rw [Stack.lookup?_eq_or]
    exact Option.or_none
  rw [Block.judgeProgram] at tree
  rw [← tree, outside] at resolved
  rw [← tree, Block.symbols_unscoped] at free
  exact ⟨Block.resolved_of_unscoped _ resolved, free⟩

/-- An accepted program is resolved, and declares none of the names that were there before it. -/
theorem AnalyzedProgram.resolved_of_check {options : Options} {source : String}
    {p : AnalyzedProgram} (accepted : check options source = .ok p) :
    p.program.Resolved options.names ∧
      ∀ name ∈ p.program.symbols.map Prod.fst, options.names name = none := by
  obtain ⟨tree, parsed, analyzed⟩ := check_eq_ok_iff.mp accepted
  exact AnalyzedProgram.resolved_of_analyze (Block.tested_of_parse parsed) analyzed

/-- What names stand for before a program: the runtime functions, if it may call them. -/
def Options.env (options : Options) : Env := NameMap.roles options.names

/-- What stands before a program are the functions of the runtime, if it may call them. -/
theorem Options.env_eq_some {options : Options} {name : String} {role : Role}
    (stands : options.env name = some role) :
    role = .func ∧ options.prelude = true ∧ (Primitive.find? name).isSome = true := by
  rw [Options.env, NameMap.roles, Options.names] at stands
  split at stands
  · next on =>
    cases found : Primitive.find? name with
    | none =>
      rw [found] at stands
      cases stands
    | some primitive =>
      rw [found] at stands
      exact ⟨(Option.some.inj stands).symm, on, rfl⟩
  · cases stands

/-- An accepted program is well-scoped. -/
theorem AnalyzedProgram.scoped_of_check {options : Options} {source : String} {p : AnalyzedProgram}
    (accepted : check options source = .ok p) : p.program.Scoped options.env :=
  (AnalyzedProgram.resolved_of_check accepted).1.scoped

end PlZero
