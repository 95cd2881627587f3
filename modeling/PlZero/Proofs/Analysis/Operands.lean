import PlZero.Proofs.Analysis.Prelude
import PlZero.Transcript
import PlZero.Tree.Equality

/-!
Places where a value is wanted.

Of an accepted program every operand, argument, initial value and assigned value is of the class of
a constant or a variable, and lowering it never comes to a name that yields nothing, if the builder
yields something for every name but a procedure's. So it does not matter what lowering puts in the
place of such a name (`Expr.lowerOr`).

A condition is not checked for its class. It can be the bare name of a procedure, though not in a
program that was parsed.

Main statement: `AnalyzedProgram.yields_iff_of_analyze`.
-/

namespace PlZero

open Lexical

/-! ### Where values are wanted -/

/-- What a value is wanted for. -/
inductive ValueUse where
  | operand
  | argument
  | initial
  | assigned
  | condition
  deriving DecidableEq, Repr

mutual

/-- The expressions inside an expression, with what their values are wanted for. -/
def Expr.values : Expr → List (ValueUse × Expr)
  | .odd _ operand => (.operand, operand) :: operand.values
  | .binary _ _ lhs rhs => (.operand, lhs) :: lhs.values ++ (.operand, rhs) :: rhs.values
  | .call _ _ args => Expr.valuesAll args
  | .name _ _ | .number _ _ => []

def Expr.valuesAll : List Expr → List (ValueUse × Expr)
  | [] => []
  | arg :: args => (.argument, arg) :: arg.values ++ Expr.valuesAll args

end

mutual

def Stmt.values : Stmt → List (ValueUse × Expr)
  | .assign _ _ value => (.assigned, value) :: value.values
  | .sequence _ body => Stmt.valuesAll body
  | .ifThen _ cond thenBranch elseBranch =>
    (.condition, cond) :: cond.values ++ Stmt.valuesOption thenBranch ++
      Stmt.valuesOption elseBranch
  | .whileDo _ cond body => (.condition, cond) :: cond.values ++ Stmt.valuesOption body
  | .call _ _ args => Expr.valuesAll args
  | .asm _ _ | .control _ _ | .name _ _ => []

def Stmt.valuesOption : Option Stmt → List (ValueUse × Expr)
  | none => []
  | some stmt => stmt.values

def Stmt.valuesAll : List Stmt → List (ValueUse × Expr)
  | [] => []
  | stmt :: rest => stmt.values ++ Stmt.valuesAll rest

end

def Definition.values : List Definition → List (ValueUse × Expr)
  | [] => []
  | { init := none, .. } :: rest => Definition.values rest
  | { init := some init, .. } :: rest => (.initial, init) :: init.values ++ Definition.values rest

mutual

/-- The expressions of a block and of the routines in it. -/
def Block.values : Block → List (ValueUse × Expr)
  | { consts, vars, routines, body, .. } =>
    Definition.values (Decls.definitions consts) ++ Definition.values (Decls.definitions vars) ++
      Routine.valuesAll routines ++ Stmt.valuesOption body

def Routine.values : Routine → List (ValueUse × Expr)
  | { block, .. } => block.values

def Routine.valuesAll : List Routine → List (ValueUse × Expr)
  | [] => []
  | r :: rest => r.values ++ Routine.valuesAll rest

end

/-! ### Names that yield nothing -/

section Lowering

variable {m : Type → Type} [Monad m] {V : Type} (b : Builder m V) (absent absent' : m V)

mutual

/-- Lowers an expression, with `absent` in the place of a name that yields nothing. -/
def Expr.lowerOr : Expr → m V
  | .odd _ operand => do
    let operand ← operand.lowerOr
    b.odd operand
  | .binary _ op lhs rhs => do
    let lhs ← lhs.lowerOr
    let rhs ← rhs.lowerOr
    b.binary op lhs rhs
  | .call _ callee args => do
    let args ← Expr.lowerArgsOr args
    b.call callee.name args
  | .name _ ref => do
    match ← b.name ref.name ref.role with
    | some value => return value
    | none => absent
  | .number _ value => b.number value

def Expr.lowerArgsOr : List Expr → m (List V)
  | [] => return []
  | arg :: args => do
    let arg ← arg.lowerOr
    let args ← Expr.lowerArgsOr args
    return arg :: args

end

mutual

/-- Lowering counts such a name as zero. -/
theorem Expr.lowerOr_number : (e : Expr) → e.lowerOr b (b.number 0) = e.lower b
  | .odd _ operand => by rw [Expr.lowerOr, Expr.lower, operand.lowerOr_number]
  | .binary _ op lhs rhs => by
    rw [Expr.lowerOr, Expr.lower, lhs.lowerOr_number, rhs.lowerOr_number]
  | .call _ callee args => by rw [Expr.lowerOr, Expr.lower, Expr.lowerArgsOr_number args]
  | .name _ _ => by
    rw [Expr.lowerOr, Expr.lower]
    rfl
  | .number _ _ => by rw [Expr.lowerOr, Expr.lower]

theorem Expr.lowerArgsOr_number :
    (args : List Expr) → Expr.lowerArgsOr b (b.number 0) args = Expr.lowerArgs b args
  | [] => by rw [Expr.lowerArgsOr, Expr.lowerArgs]
  | arg :: args => by
    rw [Expr.lowerArgsOr, Expr.lowerArgs, arg.lowerOr_number, Expr.lowerArgsOr_number args]

end

mutual

/-- Lowering does not look at lines and scopes. -/
theorem Expr.lowerOr_relabel (f : Relabeling) :
    (e : Expr) → (e.relabel f).lowerOr b absent = e.lowerOr b absent
  | .odd _ operand => by rw [Expr.relabel, Expr.lowerOr, Expr.lowerOr, operand.lowerOr_relabel]
  | .binary _ op lhs rhs => by
    rw [Expr.relabel, Expr.lowerOr, Expr.lowerOr, lhs.lowerOr_relabel, rhs.lowerOr_relabel]
  | .call _ callee args => by
    rw [Expr.relabel, Expr.lowerOr, Expr.lowerOr, Expr.lowerArgsOr_relabelAll f args]
  | .name _ _ => by rw [Expr.relabel, Expr.lowerOr, Expr.lowerOr]
  | .number _ _ => by rw [Expr.relabel, Expr.lowerOr, Expr.lowerOr]

theorem Expr.lowerArgsOr_relabelAll (f : Relabeling) : (args : List Expr) →
    Expr.lowerArgsOr b absent (Expr.relabelAll f args) = Expr.lowerArgsOr b absent args
  | [] => by rw [Expr.relabelAll]
  | arg :: args => by
    rw [Expr.relabelAll, Expr.lowerArgsOr, Expr.lowerArgsOr, arg.lowerOr_relabel,
      Expr.lowerArgsOr_relabelAll f args]

end

/-- Names yield a value, those of procedures apart. -/
def Builder.YieldsForNames : Prop :=
  ∀ name role, role ≠ .proc → ∃ value : m V, b.name name role = some <$> value

mutual

/-- In a resolved expression no name yields nothing, and what would take its place does not
matter. -/
theorem Expr.lowerOr_congr [LawfulMonad m] {names : NameMap} (yields : b.YieldsForNames) :
    (e : Expr) → e.Resolved names → e.lowerOr b absent = e.lowerOr b absent'
  | .odd _ operand, .odd resolved => by
    rw [Expr.lowerOr, Expr.lowerOr, operand.lowerOr_congr yields resolved]
  | .binary _ op lhs rhs, .binary left right => by
    rw [Expr.lowerOr, Expr.lowerOr, lhs.lowerOr_congr yields left, rhs.lowerOr_congr yields right]
  | .call _ callee args, .call _ _ each => by
    rw [Expr.lowerOr, Expr.lowerOr, Expr.lowerArgsOr_congr yields args each]
  | .name _ ref, .name _ yieldsValue => by
    have notProc : ref.role ≠ .proc := by
      intro isProc
      rw [isProc] at yieldsValue
      cases yieldsValue
    obtain ⟨value, named⟩ := yields ref.name ref.role notProc
    rw [Expr.lowerOr, Expr.lowerOr, named]
    simp only [bind_map_left]
  | .number _ _, _ => by rw [Expr.lowerOr, Expr.lowerOr]

theorem Expr.lowerArgsOr_congr [LawfulMonad m] {names : NameMap} (yields : b.YieldsForNames) :
    (args : List Expr) → (∀ e ∈ args, e.Resolved names) →
    Expr.lowerArgsOr b absent args = Expr.lowerArgsOr b absent' args
  | [], _ => by rw [Expr.lowerArgsOr, Expr.lowerArgsOr]
  | arg :: args, each => by
    obtain ⟨first, others⟩ := List.forall_mem_cons.mp each
    rw [Expr.lowerArgsOr, Expr.lowerArgsOr, arg.lowerOr_congr yields first,
      Expr.lowerArgsOr_congr yields args others]

end

/-- So it is lowered as lowering does it, which takes zero. -/
theorem Expr.lowerOr_of_resolved [LawfulMonad m] {names : NameMap} (yields : b.YieldsForNames)
    {e : Expr} (resolved : e.Resolved names) : e.lowerOr b absent = e.lower b := by
  rw [e.lowerOr_congr b absent (b.number 0) yields resolved, e.lowerOr_number]

end Lowering

/-- The expression is of the class of a constant or a variable, and lowering it never comes to a
name that yields nothing, as long as the builder yields something for all names but those of
procedures. -/
structure Expr.Yields (e : Expr) : Prop where
  result : e.info.result = .const ∨ e.info.result = .var
  lowered (m : Type → Type) [Monad m] [LawfulMonad m] (V : Type) (b : Builder m V) :
    b.YieldsForNames → ∀ absent : m V, e.lowerOr b absent = e.lower b

/-- It is the bare name of a procedure, and classified as such. -/
def Expr.NamesProcedure : Expr → Prop
  | .name info ref => ref.role = .proc ∧ info.result = .void
  | _ => False

section Yields

variable {e : Expr} {s : Stack}

/-- A judged expression that is resolved yields a value, whatever the builder makes of names that
yield nothing. -/
theorem Expr.Valued.yields (valued : e.Valued s) : e.Yields := by
  obtain ⟨isValue, resolved⟩ := valued
  refine ⟨?_, fun m _ _ V b yields absent => Expr.lowerOr_of_resolved b absent yields resolved⟩
  cases result : e.info.result with
  | const => exact .inl rfl
  | var => exact .inr rfl
  | _ =>
    rw [result] at isValue
    cases isValue

theorem Expr.yields_of_relabel {f : Relabeling} (yields : (e.relabel f).Yields) : e.Yields := by
  obtain ⟨result, lowered⟩ := yields
  rw [Expr.result_relabel] at result
  refine ⟨result, fun m _ _ V b named absent => ?_⟩
  rw [← e.lowerOr_relabel b absent f, lowered m V b named absent, Expr.lower_relabel]

theorem Expr.namesProcedure_of_relabel {f : Relabeling} (names : (e.relabel f).NamesProcedure) :
    e.NamesProcedure := by
  cases e with
  | name info ref => exact names
  | odd | binary | call | number => exact names.elim

/-- What yields a value is not the name of a procedure. -/
theorem Expr.Yields.not_namesProcedure (yields : e.Yields) : ¬ e.NamesProcedure := by
  intro names
  cases e with
  | name info ref =>
    have isValue : info.result = .const ∨ info.result = .var := yields.result
    rw [names.2] at isValue
    rcases isValue with h | h <;> cases h
  | odd | binary | call | number => exact names

end Yields

/-! ### Judged expressions -/

section Judged

variable {s : Stack}

/-- An expression that is accepted where a value is wanted yields one. -/
theorem Expr.yields_of_wanted {e : Expr} (clean : (e.judge s).faults = [])
    (wanted : (e.judge s).value.info.result = .error ∨
      (e.judge s).value.info.result.isValue = true) : (e.judge s).value.Yields :=
  (Expr.Valued.of_demand ((e.resolved_judge clean).imp_right And.left) wanted).yields

/-- An expression without faults is not classified as faulty. -/
theorem Expr.result_ne_error {e : Expr} (clean : (e.judge s).faults = []) :
    (e.judge s).value.info.result ≠ .error := by
  rcases e.resolved_judge clean with valued | ⟨isVoid, _⟩
  · exact Role.ne_error valued.1
  · rw [isVoid]
    decide

mutual

/-- Inside an expression without faults everything yields a value. -/
theorem Expr.values_judge : (e : Expr) → (e.judge s).faults = [] →
    ∀ x ∈ (e.judge s).value.values, x.2.Yields
  | .odd info operand, clean => by
    rw [Expr.judge] at clean ⊢
    simp only [faults_bind, faults_pure, List.append_eq_nil_iff, and_true] at clean
    obtain ⟨cleanOperand, settled⟩ := clean
    have wanted := (demand_eq_ok (settle_of_clean settled)).2
    simp only [value_bind, value_pure, Expr.values]
    exact List.forall_mem_cons.mpr
      ⟨Expr.yields_of_wanted cleanOperand wanted, operand.values_judge cleanOperand⟩
  | .binary info op lhs rhs, clean => by
    rw [Expr.judge] at clean ⊢
    simp only [faults_bind, faults_pure, List.append_eq_nil_iff, and_true] at clean
    obtain ⟨cleanLeft, cleanRight, settled⟩ := clean
    obtain ⟨isLeft, isRight, _⟩ := binaryRule_eq_ok (settle_of_clean settled)
      (Expr.result_ne_error cleanLeft) (Expr.result_ne_error cleanRight)
    simp only [value_bind, value_pure, Expr.values]
    exact List.forall_mem_append.mpr
      ⟨List.forall_mem_cons.mpr
        ⟨Expr.yields_of_wanted cleanLeft (.inr isLeft), lhs.values_judge cleanLeft⟩,
      List.forall_mem_cons.mpr
        ⟨Expr.yields_of_wanted cleanRight (.inr isRight), rhs.values_judge cleanRight⟩⟩
  | .call info callee args, clean => by
    rw [Expr.judge] at clean ⊢
    simp only [faults_bind, faults_pure, List.append_eq_nil_iff, and_true] at clean
    simp only [value_bind, value_pure, Expr.values]
    exact Expr.values_judgeArgs args clean.1
  | .name info ref, _ => by
    rw [Expr.judge]
    simp only [value_bind, value_pure, Expr.values]
    nofun
  | .number info value, _ => by
    rw [Expr.judge]
    simp only [value_pure, Expr.values]
    nofun

theorem Expr.values_judgeArgs {line : Nat} {callee : String} : (args : List Expr) →
    (Expr.judgeArgs s line callee args).faults = [] →
    ∀ x ∈ Expr.valuesAll (Expr.judgeArgs s line callee args).value, x.2.Yields
  | [], _ => by
    rw [Expr.judgeArgs]
    simp only [value_pure, Expr.valuesAll]
    nofun
  | arg :: args, clean => by
    rw [Expr.judgeArgs] at clean ⊢
    simp only [faults_bind, faults_pure, List.append_eq_nil_iff, and_true] at clean
    obtain ⟨cleanArg, settled, cleanArgs⟩ := clean
    have wanted := (demand_eq_ok (settle_of_clean settled)).2
    simp only [value_bind, value_pure, Expr.valuesAll]
    exact List.forall_mem_append.mpr
      ⟨List.forall_mem_cons.mpr
        ⟨Expr.yields_of_wanted cleanArg wanted, arg.values_judge cleanArg⟩,
      Expr.values_judgeArgs args cleanArgs⟩

end

/-! ### Judged statements -/

/-- The expression yields a value. If it is not known that every condition applies an operator, it
may be the name of a procedure in the place of a condition. -/
def YieldsAsUsed (tested : Prop) (x : ValueUse × Expr) : Prop :=
  x.2.Yields ∨ ¬ tested ∧ x.1 = .condition ∧ x.2.NamesProcedure

theorem yieldsAsUsed_of_yields {tested : Prop} {xs : List (ValueUse × Expr)}
    (yields : ∀ x ∈ xs, x.2.Yields) : ∀ x ∈ xs, YieldsAsUsed tested x :=
  fun x mem => .inl (yields x mem)

/-- Nothing but a bare name is of the class of a procedure. -/
theorem Expr.yieldsAsUsed_condition {tested : Prop} {e : Expr} (isTest : tested → e.IsTest)
    (clean : (e.judge s).faults = []) : YieldsAsUsed tested (.condition, (e.judge s).value) := by
  rcases e.resolved_judge clean with valued | ⟨isVoid, isName⟩
  · exact .inl valued.yields
  · refine .inr ⟨fun known => isName (isTest known), rfl, ?_⟩
    cases e with
    | odd | binary => exact absurd trivial isName
    | number info value => cases isVoid
    | name info ref =>
      rw [Expr.judge] at clean isVoid ⊢
      simp only [faults_bind, faults_pure, List.append_nil] at clean
      obtain ⟨_, ⟨isProc, result⟩ | ⟨_, isValue⟩⟩ := Stack.takes_of_name clean
      · exact ⟨isProc, result⟩
      · have result : (s.resolve info.line ref nameRule).value.2 = .void := isVoid
        rw [result] at isValue
        cases isValue
    | call info callee args =>
      rw [Expr.judge] at clean isVoid
      simp only [faults_bind, faults_pure, List.append_eq_nil_iff, and_true] at clean
      have result := (Stack.takes_of_call clean.2).2.2 (Expr.resolved_judgeArgs args clean.1)
      exact absurd (result.symm.trans isVoid) nofun

variable {tested : Prop}

mutual

/-- All expressions of a statement without faults yield values, conditions apart that name a
procedure. -/
theorem Stmt.values_judge {inLoop : Bool} : (stmt : Stmt) → (tested → stmt.Tested) →
    (stmt.judge s inLoop).faults = [] →
    ∀ x ∈ (stmt.judge s inLoop).value.values, YieldsAsUsed tested x
  | .assign info target value, _, clean => by
    rw [Stmt.judge] at clean ⊢
    simp only [faults_bind, faults_pure, List.append_eq_nil_iff, and_true] at clean
    obtain ⟨cleanValue, resolved⟩ := clean
    obtain ⟨symbol, _, accepts, _⟩ := Stack.resolve_of_clean resolved
    have wanted := (assignRule_eq_ok accepts).2
    simp only [value_bind, value_pure, Stmt.values]
    exact yieldsAsUsed_of_yields (List.forall_mem_cons.mpr
      ⟨Expr.yields_of_wanted cleanValue wanted, value.values_judge cleanValue⟩)
  | .sequence info body, shape, clean => by
    rw [Stmt.judge] at clean ⊢
    simp only [faults_bind, faults_pure, List.append_nil] at clean
    simp only [value_bind, value_pure, Stmt.values]
    refine Stmt.values_judgeAll body (fun known => ?_) clean
    cases shape known with
    | sequence each => exact each
  | .ifThen info cond thenBranch elseBranch, shape, clean => by
    rw [Stmt.judge] at clean ⊢
    simp only [faults_bind, faults_pure, List.append_eq_nil_iff, and_true] at clean
    obtain ⟨cleanCond, cleanThen, cleanElse⟩ := clean
    have parts (known : tested) : cond.IsTest ∧ (∀ t ∈ thenBranch, t.Tested) ∧
        ∀ t ∈ elseBranch, t.Tested := by
      cases shape known with
      | ifThen isTest inThen inElse => exact ⟨isTest, inThen, inElse⟩
    simp only [value_bind, value_pure, Stmt.values]
    refine List.forall_mem_append.mpr ⟨List.forall_mem_append.mpr ⟨List.forall_mem_cons.mpr
      ⟨?_, ?_⟩, ?_⟩, ?_⟩
    · exact Expr.yieldsAsUsed_condition (fun known => (parts known).1) cleanCond
    · exact yieldsAsUsed_of_yields (cond.values_judge cleanCond)
    · exact Stmt.values_judgeOption thenBranch (fun known => (parts known).2.1) cleanThen
    · exact Stmt.values_judgeOption elseBranch (fun known => (parts known).2.2) cleanElse
  | .whileDo info cond body, shape, clean => by
    rw [Stmt.judge] at clean ⊢
    simp only [faults_bind, faults_pure, List.append_eq_nil_iff, and_true] at clean
    obtain ⟨cleanCond, cleanBody⟩ := clean
    have parts (known : tested) : cond.IsTest ∧ ∀ t ∈ body, t.Tested := by
      cases shape known with
      | whileDo isTest inBody => exact ⟨isTest, inBody⟩
    simp only [value_bind, value_pure, Stmt.values]
    refine List.forall_mem_append.mpr ⟨List.forall_mem_cons.mpr ⟨?_, ?_⟩, ?_⟩
    · exact Expr.yieldsAsUsed_condition (fun known => (parts known).1) cleanCond
    · exact yieldsAsUsed_of_yields (cond.values_judge cleanCond)
    · exact Stmt.values_judgeOption body (fun known => (parts known).2) cleanBody
  | .asm info text, _, _ => by
    rw [Stmt.judge]
    simp only [value_pure, Stmt.values]
    nofun
  | .control info exit, _, _ => by
    rw [Stmt.judge]
    split <;> nofun
  | .call info callee args, _, clean => by
    rw [Stmt.judge] at clean ⊢
    simp only [faults_bind, faults_pure, List.append_eq_nil_iff, and_true] at clean
    simp only [value_bind, value_pure, Stmt.values]
    exact yieldsAsUsed_of_yields (Expr.values_judgeArgs args clean.1)
  | .name info ref, _, _ => by
    rw [Stmt.judge]
    simp only [value_bind, value_pure, Stmt.values]
    nofun

theorem Stmt.values_judgeOption {inLoop : Bool} : (stmt : Option Stmt) →
    (tested → ∀ t ∈ stmt, t.Tested) → (Stmt.judgeOption s inLoop stmt).faults = [] →
    ∀ x ∈ Stmt.valuesOption (Stmt.judgeOption s inLoop stmt).value, YieldsAsUsed tested x
  | none, _, _ => by
    rw [Stmt.judgeOption]
    simp only [value_pure, Stmt.valuesOption]
    nofun
  | some stmt, shape, clean => by
    rw [Stmt.judgeOption] at clean ⊢
    simp only [faults_bind, faults_pure, List.append_nil] at clean
    simp only [value_bind, value_pure, Stmt.valuesOption]
    exact stmt.values_judge (fun known => shape known stmt rfl) clean

theorem Stmt.values_judgeAll {inLoop : Bool} : (body : List Stmt) →
    (tested → ∀ t ∈ body, t.Tested) → (Stmt.judgeAll s inLoop body).faults = [] →
    ∀ x ∈ Stmt.valuesAll (Stmt.judgeAll s inLoop body).value, YieldsAsUsed tested x
  | [], _, _ => by
    rw [Stmt.judgeAll]
    simp only [value_pure, Stmt.valuesAll]
    nofun
  | stmt :: rest, shape, clean => by
    rw [Stmt.judgeAll] at clean ⊢
    simp only [faults_bind, faults_pure, List.append_eq_nil_iff, and_true] at clean
    simp only [value_bind, value_pure, Stmt.valuesAll]
    exact List.forall_mem_append.mpr
      ⟨stmt.values_judge (fun known => (List.forall_mem_cons.mp (shape known)).1) clean.1,
        Stmt.values_judgeAll rest (fun known => (List.forall_mem_cons.mp (shape known)).2) clean.2⟩

end

/-! ### Judged declarations and blocks -/

/-- All initial values without faults yield values. -/
theorem Definition.values_judgeAll {role : Role} {defs : List Definition}
    (clean : (Definition.judgeAll role s defs).faults = []) :
    ∀ x ∈ Definition.values (Definition.judgeAll role s defs).value.2, x.2.Yields := by
  induction defs generalizing s with
  | nil => nofun
  | cons d rest ih =>
    obtain ⟨line, name, init⟩ := d
    rw [Definition.judgeAll, Definition.judge] at clean ⊢
    simp only [faults_bind, faults_pure, List.append_eq_nil_iff, and_true] at clean
    obtain ⟨⟨cleanInit, settled, _⟩, cleanRest⟩ := clean
    have wanted := (initRule_eq_ok (settle_of_clean settled)).2
    simp only [value_bind, value_pure] at wanted ⊢
    cases init with
    | none => exact ih cleanRest
    | some init =>
      rw [Definition.judgeInit] at cleanInit wanted
      simp only [faults_bind, faults_pure, List.append_nil] at cleanInit
      exact List.forall_mem_append.mpr
        ⟨List.forall_mem_cons.mpr
          ⟨Expr.yields_of_wanted cleanInit (wanted _ rfl), init.values_judge cleanInit⟩,
        ih cleanRest⟩

theorem Decls.values_judge {role : Role} {decls : Option Decls}
    (clean : (Decls.judge role s decls).faults = []) :
    ∀ x ∈ Definition.values (Decls.definitions (Decls.judge role s decls).value.2),
      YieldsAsUsed tested x := by
  cases decls with
  | none => nofun
  | some decls =>
    rw [Decls.judge] at clean ⊢
    simp only [faults_bind, faults_pure, List.append_nil] at clean
    exact yieldsAsUsed_of_yields (Definition.values_judgeAll clean)

end Judged

mutual

/-- The induction over blocks and routines. -/
theorem Block.values_judge {tested : Prop} {s : Stack} : (block : Block) →
    (tested → block.Tested) → (block.judge s).faults = [] →
    ∀ x ∈ (block.judge s).value.values, YieldsAsUsed tested x
  | { line, consts, vars, routines, body, scope }, shape, clean => by
    rw [Block.judge] at clean ⊢
    simp only [faults_bind, faults_pure, List.append_eq_nil_iff, and_true] at clean
    obtain ⟨cleanConsts, cleanVars, cleanRoutines, cleanBody⟩ := clean
    have parts (known : tested) : (∀ r ∈ routines, r.block.Tested) ∧ ∀ t ∈ body, t.Tested := by
      cases shape known with
      | intro inRoutines inBody => exact ⟨inRoutines, inBody⟩
    simp only [value_bind, value_pure, Block.values]
    refine List.forall_mem_append.mpr ⟨List.forall_mem_append.mpr ⟨List.forall_mem_append.mpr
      ⟨?_, ?_⟩, ?_⟩, ?_⟩
    · exact Decls.values_judge cleanConsts
    · exact Decls.values_judge cleanVars
    · exact Routine.values_judgeAll routines (fun known => (parts known).1) cleanRoutines
    · exact Stmt.values_judgeOption body (fun known => (parts known).2) cleanBody

theorem Routine.values_judge {tested : Prop} {s : Stack} : (r : Routine) →
    (tested → r.block.Tested) → (r.judge s).faults = [] →
    ∀ x ∈ (r.judge s).value.2.values, YieldsAsUsed tested x
  | { line, name, kind, block, scope }, shape, clean => by
    rw [Routine.judge] at clean ⊢
    simp only [faults_bind, faults_pure, List.append_eq_nil_iff, and_true] at clean
    simp only [value_bind, value_pure, Routine.values]
    exact Block.values_judge block shape clean.2

theorem Routine.values_judgeAll {tested : Prop} {s : Stack} : (rs : List Routine) →
    (tested → ∀ r ∈ rs, r.block.Tested) → (Routine.judgeAll s rs).faults = [] →
    ∀ x ∈ Routine.valuesAll (Routine.judgeAll s rs).value.2, YieldsAsUsed tested x
  | [], _, _ => by
    rw [Routine.judgeAll]
    simp only [value_pure, Routine.valuesAll]
    nofun
  | r :: rest, shape, clean => by
    rw [Routine.judgeAll] at clean ⊢
    simp only [faults_bind, faults_pure, List.append_eq_nil_iff, and_true] at clean
    simp only [value_bind, value_pure, Routine.valuesAll]
    exact List.forall_mem_append.mpr
      ⟨Routine.values_judge r (fun known => (List.forall_mem_cons.mp (shape known)).1) clean.1,
        Routine.values_judgeAll rest (fun known => (List.forall_mem_cons.mp (shape known)).2)
          clean.2⟩

end

/-! ### Relabeled trees -/

section Relabeled

variable (f : Relabeling)

def ValueUse.relabel (x : ValueUse × Expr) : ValueUse × Expr := (x.1, x.2.relabel f)

mutual

/-- The expressions of a relabeled tree are those of the tree, relabeled. -/
theorem Expr.values_relabel : (e : Expr) → (e.relabel f).values = e.values.map (ValueUse.relabel f)
  | .odd _ operand => by
    rw [Expr.relabel, Expr.values, Expr.values, operand.values_relabel]
    rfl
  | .binary _ op lhs rhs => by
    rw [Expr.relabel, Expr.values, Expr.values, lhs.values_relabel, rhs.values_relabel,
      List.map_append]
    rfl
  | .call _ _ args => by
    rw [Expr.relabel, Expr.values, Expr.values, Expr.values_relabelAll args]
  | .name _ _ => rfl
  | .number _ _ => rfl

theorem Expr.values_relabelAll : (args : List Expr) →
    Expr.valuesAll (Expr.relabelAll f args) = (Expr.valuesAll args).map (ValueUse.relabel f)
  | [] => rfl
  | arg :: args => by
    rw [Expr.relabelAll, Expr.valuesAll, Expr.valuesAll, arg.values_relabel,
      Expr.values_relabelAll args, List.map_append]
    rfl

end

mutual

theorem Stmt.values_relabel :
    (stmt : Stmt) → (stmt.relabel f).values = stmt.values.map (ValueUse.relabel f)
  | .assign _ _ value => by
    rw [Stmt.relabel, Stmt.values, Stmt.values, value.values_relabel]
    rfl
  | .sequence _ body => by
    rw [Stmt.relabel, Stmt.values, Stmt.values, Stmt.values_relabelAll body]
  | .ifThen _ cond thenBranch elseBranch => by
    rw [Stmt.relabel, Stmt.values, Stmt.values, cond.values_relabel,
      Stmt.values_relabelOption thenBranch, Stmt.values_relabelOption elseBranch,
      List.map_append, List.map_append]
    rfl
  | .whileDo _ cond body => by
    rw [Stmt.relabel, Stmt.values, Stmt.values, cond.values_relabel,
      Stmt.values_relabelOption body, List.map_append]
    rfl
  | .call _ _ args => by
    rw [Stmt.relabel, Stmt.values, Stmt.values, Expr.values_relabelAll f args]
  | .asm _ _ => rfl
  | .control _ _ => rfl
  | .name _ _ => rfl

theorem Stmt.values_relabelOption : (stmt : Option Stmt) →
    Stmt.valuesOption (Stmt.relabelOption f stmt) =
      (Stmt.valuesOption stmt).map (ValueUse.relabel f)
  | none => rfl
  | some stmt => by
    rw [Stmt.relabelOption, Stmt.valuesOption, Stmt.valuesOption, stmt.values_relabel]

theorem Stmt.values_relabelAll : (body : List Stmt) →
    Stmt.valuesAll (Stmt.relabelAll f body) = (Stmt.valuesAll body).map (ValueUse.relabel f)
  | [] => rfl
  | stmt :: rest => by
    rw [Stmt.relabelAll, Stmt.valuesAll, Stmt.valuesAll, stmt.values_relabel,
      Stmt.values_relabelAll rest, List.map_append]

end

theorem Definition.values_map_relabel (defs : List Definition) :
    Definition.values (defs.map (Definition.relabel f)) =
      (Definition.values defs).map (ValueUse.relabel f) := by
  induction defs with
  | nil => rfl
  | cons d rest ih =>
    obtain ⟨line, name, _ | init⟩ := d
    · exact ih
    · rw [List.map_cons, Definition.values, List.map_append, ← ih, List.map_cons,
        ← init.values_relabel]
      rfl

theorem Decls.values_relabel (decls : Option Decls) :
    Definition.values (Decls.definitions (decls.map (Decls.relabel f))) =
      (Definition.values (Decls.definitions decls)).map (ValueUse.relabel f) := by
  cases decls with
  | none => rfl
  | some decls => exact Definition.values_map_relabel f decls.defs

mutual

/-- The same of blocks, for which it is used. -/
theorem Block.values_relabel :
    (block : Block) → (block.relabel f).values = block.values.map (ValueUse.relabel f)
  | { line, consts, vars, routines, body, scope } => by
    rw [Block.relabel, Block.values, Block.values, Decls.values_relabel, Decls.values_relabel,
      Routine.values_relabelAll routines, Stmt.values_relabelOption, List.map_append,
      List.map_append, List.map_append]

theorem Routine.values_relabel :
    (r : Routine) → (r.relabel f).values = r.values.map (ValueUse.relabel f)
  | { line, name, kind, block, scope } => by
    rw [Routine.relabel, Routine.values, Routine.values, Block.values_relabel block]

theorem Routine.values_relabelAll : (rs : List Routine) →
    Routine.valuesAll (Routine.relabelAll f rs) = (Routine.valuesAll rs).map (ValueUse.relabel f)
  | [] => rfl
  | r :: rest => by
    rw [Routine.relabelAll, Routine.valuesAll, Routine.valuesAll, Routine.values_relabel r,
      Routine.values_relabelAll rest, List.map_append]

end

end Relabeled

/-! ### Accepted programs -/

theorem yieldsAsUsed_of_relabel {tested : Prop} {f : Relabeling} {x : ValueUse × Expr}
    (yields : YieldsAsUsed tested (ValueUse.relabel f x)) : YieldsAsUsed tested x :=
  yields.imp Expr.yields_of_relabel fun ⟨unknown, isCondition, names⟩ =>
    ⟨unknown, isCondition, Expr.namesProcedure_of_relabel names⟩

/-- In an accepted program every expression yields a value as it is used. Faults are judged without
scopes, so the scopes that analysis fills in are left out first. -/
theorem AnalyzedProgram.yieldsAsUsed_of_analyze {options : Options} {program : Block}
    {p : AnalyzedProgram} {tested : Prop} (shape : tested → program.Tested)
    (accepted : analyze options program = .ok p) :
    ∀ x ∈ p.program.values, YieldsAsUsed tested x := by
  intro x mem
  have clean := exists_analyze_iff.mp ⟨p, accepted⟩
  have judged : (program.judgeProgram options).value.values =
      p.program.values.map (ValueUse.relabel .unscoped) := by
    rw [← unscoped_of_analyze accepted, Block.unscoped_eq_relabel, Block.values_relabel]
  have memJudged : ValueUse.relabel .unscoped x ∈ (program.judgeProgram options).value.values :=
    judged ▸ List.mem_map_of_mem mem
  exact yieldsAsUsed_of_relabel (Block.values_judge program shape clean _ memJudged)

/-- Wherever a value is wanted in an accepted program, the expression is of the class of a constant
or a variable and all its names yield something, but for a condition that is the bare name of a
procedure. A program that was parsed has no such condition. -/
theorem AnalyzedProgram.yields_iff_of_analyze {options : Options} {program : Block}
    {p : AnalyzedProgram} {place : ValueUse} {e : Expr}
    (accepted : analyze options program = .ok p) (mem : (place, e) ∈ p.program.values) :
    (e.Yields ↔ ¬ (place = .condition ∧ e.NamesProcedure)) ∧
      ∀ source, parse source = .ok program → e.Yields := by
  refine ⟨⟨fun yields names => yields.not_namesProcedure names.2, fun notName => ?_⟩,
    fun source parsed => ?_⟩
  · have yields : YieldsAsUsed False (place, e) :=
      yieldsAsUsed_of_analyze False.elim accepted _ mem
    exact yields.resolve_right fun h => notName h.2
  · have yields : YieldsAsUsed True (place, e) :=
      yieldsAsUsed_of_analyze (fun _ => Block.tested_of_parse parsed) accepted _ mem
    exact yields.resolve_right fun h => h.1 trivial

/-- With a condition that reads a variable. -/
theorem AnalyzedProgram.yields_iff_of_analyze_counting :
    let info (result : Role) : ExprInfo := { line := 1, result, scope := some 0 }
    let bound : Expr := .binary (info .var) .less (.name (info .var) ⟨"x", .var⟩)
      (.number (info .const) 3)
    ∃ p, check {} "var x; while x < 3 do x := x + 1." = .ok p ∧
      (ValueUse.condition, bound) ∈ p.program.values ∧ bound.Yields := by
  intro info bound
  have outcome : (check {} "var x; while x < 3 do x := x + 1.").toOption.map
      (fun p => decide ((ValueUse.condition, bound) ∈ p.program.values)) = some true := by
    decide +kernel
  have isOk : (check {} "var x; while x < 3 do x := x + 1.").toOption.isSome = true := by
    rw [← Option.isSome_map, outcome]
    rfl
  obtain ⟨p, accepted⟩ := exists_check_of_isSome isOk
  rw [accepted] at outcome
  have mem : (ValueUse.condition, bound) ∈ p.program.values :=
    of_decide_eq_true (Option.some.inj outcome)
  obtain ⟨program, parsed, analyzed⟩ := check_eq_ok_iff.mp accepted
  exact ⟨p, accepted, mem, (yields_iff_of_analyze analyzed mem).2 _ parsed⟩

/-- The recording builder makes nothing of the name of a procedure, and something of any other. -/
theorem Transcript.yieldsForNames {m : Type → Type} [Monad m] [LawfulMonad m]
    [MonadStateOf Transcript m] (policy : Policy) :
    (builder (m := m) policy).YieldsForNames := by
  intro name role notProc
  refine ⟨do note ("identifier " ++ name ++ " " ++ role.label); return name, ?_⟩
  simp only [builder, notProc, if_false, map_bind, map_pure]

open Transcript in
/-- The name of a procedure without statements is accepted as a condition. Lowering it puts zero in
the place of the value it does not have. -/
theorem AnalyzedProgram.not_yields_of_procedure_condition :
    let cond : Expr := .name { line := 1 } { name := "p" }
    let program : Block := {
      line := 1
      routines := [{ line := 1, name := "p", kind := .procedure, block := { line := 1 } }]
      body := some (.ifThen { line := 1 } cond none none) }
    ∃ p e, analyze { prelude := false } program = .ok p ∧
      (ValueUse.condition, e) ∈ p.program.values ∧ e.info.result = .void ∧
      (builder (m := StateM Transcript) {}).YieldsForNames ∧
      e.lowerOr (builder (m := StateM Transcript) {}) (pure "") ≠
        e.lower (builder (m := StateM Transcript) {}) := by
  intro cond program
  have clean : (analyzeProgram { prelude := false } program).diagnostics.isEmpty = true := by
    decide +kernel
  refine ⟨_, .name { line := 1, result := .void, scope := some 0 } { name := "p", role := .proc },
    if_pos clean, ?_, rfl, yieldsForNames {}, ?_⟩
  · show _ ∈ (analyzeProgram { prelude := false } program).program.values
    decide +kernel
  · intro same
    have values := congrArg (fun x : StateM Transcript String => (x.run {}).1) same
    exact absurd values (by decide)

end PlZero
