import PlZero.Proofs.Analysis.Declared
import PlZero.Proofs.Tree.Relabel

/-!
A program with and without the runtime functions in scope.

The runtime functions stand in the outermost map, where the program's own names go too. A stack that
has more names there (`Stack.Widens`) gives the same judgement of a phrase that is without faults
already, as long as no name is declared in the outermost map that stands there before: what a name
stood for is found as before, and the maps of routines are the same in both.

Main statement: `check_prelude_iff`.
-/

namespace PlZero

open Lexical

/-! ### What a block declares -/

/-- A judgement does not change what routines declare. -/
theorem Routine.symbols_judgeAll (s : Stack) (rs : List Routine) :
    Routine.symbols (Routine.judgeAll s rs).value.2 = Routine.symbols rs := by
  induction rs generalizing s with
  | nil =>
    rw [Routine.judgeAll]
    rfl
  | cons r rest ih =>
    obtain ⟨line, name, kind, block, scope⟩ := r
    rw [Routine.judgeAll, Routine.judge]
    exact congrArg ((name, kind.symbol) :: ·) (ih _)

/-- Judging a block leaves alone what it declares. -/
theorem Block.symbols_judge (s : Stack) (block : Block) :
    (block.judge s).value.symbols = block.symbols := by
  obtain ⟨line, consts, vars, routines, body, scope⟩ := block
  rw [Block.judge]
  simp only [value_bind, value_pure, Block.symbols, Definition.symbols_eq_map_declared,
    Decls.declared_judge, Routine.symbols_judgeAll]

/-! ### More names behind -/

namespace Lexical

/-- Two judgements are the same if their first steps are and what follows on those. -/
theorem bind_eq_bind {α β : Type} {n n' : Noted α} {f f' : α → Noted β} (same : n' = n)
    (next : f' n.value = f n.value) : n' >>= f' = n >>= f := by
  subst same
  ext1
  · simp only [value_bind, next]
  · simp only [faults_bind, next]

namespace Stack

/-- What a name stands for in `s` it stands for in `s'`. -/
def Covers (s s' : Stack) : Prop :=
  ∀ name symbol, s.lookup? name = some symbol → s'.lookup? name = some symbol

/-- `s'` covers `s`, and its innermost map has the names `extra` besides. -/
structure Widens (extra : NameMap) (s s' : Stack) : Prop where
  covers : s.Covers s'
  inner : ∀ name, s'.inner name = (s.inner name).or (extra name)

variable {s s' : Stack} {extra : NameMap} {line : Nat} {name : String} {symbol : Symbol}

/-- A name that is resolved without fault is resolved in the same way where more names are known. -/
theorem resolve_of_covers {ref : Reference} {rule : Symbol → Except AnalysisFault Role}
    (covers : s.Covers s') (clean : (s.resolve line ref rule).faults = []) :
    s'.resolve line ref rule = s.resolve line ref rule := by
  obtain ⟨symbol, found, -, -⟩ := resolve_of_clean clean
  rw [resolve, resolve, found, covers _ _ found]

/-- One map on top of both leaves no difference between the innermost maps. -/
theorem Widens.push (widens : Widens extra s s') (map : NameMap) :
    Widens .empty (s.push map) (s'.push map) := by
  constructor
  · intro name symbol
    rw [lookup?_push, lookup?_push]
    cases map name with
    | some found => exact id
    | none => exact widens.covers name symbol
  · exact fun name => Option.or_none.symm

/-- With nothing extra the innermost maps are the same. -/
theorem Widens.inner_eq (widens : Widens .empty s s') : s'.inner = s.inner :=
  funext fun name => (widens.inner name).trans Option.or_none

/-- A name that can be declared in `s` can be declared in `s'`, unless it is one of the others. -/
theorem Widens.declare (widens : Widens extra s s') (free : extra name = none)
    (clean : (s.declare line name symbol).faults = []) :
    (s'.declare line name symbol).faults = [] ∧
      Widens extra (s.declare line name symbol).value (s'.declare line name symbol).value := by
  have here : s.inner name = none := (declares_of_clean clean).free name (by simp)
  have there : s'.inner name = none := by rw [widens.inner, here, free]; rfl
  rw [declare_of_free here, declare_of_free there]
  refine ⟨rfl, ?_, ?_⟩
  · intro other found
    simp only [value_pure, lookup?_update_inner, Function.update_apply]
    split
    · exact id
    · exact widens.covers other found
  · intro other
    simp only [value_pure, Function.update_apply]
    split
    · rfl
    · exact widens.inner other

theorem Widens.declareParams {params : List String} (widens : Widens .empty s s')
    (clean : (declareParams line s params).faults = []) :
    (declareParams line s' params).faults = [] ∧
      Widens .empty (declareParams line s params).value (declareParams line s' params).value := by
  induction params generalizing s s' with
  | nil => exact ⟨rfl, widens⟩
  | cons param params ih =>
    simp only [Stack.declareParams, faults_bind, value_bind, List.append_eq_nil_iff] at clean ⊢
    obtain ⟨silent, next⟩ := widens.declare rfl clean.1
    obtain ⟨silent', behind⟩ := ih next clean.2
    exact ⟨⟨silent, silent'⟩, behind⟩

end Stack

end Lexical

/-! ### Phrases that declare nothing -/

section Phrases

variable {s s' : Stack}

mutual

/-- An expression without faults is judged in the same way where more names are known. -/
theorem Expr.judge_of_covers (covers : s.Covers s') : (e : Expr) →
    (e.judge s).faults = [] → e.judge s' = e.judge s
  | .odd info operand, clean => by
    rw [Expr.judge] at clean
    simp only [faults_bind, faults_pure, List.append_eq_nil_iff, and_true] at clean
    rw [Expr.judge, Expr.judge, operand.judge_of_covers covers clean.1]
  | .binary info op lhs rhs, clean => by
    rw [Expr.judge] at clean
    simp only [faults_bind, faults_pure, List.append_eq_nil_iff, and_true] at clean
    rw [Expr.judge, Expr.judge, lhs.judge_of_covers covers clean.1,
      rhs.judge_of_covers covers clean.2.1]
  | .call info callee args, clean => by
    rw [Expr.judge] at clean
    simp only [faults_bind, faults_pure, List.append_eq_nil_iff, and_true] at clean
    rw [Expr.judge, Expr.judge]
    refine bind_eq_bind (Expr.judgeArgs_of_covers covers args clean.1) ?_
    exact bind_eq_bind (Stack.resolve_of_covers covers clean.2) rfl
  | .name info ref, clean => by
    rw [Expr.judge] at clean
    simp only [faults_bind, faults_pure, List.append_nil] at clean
    rw [Expr.judge, Expr.judge, Stack.resolve_of_covers covers clean]
  | .number _ _, _ => by rw [Expr.judge, Expr.judge]

theorem Expr.judgeArgs_of_covers (covers : s.Covers s') {line : Nat} {callee : String} :
    (args : List Expr) →
    (Expr.judgeArgs s line callee args).faults = [] →
    Expr.judgeArgs s' line callee args = Expr.judgeArgs s line callee args
  | [], _ => by rw [Expr.judgeArgs, Expr.judgeArgs]
  | arg :: args, clean => by
    rw [Expr.judgeArgs] at clean
    simp only [faults_bind, faults_pure, List.append_eq_nil_iff, and_true] at clean
    rw [Expr.judgeArgs, Expr.judgeArgs, arg.judge_of_covers covers clean.1,
      Expr.judgeArgs_of_covers covers args clean.2.2]

end

mutual

/-- A statement without faults is judged in the same way where more names are known. -/
theorem Stmt.judge_of_covers (covers : s.Covers s') {inLoop : Bool} : (stmt : Stmt) →
    (stmt.judge s inLoop).faults = [] → stmt.judge s' inLoop = stmt.judge s inLoop
  | .assign info target value, clean => by
    rw [Stmt.judge] at clean
    simp only [faults_bind, faults_pure, List.append_eq_nil_iff, and_true] at clean
    rw [Stmt.judge, Stmt.judge]
    refine bind_eq_bind (value.judge_of_covers covers clean.1) ?_
    exact bind_eq_bind (Stack.resolve_of_covers covers clean.2) rfl
  | .sequence info body, clean => by
    rw [Stmt.judge] at clean
    simp only [faults_bind, faults_pure, List.append_nil] at clean
    rw [Stmt.judge, Stmt.judge, Stmt.judgeAll_of_covers covers body clean]
  | .ifThen info cond thenBranch elseBranch, clean => by
    rw [Stmt.judge] at clean
    simp only [faults_bind, faults_pure, List.append_eq_nil_iff, and_true] at clean
    rw [Stmt.judge, Stmt.judge, cond.judge_of_covers covers clean.1,
      Stmt.judgeOption_of_covers covers thenBranch clean.2.1,
      Stmt.judgeOption_of_covers covers elseBranch clean.2.2]
  | .whileDo info cond body, clean => by
    rw [Stmt.judge] at clean
    simp only [faults_bind, faults_pure, List.append_eq_nil_iff, and_true] at clean
    rw [Stmt.judge, Stmt.judge, cond.judge_of_covers covers clean.1,
      Stmt.judgeOption_of_covers covers body clean.2]
  | .asm _ _, _ => by rw [Stmt.judge, Stmt.judge]
  | .control _ _, _ => by rw [Stmt.judge, Stmt.judge]
  | .call info callee args, clean => by
    rw [Stmt.judge] at clean
    simp only [faults_bind, faults_pure, List.append_eq_nil_iff, and_true] at clean
    rw [Stmt.judge, Stmt.judge]
    refine bind_eq_bind (Expr.judgeArgs_of_covers covers args clean.1) ?_
    exact bind_eq_bind (Stack.resolve_of_covers covers clean.2) rfl
  | .name info ref, clean => by
    rw [Stmt.judge] at clean
    simp only [faults_bind, faults_pure, List.append_nil] at clean
    rw [Stmt.judge, Stmt.judge, Stack.resolve_of_covers covers clean]

theorem Stmt.judgeOption_of_covers (covers : s.Covers s') {inLoop : Bool} : (stmt : Option Stmt) →
    (Stmt.judgeOption s inLoop stmt).faults = [] →
    Stmt.judgeOption s' inLoop stmt = Stmt.judgeOption s inLoop stmt
  | none, _ => by rw [Stmt.judgeOption, Stmt.judgeOption]
  | some stmt, clean => by
    rw [Stmt.judgeOption] at clean
    simp only [faults_bind, faults_pure, List.append_nil] at clean
    rw [Stmt.judgeOption, Stmt.judgeOption, stmt.judge_of_covers covers clean]

theorem Stmt.judgeAll_of_covers (covers : s.Covers s') {inLoop : Bool} : (body : List Stmt) →
    (Stmt.judgeAll s inLoop body).faults = [] →
    Stmt.judgeAll s' inLoop body = Stmt.judgeAll s inLoop body
  | [], _ => by rw [Stmt.judgeAll, Stmt.judgeAll]
  | stmt :: rest, clean => by
    rw [Stmt.judgeAll] at clean
    simp only [faults_bind, faults_pure, List.append_eq_nil_iff, and_true] at clean
    rw [Stmt.judgeAll, Stmt.judgeAll, stmt.judge_of_covers covers clean.1,
      Stmt.judgeAll_of_covers covers rest clean.2]

end

theorem Definition.judgeInit_of_covers (covers : s.Covers s') {init : Option Expr}
    (clean : (Definition.judgeInit s init).faults = []) :
    Definition.judgeInit s' init = Definition.judgeInit s init := by
  cases init with
  | none => rfl
  | some e =>
    rw [Definition.judgeInit] at clean
    simp only [faults_bind, faults_pure, List.append_nil] at clean
    rw [Definition.judgeInit, Definition.judgeInit, e.judge_of_covers covers clean]

end Phrases

/-! ### Phrases that declare names -/

/-- `n'` is `n` judged in a wider stack: the same phrase without faults, and the stack behind it is
as much wider. -/
structure Lexical.Noted.Widens {α : Type} (extra : NameMap) (n n' : Noted (Stack × α)) : Prop where
  faults : n'.faults = []
  phrase : n'.value.2 = n.value.2
  stack : Stack.Widens extra n.value.1 n'.value.1

section Declarations

variable {s s' : Stack} {extra : NameMap} {role : Role}

/-- A definition whose name is none of the extra ones can still declare it. -/
theorem Definition.judge_of_widens (widens : Stack.Widens extra s s') {d : Definition}
    (free : extra d.name = none) (clean : (d.judge role s).faults = []) :
    Noted.Widens extra (d.judge role s) (d.judge role s') := by
  rw [Definition.judge] at clean
  simp only [faults_bind, faults_pure, List.append_eq_nil_iff, and_true] at clean
  obtain ⟨cleanInit, settled, declared⟩ := clean
  obtain ⟨silent, behind⟩ := widens.declare free declared
  rw [Definition.judge, Definition.judge, Definition.judgeInit_of_covers widens.covers cleanInit]
  refine ⟨?_, rfl, behind⟩
  simp only [faults_bind, faults_pure, List.append_eq_nil_iff, and_true]
  exact ⟨cleanInit, settled, silent⟩

/-- Definitions in order. -/
theorem Definition.judgeAll_of_widens (widens : Stack.Widens extra s s') {defs : List Definition}
    (free : ∀ name ∈ Definition.declared defs, extra name = none)
    (clean : (Definition.judgeAll role s defs).faults = []) :
    Noted.Widens extra (Definition.judgeAll role s defs) (Definition.judgeAll role s' defs) := by
  induction defs generalizing s s' with
  | nil => exact ⟨rfl, rfl, widens⟩
  | cons d rest ih =>
    rw [Definition.judgeAll] at clean
    simp only [faults_bind, faults_pure, List.append_eq_nil_iff, and_true] at clean
    obtain ⟨freeFirst, freeRest⟩ := List.forall_mem_cons.mp free
    obtain ⟨silent, same, next⟩ := Definition.judge_of_widens widens freeFirst clean.1
    obtain ⟨silent', same', behind⟩ := ih next freeRest clean.2
    rw [Definition.judgeAll, Definition.judgeAll]
    refine ⟨?_, ?_, behind⟩
    · simp only [faults_bind, faults_pure, List.append_eq_nil_iff, and_true]
      exact ⟨silent, silent'⟩
    · simp only [value_bind, value_pure, same, same']

theorem Decls.judge_of_widens (widens : Stack.Widens extra s s') {decls : Option Decls}
    (free : ∀ name ∈ Definition.declared (Decls.definitions decls), extra name = none)
    (clean : (Decls.judge role s decls).faults = []) :
    Noted.Widens extra (Decls.judge role s decls) (Decls.judge role s' decls) := by
  cases decls with
  | none => exact ⟨rfl, rfl, widens⟩
  | some decls =>
    rw [Decls.judge] at clean
    simp only [faults_bind, faults_pure, List.append_nil] at clean
    have widened : Noted.Widens extra (Definition.judgeAll role s decls.defs)
        (Definition.judgeAll role s' decls.defs) :=
      Definition.judgeAll_of_widens widens free clean
    obtain ⟨silent, same, behind⟩ := widened
    rw [Decls.judge, Decls.judge]
    refine ⟨?_, ?_, behind⟩
    · simp only [faults_bind, faults_pure, List.append_nil, silent]
    · simp only [value_bind, value_pure, same]

/-- The maps of a routine are the same, whatever stands behind them. -/
theorem RoutineKind.enter_of_widens (widens : Stack.Widens extra s s') {line : Nat} {name : String}
    {kind : RoutineKind} (free : extra name = none) (clean : (kind.enter s line name).faults = []) :
    let entered := (kind.enter s line name).value
    let entered' := (kind.enter s' line name).value
    (kind.enter s' line name).faults = [] ∧ Stack.Widens .empty entered.1 entered'.1 ∧
      Stack.Widens extra entered.2 entered'.2 := by
  cases kind with
  | procedure =>
    rw [RoutineKind.enter] at clean
    simp only [faults_bind, faults_pure, List.append_nil] at clean
    obtain ⟨silent, behind⟩ := widens.declare free clean
    rw [RoutineKind.enter, RoutineKind.enter]
    refine ⟨?_, behind.push .empty, behind⟩
    simp only [faults_bind, faults_pure, List.append_nil, silent]
  | function params =>
    rw [RoutineKind.enter] at clean
    simp only [faults_bind, faults_pure, List.append_eq_nil_iff, and_true] at clean
    obtain ⟨cleanOwn, cleanParams, cleanName⟩ := clean
    obtain ⟨silentOwn, own⟩ := (widens.push .empty).declare rfl cleanOwn
    obtain ⟨silentParams, params⟩ := own.declareParams cleanParams
    obtain ⟨silentName, behind⟩ := widens.declare free cleanName
    rw [RoutineKind.enter, RoutineKind.enter]
    refine ⟨?_, ?_, behind⟩
    · simp only [faults_bind, faults_pure, List.append_eq_nil_iff, and_true]
      exact ⟨silentOwn, silentParams, silentName⟩
    · simp only [value_bind, value_pure, params.inner_eq]
      exact (behind.push _).push .empty

end Declarations

/-- What holds of all the names that a block declares holds of its constants, of its variables and
of its routines. -/
theorem Block.forall_mem_symbols_iff {property : String → Prop} (block : Block) :
    (∀ name ∈ block.symbols.map Prod.fst, property name) ↔
      (∀ name ∈ Definition.declared (Decls.definitions block.consts), property name) ∧
        (∀ name ∈ Definition.declared (Decls.definitions block.vars), property name) ∧
        ∀ r ∈ block.routines, property r.name := by
  rw [Block.map_fst_symbols, Block.stored, List.forall_mem_append, List.forall_mem_append,
    List.forall_mem_map, and_assoc]

mutual

/-- A block without faults is judged alike in a wider stack, unless it declares one of the names
that are there besides. -/
theorem Block.judge_of_widens {extra : NameMap} {s s' : Stack} (widens : Stack.Widens extra s s') :
    (block : Block) → (∀ name ∈ block.symbols.map Prod.fst, extra name = none) →
    (block.judge s).faults = [] → block.judge s' = block.judge s
  | { line, consts, vars, routines, body, scope }, free, clean => by
    obtain ⟨freeConsts, freeVars, freeRoutines⟩ := (Block.forall_mem_symbols_iff _).mp free
    rw [Block.judge] at clean
    simp only [faults_bind, faults_pure, List.append_eq_nil_iff, and_true] at clean
    obtain ⟨cleanConsts, cleanVars, cleanRoutines, cleanBody⟩ := clean
    obtain ⟨silent₁, same₁, next₁⟩ := Decls.judge_of_widens widens freeConsts cleanConsts
    obtain ⟨silent₂, same₂, next₂⟩ := Decls.judge_of_widens next₁ freeVars cleanVars
    obtain ⟨silent₃, same₃, next₃⟩ :=
      Routine.judgeAll_of_widens next₂ routines freeRoutines cleanRoutines
    have same₄ := Stmt.judgeOption_of_covers next₃.covers body cleanBody
    rw [Block.judge, Block.judge]
    ext1
    · simp only [value_bind, value_pure, same₁, same₂, same₃, same₄]
    · simp only [faults_bind, faults_pure, silent₁, silent₂, silent₃, same₄, cleanConsts, cleanVars,
        cleanRoutines]

/-- In the block of a routine the extra names are further out and can be declared again. -/
theorem Routine.judge_of_widens {extra : NameMap} {s s' : Stack}
    (widens : Stack.Widens extra s s') : (r : Routine) → extra r.name = none →
    (r.judge s).faults = [] → Noted.Widens extra (r.judge s) (r.judge s')
  | { line, name, kind, block, scope }, free, clean => by
    rw [Routine.judge] at clean
    simp only [faults_bind, faults_pure, List.append_eq_nil_iff, and_true] at clean
    obtain ⟨silent, inside, behind⟩ := RoutineKind.enter_of_widens widens free clean.1
    have same := Block.judge_of_widens inside block (fun _ _ => rfl) clean.2
    rw [Routine.judge, Routine.judge]
    refine ⟨?_, ?_, behind⟩
    · simp only [faults_bind, faults_pure, List.append_eq_nil_iff, and_true]
      exact ⟨silent, same ▸ clean.2⟩
    · simp only [value_bind, value_pure, same]

theorem Routine.judgeAll_of_widens {extra : NameMap} {s s' : Stack}
    (widens : Stack.Widens extra s s') : (rs : List Routine) → (∀ r ∈ rs, extra r.name = none) →
    (Routine.judgeAll s rs).faults = [] →
    Noted.Widens extra (Routine.judgeAll s rs) (Routine.judgeAll s' rs)
  | [], _, _ => by
    rw [Routine.judgeAll, Routine.judgeAll]
    exact ⟨rfl, rfl, widens⟩
  | r :: rest, free, clean => by
    rw [Routine.judgeAll] at clean
    simp only [faults_bind, faults_pure, List.append_eq_nil_iff, and_true] at clean
    obtain ⟨freeFirst, freeRest⟩ := List.forall_mem_cons.mp free
    obtain ⟨silent, same, next⟩ := Routine.judge_of_widens widens r freeFirst clean.1
    obtain ⟨silent', same', behind⟩ := Routine.judgeAll_of_widens next rest freeRest clean.2
    rw [Routine.judgeAll, Routine.judgeAll]
    refine ⟨?_, ?_, behind⟩
    · simp only [faults_bind, faults_pure, List.append_eq_nil_iff, and_true]
      exact ⟨silent, silent'⟩
    · simp only [value_bind, value_pure, same, same']

end

/-! ### Programs -/

/-- Analysis accepts just the programs that are judged to be without faults. -/
theorem exists_analyze_iff {options : Options} {program : Block} :
    (∃ p, analyze options program = .ok p) ↔ (program.judgeProgram options).faults = [] := by
  obtain ⟨-, faults⟩ := analyzeProgram_judged options program
  simp only [analyze_eq_ok_iff, faults, exists_and_left, exists_eq, and_true]

/-- An analyzed program is the judged one with scopes. -/
theorem AnalyzedProgram.unscoped_of_analyze {options : Options} {program : Block}
    {p : AnalyzedProgram} (accepted : analyze options program = .ok p) :
    p.program.unscoped = (program.judgeProgram options).value := by
  obtain ⟨-, rfl⟩ := analyze_eq_ok_iff.mp accepted
  exact (analyzeProgram_judged options program).1

theorem AnalyzedProgram.symbols_of_analyze {options : Options} {program : Block}
    {p : AnalyzedProgram} (accepted : analyze options program = .ok p) :
    p.program.symbols = program.symbols := by
  rw [← Block.symbols_unscoped, AnalyzedProgram.unscoped_of_analyze accepted]
  exact Block.symbols_judge _ program

/-- Which names are free before a program that may call the runtime. -/
theorem Options.names_eq_none_iff {name : String} :
    Options.names { prelude := true } name = none ↔
      ∀ primitive ∈ Primitive.all, primitive.name ≠ name := by
  rw [Options.names, if_pos rfl, Option.map_eq_none_iff, Primitive.find?, List.find?_eq_none]
  simp

/-- Names that no runtime function has are free when the runtime functions are there. -/
theorem Options.forall_names_eq_none_iff {names : List String} :
    (∀ name ∈ names, Options.names { prelude := true } name = none) ↔
      ∀ primitive ∈ Primitive.all, primitive.name ∉ names := by
  simp only [Options.names_eq_none_iff]
  constructor
  · exact fun free primitive isPrimitive mem => free _ mem primitive isPrimitive rfl
  · rintro none name mem primitive isPrimitive rfl
    exact none primitive isPrimitive mem

/-- Before a program the runtime functions are all the difference. -/
theorem Options.widens_names :
    Stack.Widens (Options.names { prelude := true }) ⟨Options.names { prelude := false }, []⟩
      ⟨Options.names { prelude := true }, []⟩ :=
  ⟨nofun, fun _ => rfl⟩

/-- A program that declares no runtime function in its outermost block is judged in the same way
with and without the runtime, if it has no faults without. -/
theorem Block.judgeProgram_prelude {program : Block}
    (free : ∀ name ∈ program.symbols.map Prod.fst, Options.names { prelude := true } name = none)
    (clean : (program.judgeProgram { prelude := false }).faults = []) :
    program.judgeProgram { prelude := true } = program.judgeProgram { prelude := false } :=
  Block.judge_of_widens Options.widens_names program free clean

/-- A program that gets by without the runtime functions is accepted with them if and only if its
outermost block declares none of their names. Its listing is then the same. -/
theorem check_prelude_iff {source : String} {p : AnalyzedProgram}
    (accepted : check { prelude := false } source = .ok p) :
    ((∃ q, check { prelude := true } source = .ok q) ↔
        ∀ primitive ∈ Primitive.all, primitive.name ∉ p.program.symbols.map Prod.fst) ∧
      ∀ q, check { prelude := true } source = .ok q → q.code .text = p.code .text := by
  obtain ⟨tree, parsed, -⟩ := check_eq_ok_iff.mp accepted
  have tested := Block.tested_of_parse parsed
  simp only [check_of_parse parsed] at accepted ⊢
  have clean := exists_analyze_iff.mp ⟨p, accepted⟩
  have free {q : AnalyzedProgram} (also : analyze { prelude := true } tree = .ok q) :
      ∀ name ∈ tree.symbols.map Prod.fst, Options.names { prelude := true } name = none := by
    rw [← AnalyzedProgram.symbols_of_analyze also]
    exact (AnalyzedProgram.resolved_of_analyze tested also).2
  rw [← Options.forall_names_eq_none_iff, AnalyzedProgram.symbols_of_analyze accepted]
  refine ⟨⟨fun ⟨q, also⟩ => free also, fun none => exists_analyze_iff.mpr ?_⟩, fun q also => ?_⟩
  · rw [Block.judgeProgram_prelude none clean, clean]
  · refine AnalyzedProgram.code_eq_of_relabel .unscoped ?_ .text
    rw [← Block.unscoped_eq_relabel, ← Block.unscoped_eq_relabel,
      AnalyzedProgram.unscoped_of_analyze also, AnalyzedProgram.unscoped_of_analyze accepted,
      Block.judgeProgram_prelude (free also) clean]

/-- A procedure may declare the name of a runtime function for itself. -/
theorem check_prelude_shadowed :
    let source := "var x; procedure p; var timestamp; begin timestamp := 1; x := timestamp end; p."
    ∃ p q, check { prelude := false } source = .ok p ∧ check { prelude := true } source = .ok q ∧
      (∀ primitive ∈ Primitive.all, primitive.name ∉ p.program.symbols.map Prod.fst) ∧
      q.code .text = p.code .text := by
  intro source
  have without : (check { prelude := false } source).toOption.isSome = true := by decide +kernel
  have within : (check { prelude := true } source).toOption.isSome = true := by decide +kernel
  obtain ⟨p, accepted⟩ := exists_check_of_isSome without
  obtain ⟨q, also⟩ := exists_check_of_isSome within
  obtain ⟨names, listing⟩ := check_prelude_iff accepted
  exact ⟨p, q, accepted, also, names.mp ⟨q, also⟩, listing q also⟩

end PlZero
