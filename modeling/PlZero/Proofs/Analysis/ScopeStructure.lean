import PlZero.Proofs.Analysis.Faults

/-!
The scopes that an analysis leaves behind, faulty program or not. `Block.Placed` says where the
phrases and names of the annotated tree are; here the scopes are counted, on the program as it was
written, and listed in the order they are entered. The list has every scope of the table once, so
there is no scope that belongs to no block and no function.

Main statement: `analyzeProgram_structured`.
-/

namespace PlZero

open Lexical

/-! ### Scopes in the order they are entered -/

mutual

/-- The kinds of all routines in a block, at any depth. -/
def Block.routineKinds : Block → List RoutineKind
  | { routines, .. } => Routine.routineKindsAll routines

def Routine.routineKinds : Routine → List RoutineKind
  | { kind, block, .. } => kind :: block.routineKinds

def Routine.routineKindsAll : List Routine → List RoutineKind
  | [] => []
  | r :: rest => r.routineKinds ++ Routine.routineKindsAll rest

end

mutual

/-- The scopes stored in an annotated block, as they are entered: its own and those of its
routines. -/
def Block.entered : Block → List (Option ScopeId)
  | { routines, scope, .. } => scope :: Routine.enteredAll routines

/-- The scopes of a routine: that of the parameters, for a function, and those of its block. -/
def Routine.entered : Routine → List (Option ScopeId)
  | { kind := .procedure, block, .. } => block.entered
  | { kind := .function _, block, scope, .. } => scope :: block.entered

def Routine.enteredAll : List Routine → List (Option ScopeId)
  | [] => []
  | r :: rest => r.entered ++ Routine.enteredAll rest

end

/-! ### Counting -/

/-- The scopes for routines of these kinds. -/
def scopesFor (kinds : List RoutineKind) : Nat :=
  kinds.countP (· = .procedure) + 2 * kinds.countP (· ≠ .procedure)

theorem scopesFor_append (first second : List RoutineKind) :
    scopesFor (first ++ second) = scopesFor first + scopesFor second := by
  simp only [scopesFor, List.countP_append]
  omega

mutual

/-- The scopes made for a block are those of the routines in it, whatever else it holds. -/
theorem Block.scopeCount_eq : (block : Block) → block.scopeCount = scopesFor block.routineKinds
  | { routines, .. } => by
    rw [Block.scopeCount, Block.routineKinds, Routine.scopeCountAll_eq routines]

theorem Routine.scopeCount_eq : (r : Routine) → r.scopeCount = scopesFor r.routineKinds
  | { kind := .procedure, block, .. } => by
    rw [Routine.scopeCount, Routine.routineKinds, block.scopeCount_eq]
    rw [scopesFor, scopesFor, List.countP_cons_of_pos (by simp), List.countP_cons_of_neg (by simp)]
    omega
  | { kind := .function _, block, .. } => by
    rw [Routine.scopeCount, Routine.routineKinds, block.scopeCount_eq]
    rw [scopesFor, scopesFor, List.countP_cons_of_neg (by simp), List.countP_cons_of_pos (by simp)]
    omega

theorem Routine.scopeCountAll_eq : (rs : List Routine) →
    Routine.scopeCountAll rs = scopesFor (Routine.routineKindsAll rs)
  | [] => rfl
  | r :: rest => by
    rw [Routine.scopeCountAll, Routine.routineKindsAll, r.scopeCount_eq,
      Routine.scopeCountAll_eq rest, scopesFor_append]

end

mutual

/-- What analysis fills in changes no routines. -/
theorem Block.routineKinds_bare : (block : Block) → block.bare.routineKinds = block.routineKinds
  | { routines, .. } => by
    rw [Block.bare, Block.routineKinds, Block.routineKinds, Routine.routineKinds_bareAll routines]

theorem Routine.routineKinds_bare : (r : Routine) → r.bare.routineKinds = r.routineKinds
  | { block, .. } => by
    rw [Routine.bare, Routine.routineKinds, Routine.routineKinds, block.routineKinds_bare]

theorem Routine.routineKinds_bareAll : (rs : List Routine) →
    Routine.routineKindsAll (Routine.bareAll rs) = Routine.routineKindsAll rs
  | [] => rfl
  | r :: rest => by
    rw [Routine.bareAll, Routine.routineKindsAll, Routine.routineKindsAll, r.routineKinds_bare,
      Routine.routineKinds_bareAll rest]

end

/-! ### Placed trees -/

/-- The numbers of `count` scopes from `next` on. -/
def numbered (next : ScopeId) (count : Nat) : List (Option ScopeId) :=
  (List.range' next count).map some

theorem numbered_succ (next : ScopeId) (count : Nat) :
    numbered next (1 + count) = some next :: numbered (next + 1) count := by
  rw [numbered, Nat.add_comm, List.range'_succ]
  rfl

/-- Consecutive numbers, split in two. -/
theorem numbered_append (next : ScopeId) (count further : Nat) :
    numbered next (count + further) = numbered next count ++ numbered (next + count) further := by
  rw [numbered, numbered, numbered, ← List.map_append, List.range'_append_1]

variable {t : ScopeTable}

mutual

/-- A placed block enters the scopes in the order of their numbers: its own, and then those made for
its routines. -/
theorem Block.Placed.entered {base : NameMap} {scope next : ScopeId} : {block : Block} →
    block.Placed t base scope next → block.entered = some scope :: numbered next block.scopeCount
  | { routines, .. }, placed => by
    rw [Block.Placed] at placed
    obtain ⟨own, -, -, -, inside, -⟩ := placed
    rw [Block.entered, Block.scopeCount, own, Routine.entered_of_placedAll inside]

theorem Routine.Placed.entered {outer next : ScopeId} : {r : Routine} →
    r.Placed t outer next → r.entered = numbered next r.scopeCount
  | { kind := .procedure, block, .. }, placed => by
    rw [Routine.Placed] at placed
    obtain ⟨-, -, inside⟩ := placed
    rw [Routine.entered, Routine.scopeCount, inside.entered, numbered_succ]
  | { kind := .function _, block, .. }, placed => by
    rw [Routine.Placed] at placed
    obtain ⟨own, -, -, -, inside⟩ := placed
    rw [Routine.entered, Routine.scopeCount, inside.entered, own, Nat.add_assoc 1 1,
      numbered_succ, numbered_succ]

theorem Routine.entered_of_placedAll {outer next : ScopeId} : {rs : List Routine} →
    Routine.PlacedAll t outer next rs →
    Routine.enteredAll rs = numbered next (Routine.scopeCountAll rs)
  | [], _ => rfl
  | r :: rest, placed => by
    rw [Routine.PlacedAll] at placed
    obtain ⟨first, others⟩ := placed
    rw [Routine.enteredAll, Routine.scopeCountAll, first.entered,
      Routine.entered_of_placedAll others, numbered_append]

end

/-- Each of `count` scopes from `next` on is inside one with a smaller number. -/
def ScopeTable.Nested (t : ScopeTable) (next : ScopeId) (count : Nat) : Prop :=
  ∀ i : Nat, next ≤ i → i < next + count → ∃ parent : Nat, parent < i ∧ t.parent? i = some parent

theorem ScopeTable.Nested.cons {next outer : Nat} {count : Nat} (inside : outer < next)
    (parent : t.parent? next = some outer) (others : t.Nested (next + 1) count) :
    t.Nested next (1 + count) := by
  intro i after before
  rcases Nat.eq_or_lt_of_le after with rfl | later
  · exact ⟨outer, inside, parent⟩
  · exact others i later (by omega)

theorem ScopeTable.Nested.append {next : Nat} {count further : Nat} (first : t.Nested next count)
    (others : t.Nested (next + count) further) : t.Nested next (count + further) := by
  intro i after before
  rcases Nat.lt_or_ge i (next + count) with early | late
  · exact first i after early
  · exact others i late (by omega)

mutual

/-- The scopes made for a block stand inside of ones with smaller numbers. -/
theorem Block.Placed.nested {base : NameMap} {scope next : Nat} (made : scope < next) :
    {block : Block} → block.Placed t base scope next → t.Nested next block.scopeCount
  | { routines, .. }, placed => by
    rw [Block.Placed] at placed
    rw [Block.scopeCount]
    exact Routine.nested_of_placedAll made placed.2.2.2.2.1

theorem Routine.Placed.nested {outer next : Nat} (made : outer < next) : {r : Routine} →
    r.Placed t outer next → t.Nested next r.scopeCount
  | { kind := .procedure, block, .. }, placed => by
    rw [Routine.Placed] at placed
    obtain ⟨-, parent, inside⟩ := placed
    rw [Routine.scopeCount]
    exact .cons made parent (inside.nested (Nat.lt_succ_self next))
  | { kind := .function _, block, .. }, placed => by
    rw [Routine.Placed] at placed
    obtain ⟨-, parent, -, innerParent, inside⟩ := placed
    rw [Routine.scopeCount, Nat.add_assoc 1 1]
    exact .cons made parent
      (.cons (Nat.lt_succ_self next) innerParent (inside.nested (Nat.lt_succ_self _)))

theorem Routine.nested_of_placedAll {outer next : Nat} (made : outer < next) :
    {rs : List Routine} → Routine.PlacedAll t outer next rs →
    t.Nested next (Routine.scopeCountAll rs)
  | [], _ => fun i after before => absurd before (Nat.not_lt.mpr after)
  | r :: rest, placed => by
    rw [Routine.PlacedAll] at placed
    obtain ⟨first, others⟩ := placed
    rw [Routine.scopeCountAll]
    exact .append (first.nested made)
      (Routine.nested_of_placedAll (Nat.lt_add_right _ made) others)

end

/-! ### Programs -/

theorem ScopeTable.size_foldl_insert (symbols : List (String × Symbol)) (t : ScopeTable) :
    (symbols.foldl (fun t entry => (t.insert 0 entry.1 entry.2).toOption.getD t) t).size =
      t.size := by
  induction symbols generalizing t with
  | nil => rfl
  | cons entry symbols ih =>
    rw [List.foldl_cons, ih]
    cases inserted : t.insert 0 entry.1 entry.2 with
    | ok t' => exact size_insert inserted
    | error existing => rfl

/-- A program starts with the root alone. -/
theorem Options.size_table (options : Options) : options.table.size = 1 :=
  ScopeTable.size_foldl_insert _ _

/-- The outermost scope stands in no other. -/
theorem Options.parent?_table (options : Options) : options.table.parent? 0 = none :=
  (ScopeTable.root_foldl_insert _ (t := ScopeTable.push {} none) Nat.one_pos).2.1

/-- What the outcome of an analysis says about the scopes of the program. -/
structure Report.Structured (options : Options) (program : Block) (report : Report) : Prop where
  /-- The tree is that of the program, annotated. -/
  tree : report.program.bare = program.bare
  root : report.root = 0
  /-- A scope for the program and for each procedure, and two for each function. -/
  size : report.table.size = 1 + program.routineKinds.countP (· = .procedure) +
    2 * program.routineKinds.countP (· ≠ .procedure)
  /-- They are numbered as they are entered. -/
  entered : report.program.entered = (List.range report.table.size).map some
  outermost : report.table.parent? report.root = none
  nested : ∀ i : Nat, i ≠ report.root → i < report.table.size →
    ∃ parent : Nat, parent < i ∧ report.table.parent? i = some parent
  /-- Every phrase and every name is where it belongs. -/
  placed : report.program.Placed report.table options.names report.root 1

/-- Analysis of any program leaves all of its scopes behind and no others, with every name that is
declared and with every phrase in its scope. -/
theorem analyzeProgram_structured (options : Options) (program : Block) :
    (analyzeProgram options program).Structured options program := by
  obtain ⟨placed, total⟩ := analyzeProgram_placed options program
  obtain ⟨bare, kept, -⟩ :=
    program.accounts_analyzeIn { table := options.table, scope := 0 } 0
  have tree : (analyzeProgram options program).program.bare = program.bare := bare
  have kinds : (analyzeProgram options program).program.routineKinds = program.routineKinds := by
    rw [← Block.routineKinds_bare, tree, Block.routineKinds_bare]
  rw [options.size_table] at placed total
  have numbers : (analyzeProgram options program).program.entered =
      numbered 0 (analyzeProgram options program).table.size := by
    rw [placed.entered, total, numbered_succ]
  constructor
  case tree => exact tree
  case root => rfl
  case size => rw [total, Block.scopeCount_eq, kinds, scopesFor, Nat.add_assoc]
  case entered => rw [numbers, numbered, List.range_eq_range']
  case outermost =>
    have made : (0 : Nat) < options.table.size := by rw [options.size_table]; exact Nat.one_pos
    exact (kept.parent 0 made).trans options.parent?_table
  case nested =>
    intro i inner made
    rw [total] at made
    exact placed.nested Nat.one_pos i (Nat.pos_of_ne_zero inner) made
  case placed => exact placed

end PlZero
