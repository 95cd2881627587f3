import PlZero.Proofs.Analysis.Declared
import PlZero.Proofs.Analysis.Placement

/-!
Looking names up again. A phrase keeps the number of the scope it stands in, and a name that is
looked up there, when the analysis is over, is found; but it need not be found as what the analysis
took it for.

There are two ways to read a program. Analysis takes a name for what is declared before it. The
finished table gives what is declared anywhere in the blocks around it, as though a block began with
all that it declares. Every use of a name comes with both (`Use`), and the two are told apart only
by a name that is declared again further in and behind its use.

Main statement: `AnalyzedProgram.uses_of_check`.
-/

namespace PlZero

open Lexical

/-! ### Uses of names -/

mutual

/-- The names an expression uses, each with the scope stored beside it. -/
def Expr.references : Expr → List (Option ScopeId × Reference)
  | .odd _ operand => operand.references
  | .binary _ _ lhs rhs => lhs.references ++ rhs.references
  | .call info callee args => (info.scope, callee) :: Expr.referencesAll args
  | .name info ref => [(info.scope, ref)]
  | .number _ _ => []

def Expr.referencesAll : List Expr → List (Option ScopeId × Reference)
  | [] => []
  | e :: rest => e.references ++ Expr.referencesAll rest

end

mutual

def Stmt.references : Stmt → List (Option ScopeId × Reference)
  | .assign info target value => (info.scope, target) :: value.references
  | .sequence _ body => Stmt.referencesAll body
  | .ifThen _ cond thenBranch elseBranch =>
    cond.references ++ Stmt.referencesOption thenBranch ++ Stmt.referencesOption elseBranch
  | .whileDo _ cond body => cond.references ++ Stmt.referencesOption body
  | .asm _ _ | .control _ _ => []
  | .call info callee args => (info.scope, callee) :: Expr.referencesAll args
  | .name info ref => [(info.scope, ref)]

def Stmt.referencesOption : Option Stmt → List (Option ScopeId × Reference)
  | none => []
  | some s => s.references

def Stmt.referencesAll : List Stmt → List (Option ScopeId × Reference)
  | [] => []
  | s :: rest => s.references ++ Stmt.referencesAll rest

end

/-- A use of a name: the scope stored in the phrase that holds it, and what names stand for there,
by what is declared before it and by all that is declared in the blocks around it. -/
structure Use where
  scope : Option ScopeId
  ref : Reference
  before : NameMap
  throughout : NameMap

/-- Uses at one point of a program. -/
def usesAt (before throughout : NameMap) (references : List (Option ScopeId × Reference)) :
    List Use :=
  references.map fun x => { scope := x.1, ref := x.2, before, throughout }

/-- The uses in definitions of the given role: each sees those before it. -/
def Definition.uses (role : Role) (before throughout : NameMap) : List Definition → List Use
  | [] => []
  | d :: rest =>
    usesAt before throughout (d.init.toList.flatMap Expr.references) ++
      Definition.uses role (declareAll before [(d.name, { role })]) throughout rest

mutual

/-- The uses in a block, where names outside it stand for what `before` and `around` say. -/
def Block.uses (before around : NameMap) : Block → List Use
  | { consts, vars, routines, body, .. } =>
    let constants := Definition.symbols .const (Decls.definitions consts)
    let values := constants ++ Definition.symbols .var (Decls.definitions vars)
    let all := values ++ Routine.symbols routines
    let throughout := declareAll around all
    Definition.uses .const before throughout (Decls.definitions consts) ++
      Definition.uses .var (declareAll before constants) throughout (Decls.definitions vars) ++
      Routine.usesAll (declareAll before values) throughout routines ++
      usesAt (declareAll before all) throughout (Stmt.referencesOption body)

def Routine.uses (before throughout : NameMap) : Routine → List Use
  | { name, kind, block, .. } =>
    block.uses (declareAll before (kind.symbolsInside name))
      (declareAll throughout (kind.symbolsInside name))

/-- The uses in routines: each sees those before it. -/
def Routine.usesAll (before throughout : NameMap) : List Routine → List Use
  | [] => []
  | r :: rest =>
    r.uses before throughout ++
      Routine.usesAll (declareAll before [(r.name, r.kind.symbol)]) throughout rest

end

/-- The name is found, from the stored scope, as what its role says. -/
def Use.FindsRole (t : ScopeTable) (u : Use) : Prop :=
  ∃ scope symbol, u.scope = some scope ∧ t.resolve? scope u.ref.name = some symbol ∧
    symbol.role = u.ref.role

/-- The role is that of what is declared before; from the stored scope the table gives what is
declared throughout. -/
structure Use.Found (t : ScopeTable) (u : Use) : Prop where
  recorded : ∃ symbol, u.before u.ref.name = some symbol ∧ symbol.role = u.ref.role
  found : ∃ scope symbol, u.scope = some scope ∧ u.throughout u.ref.name = some symbol ∧
    t.resolve? scope u.ref.name = some symbol

/-- Whether the finished table gives a name the role it had when it was used. -/
theorem Use.Found.findsRole_iff {t : ScopeTable} {u : Use} (found : u.Found t) :
    u.FindsRole t ↔
      (u.throughout u.ref.name).map (·.role) = (u.before u.ref.name).map (·.role) := by
  obtain ⟨⟨earlier, before, role⟩, scope, symbol, stored, throughout, resolves⟩ := found
  rw [before, throughout, Option.map_some, Option.map_some, Option.some_inj, role]
  constructor
  · rintro ⟨scope', symbol', stored', resolves', role'⟩
    obtain rfl : scope = scope' := Option.some.inj (stored.symm.trans stored')
    obtain rfl : symbol = symbol' := Option.some.inj (resolves.symm.trans resolves')
    exact role'
  · intro role'
    exact ⟨scope, symbol, stored, resolves, role'⟩

/-! ### Names before and throughout -/

section

variable {before throughout names : NameMap} {entries : List (String × Symbol)}

/-- Of entries with distinct names, the only one of a name counts. -/
theorem declareAll_eq_lookup_or (distinct : (entries.map Prod.fst).Nodup) (name : String) :
    declareAll names entries name = (entries.lookup name).or (names name) := by
  induction entries generalizing names with
  | nil => rfl
  | cons entry entries ih =>
    obtain ⟨notLater, distinct⟩ := List.nodup_cons.mp distinct
    rw [declareAll_cons, List.lookup_cons]
    by_cases same : name = entry.1
    · subst same
      rw [declareAll_of_not_mem notLater, Function.update_self, beq_self_eq_true]
      rfl
    · rw [ih distinct, Function.update_of_ne same, beq_false_of_ne same]

/-- With distinct names, each stands for what it was declared as. -/
theorem declareAll_of_mem (names : NameMap) (distinct : (entries.map Prod.fst).Nodup)
    {entry : String × Symbol} (mem : entry ∈ entries) :
    declareAll names entries entry.1 = some entry.2 := by
  rw [declareAll_eq_lookup_or distinct]
  induction entries with
  | nil => cases mem
  | cons first entries ih =>
    obtain ⟨notLater, distinct⟩ := List.nodup_cons.mp distinct
    rw [List.lookup_cons]
    rcases List.mem_cons.mp mem with rfl | mem
    · rw [beq_self_eq_true]
      rfl
    · have other : entry.1 ≠ first.1 := fun same =>
        notLater (List.mem_map.mpr ⟨entry, mem, same⟩)
      rw [beq_false_of_ne other]
      exact ih distinct mem

/-- Whatever is declared before is declared throughout, if not always as the same. -/
def Covers (before throughout : NameMap) : Prop :=
  ∀ name, (before name).isSome = true → (throughout name).isSome = true

/-- Names that are known throughout may be declared before. -/
theorem Covers.declare (covers : Covers before throughout)
    (declared : ∀ entry ∈ entries, (throughout entry.1).isSome = true) :
    Covers (declareAll before entries) throughout := by
  induction entries generalizing before with
  | nil => exact covers
  | cons entry entries ih =>
    obtain ⟨first, others⟩ := List.forall_mem_cons.mp declared
    rw [declareAll_cons]
    refine ih (fun name isSome => ?_) others
    by_cases same : name = entry.1
    · rw [same]
      exact first
    · rw [Function.update_of_ne same] at isSome
      exact covers name isSome

/-- Knowing more throughout does no harm. -/
theorem Covers.around (covers : Covers before throughout) (entries : List (String × Symbol)) :
    Covers before (declareAll throughout entries) := by
  intro name isSome
  by_cases declared : name ∈ entries.map Prod.fst
  · exact isSome_declareAll _ declared
  · rw [declareAll_of_not_mem declared]
    exact covers name isSome

theorem Covers.both (covers : Covers before throughout) (entries : List (String × Symbol)) :
    Covers (declareAll before entries) (declareAll throughout entries) :=
  (covers.around entries).declare fun _ mem => isSome_declareAll _ (List.mem_map_of_mem mem)

/-- Whatever is declared before is declared throughout as the same. -/
def Agree (before throughout : NameMap) : Prop :=
  ∀ name symbol, before name = some symbol → throughout name = some symbol

theorem Agree.declare (agree : Agree before throughout)
    (declared : ∀ entry ∈ entries, throughout entry.1 = some entry.2) :
    Agree (declareAll before entries) throughout := by
  induction entries generalizing before with
  | nil => exact agree
  | cons entry entries ih =>
    obtain ⟨first, others⟩ := List.forall_mem_cons.mp declared
    rw [declareAll_cons]
    refine ih (fun name symbol stands => ?_) others
    by_cases same : name = entry.1
    · subst same
      rw [Function.update_self] at stands
      rw [← stands]
      exact first
    · rw [Function.update_of_ne same] at stands
      exact agree name symbol stands

/-- The same declarations on both sides. -/
theorem Agree.both (agree : Agree before throughout) (entries : List (String × Symbol)) :
    Agree (declareAll before entries) (declareAll throughout entries) := by
  induction entries generalizing before throughout with
  | nil => exact agree
  | cons entry entries ih =>
    rw [declareAll_cons, declareAll_cons]
    refine ih fun name symbol stands => ?_
    rw [Function.update_apply] at stands ⊢
    split at stands
    · next same => rw [if_pos same, stands]
    · next other => rw [if_neg other, agree name symbol stands]

/-- Names that are new make no difference to those before. -/
theorem Agree.around (agree : Agree before throughout)
    (new : ∀ name ∈ entries.map Prod.fst, before name = none) :
    Agree before (declareAll throughout entries) := by
  intro name symbol stands
  have other : name ∉ entries.map Prod.fst := fun mem => by
    rw [new name mem] at stands
    cases stands
  rw [declareAll_of_not_mem other]
  exact agree name symbol stands

end

/-! ### What the table gives -/

/-- A scope is searched first, and then the one around it. -/
theorem ScopeTable.resolve?_of_parent {t : ScopeTable} {scope outer : ScopeId}
    (parent : t.parent? scope = some outer) (inside : outer < scope) (name : String) :
    t.resolve? scope name = (t.find? scope name).or (t.resolve? outer name) := by
  rw [resolve?, parent]
  cases t.find? scope name with
  | some symbol => rfl
  | none => simp only [inside, if_true, Option.none_or]

theorem ScopeTable.resolve?_zero (t : ScopeTable) (name : String) :
    t.resolve? 0 name = t.find? 0 name := by
  rw [resolve?]
  cases t.find? 0 name with
  | some symbol => rfl
  | none => cases t.parent? 0 <;> rfl

section

variable {t : ScopeTable} {scope next : ScopeId} {before throughout around base : NameMap}

/-- What is known of a reference: its phrase carries the scope, and its role is that of what is
declared before. -/
def ReferenceIn (scope : ScopeId) (before : NameMap) (x : Option ScopeId × Reference) : Prop :=
  x.1 = some scope ∧ ∃ symbol, before x.2.name = some symbol ∧ symbol.role = x.2.role

theorem Reference.Takes.referenceIn {ref : Reference} {count : Nat} {stored : Option ScopeId}
    (takes : ref.Takes before count) (stands : stored = some scope) :
    ReferenceIn scope before (stored, ref) := by
  obtain ⟨symbol, known, role, _⟩ := takes
  exact ⟨stands, symbol, known, role⟩

theorem Expr.referencesAll_eq (args : List Expr) :
    Expr.referencesAll args = args.flatMap Expr.references := by
  induction args with
  | nil => rfl
  | cons e rest ih => rw [Expr.referencesAll, List.flatMap_cons, ih]

theorem Stmt.referencesAll_eq (body : List Stmt) :
    Stmt.referencesAll body = body.flatMap Stmt.references := by
  induction body with
  | nil => rfl
  | cons s rest ih => rw [Stmt.referencesAll, List.flatMap_cons, ih]

/-- Each reference in a resolved expression carries its scope and is known there. -/
theorem Expr.Resolved.referencesIn {e : Expr} (resolved : e.Resolved before)
    (stands : e.StandsIn scope) : ∀ x ∈ e.references, ReferenceIn scope before x := by
  induction resolved with
  | odd _ ih =>
    cases stands with
    | odd _ operand =>
      rw [Expr.references]
      exact ih operand
  | binary _ _ left right =>
    cases stands with
    | binary _ lhs rhs =>
      rw [Expr.references]
      exact List.forall_mem_append.mpr ⟨left lhs, right rhs⟩
  | call takes _ _ ih =>
    cases stands with
    | call own args =>
      rw [Expr.references, Expr.referencesAll_eq]
      refine List.forall_mem_cons.mpr ⟨takes.referenceIn own, fun x mem => ?_⟩
      obtain ⟨e, isArg, mem⟩ := List.mem_flatMap.mp mem
      exact ih e isArg (args e isArg) x mem
  | name takes _ =>
    rw [Expr.references]
    exact List.forall_mem_singleton.mpr (takes.referenceIn stands.own)
  | number =>
    rw [Expr.references]
    nofun

theorem Expr.referencesIn_all {args : List Expr} (resolved : ∀ e ∈ args, e.Resolved before)
    (stand : ∀ e ∈ args, e.StandsIn scope) :
    ∀ x ∈ Expr.referencesAll args, ReferenceIn scope before x := by
  intro x mem
  rw [Expr.referencesAll_eq] at mem
  obtain ⟨e, isArg, mem⟩ := List.mem_flatMap.mp mem
  exact (resolved e isArg).referencesIn (stand e isArg) x mem

theorem Stmt.referencesIn_option {part : Option Stmt}
    (each : ∀ s ∈ part, s.StandsIn scope → ∀ x ∈ s.references, ReferenceIn scope before x)
    (stand : ∀ s ∈ part, s.StandsIn scope) :
    ∀ x ∈ Stmt.referencesOption part, ReferenceIn scope before x := by
  cases part with
  | none =>
    rw [Stmt.referencesOption]
    nofun
  | some s =>
    rw [Stmt.referencesOption]
    exact each s rfl (stand s rfl)

/-- Each reference in a resolved statement carries its scope and is known there. -/
theorem Stmt.Resolved.referencesIn {s : Stmt} {inLoop : Bool} (resolved : s.Resolved before inLoop)
    (stands : s.StandsIn scope) : ∀ x ∈ s.references, ReferenceIn scope before x := by
  induction resolved with
  | assign takes _ value =>
    cases stands with
    | assign own inValue =>
      rw [Stmt.references]
      exact List.forall_mem_cons.mpr ⟨takes.referenceIn own, value.referencesIn inValue⟩
  | sequence _ ih =>
    cases stands with
    | sequence _ each =>
      intro x mem
      rw [Stmt.references, Stmt.referencesAll_eq] at mem
      obtain ⟨s, among, mem⟩ := List.mem_flatMap.mp mem
      exact ih s among (each s among) x mem
  | ifThen cond _ _ inThen inElse =>
    cases stands with
    | ifThen _ test thenStands elseStands =>
      rw [Stmt.references]
      simp only [List.forall_mem_append]
      exact ⟨⟨cond.referencesIn test, Stmt.referencesIn_option inThen thenStands⟩,
        Stmt.referencesIn_option inElse elseStands⟩
  | whileDo cond _ inBody =>
    cases stands with
    | whileDo _ test bodyStands =>
      rw [Stmt.references]
      exact List.forall_mem_append.mpr
        ⟨cond.referencesIn test, Stmt.referencesIn_option inBody bodyStands⟩
  | asm | control =>
    rw [Stmt.references]
    nofun
  | call takes _ args =>
    cases stands with
    | call own argsStand =>
      rw [Stmt.references]
      exact List.forall_mem_cons.mpr
        ⟨takes.referenceIn own, Expr.referencesIn_all args argsStand⟩
  | name takes _ =>
    rw [Stmt.references]
    exact List.forall_mem_singleton.mpr (takes.referenceIn stands.own)

/-- A scope in which names stand for what is declared throughout, as far as anything was declared
before. -/
structure Finishes (t : ScopeTable) (scope : ScopeId) (before throughout : NameMap) : Prop where
  resolve : ∀ name, t.resolve? scope name = throughout name
  covers : Covers before throughout

/-- References that are known when they are used are found in the finished table. -/
theorem Finishes.usesAt (finishes : Finishes t scope before throughout)
    {references : List (Option ScopeId × Reference)}
    (known : ∀ x ∈ references, ReferenceIn scope before x) :
    ∀ u ∈ usesAt before throughout references, u.Found t := by
  intro u mem
  obtain ⟨x, among, rfl⟩ := List.mem_map.mp mem
  obtain ⟨stored, symbol, stands, role⟩ := known x among
  obtain ⟨found, throughout⟩ := Option.isSome_iff_exists.mp
    (finishes.covers x.2.name (Option.isSome_of_eq_some stands))
  exact ⟨⟨symbol, stands, role⟩, scope, found, stored, throughout,
    (finishes.resolve x.2.name).trans throughout⟩

/-- The names used in initial values are found in the finished table. -/
theorem Definition.found_uses {role : Role} {defs : List Definition}
    (finishes : Finishes t scope before throughout)
    (declared : ∀ entry ∈ Definition.symbols role defs, (throughout entry.1).isSome = true)
    (resolved : Definition.Resolved role before defs) (stand : Definition.StandIn scope defs) :
    ∀ u ∈ Definition.uses role before throughout defs, u.Found t := by
  induction defs generalizing before with
  | nil => nofun
  | cons d rest ih =>
    obtain ⟨first, others⟩ := List.forall_mem_cons.mp declared
    obtain ⟨firstStands, othersStand⟩ := List.forall_mem_cons.mp stand
    obtain ⟨_, init, resolved⟩ := resolved
    have known : ∀ x ∈ d.init.toList.flatMap Expr.references, ReferenceIn scope before x := by
      intro x mem
      obtain ⟨e, isInit, mem⟩ := List.mem_flatMap.mp mem
      have isInit := Option.mem_toList.mp isInit
      exact (init e isInit).referencesIn (firstStands e isInit) x mem
    refine List.forall_mem_append.mpr ⟨finishes.usesAt known, ?_⟩
    have covers := finishes.covers.declare (List.forall_mem_singleton.mpr first)
    exact ih ⟨finishes.resolve, covers⟩ others resolved othersStand

/-- In the scope of a block the finished table has what was there before and what the block
declares. -/
theorem Block.Placed.find? {block : Block} (placed : block.Placed t base scope next)
    (name : String) : t.find? scope name = (base name).or (block.symbols.lookup name) := by
  obtain ⟨line, consts, vars, routines, body, own⟩ := block
  rw [Block.Placed] at placed
  exact placed.2.1 name

/-- A block in a scope of its own hides what is around it. -/
theorem Block.Placed.resolve? {block : Block} {outer : ScopeId}
    (placed : block.Placed t .empty scope next) (parent : t.parent? scope = some outer)
    (inside : outer < scope) (distinct : (block.symbols.map Prod.fst).Nodup)
    (resolve : ∀ name, t.resolve? outer name = around name) (name : String) :
    t.resolve? scope name = declareAll around block.symbols name := by
  rw [ScopeTable.resolve?_of_parent parent inside, placed.find?, resolve,
    declareAll_eq_lookup_or distinct]
  rfl

mutual

/-- In a resolved block that is placed in the table, every use is found. -/
theorem Block.found_uses {before around base : NameMap} {scope next : ScopeId} :
    (block : Block) → block.Placed t base scope next → scope < next → block.Resolved before →
    (∀ name, t.resolve? scope name = declareAll around block.symbols name) →
    Covers before around → ∀ u ∈ block.uses before around, u.Found t
  | { consts, vars, routines, body, .. }, placed, inside, resolved, resolve, covers => by
    rw [Block.Placed] at placed
    rw [Block.Resolved] at resolved
    obtain ⟨_, _, ⟨_, inConsts⟩, ⟨_, inVars⟩, inRoutines, inBody⟩ := placed
    obtain ⟨distinct, constsResolved, varsResolved, routinesResolved, bodyResolved⟩ := resolved
    -- whatever the block has declared so far, it declares throughout
    have declared := fun entry (mem : entry ∈ _) =>
      Option.isSome_of_eq_some (declareAll_of_mem around distinct mem)
    have finishes {entries : List (String × Symbol)} (sub : entries ⊆ _) :
        Finishes t scope (declareAll before entries) (declareAll around _) :=
      ⟨resolve, (covers.around _).declare fun entry mem => declared entry (sub mem)⟩
    have constants := fun entry mem => declared entry
      (List.mem_append_left _ (List.mem_append_left _ mem))
    have values := fun entry mem => declared entry
      (List.mem_append_left _ (List.mem_append_right _ mem))
    rw [Block.uses]
    simp only [List.forall_mem_append]
    refine ⟨⟨⟨?_, ?_⟩, ?_⟩, ?_⟩
    · exact Definition.found_uses (finishes (List.nil_subset _)) constants constsResolved inConsts
    · refine Definition.found_uses (finishes ?_) values varsResolved inVars
      exact fun entry mem => List.mem_append_left _ (List.mem_append_left _ mem)
    · refine Routine.found_usesAll routines inRoutines inside routinesResolved
        (finishes (List.subset_append_left _ _)) fun r mem => ?_
      exact declareAll_of_mem around distinct
        (List.mem_append_right _ (List.mem_map.mpr ⟨r, mem, rfl⟩))
    · refine (finishes (List.Subset.refl _)).usesAt (Stmt.referencesIn_option ?_ inBody)
      exact fun s mem => (bodyResolved s mem).referencesIn

/-- The names used inside of a routine are found, through the scopes that the routine adds. -/
theorem Routine.found_uses {before throughout : NameMap} {outer next : ScopeId} :
    (r : Routine) → r.Placed t outer next → outer < next → r.Resolved before →
    Finishes t outer before throughout → throughout r.name = some r.kind.symbol →
    ∀ u ∈ r.uses before throughout, u.Found t
  | { name, kind := .procedure, block, .. }, placed, inside, resolved, finishes, known => by
    rw [Routine.Placed] at placed
    rw [Routine.Resolved] at resolved
    rw [Routine.uses]
    obtain ⟨_, parent, placed⟩ := placed
    have same : declareAll throughout (RoutineKind.procedure.symbolsInside name) = throughout :=
      Function.update_eq_self_iff.mpr known.symm
    refine Block.found_uses block placed (Nat.lt_succ_self next) resolved.2
      (placed.resolve? parent inside resolved.2.nodup_symbols ?_) (finishes.covers.both _)
    rw [same]
    exact finishes.resolve
  | { name, kind := .function params, block, .. }, placed, inside, resolved, finishes, _ => by
    rw [Routine.Placed] at placed
    rw [Routine.Resolved] at resolved
    rw [Routine.uses]
    obtain ⟨_, ownParent, ownNames, parent, placed⟩ := placed
    refine Block.found_uses block placed (Nat.lt_succ_self _) resolved.2
      (placed.resolve? parent (Nat.lt_succ_self next) resolved.2.nodup_symbols fun other => ?_)
      (finishes.covers.both _)
    rw [ScopeTable.resolve?_of_parent ownParent inside, ownNames, finishes.resolve,
      declareAll_eq_lookup_or resolved.1]

theorem Routine.found_usesAll {before throughout : NameMap} {outer next : ScopeId} :
    (rs : List Routine) → Routine.PlacedAll t outer next rs → outer < next →
    Routine.ResolvedAll before rs → Finishes t outer before throughout →
    (∀ r ∈ rs, throughout r.name = some r.kind.symbol) →
    ∀ u ∈ Routine.usesAll before throughout rs, u.Found t
  | [], _, _, _, _, _ => by
    rw [Routine.usesAll]
    nofun
  | r :: rest, placed, inside, resolved, finishes, known => by
    rw [Routine.PlacedAll] at placed
    rw [Routine.ResolvedAll] at resolved
    obtain ⟨first, others⟩ := List.forall_mem_cons.mp known
    rw [Routine.usesAll]
    refine List.forall_mem_append.mpr
      ⟨Routine.found_uses r placed.1 inside resolved.1 finishes first, ?_⟩
    have covers : Covers (declareAll before [(r.name, r.kind.symbol)]) throughout :=
      finishes.covers.declare (List.forall_mem_singleton.mpr (Option.isSome_of_eq_some first))
    exact Routine.found_usesAll rest placed.2 (Nat.lt_add_right _ inside) resolved.2
      ⟨finishes.resolve, covers⟩ others

end

end

/-! ### Names that are declared once -/

theorem Routine.names_sublist : (rs : List Routine) →
    (rs.map (·.name)).Sublist (Routine.declaredAll rs)
  | [] => by
    rw [Routine.declaredAll]
    exact List.Sublist.slnil
  | { name, kind, block, .. } :: rest => by
    rw [Routine.declaredAll, Routine.declared, List.map_cons, List.cons_append]
    exact ((Routine.names_sublist rest).trans (List.sublist_append_right _ _)).cons_cons _

/-- What a block declares in its own scope is part of what it declares. -/
theorem Block.symbols_sublist (block : Block) :
    (block.symbols.map Prod.fst).Sublist block.declared := by
  rw [Block.map_fst_symbols, Block.declared_eq]
  exact (List.Sublist.refl _).append (Routine.names_sublist block.routines)

theorem RoutineKind.map_fst_symbolsInside (kind : RoutineKind) (name : String) :
    (kind.symbolsInside name).map Prod.fst = name :: kind.params := by
  cases kind <;> simp [RoutineKind.symbolsInside, RoutineKind.params, Function.comp_def]

section

variable {before throughout : NameMap}

theorem agree_usesAt (agree : Agree before throughout)
    (references : List (Option ScopeId × Reference)) :
    ∀ u ∈ usesAt before throughout references, Agree u.before u.throughout := by
  intro u mem
  obtain ⟨x, _, rfl⟩ := List.mem_map.mp mem
  exact agree

/-- If no name is declared twice, initial values see the same before and throughout. -/
theorem Definition.agree_uses {role : Role} {defs : List Definition}
    (agree : Agree before throughout)
    (declared : ∀ entry ∈ Definition.symbols role defs, throughout entry.1 = some entry.2) :
    ∀ u ∈ Definition.uses role before throughout defs, Agree u.before u.throughout := by
  induction defs generalizing before with
  | nil => nofun
  | cons d rest ih =>
    obtain ⟨first, others⟩ := List.forall_mem_cons.mp declared
    refine List.forall_mem_append.mpr ⟨agree_usesAt agree _, ?_⟩
    exact ih (agree.declare (List.forall_mem_singleton.mpr first)) others

mutual

/-- If names are declared once, those that are declared before are the same throughout. -/
theorem Block.agree_uses {before around : NameMap} :
    (block : Block) → block.declared.Nodup → (∀ name ∈ block.declared, before name = none) →
    Agree before around → ∀ u ∈ block.uses before around, Agree u.before u.throughout
  | { line, consts, vars, routines, body, scope }, once, new, agree => by
    have sublist := Block.symbols_sublist { line, consts, vars, routines, body, scope }
    have distinct := once.sublist sublist
    have outside := agree.around fun name mem => new name (sublist.subset mem)
    have declared := fun entry (mem : entry ∈ _) => declareAll_of_mem around distinct mem
    have agrees {entries : List (String × Symbol)} (sub : entries ⊆ _) :
        Agree (declareAll before entries) (declareAll around _) :=
      outside.declare fun entry mem => declared entry (sub mem)
    rw [Block.declared] at once new
    obtain ⟨_, onceRoutines, apart⟩ := List.nodup_append.mp once
    rw [Block.uses]
    simp only [List.forall_mem_append]
    refine ⟨⟨⟨?_, ?_⟩, ?_⟩, ?_⟩
    · refine Definition.agree_uses (agrees (List.nil_subset _)) fun entry mem => declared entry ?_
      exact List.mem_append_left _ (List.mem_append_left _ mem)
    · refine Definition.agree_uses (agrees ?_) fun entry mem => declared entry ?_
      · exact fun entry mem => List.mem_append_left _ (List.mem_append_left _ mem)
      · exact List.mem_append_left _ (List.mem_append_right _ mem)
    · refine Routine.agree_usesAll routines onceRoutines (fun name mem => ?_)
        (agrees (List.subset_append_left _ _)) fun r mem => ?_
      · rw [declareAll_of_not_mem, new name (List.mem_append_right _ mem)]
        intro earlier
        rw [List.map_append, Definition.map_fst_symbols, Definition.map_fst_symbols] at earlier
        exact apart name earlier name mem rfl
      · exact declared (r.name, r.kind.symbol)
          (List.mem_append_right _ (List.mem_map.mpr ⟨r, mem, rfl⟩))
    · exact agree_usesAt (agrees (List.Subset.refl _)) _

/-- If no name is declared twice, the uses in a routine see the same before and throughout. -/
theorem Routine.agree_uses {before throughout : NameMap} :
    (r : Routine) → r.declared.Nodup → (∀ name ∈ r.declared, before name = none) →
    Agree before throughout → ∀ u ∈ r.uses before throughout, Agree u.before u.throughout
  | { name, kind, block, .. }, once, new, agree => by
    rw [Routine.declared, ← List.cons_append, ← kind.map_fst_symbolsInside name] at once new
    obtain ⟨_, onceBlock, apart⟩ := List.nodup_append.mp once
    rw [Routine.uses]
    refine Block.agree_uses block onceBlock (fun other mem => ?_) (agree.both _)
    rw [declareAll_of_not_mem fun own => apart other own other mem rfl,
      new other (List.mem_append_right _ mem)]

theorem Routine.agree_usesAll {before throughout : NameMap} :
    (rs : List Routine) → (Routine.declaredAll rs).Nodup →
    (∀ name ∈ Routine.declaredAll rs, before name = none) → Agree before throughout →
    (∀ r ∈ rs, throughout r.name = some r.kind.symbol) →
    ∀ u ∈ Routine.usesAll before throughout rs, Agree u.before u.throughout
  | [], _, _, _, _ => by
    rw [Routine.usesAll]
    nofun
  | r :: rest, once, new, agree, known => by
    rw [Routine.declaredAll] at once new
    obtain ⟨onceFirst, onceOthers, apart⟩ := List.nodup_append.mp once
    obtain ⟨first, others⟩ := List.forall_mem_cons.mp known
    have own : r.name ∈ r.declared := by
      obtain ⟨line, name, kind, block, scope⟩ := r
      rw [Routine.declared]
      exact List.mem_cons_self
    rw [Routine.usesAll]
    refine List.forall_mem_append.mpr ⟨Routine.agree_uses r onceFirst
      (fun name mem => new name (List.mem_append_left _ mem)) agree, ?_⟩
    refine Routine.agree_usesAll rest onceOthers (fun name mem => ?_)
      (agree.declare (List.forall_mem_singleton.mpr first)) others
    have other : name ≠ r.name := fun same => apart r.name own name mem same.symm
    rw [declareAll_of_not_mem (by simpa using other), new name (List.mem_append_right _ mem)]

end

end

/-! ### Programs -/

/-- An accepted program is placed in its own table. -/
theorem AnalyzedProgram.placed_of_check {options : Options} {source : String} {p : AnalyzedProgram}
    (accepted : check options source = .ok p) :
    p.program.Placed p.table options.names 0 options.table.size := by
  obtain ⟨tree, -, analyzed⟩ := check_eq_ok_iff.mp accepted
  obtain ⟨-, rfl⟩ := analyze_eq_ok_iff.mp analyzed
  exact (analyzeProgram_placed options tree).1

/-- From the outermost scope, names stand for what a program declares anywhere in it. -/
theorem AnalyzedProgram.resolve?_of_check {options : Options} {source : String}
    {p : AnalyzedProgram} (accepted : check options source = .ok p) (name : String) :
    p.table.resolve? 0 name = declareAll options.names p.program.symbols name := by
  obtain ⟨resolved, free⟩ := AnalyzedProgram.resolved_of_check accepted
  rw [ScopeTable.resolve?_zero, (AnalyzedProgram.placed_of_check accepted).find?,
    declareAll_eq_lookup_or resolved.nodup_symbols]
  cases declared : p.program.symbols.lookup name with
  | none => exact Option.or_none
  | some symbol =>
    have mem : name ∈ p.program.symbols.map Prod.fst := by
      by_contra other
      have none : p.program.symbols.lookup name = none := by
        rw [List.lookup_eq_none_iff]
        intro entry among
        exact bne_iff_ne.mpr fun same => other (List.mem_map.mpr ⟨entry, among, same.symm⟩)
      rw [none] at declared
      cases declared
    rw [free name mem]
    rfl

/-- The names used in the statement of a block are used in the block. -/
theorem Block.usesAt_body_subset {before around : NameMap} (block : Block) :
    usesAt (declareAll before block.symbols) (declareAll around block.symbols)
      (Stmt.referencesOption block.body) ⊆ block.uses before around := by
  obtain ⟨line, consts, vars, routines, body, scope⟩ := block
  rw [Block.uses]
  exact List.subset_append_right _ _

/-- How names are found from the scopes stored beside them. The role of a name is that of what is
declared before it, and the table gives what is declared throughout the blocks around it; so the
table gives that role exactly where the two agree. They do so in the statement of the program, and
everywhere if no name is declared twice. -/
structure AnalyzedProgram.UsesFound (options : Options) (p : AnalyzedProgram) : Prop where
  found : ∀ u ∈ p.program.uses options.names options.names, u.Found p.table
  role : ∀ u ∈ p.program.uses options.names options.names, u.FindsRole p.table ↔
    (u.throughout u.ref.name).map (·.role) = (u.before u.ref.name).map (·.role)
  body : ∀ x ∈ Stmt.referencesOption p.program.body, ∃ scope symbol, x.1 = some scope ∧
    p.table.resolve? scope x.2.name = some symbol ∧ symbol.role = x.2.role
  once : p.program.declared.Nodup → (∀ name ∈ p.program.declared, options.names name = none) →
    ∀ u ∈ p.program.uses options.names options.names, u.FindsRole p.table

/-- In an accepted program every name is found again from the scope stored beside it, as what is
declared throughout the blocks around it. -/
theorem AnalyzedProgram.uses_of_check {options : Options} {source : String} {p : AnalyzedProgram}
    (accepted : check options source = .ok p) : p.UsesFound options := by
  have resolved := (AnalyzedProgram.resolved_of_check accepted).1
  have covers : Covers options.names options.names := fun _ isSome => isSome
  have found := Block.found_uses p.program (AnalyzedProgram.placed_of_check accepted)
    options.shows_table.made resolved (AnalyzedProgram.resolve?_of_check accepted) covers
  have role := fun u mem => (found u mem).findsRole_iff
  constructor
  case found => exact found
  case role => exact role
  case body =>
    intro x mem
    exact (role _ (Block.usesAt_body_subset p.program (List.mem_map_of_mem mem))).mpr rfl
  case once =>
    intro once new u mem
    obtain ⟨symbol, before, _⟩ := (found u mem).recorded
    have agree := Block.agree_uses p.program once new (fun _ _ stands => stands) u mem
    exact (role u mem).mpr (by rw [before, agree _ _ before])

/-- With a function that is used before and behind a variable that hides it, in a routine that has
parameters. -/
theorem AnalyzedProgram.uses_of_check_hidden :
    let source := "function f; f := 2; " ++
      "function g(a); var b = f, f = a; g := f + b; write(g(f))."
    ∃ p, check {} source = .ok p ∧ p.UsesFound {} := by
  intro source
  have isOk : (check {} source).toOption.isSome = true := by decide +kernel
  obtain ⟨p, accepted⟩ := exists_check_of_isSome isOk
  exact ⟨p, accepted, AnalyzedProgram.uses_of_check accepted⟩

/-- A constant in the initial value of a variable that hides it: it was taken for the constant, and
is found again as the variable. -/
theorem AnalyzedProgram.not_findsRole_of_later_declaration :
    ∃ p, check {} "const a = 1; procedure p; var a = a; ; ." = .ok p ∧
      ∃ u ∈ p.program.uses (Options.names {}) (Options.names {}),
        u.scope = some 1 ∧ u.ref = ⟨"a", .const⟩ ∧
          p.table.resolve? 1 "a" = some { role := .var } ∧ ¬ u.FindsRole p.table := by
  have outcome : (check {} "const a = 1; procedure p; var a = a; ; .").toOption.map
      (fun p => ((p.program.uses (Options.names {}) (Options.names {})).map
        fun u => (u.scope, u.ref), p.table.resolve? 1 "a")) =
      some ([(some 1, ⟨"a", .const⟩)], some { role := .var }) := by
    decide +kernel
  have isOk : (check {} "const a = 1; procedure p; var a = a; ; .").toOption.isSome = true := by
    rw [← Option.isSome_map, outcome]
    rfl
  obtain ⟨p, accepted⟩ := exists_check_of_isSome isOk
  rw [accepted] at outcome
  obtain ⟨uses, later⟩ := Prod.mk.inj (Option.some.inj outcome)
  obtain ⟨u, mem, use⟩ := List.mem_map.mp (uses ▸ List.mem_singleton_self _)
  obtain ⟨scope, ref⟩ := Prod.mk.inj use
  refine ⟨p, accepted, u, mem, scope, ref, later, ?_⟩
  rintro ⟨scope', symbol, stored, resolves, role⟩
  obtain rfl : 1 = scope' := Option.some.inj (scope.symm.trans stored)
  rw [ref] at resolves role
  obtain rfl : { role := .var } = symbol := Option.some.inj (later.symm.trans resolves)
  cases role

end PlZero
