import PlZero.Proofs.Analysis.Resolved
import PlZero.Proofs.Parser.Exactness
import PlZero.Proofs.Token.Lexemes
import PlZero.Tree.Names

/-!
The names that a program declares, in whatever block, are words: letters and digits, and nothing
that could be taken for the punctuation in a symbol or in the name of a slot.

A word comes from the scanner; parsing takes the names of a tree from the tokens, and analysis
leaves them as they are.

Main statement: `AnalyzedProgram.isWord_of_check`.
-/

namespace PlZero

/-- A name of letters and digits. -/
def IsWord (name : String) : Prop := ∀ c ∈ name.toList, c.isAlphanum = true

theorem isWord_of_all {name : String} (all : name.toList.all Char.isAlphanum = true) :
    IsWord name := List.all_eq_true.mp all

def Definition.declared (defs : List Definition) : List String := defs.map (·.name)

mutual

/-- The names that a block and the routines in it declare. -/
def Block.declared : Block → List String
  | { consts, vars, routines, .. } =>
    Definition.declared (Decls.definitions consts) ++
      Definition.declared (Decls.definitions vars) ++ Routine.declaredAll routines

/-- The names that a routine declares: its own, its parameters and those of its block. -/
def Routine.declared : Routine → List String
  | { name, kind, block, .. } => name :: (kind.params ++ block.declared)

def Routine.declaredAll : List Routine → List String
  | [] => []
  | r :: rest => r.declared ++ Routine.declaredAll rest

end

/-! ### The names of the outermost block -/

/-- Definitions declare their names, all with the role of the section. -/
theorem Definition.symbols_eq_map_declared (role : Role) (defs : List Definition) :
    Definition.symbols role defs =
      (Definition.declared defs).map fun name => (name, { role }) := by
  rw [Definition.symbols, Definition.declared, List.map_map]
  rfl

@[simp] theorem Definition.map_fst_symbols (role : Role) (defs : List Definition) :
    (Definition.symbols role defs).map Prod.fst = Definition.declared defs := by
  rw [Definition.symbols_eq_map_declared, List.map_map]
  exact List.map_id _

@[simp] theorem Routine.map_fst_symbols (routines : List Routine) :
    (Routine.symbols routines).map Prod.fst = routines.map (·.name) := by
  rw [Routine.symbols, List.map_map]
  rfl

/-- The names of the constants and variables that a block declares itself. -/
def Block.stored (block : Block) : List String :=
  Definition.declared (Decls.definitions block.consts) ++
    Definition.declared (Decls.definitions block.vars)

/-- A block declares its constants and variables, and then its routines. -/
theorem Block.map_fst_symbols (block : Block) :
    block.symbols.map Prod.fst = block.stored ++ block.routines.map (·.name) := by
  rw [Block.symbols, List.map_append, List.map_append, Definition.map_fst_symbols,
    Definition.map_fst_symbols, Routine.map_fst_symbols, Block.stored]

/-- A block declares what it stores, and what its routines declare. -/
theorem Block.declared_eq (block : Block) :
    block.declared = block.stored ++ Routine.declaredAll block.routines := by
  obtain ⟨line, consts, vars, routines, body, scope⟩ := block
  rw [Block.declared, Block.stored]

/-! ### Names are words -/

/-- Letters and digits end where other characters begin. -/
theorem append_inj_of_isAlphanum {u v s t : List Char} (left : ∀ c ∈ u, c.isAlphanum = true)
    (right : ∀ c ∈ v, c.isAlphanum = true) (behindLeft : ∀ c ∈ s.head?, c.isAlphanum = false)
    (behindRight : ∀ c ∈ t.head?, c.isAlphanum = false) (same : u ++ s = v ++ t) :
    u = v ∧ s = t := by
  have words := congrArg (List.takeWhile Char.isAlphanum) same
  rw [takeWhile_append_eq left behindLeft, takeWhile_append_eq right behindRight] at words
  subst words
  exact ⟨rfl, List.append_cancel_left same⟩

theorem IsIdentifier.isWord {name : String} (identifier : IsIdentifier name) : IsWord name :=
  fun c mem => isAlphanum_of_lowerCase (List.all_eq_true.mp identifier.lowerCase c mem)

/-! ### Parsed names are tokens -/

namespace Grammar

def Phrase.declared : (x : Phrase) → x.Tree → List String
  | .definitions _, defs => Definition.declared defs
  | .section _, decls => Definition.declared (Decls.definitions decls)
  | .parameters, params => params
  | .signature _, kind => kind.params
  | .block, program => program.declared
  | .routines, rs => Routine.declaredAll rs
  | .routine _, r => r.declared
  | .expression, _ | .moreTerms _ _, _ | .term, _ | .moreFactors _ _, _ | .factor, _
  | .arguments, _ | .condition, _ | .statement, _ | .elsePart, _ | .statements, _
  | .initializer _, _ => []

/-- The name is a token. -/
def Spelled (tokens : List Token) (name : String) : Prop := ∃ t ∈ tokens, t.kind = .name name

/-- What is spelled by some tokens is spelled by more. -/
theorem Spelled.mono {tokens more : List Token} {name : String} (sub : tokens ⊆ more)
    (spelled : Spelled tokens name) : Spelled more name := by
  obtain ⟨t, mem, isName⟩ := spelled
  exact ⟨t, sub mem, isName⟩

/-- A phrase takes tokens off the front. -/
theorem Derives.rest_subset {x : Phrase} {input rest : List Token} {tree : x.Tree}
    (derives : Derives x input tree rest) : rest ⊆ input := by
  obtain ⟨u, rfl, _⟩ := derives.mem_language
  exact List.subset_append_right u rest

/-- The names that a tree declares were read off its tokens, by induction on the derivation. -/
theorem Derives.spelled {x : Phrase} {input rest : List Token} {tree : x.Tree}
    (derives : Derives x input tree rest) : ∀ name ∈ x.declared tree, Spelled input name := by
  induction derives with
  | lastDefinition isName => exact List.forall_mem_singleton.mpr ⟨_, by simp, isName⟩
  | moreDefinitions isName init _ _ _ ih =>
    refine List.forall_mem_cons.mpr ⟨⟨_, by simp, isName⟩, fun name mem => ?_⟩
    exact (ih name mem).mono fun t mem => by simp [init.rest_subset mem]
  | someSection _ _ ih => exact ih
  | lastParameter isName => exact List.forall_mem_singleton.mpr ⟨_, by simp, isName⟩
  | moreParameters isName _ _ ih =>
    refine List.forall_mem_cons.mpr ⟨⟨_, by simp, isName⟩, fun name mem => ?_⟩
    exact (ih name mem).mono fun t mem => by simp_all
  | someParameters _ _ ih => exact ih
  | block consts vars routines _ inConsts inVars inRoutines =>
    intro name mem
    rw [Phrase.declared, Block.declared, List.mem_append, List.mem_append] at mem
    have before := List.Subset.trans vars.rest_subset consts.rest_subset
    rcases mem with (mem | mem) | mem
    · exact inConsts name mem
    · exact (inVars name mem).mono consts.rest_subset
    · exact (inRoutines name mem).mono before
  | noRoutines =>
    rw [Phrase.declared, Routine.declaredAll]
    nofun
  | moreRoutines first _ inFirst inOthers =>
    rw [Phrase.declared, Routine.declaredAll, List.forall_mem_append]
    exact ⟨inFirst, fun name mem => (inOthers name mem).mono first.rest_subset⟩
  | routine _ isName signature _ _ _ inSignature inBlock =>
    rw [Phrase.declared, Routine.declared]
    refine List.forall_mem_cons.mpr ⟨⟨_, by simp, isName⟩, ?_⟩
    rw [List.forall_mem_append]
    constructor
    · exact fun name mem => (inSignature name mem).mono fun t mem => by simp [mem]
    · refine fun name mem => (inBlock name mem).mono fun t mem => ?_
      simp [signature.rest_subset (List.mem_cons_of_mem _ mem)]
  | _ => nofun

end Grammar

/-- Names in a parsed tree are made of letters and digits, as the scanner makes them. -/
theorem Block.isWord_of_parse {source : String} {tree : Block} (parsed : parse source = .ok tree) :
    ∀ name ∈ tree.declared, IsWord name := by
  intro name mem
  obtain ⟨_, _, derives, _⟩ := Grammar.derivesProgram_of_parse parsed
  obtain ⟨t, among, isName⟩ := derives.spelled name mem
  exact (isIdentifier_of_mem_tokenize among isName).isWord

/-! ### Analysis leaves names alone -/

open Lexical

/-- A judgement changes no names. -/
theorem Definition.declared_judgeAll (role : Role) (s : Stack) (defs : List Definition) :
    Definition.declared (Definition.judgeAll role s defs).value.2 = Definition.declared defs := by
  induction defs generalizing s with
  | nil => rfl
  | cons d rest ih => exact congrArg (d.name :: ·) (ih _)

theorem Decls.declared_judge (role : Role) (s : Stack) (decls : Option Decls) :
    Definition.declared (Decls.definitions (Decls.judge role s decls).value.2) =
      Definition.declared (Decls.definitions decls) := by
  cases decls with
  | none => rfl
  | some decls => exact Definition.declared_judgeAll role s decls.defs

theorem Decls.declared_unscoped (decls : Option Decls) :
    Definition.declared (Decls.definitions (decls.map Decls.unscoped)) =
      Definition.declared (Decls.definitions decls) := by
  cases decls with
  | none => rfl
  | some decls => simp [Definition.declared, Decls.definitions, Decls.unscoped, Definition.unscoped]

mutual

/-- A judgement changes no names, in a block and the routines in it. -/
theorem Block.declared_judge (s : Stack) :
    (block : Block) → (block.judge s).value.declared = block.declared
  | { consts, vars, routines, body, .. } => by
    rw [Block.judge]
    simp only [value_bind, value_pure]
    rw [Block.declared, Block.declared, Decls.declared_judge, Decls.declared_judge,
      Routine.declared_judgeAll]

theorem Routine.declared_judge (s : Stack) :
    (r : Routine) → (r.judge s).value.2.declared = r.declared
  | { name, kind, block, .. } => by
    rw [Routine.judge]
    simp only [value_bind, value_pure]
    rw [Routine.declared, Routine.declared, Block.declared_judge]

theorem Routine.declared_judgeAll (s : Stack) :
    (rs : List Routine) →
    Routine.declaredAll (Routine.judgeAll s rs).value.2 = Routine.declaredAll rs
  | [] => by rw [Routine.judgeAll]; rfl
  | r :: rest => by
    rw [Routine.judgeAll]
    simp only [value_bind, value_pure]
    rw [Routine.declaredAll, Routine.declaredAll, Routine.declared_judge, Routine.declared_judgeAll]

end

mutual

/-- Scope numbers have nothing to do with names. -/
theorem Block.declared_unscoped : (block : Block) → block.unscoped.declared = block.declared
  | { consts, vars, routines, body, .. } => by
    rw [Block.unscoped, Block.declared, Block.declared, Decls.declared_unscoped,
      Decls.declared_unscoped, Routine.declared_unscopedAll]

theorem Routine.declared_unscoped : (r : Routine) → r.unscoped.declared = r.declared
  | { name, kind, block, .. } => by
    rw [Routine.unscoped, Routine.declared, Routine.declared, Block.declared_unscoped]

theorem Routine.declared_unscopedAll :
    (rs : List Routine) → Routine.declaredAll (Routine.unscopedAll rs) = Routine.declaredAll rs
  | [] => by rw [Routine.unscopedAll]
  | r :: rest => by
    rw [Routine.unscopedAll, Routine.declaredAll, Routine.declaredAll, Routine.declared_unscoped,
      Routine.declared_unscopedAll]

end

/-- Whatever an accepted program declares is a word. -/
theorem AnalyzedProgram.isWord_of_check {options : Options} {source : String} {p : AnalyzedProgram}
    (accepted : check options source = .ok p) : ∀ name ∈ p.program.declared, IsWord name := by
  obtain ⟨tree, parsed, analyzed⟩ := check_eq_ok_iff.mp accepted
  obtain ⟨-, rfl⟩ := analyze_eq_ok_iff.mp analyzed
  have judged := (analyzeProgram_judged options tree).1
  have same : (analyzeProgram options tree).program.declared = tree.declared := by
    rw [← Block.declared_unscoped, judged]
    exact tree.declared_judge _
  rw [same]
  exact Block.isWord_of_parse parsed

end PlZero
