import PlZero.Proofs.Analysis.Declared
import PlZero.Proofs.Listing.Declarations

/-!
Symbols of routines. A routine is known by the names of the routines around it, and its symbol
is made of these names. Names are words, so different routines have different symbols
(`Nesting.symbol_inj`), none of which is the symbol of the entry point or of a function of the
runtime library.

Main statement: `AnalyzedProgram.nodup_symbols`.
-/

namespace PlZero

open Listing

/-! ### Symbols -/

/-- No name has a dot in it, so a dot in a symbol divides names. -/
theorem IsWord.dot_not_mem {name : String} (word : IsWord name) : '.' ∉ name.toList := by
  intro mem
  have isWord : '.'.isAlphanum = true := word '.' mem
  cases isWord

namespace Nesting

variable {name next : String} {around : Nesting}

/-- The symbol of a routine inside another one has a dot. -/
theorem dot_mem_symbol : '.' ∈ (symbol (name :: next :: around)).toList := by
  simp [symbol]

/-- The symbol of a routine in the outermost block is its name, but for `main`. -/
theorem symbol_outermost (word : IsWord name) :
    '.' ∉ (symbol [name]).toList ∧
      (symbol [name] = name ∧ name ≠ "main" ∨ symbol [name] = "_main" ∧ name = "main") := by
  rw [symbol]
  split
  · next isMain => exact ⟨by decide, .inr ⟨rfl, isMain⟩⟩
  · next notMain => exact ⟨word.dot_not_mem, .inl ⟨rfl, notMain⟩⟩

/-- The entry point has its symbol for itself. -/
theorem symbol_ne_main {path : Nesting} (words : ∀ name ∈ path, IsWord name) (inside : path ≠ []) :
    path.symbol ≠ "main" := by
  match path with
  | [] => exact absurd rfl inside
  | [name] =>
    rcases (symbol_outermost (words name List.mem_cons_self)).2 with ⟨same, notMain⟩ | ⟨same, _⟩
    · rw [same]
      exact notMain
    · rw [same]
      decide
  | name :: next :: around =>
    intro same
    have dot : '.' ∈ (symbol (name :: next :: around)).toList := dot_mem_symbol
    rw [same] at dot
    revert dot
    decide

/-- The name of a nested routine is what stands behind the last dot. -/
theorem symbol_nested_inj {name other : String} {x y : List Char} (left : IsWord name)
    (right : IsWord other) (same : x ++ '.' :: name.toList = y ++ '.' :: other.toList) :
    name = other ∧ x = y := by
  have reversed := congrArg List.reverse same
  simp only [List.reverse_append, List.reverse_cons, List.append_assoc,
    List.singleton_append] at reversed
  obtain ⟨names, fronts⟩ := append_inj_of_isAlphanum
    (fun c mem => left c (List.mem_reverse.mp mem))
    (fun c mem => right c (List.mem_reverse.mp mem))
    (by rintro _ ⟨⟩; rfl) (by rintro _ ⟨⟩; rfl) reversed
  exact ⟨String.toList_injective (List.reverse_injective names),
    List.reverse_injective (List.cons.inj fronts).2⟩

/-- Different routines have different symbols. -/
theorem symbol_inj {x y : Nesting} (left : ∀ name ∈ x, IsWord name)
    (right : ∀ name ∈ y, IsWord name) (insideLeft : x ≠ []) (insideRight : y ≠ [])
    (same : x.symbol = y.symbol) : x = y := by
  match x, y with
  | [], _ => exact absurd rfl insideLeft
  | _, [] => exact absurd rfl insideRight
  | [name], [other] =>
    have wordLeft := left name List.mem_cons_self
    have wordRight := right other List.mem_cons_self
    have notWord : ¬ IsWord "_main" := fun word => by
      have isWord : '_'.isAlphanum = true := word '_' (by decide)
      cases isWord
    rcases (symbol_outermost wordLeft).2 with ⟨first, _⟩ | ⟨first, isMain⟩ <;>
      rcases (symbol_outermost wordRight).2 with ⟨second, _⟩ | ⟨second, isMain'⟩ <;>
      rw [first, second] at same
    · rw [same]
    · exact absurd (same ▸ wordLeft) notWord
    · exact absurd (same ▸ wordRight) notWord
    · rw [isMain, isMain']
  | [name], other :: next :: around =>
    have dot : '.' ∈ (symbol (other :: next :: around)).toList := dot_mem_symbol
    rw [← same] at dot
    exact absurd dot (symbol_outermost (left name List.mem_cons_self)).1
  | name :: next :: around, [other] =>
    have dot : '.' ∈ (symbol (name :: next :: around)).toList := dot_mem_symbol
    rw [same] at dot
    exact absurd dot (symbol_outermost (right other List.mem_cons_self)).1
  | name :: next :: around, other :: next' :: around' =>
    have chars := congrArg String.toList same
    simp only [symbol, String.toList_append, List.append_assoc] at chars
    obtain ⟨wordLeft, left⟩ := List.forall_mem_cons.mp left
    obtain ⟨wordRight, right⟩ := List.forall_mem_cons.mp right
    obtain ⟨names, fronts⟩ := symbol_nested_inj wordLeft wordRight chars
    rw [names, symbol_inj left right (List.cons_ne_nil _ _) (List.cons_ne_nil _ _)
      (String.toList_injective fronts)]

end Nesting

/-! ### Where routines are -/

mutual

/-- The routines that a block in the routine `here` declares, each behind those inside it. -/
def Block.paths (here : Nesting) : Block → List Nesting
  | { routines, .. } => Routine.pathsAll here routines

def Routine.paths (here : Nesting) : Routine → List Nesting
  | { name, block, .. } => block.paths (name :: here) ++ [name :: here]

def Routine.pathsAll (here : Nesting) : List Routine → List Nesting
  | [] => []
  | r :: rest => r.paths here ++ Routine.pathsAll here rest

end

mutual

/-- Whatever a block declares is inside the routine it belongs to. -/
theorem Block.suffix_of_mem_paths {here path : Nesting} :
    (block : Block) → path ∈ block.paths here → ∃ name, name :: here <:+ path
  | { routines, .. }, mem => by
    rw [Block.paths] at mem
    obtain ⟨r, _, inside⟩ := Routine.suffix_of_mem_pathsAll routines mem
    exact ⟨r.name, inside⟩

/-- Routines inside a routine have its path below their own. -/
theorem Routine.suffix_of_mem_paths {here path : Nesting} :
    (r : Routine) → path ∈ r.paths here → r.name :: here <:+ path
  | { name, block, .. }, mem => by
    rw [Routine.paths] at mem
    rcases List.mem_append.mp mem with mem | mem
    · obtain ⟨_, inside⟩ := Block.suffix_of_mem_paths block mem
      exact (List.suffix_cons _ _).trans inside
    · rw [List.mem_singleton.mp mem]

theorem Routine.suffix_of_mem_pathsAll {here path : Nesting} :
    (rs : List Routine) → path ∈ Routine.pathsAll here rs → ∃ r ∈ rs, r.name :: here <:+ path
  | [], mem => by
    rw [Routine.pathsAll] at mem
    cases mem
  | r :: rest, mem => by
    rw [Routine.pathsAll] at mem
    rcases List.mem_append.mp mem with mem | mem
    · exact ⟨r, List.mem_cons_self, Routine.suffix_of_mem_paths r mem⟩
    · obtain ⟨other, among, inside⟩ := Routine.suffix_of_mem_pathsAll rest mem
      exact ⟨other, List.mem_cons_of_mem _ among, inside⟩

end

/-- Routines of different names have no routines inside them in common. -/
theorem Routine.name_eq_of_suffix {here path : Nesting} {name other : String}
    (first : name :: here <:+ path) (second : other :: here <:+ path) : name = other := by
  have same : name :: here = other :: here :=
    (List.suffix_of_suffix_length_le first second (by simp)).eq_of_length (by simp)
  exact (List.cons.inj same).1

theorem Block.mem_routines_of_mem_paths {program : Block} {name : String}
    (mem : [name] ∈ program.paths []) : name ∈ program.routines.map (·.name) := by
  obtain ⟨line, consts, vars, routines, body, scope⟩ := program
  rw [Block.paths] at mem
  obtain ⟨r, among, inside⟩ := Routine.suffix_of_mem_pathsAll routines mem
  have same : r.name = name := Routine.name_eq_of_suffix inside List.suffix_rfl
  exact List.mem_map.mpr ⟨r, among, same⟩

/-- The routines of the outermost block are among its symbols. -/
theorem Block.mem_symbols_of_mem_paths {program : Block} {name : String}
    (mem : [name] ∈ program.paths []) : name ∈ program.symbols.map Prod.fst := by
  rw [Block.map_fst_symbols]
  exact List.mem_append_right _ (Block.mem_routines_of_mem_paths mem)

mutual

/-- No two routines of a program have the same path: in one block their names differ, and in
different routines the paths below do. -/
theorem Block.Resolved.nodup_paths {names : Lexical.NameMap} {here : Nesting} :
    (block : Block) → block.Resolved names → (block.paths here).Nodup
  | { consts, vars, routines, body, .. }, resolved => by
    rw [Block.Resolved] at resolved
    obtain ⟨nodup, _, _, inside, _⟩ := resolved
    rw [Block.paths]
    refine Routine.ResolvedAll.nodup_paths routines inside ?_
    rw [List.map_append] at nodup
    rw [← Routine.map_fst_symbols]
    exact (List.nodup_append.mp nodup).2.1

theorem Routine.Resolved.nodup_paths {names : Lexical.NameMap} {here : Nesting} :
    (r : Routine) → r.Resolved names → (r.paths here).Nodup
  | { name, block, .. }, resolved => by
    rw [Routine.Resolved] at resolved
    rw [Routine.paths]
    refine List.nodup_append.mpr ⟨Block.Resolved.nodup_paths block resolved.2,
      List.nodup_singleton _, ?_⟩
    -- what is inside is deeper than the routine itself
    rintro path mem _ own rfl
    obtain ⟨_, inside⟩ := Block.suffix_of_mem_paths block mem
    rw [List.mem_singleton.mp own] at inside
    have shorter := inside.length_le
    simp at shorter

theorem Routine.ResolvedAll.nodup_paths {names : Lexical.NameMap} {here : Nesting} :
    (rs : List Routine) → Routine.ResolvedAll names rs → (rs.map (·.name)).Nodup →
    (Routine.pathsAll here rs).Nodup
  | [], _, _ => by
    rw [Routine.pathsAll]
    exact .nil
  | r :: rest, resolved, distinct => by
    rw [Routine.ResolvedAll] at resolved
    obtain ⟨notLater, distinct⟩ := List.nodup_cons.mp distinct
    rw [Routine.pathsAll]
    refine List.nodup_append.mpr ⟨Routine.Resolved.nodup_paths r resolved.1,
      Routine.ResolvedAll.nodup_paths rest resolved.2 distinct, ?_⟩
    rintro path mem _ later rfl
    obtain ⟨other, among, inside⟩ := Routine.suffix_of_mem_pathsAll rest later
    have same := Routine.name_eq_of_suffix (Routine.suffix_of_mem_paths r mem) inside
    exact notLater (List.mem_map.mpr ⟨other, among, same.symm⟩)

end

mutual

/-- The names in the path of a routine are declared. -/
theorem Block.declared_of_mem_paths {here path : Nesting} :
    (block : Block) → path ∈ block.paths here → ∀ name ∈ path, name ∈ block.declared ∨ name ∈ here
  | { routines, .. }, mem => by
    rw [Block.paths] at mem
    intro name among
    rw [Block.declared, List.mem_append]
    exact (Routine.declared_of_mem_pathsAll routines mem name among).imp_left .inr

/-- The names on a path are those of routines that are declared. -/
theorem Routine.declared_of_mem_paths {here path : Nesting} :
    (r : Routine) → path ∈ r.paths here → ∀ name ∈ path, name ∈ r.declared ∨ name ∈ here
  | { name, kind, block, .. }, mem => by
    rw [Routine.paths] at mem
    intro other among
    rw [Routine.declared, List.mem_cons, List.mem_append]
    rcases List.mem_append.mp mem with mem | mem
    · rcases Block.declared_of_mem_paths block mem other among with inside | around
      · exact .inl (.inr (.inr inside))
      · exact (List.mem_cons.mp around).imp_left .inl
    · rw [List.mem_singleton.mp mem] at among
      exact (List.mem_cons.mp among).imp_left .inl

theorem Routine.declared_of_mem_pathsAll {here path : Nesting} :
    (rs : List Routine) → path ∈ Routine.pathsAll here rs →
    ∀ name ∈ path, name ∈ Routine.declaredAll rs ∨ name ∈ here
  | [], mem => by
    rw [Routine.pathsAll] at mem
    cases mem
  | r :: rest, mem => by
    rw [Routine.pathsAll] at mem
    intro name among
    rw [Routine.declaredAll, List.mem_append]
    rcases List.mem_append.mp mem with mem | mem
    · exact (Routine.declared_of_mem_paths r mem name among).imp_left .inl
    · exact (Routine.declared_of_mem_pathsAll rest mem name among).imp_left .inr

end

variable {externals : List (String × Nat)}

mutual

/-- The frames of a block are those of its routines. -/
theorem Block.Code.symbols {means : Meanings} {here : Nesting} {code : List Line}
    {globals : List Global} {done : List Frame} :
    (block : Block) → block.Code means here externals code globals done →
    done.map (·.symbol) = (block.paths here).map Nesting.symbol
  | { routines, .. }, isCode => by
    rw [Block.Code] at isCode
    obtain ⟨_, _, _, _, _, _, _, _, _, _, inRoutines, _⟩ := isCode
    rw [Block.paths]
    exact Routine.CodeAll.symbols routines inRoutines

/-- The frames of a routine are those of its paths, in the same order. -/
theorem Routine.Code.symbols {means : Meanings} {here : Nesting} {done : List Frame} :
    (r : Routine) → r.Code means here externals done →
    done.map (·.symbol) = (r.paths here).map Nesting.symbol
  | { name, kind := .procedure, block, .. }, isCode => by
    rw [Routine.Code] at isCode
    obtain ⟨inner, frame, rfl, symbol, _, _, inBlock⟩ := isCode
    rw [Routine.paths, List.map_append, List.map_append, Block.Code.symbols block inBlock,
      List.map_singleton, List.map_singleton, symbol]
  | { name, kind := .function params, block, .. }, isCode => by
    rw [Routine.Code] at isCode
    obtain ⟨inner, frame, _, _, rfl, symbol, _, _, _, _, inBlock⟩ := isCode
    rw [Routine.paths, List.map_append, List.map_append, Block.Code.symbols block inBlock,
      List.map_singleton, List.map_singleton, symbol]

theorem Routine.CodeAll.symbols {means behind : Meanings} {here : Nesting} {done : List Frame} :
    (rs : List Routine) → Routine.CodeAll means here externals rs done behind →
    done.map (·.symbol) = (Routine.pathsAll here rs).map Nesting.symbol
  | [], areCode => by
    rw [Routine.CodeAll] at areCode
    rw [areCode.1, Routine.pathsAll]
    rfl
  | r :: rest, areCode => by
    rw [Routine.CodeAll] at areCode
    obtain ⟨first, others, rfl, isCode, areCode⟩ := areCode
    rw [Routine.pathsAll, List.map_append, List.map_append, Routine.Code.symbols r isCode,
      Routine.CodeAll.symbols rest areCode]

end

/-! ### Functions of the runtime library -/

/-- Runtime functions are called neither `main` nor `_main`, and have no dot in their names. -/
theorem Primitive.name_of_find? {name : String} (found : (Primitive.find? name).isSome = true) :
    '.' ∉ name.toList ∧ name ≠ "main" ∧ name ≠ "_main" := by
  have all : ∀ p ∈ Primitive.all, '.' ∉ p.name.toList ∧ p.name ≠ "main" ∧ p.name ≠ "_main" := by
    decide +kernel
  obtain ⟨p, found⟩ := Option.isSome_iff_exists.mp found
  have same : p.name = name := by simpa using List.find?_some found
  rw [← same]
  exact all p (List.mem_of_find?_eq_some found)

/-- Runtime functions are called where the options allow it. -/
theorem Options.isSome_find? {options : Options} {name : String} {arity : Nat}
    (runtime : options.meanings name = some (.runtime arity)) :
    options.prelude = true ∧ (Primitive.find? name).isSome = true := by
  rw [Options.meanings] at runtime
  split at runtime
  · next prelude =>
    obtain ⟨found, isFound, _⟩ := Option.map_eq_some_iff.mp runtime
    exact ⟨prelude, isFound ▸ rfl⟩
  · cases runtime

/-! ### Programs -/

section

variable {options : Options} {source : String} {p : AnalyzedProgram}

/-- In an accepted program paths are made of names as the scanner makes them. -/
theorem AnalyzedProgram.words_of_mem_paths (accepted : check options source = .ok p)
    {path : Nesting} (mem : path ∈ p.program.paths []) :
    path ≠ [] ∧ ∀ name ∈ path, IsWord name := by
  constructor
  · rintro rfl
    obtain ⟨_, inside⟩ := Block.suffix_of_mem_paths _ mem
    cases List.suffix_nil.mp inside
  · intro name among
    refine AnalyzedProgram.isWord_of_check accepted name ?_
    exact (Block.declared_of_mem_paths _ mem name among).resolve_right List.not_mem_nil

/-- No routine has the symbol of a function of the runtime library: those of the outermost block are
not named so, and other symbols have a dot in them. -/
theorem AnalyzedProgram.symbol_ne_runtime (accepted : check options source = .ok p) {path : Nesting}
    (mem : path ∈ p.program.paths []) {name : String} {arity : Nat}
    (runtime : options.meanings name = some (.runtime arity)) : path.symbol ≠ name := by
  intro same
  obtain ⟨inside, words⟩ := AnalyzedProgram.words_of_mem_paths accepted mem
  obtain ⟨prelude, found⟩ := Options.isSome_find? runtime
  obtain ⟨noDot, _, notRenamed⟩ := Primitive.name_of_find? found
  match path with
  | [] => exact absurd rfl inside
  | [outermost] =>
    have word := words outermost List.mem_cons_self
    rcases (Nesting.symbol_outermost word).2 with ⟨own, _⟩ | ⟨own, _⟩
    · have free : options.names name = none := by
        refine (AnalyzedProgram.resolved_of_check accepted).2 name ?_
        rw [← same, own]
        exact Block.mem_symbols_of_mem_paths mem
      rw [Options.names, if_pos prelude, Option.map_eq_none_iff] at free
      rw [free] at found
      cases found
    · exact notRenamed (same.symm.trans own)
  | inner :: next :: around =>
    exact noDot (same ▸ Nesting.dot_mem_symbol)

/-- Everything that a listing defines or declares has a symbol of its own. -/
theorem AnalyzedProgram.nodup_symbols (accepted : check options source = .ok p) :
    (p.listing.externals.map Prod.fst ++ p.listing.routines.toList.map (·.symbol) ++
      ["main"]).Nodup := by
  obtain ⟨isCode, _, runtime, inOrder⟩ := AnalyzedProgram.codeOf_listing accepted
  have words {path : Nesting} (mem : path ∈ p.program.paths []) :=
    AnalyzedProgram.words_of_mem_paths accepted mem
  rw [Block.Code.symbols _ isCode]
  have externals : (p.listing.externals.map Prod.fst).Nodup :=
    List.pairwise_map.mpr (inOrder.imp fun before => ne_of_lt before)
  have routines : ((p.program.paths []).map Nesting.symbol).Nodup :=
    List.Nodup.map_on (fun x left y right => Nesting.symbol_inj (words left).2 (words right).2
      (words left).1 (words right).1)
      (Block.Resolved.nodup_paths _ (AnalyzedProgram.resolved_of_check accepted).1)
  refine List.nodup_append.mpr ⟨List.nodup_append.mpr ⟨externals, routines, ?_⟩,
    List.nodup_singleton _, ?_⟩
  · rintro _ external _ routine rfl
    obtain ⟨⟨name, arity⟩, among, rfl⟩ := List.mem_map.mp external
    obtain ⟨path, mem, same⟩ := List.mem_map.mp routine
    exact AnalyzedProgram.symbol_ne_runtime accepted mem (runtime _ among) same
  · rintro _ mem _ entry rfl
    rw [List.mem_singleton.mp entry] at mem
    rcases List.mem_append.mp mem with mem | mem
    · obtain ⟨⟨name, arity⟩, among, same⟩ := List.mem_map.mp mem
      obtain ⟨_, notMain, _⟩ := Primitive.name_of_find? (Options.isSome_find? (runtime _ among)).2
      exact notMain same
    · obtain ⟨path, mem, same⟩ := List.mem_map.mp mem
      exact Nesting.symbol_ne_main (words mem).2 (words mem).1 same

end

end PlZero
