import PlZero.Proofs.Listing.Calls
import PlZero.Proofs.Listing.Storage

/-!
Symbols behind an at sign. A listing introduces them in global lines, in declarations and in the
heads of definitions, that of the entry point among them. Routines are named around the entry point;
storage is not: a program whose outermost block keeps a constant or a variable `main` introduces
`@main` twice. No other symbol is introduced twice.

The symbols are read off the text (`Listing.symbolsIn`), which is shown to introduce those of the
globals, of the functions defined elsewhere, of the routines and of the entry point
(`AnalyzedProgram.symbols_listing`).

Main statement: `AnalyzedProgram.globalNames_of_check`.
-/

namespace PlZero

open Listing

/-! ### Symbols in a line of text -/

namespace Listing

/-- May a character stand in a symbol? -/
def isSymbolChar (c : Char) : Bool := c.isAlphanum || c == '.' || c == '_'

/-- The symbol that a line of text introduces, if it is about a global, or declares or defines
something. -/
def symbolsIn (line : String) : List String :=
  if ["global ", "declare ", "define "].any (·.toList.isPrefixOf line.toList) then
    [String.ofList (((line.toList.dropWhile (· != '@')).drop 1).takeWhile isSymbolChar)]
  else []

/-- The symbols that the text of a listing introduces. -/
def symbols (l : Listing) : List String := l.textLines.flatMap symbolsIn

/-- Other lines start with other letters. -/
theorem symbolsIn_eq_nil {line : String}
    (other : line.toList.head? ≠ some 'g' ∧ line.toList.head? ≠ some 'd') :
    symbolsIn line = [] := by
  rw [symbolsIn, if_neg]
  intro starts
  obtain ⟨start, mem, isPrefix⟩ := List.any_eq_true.mp starts
  obtain ⟨rest, same⟩ := List.isPrefixOf_iff_prefix.mp isPrefix
  simp only [List.mem_cons, List.not_mem_nil, or_false] at mem
  rcases mem with rfl | rfl | rfl <;> rw [← same] at other
  · exact other.1 rfl
  · exact other.2 rfl
  · exact other.2 rfl

/-- A symbol ends where other characters begin. -/
theorem symbolsIn_eq {line start symbol : String} {rest : List Char}
    (chars : line.toList = start.toList ++ '@' :: (symbol.toList ++ rest))
    (introduces : ["global ", "declare ", "define "].any (·.toList.isPrefixOf start.toList) = true)
    (noAt : '@' ∉ start.toList) (isSymbol : ∀ c ∈ symbol.toList, isSymbolChar c = true)
    (behind : ∀ c ∈ rest.head?, isSymbolChar c = false) : symbolsIn line = [symbol] := by
  have starts :
      ["global ", "declare ", "define "].any (·.toList.isPrefixOf line.toList) = true := by
    obtain ⟨x, mem, isPrefix⟩ := List.any_eq_true.mp introduces
    refine List.any_eq_true.mpr ⟨x, mem, ?_⟩
    rw [List.isPrefixOf_iff_prefix] at isPrefix ⊢
    rw [chars]
    exact isPrefix.trans (List.prefix_append _ _)
  have found : line.toList.dropWhile (· != '@') = '@' :: (symbol.toList ++ rest) := by
    rw [chars, List.dropWhile_append_of_pos]
    · rfl
    · intro c mem
      exact bne_iff_ne.mpr fun same => noAt (same ▸ mem)
  rw [symbolsIn, if_pos starts, found, List.drop_one, List.tail_cons,
    takeWhile_append_eq isSymbol behind, String.ofList_toList]

end Listing

theorem IsWord.isSymbolChar {name : String} (word : IsWord name) :
    ∀ c ∈ name.toList, isSymbolChar c = true := by
  intro c mem
  rw [Listing.isSymbolChar, word c mem]
  rfl

/-- Symbols are made of letters, digits, dots and underscores. -/
theorem Nesting.isSymbolChar {path : Nesting} (words : ∀ name ∈ path, IsWord name) :
    ∀ c ∈ path.symbol.toList, isSymbolChar c = true := by
  match path with
  | [] => exact List.all_eq_true.mp (by decide)
  | [name] =>
    rw [Nesting.symbol]
    split
    · exact List.all_eq_true.mp (by decide)
    · exact (words name List.mem_cons_self).isSymbolChar
  | name :: next :: around =>
    obtain ⟨word, others⟩ := List.forall_mem_cons.mp words
    rw [Nesting.symbol, String.toList_append, String.toList_append]
    simp only [List.forall_mem_append]
    exact ⟨⟨Nesting.isSymbolChar others, List.all_eq_true.mp (by decide)⟩, word.isSymbolChar⟩

/-- The names of runtime functions are words. -/
theorem Primitive.isWord_of_find? {name : String} (found : (Primitive.find? name).isSome = true) :
    IsWord name := by
  have all : ∀ p ∈ Primitive.all, p.name.toList.all Char.isAlphanum = true := by decide +kernel
  obtain ⟨p, found⟩ := Option.isSome_iff_exists.mp found
  have same : p.name = name := by simpa using List.find?_some found
  rw [← same]
  exact isWord_of_all (all p (List.mem_of_find?_eq_some found))

/-! ### Symbols of a listing -/

namespace Listing

/-- The line of a global introduces its name. -/
theorem symbolsIn_global {g : Global} (word : IsWord g.name) : symbolsIn g.render = [g.name] := by
  have chars : g.render.toList =
      "global ".toList ++ '@' :: (g.name.toList ++ (" = " ++ toString g.value.toInt).toList) := by
    rw [Global.render, String.toList_append, String.toList_append, String.toList_append]
    simp
  exact symbolsIn_eq chars (by decide +kernel) (by decide) word.isSymbolChar
    (by simp; decide)

/-- The line of a function that is defined elsewhere introduces its name. -/
theorem symbolsIn_externalText {name : String} (word : IsWord name) (arity : Nat) :
    symbolsIn (externalText name arity) = [name] := by
  have chars (params : String) : ("declare i32 @" ++ name ++ "(" ++ params ++ ")").toList =
      "declare i32 ".toList ++ '@' :: (name.toList ++ ("(" ++ params ++ ")").toList) := by
    simp
  exact symbolsIn_eq (chars _) (by decide +kernel) (by decide) word.isSymbolChar
    (by simp; decide)

/-- The head of a definition introduces the symbol behind its first `@`, and the parameters none. -/
theorem symbolsIn_head {type symbol : String} (isType : type = "i32" ∨ type = "void")
    (isSymbol : ∀ c ∈ symbol.toList, isSymbolChar c = true) (params : String) :
    symbolsIn ("define " ++ type ++ " @" ++ symbol ++ "(" ++ params ++ ") \x7b") = [symbol] := by
  have chars : ("define " ++ type ++ " @" ++ symbol ++ "(" ++ params ++ ") \x7b").toList =
      ("define " ++ type ++ " ").toList ++
        '@' :: (symbol.toList ++ ("(" ++ params ++ ") \x7b").toList) := by
    simp
  rcases isType with rfl | rfl
  · exact symbolsIn_eq chars (by decide +kernel) (by decide) isSymbol (by simp; decide)
  · exact symbolsIn_eq chars (by decide +kernel) (by decide) isSymbol (by simp; decide)

/-- Lines below the head of a definition introduce no symbol. -/
theorem Frame.symbolsIn_body (f : Frame) : f.body.flatMap symbolsIn = [] := by
  rw [List.flatMap_eq_nil_iff]
  intro text mem
  obtain ⟨line, _, rfl⟩ := List.mem_map.mp mem
  refine symbolsIn_eq_nil ?_
  cases line <;> simp [Line.render, labelText]

/-- Of the text of a routine only its head introduces a symbol. -/
theorem Frame.symbolsIn_textLines {f : Frame}
    (isSymbol : ∀ c ∈ f.symbol.toList, isSymbolChar c = true) :
    f.textLines.flatMap symbolsIn = [f.symbol] := by
  have isType : (if f.result.isSome then "i32" else "void") = "i32" ∨
      (if f.result.isSome then "i32" else "void") = "void" := by
    split
    · exact .inl rfl
    · exact .inr rfl
  rw [Frame.textLines, List.flatMap_cons, symbolsIn_head isType isSymbol, List.flatMap_cons,
    List.flatMap_append, List.flatMap_append, f.symbolsIn_body]
  cases f.result <;> simp [symbolsIn_eq_nil]

/-- The text of a listing introduces its globals, the functions defined elsewhere, its routines and
the entry point. -/
theorem symbols_eq {l : Listing} (globals : ∀ g ∈ l.globals.toList, IsWord g.name)
    (externals : ∀ external ∈ l.externals, IsWord external.1)
    (routines : ∀ f ∈ l.routines.toList, ∀ c ∈ f.symbol.toList, isSymbolChar c = true) :
    l.symbols = l.globals.toList.map (·.name) ++ l.externals.map Prod.fst ++
      l.routines.toList.map (·.symbol) ++ ["main"] := by
  have inGlobals : (l.globals.toList.map (·.render)).flatMap symbolsIn =
      l.globals.toList.map (·.name) := by
    rw [List.flatMap_map, List.map_eq_flatMap]
    exact List.flatMap_congr fun g mem => symbolsIn_global (globals g mem)
  have inExternals : (l.externals.map fun external => externalText external.1 external.2).flatMap
      symbolsIn = l.externals.map Prod.fst := by
    rw [List.flatMap_map, List.map_eq_flatMap]
    exact List.flatMap_congr fun external mem => symbolsIn_externalText (externals external mem) _
  have inRoutines : (l.routines.toList.flatMap fun f => f.textLines ++ [""]).flatMap symbolsIn =
      l.routines.toList.map (·.symbol) := by
    rw [List.flatMap_assoc, List.map_eq_flatMap]
    refine List.flatMap_congr fun f mem => ?_
    rw [List.flatMap_append, Frame.symbolsIn_textLines (routines f mem)]
    rfl
  have entry : (["define i32 @main() \x7b", "entry:"] ++ l.moduleFrame.body ++
      ["  ret 0", "\x7d"]).flatMap symbolsIn = ["main"] := by
    have head : symbolsIn "define i32 @main() \x7b" = ["main"] := by decide +kernel
    rw [List.flatMap_append, List.flatMap_append, Frame.symbolsIn_body, List.flatMap_cons, head]
    simp [symbolsIn_eq_nil]
  have gap (none : Bool) : (if none then [] else [""]).flatMap symbolsIn = [] := by
    cases none <;> rfl
  rw [symbols, textLines]
  simp only [List.flatMap_append, inGlobals, inExternals, inRoutines, gap, List.append_nil]
  rw [← List.flatMap_append, ← List.flatMap_append, entry]

end Listing

/-! ### Programs -/

theorem Block.declared_of_mem_stored {program : Block} {name : String}
    (mem : name ∈ program.stored) : name ∈ program.declared := by
  rw [Block.declared_eq]
  exact List.mem_append_left _ mem

section

variable {options : Options} {source : String} {p : AnalyzedProgram}

/-- Globals are made for what the outermost block stores. -/
theorem AnalyzedProgram.stored_of_mem_globals (accepted : check options source = .ok p) {g : Global}
    (mem : g ∈ p.listing.globals.toList) : g.name ∈ p.program.stored := by
  have isCode := (AnalyzedProgram.codeOf_listing accepted).1
  exact (Block.Code.globals_sublist isCode).subset (List.mem_map_of_mem mem)

/-- What is stored has a name of letters and digits. -/
theorem AnalyzedProgram.isWord_of_mem_stored (accepted : check options source = .ok p)
    {name : String} (mem : name ∈ p.program.stored) : IsWord name := by
  exact AnalyzedProgram.isWord_of_check accepted name (Block.declared_of_mem_stored mem)

/-- No global has the symbol of a routine: the outermost block has other names for its routines than
for what it stores, and a symbol that is not the name of a routine is no word. -/
theorem AnalyzedProgram.symbol_ne_stored (accepted : check options source = .ok p) {path : Nesting}
    (mem : path ∈ p.program.paths []) {name : String} (stored : name ∈ p.program.stored) :
    path.symbol ≠ name := by
  intro same
  obtain ⟨inside, words⟩ := AnalyzedProgram.words_of_mem_paths accepted mem
  have word := AnalyzedProgram.isWord_of_mem_stored accepted stored
  match path with
  | [] => exact inside rfl
  | [outermost] =>
    rcases (Nesting.symbol_outermost (words outermost List.mem_cons_self)).2 with
      ⟨own, _⟩ | ⟨renamed, _⟩
    · have nodup := (AnalyzedProgram.resolved_of_check accepted).1.nodup_symbols
      rw [Block.map_fst_symbols] at nodup
      have routine := Block.mem_routines_of_mem_paths mem
      exact (List.nodup_append.mp nodup).2.2 name stored outermost routine (same.symm.trans own)
    · have isWord : '_'.isAlphanum = true := word '_' (by rw [← same, renamed]; decide)
      cases isWord
  | inner :: next :: around => exact word.dot_not_mem (same ▸ Nesting.dot_mem_symbol)

/-- Nothing that the outermost block stores has the symbol of a function of the runtime library. -/
theorem AnalyzedProgram.external_ne_stored (accepted : check options source = .ok p) {name : String}
    (stored : name ∈ p.program.stored) {arity : Nat} :
    options.meanings name ≠ some (.runtime arity) := by
  intro runtime
  obtain ⟨prelude, found⟩ := Options.isSome_find? runtime
  have free : options.names name = none := by
    refine (AnalyzedProgram.resolved_of_check accepted).2 name ?_
    rw [Block.map_fst_symbols]
    exact List.mem_append_left _ stored
  rw [Options.names, if_pos prelude, Option.map_eq_none_iff] at free
  rw [free] at found
  cases found

/-- Globals, functions defined elsewhere and routines all have different symbols. -/
theorem AnalyzedProgram.nodup_globals_append (accepted : check options source = .ok p) :
    (p.listing.globals.toList.map (·.name) ++ (p.listing.externals.map Prod.fst ++
      p.listing.routines.toList.map (·.symbol))).Nodup := by
  obtain ⟨isCode, _, runtime, _⟩ := AnalyzedProgram.codeOf_listing accepted
  have resolved := (AnalyzedProgram.resolved_of_check accepted).1
  have others := (List.nodup_append.mp (AnalyzedProgram.nodup_symbols accepted)).1
  refine List.nodup_append.mpr ⟨Block.Code.nodup_globals isCode resolved, others, ?_⟩
  rintro _ mem _ other rfl
  obtain ⟨g, isGlobal, rfl⟩ := List.mem_map.mp mem
  have stored := AnalyzedProgram.stored_of_mem_globals accepted isGlobal
  rcases List.mem_append.mp other with external | routine
  · obtain ⟨⟨name, arity⟩, among, same⟩ := List.mem_map.mp external
    have isRuntime := runtime _ among
    rw [show name = g.name from same] at isRuntime
    exact AnalyzedProgram.external_ne_stored accepted stored isRuntime
  · rw [Block.Code.symbols _ isCode] at routine
    obtain ⟨path, among, same⟩ := List.mem_map.mp routine
    exact AnalyzedProgram.symbol_ne_stored accepted among stored same

/-- The symbols that the text of an accepted program introduces, in the order of the text. -/
theorem AnalyzedProgram.symbols_listing (accepted : check options source = .ok p) :
    p.listing.symbols = p.listing.globals.toList.map (·.name) ++ p.listing.externals.map Prod.fst ++
      p.listing.routines.toList.map (·.symbol) ++ ["main"] := by
  obtain ⟨isCode, _, runtime, _⟩ := AnalyzedProgram.codeOf_listing accepted
  refine symbols_eq (fun g mem => ?_) (fun external mem => ?_) (fun f mem => ?_)
  · exact AnalyzedProgram.isWord_of_mem_stored accepted
      (AnalyzedProgram.stored_of_mem_globals accepted mem)
  · exact Primitive.isWord_of_find? (Options.isSome_find? (runtime external mem)).2
  · have symbol : f.symbol ∈ (p.program.paths []).map Nesting.symbol := by
      rw [← Block.Code.symbols _ isCode]
      exact List.mem_map_of_mem mem
    obtain ⟨path, among, same⟩ := List.mem_map.mp symbol
    rw [← same]
    exact Nesting.isSymbolChar (AnalyzedProgram.words_of_mem_paths accepted among).2

end

/-- Which symbols are introduced twice: none but the entry point's, and that one exactly if there is
a global of its name. There is none if the outermost block stores nothing of that name. -/
structure Listing.GlobalNames (program : Block) (l : Listing) : Prop where
  text : l.render = unlines l.textLines
  others : ∀ symbol, symbol ≠ "main" → l.symbols.count symbol ≤ 1
  entry : l.symbols.Nodup ↔ ∀ g ∈ l.globals.toList, g.name ≠ "main"
  apart : "main" ∉ program.stored → l.symbols.Nodup

/-- In the listing of an accepted program only `@main` can be introduced twice, and it is where
the program has storage of that name. -/
theorem AnalyzedProgram.globalNames_of_check {options : Options} {source : String}
    {p : AnalyzedProgram} (accepted : check options source = .ok p) :
    p.listing.GlobalNames p.program := by
  have nodup := AnalyzedProgram.nodup_globals_append accepted
  have notMain := (List.nodup_append.mp (AnalyzedProgram.nodup_symbols accepted)).2.2
  have symbols := AnalyzedProgram.symbols_listing accepted
  rw [List.append_assoc (p.listing.globals.toList.map (·.name))] at symbols
  have entry : p.listing.symbols.Nodup ↔ ∀ g ∈ p.listing.globals.toList, g.name ≠ "main" := by
    rw [symbols, List.nodup_append]
    constructor
    · rintro ⟨_, _, apart⟩ g mem
      exact apart _ (List.mem_append_left _ (List.mem_map_of_mem mem)) "main" (by simp)
    · refine fun global => ⟨nodup, List.nodup_singleton _, ?_⟩
      rintro symbol mem _ isEntry
      rcases List.mem_append.mp mem with isGlobal | other
      · obtain ⟨g, among, rfl⟩ := List.mem_map.mp isGlobal
        rw [List.mem_singleton.mp isEntry]
        exact global g among
      · exact notMain symbol other _ isEntry
  constructor
  case text => exact p.listing.render_eq_unlines
  case others =>
    intro symbol other
    rw [symbols, List.count_append, List.count_singleton, beq_false_of_ne other.symm]
    exact List.nodup_iff_count_le_one.mp nodup symbol
  case entry => exact entry
  case apart =>
    intro free
    refine entry.mpr fun g mem same => ?_
    exact free (same ▸ AnalyzedProgram.stored_of_mem_globals accepted mem)

/-- With a routine that is named as the entry point, a nested one, and a function of the runtime
library. -/
theorem AnalyzedProgram.globalNames_of_check_routine :
    let source := "var x; procedure main; procedure p; ; x := read; main."
    ∃ p, check {} source = .ok p ∧ p.listing.GlobalNames p.program ∧
      p.listing.symbols = ["x", "read", "_main.p", "_main", "main"] := by
  intro source
  have outcome : (check {} source).toOption.map (·.listing.symbols) =
      some ["x", "read", "_main.p", "_main", "main"] := by decide +kernel
  have isOk : (check {} source).toOption.isSome = true := by
    rw [← Option.isSome_map, outcome]
    rfl
  obtain ⟨p, accepted⟩ := exists_check_of_isSome isOk
  rw [accepted] at outcome
  exact ⟨p, accepted, AnalyzedProgram.globalNames_of_check accepted, Option.some.inj outcome⟩

/-- A variable and the entry point, both `@main`. -/
theorem AnalyzedProgram.symbols_not_nodup_of_stored_main :
    ∃ p, check {} "var main; main := 1." = .ok p ∧ p.listing.symbols = ["main", "main"] ∧
      ¬ p.listing.symbols.Nodup := by
  have outcome : (check {} "var main; main := 1.").toOption.map (·.listing.symbols) =
      some ["main", "main"] := by decide +kernel
  have isOk : (check {} "var main; main := 1.").toOption.isSome = true := by
    rw [← Option.isSome_map, outcome]
    rfl
  obtain ⟨p, accepted⟩ := exists_check_of_isSome isOk
  rw [accepted] at outcome
  have symbols : p.listing.symbols = ["main", "main"] := Option.some.inj outcome
  refine ⟨p, accepted, symbols, ?_⟩
  rw [symbols]
  decide

end PlZero
