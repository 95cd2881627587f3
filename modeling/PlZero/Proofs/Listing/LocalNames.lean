import PlZero.Proofs.Listing.Calls
import PlZero.Proofs.Listing.Storage
import PlZero.Proofs.Listing.Temporaries

/-!
Names behind a percent sign. A routine introduces them in four places: the head of its definition
has its parameters, a slot line has a slot, an instruction may have a result, and a function gives
back `%ret`. Places are told apart by their text and results by their numbers. But a place may be
written as a result or as what is given back, for a program may declare `t0` or `ret`; and in no
other way can a name be introduced twice.

The names are read off the text (`Listing.introducedIn`), which is shown to introduce the places,
the results and `%ret`, and nothing else (`Listing.Frame.introduced_perm`).

Main statement: `AnalyzedProgram.localNames_of_check`.
-/

namespace PlZero

open Listing

namespace Listing

/-! ### Names in a line of text -/

/-- May a character stand in a name behind a percent sign? -/
def isLocalChar (c : Char) : Bool := c.isAlphanum || c == '.'

/-- The names behind the percent signs of a text. -/
def localNames : List Char → List String
  | [] => []
  | c :: rest =>
    if c = '%' then String.ofList (c :: rest.takeWhile isLocalChar) :: localNames rest
    else localNames rest

/-- The names that a line of text introduces: those in the head of a definition, the one of a slot,
and the one before an equals sign. -/
def introducedIn (line : String) : List String :=
  if "define ".toList.isPrefixOf line.toList || "  slot ".toList.isPrefixOf line.toList then
    localNames line.toList
  else if "  %".toList.isPrefixOf line.toList then (localNames line.toList).take 1
  else []

/-- The start of a line tells that it introduces nothing. -/
theorem introducedIn_eq_nil {line : String} (start : String) (starts : start.toList <+: line.toList)
    (other : ∀ x ∈ ["define ".toList, "  slot ".toList, "  %".toList],
      ¬ x <+: start.toList ∧ ¬ start.toList <+: x) : introducedIn line = [] := by
  have never : ∀ x ∈ ["define ".toList, "  slot ".toList, "  %".toList],
      x.isPrefixOf line.toList = false := by
    intro x mem
    rw [Bool.eq_false_iff, ne_eq, List.isPrefixOf_iff_prefix]
    intro isPrefix
    rcases List.prefix_or_prefix_of_prefix isPrefix starts with shorter | longer
    · exact (other x mem).1 shorter
    · exact (other x mem).2 longer
  rw [introducedIn, never _ (.head _), never _ (.tail _ (.head _)),
    never _ (.tail _ (.tail _ (.head _)))]
  rfl

/-- Text without percent signs has no local names. -/
theorem localNames_append {x : List Char} (none : '%' ∉ x) (y : List Char) :
    localNames (x ++ y) = localNames y := by
  induction x with
  | nil => rfl
  | cons c x ih =>
    obtain ⟨first, others⟩ := List.ne_and_not_mem_of_not_mem_cons none
    rw [List.cons_append, localNames, if_neg first.symm, ih others]

/-- A name ends where other characters begin. -/
theorem localNames_name {name rest : List Char} (isName : ∀ c ∈ name, isLocalChar c = true)
    (behind : ∀ c ∈ rest.head?, isLocalChar c = false) :
    localNames ('%' :: (name ++ rest)) = String.ofList ('%' :: name) :: localNames rest := by
  have none : '%' ∉ name := fun mem => by
    have isChar : isLocalChar '%' = true := isName '%' mem
    cases isChar
  rw [localNames, if_pos rfl, takeWhile_append_eq isName behind, localNames_append none]

theorem isLocalChar_of_isWord {name : String} (word : IsWord name) :
    ∀ c ∈ name.toList, isLocalChar c = true := by
  intro c mem
  rw [isLocalChar, word c mem, Bool.true_or]

theorem isWord_append {x y : String} (left : IsWord x) (right : IsWord y) : IsWord (x ++ y) := by
  intro c mem
  rw [String.toList_append] at mem
  exact (List.mem_append.mp mem).elim (left c) (right c)

theorem isWord_toString (n : Nat) : IsWord (toString n) := by
  intro c mem
  rw [Nat.toString_eq_ofList_toDigits, String.toList_ofList] at mem
  rw [Char.isAlphanum, Nat.isDigit_of_mem_toDigits (by decide) (by decide) mem, Bool.or_true]

/-- The slot that is written as this result is. -/
def resultSlot (id : Nat) : Slot := ⟨"t" ++ toString id, 0⟩

/-- A result is written like a word, as places are; so the two can be mixed up. -/
theorem isWord_resultSlot (id : Nat) : IsWord (resultSlot id).name := by
  have letter : IsWord "t" := isWord_of_all (by decide)
  exact isWord_append letter (isWord_toString id)

/-- A temporary is written as a slot would be whose name is its number behind a `t`. -/
theorem render_resultSlot (id : Nat) : (resultSlot id).render = (Operand.temp id).render := by
  simp [Slot.render, resultSlot, Operand.render, ← String.append_assoc]

theorem Slot.isLocalChar_of_mem {s : Slot} (word : IsWord s.name) :
    ∀ c ∈ s.name.toList ++ s.numbering, isLocalChar c = true := by
  refine List.forall_mem_append.mpr ⟨isLocalChar_of_isWord word, fun c mem => ?_⟩
  unfold Slot.numbering at mem
  split at mem
  · cases mem
  · rcases List.mem_cons.mp mem with rfl | mem
    · rfl
    · exact isLocalChar_of_isWord (isWord_toString _) c mem

/-- A slot before something that is not part of it is read back. -/
theorem Slot.localNames_render {s : Slot} (word : IsWord s.name) {rest : List Char}
    (behind : ∀ c ∈ rest.head?, isLocalChar c = false) :
    localNames (s.render.toList ++ rest) = s.render :: localNames rest := by
  have whole : String.ofList ('%' :: (s.name.toList ++ s.numbering)) = s.render :=
    String.toList_injective (by rw [String.toList_ofList, s.toList_render])
  rw [s.toList_render, List.cons_append, localNames_name (s.isLocalChar_of_mem word) behind, whole]

/-! ### Names that lines introduce -/

def Line.introduced (line : Line) : List String :=
  (line.slot?.map Slot.render).toList ++
    (line.result?.map fun id => (Operand.temp id).render).toList

/-- The line of a slot introduces the slot. -/
theorem introducedIn_slot {s : Slot} (word : IsWord s.name) :
    introducedIn (Line.instr (.slot s)).render = [s.render] := by
  have chars : (Line.instr (.slot s)).render.toList = "  slot ".toList ++ s.render.toList := by
    simp [Line.render, Instr.render]
  have isSlot : "  slot ".toList.isPrefixOf (Line.instr (.slot s)).render.toList = true := by
    rw [chars, List.isPrefixOf_iff_prefix]
    exact List.prefix_append _ _
  have only : localNames s.render.toList = [s.render] := by
    rw [← List.append_nil s.render.toList, Slot.localNames_render word (by simp),
      localNames]
  rw [introducedIn, isSlot, Bool.or_true, if_pos rfl, chars, localNames_append (by decide), only]

/-- What stands before an equals sign is introduced. -/
theorem introducedIn_equals {s : Slot} (word : IsWord s.name) (value : String) :
    introducedIn ("  " ++ (s.render ++ (" = " ++ value))) = [s.render] := by
  have chars : ("  " ++ (s.render ++ (" = " ++ value))).toList =
      "  ".toList ++ (s.render.toList ++ (" = ".toList ++ value.toList)) := by
    rw [String.toList_append, String.toList_append, String.toList_append]
  have isResult : introducedIn ("  " ++ (s.render ++ (" = " ++ value))) =
      (localNames ("  " ++ (s.render ++ (" = " ++ value))).toList).take 1 := by
    rw [introducedIn, chars, Slot.toList_render]
    rfl
  rw [isResult, chars, localNames_append (by decide),
    Slot.localNames_render word (by rintro _ ⟨⟩; rfl)]
  rfl

/-- The line of a result introduces it before the equals sign. -/
theorem introducedIn_result (id : Nat) (value : String) :
    introducedIn ("  " ++ (resultText id ++ value)) = [(Operand.temp id).render] := by
  rw [resultText, String.append_assoc, ← render_resultSlot]
  exact introducedIn_equals (isWord_resultSlot id) value

/-- The names found in the text of a line are those that the line introduces. -/
theorem introducedIn_render {line : Line} (words : ∀ s ∈ line.slot?, IsWord s.name) :
    introducedIn line.render = line.introduced := by
  match line with
  | .label id => simp [introducedIn, Line.render, labelText, Line.introduced, Line.slot?,
      Line.result?]
  | .instr (.slot s) => exact introducedIn_slot (words s rfl)
  | .instr (.load id address) =>
    rw [Line.render, Instr.render, String.append_assoc, introducedIn_result]
    rfl
  | .instr (.binary id op lhs rhs) =>
    simp only [Line.render, Instr.render, String.append_assoc]
    exact introducedIn_result id _
  | .instr (.odd id operand) =>
    rw [Line.render, Instr.render, String.append_assoc, introducedIn_result]
    rfl
  | .instr (.call id symbol args) =>
    simp only [Line.render, Instr.render, String.append_assoc]
    exact introducedIn_result id _
  | .instr (.store _ _) | .instr (.run _) | .instr (.asm _) | .instr (.branch _ _ _)
  | .instr (.jump _) =>
    simp [introducedIn, Line.render, Instr.render, Line.introduced, Line.slot?, Line.result?,
      Instr.result?]

/-- Lines introduce the slots they make and the results they compute. -/
theorem flatMap_introduced_perm (code : List Line) :
    (code.flatMap Line.introduced).Perm
      ((slotsOf code).map Slot.render ++
        (resultsOf code).map fun id => (Operand.temp id).render) := by
  have slots : code.flatMap (fun line => (line.slot?.map Slot.render).toList) =
      (slotsOf code).map Slot.render := by
    rw [slotsOf, List.map_filterMap, List.filterMap_eq_flatMap_toList]
  have results : code.flatMap (fun line =>
        (line.result?.map fun id => (Operand.temp id).render).toList) =
      (resultsOf code).map fun id => (Operand.temp id).render := by
    rw [resultsOf, List.map_filterMap, List.filterMap_eq_flatMap_toList]
  rw [← slots, ← results]
  exact (List.flatMap_append_perm code _ _).symm

/-! ### Names that routines introduce -/

/-- The slot that is written as what a function gives back. -/
def returnedSlot : Slot := ⟨"ret", 0⟩

theorem isWord_returnedSlot : IsWord returnedSlot.name := isWord_of_all (by decide)

/-- The names that the text of a routine introduces. -/
def Frame.introduced (f : Frame) : List String := f.textLines.flatMap introducedIn

def entryLines (l : Listing) : List String :=
  ["define i32 @main() \x7b", "entry:"] ++ l.moduleFrame.body ++ ["  ret 0", "\x7d"]

/-- The slots that are written as the names of a routine: its places, its results, and what it
gives back. -/
def Frame.named (f : Frame) : List Slot :=
  f.places ++ f.results.map resultSlot ++ (f.result.map fun _ => returnedSlot).toList

/-- No place of a routine is written as a result of it, or as what it gives back. -/
def Frame.Unmixed (f : Frame) : Prop :=
  (∀ id ∈ f.results, resultSlot id ∉ f.places) ∧ (f.result.isSome = true → returnedSlot ∉ f.places)

/-- Parameters are written one behind the other, each as a local name. -/
theorem localNames_params {params : List String} (words : ∀ param ∈ params, IsWord param)
    {rest : List Char} (behind : ∀ c ∈ rest.head?, isLocalChar c = false) :
    localNames ((", ".intercalate (params.map ("i32 %" ++ ·))).toList ++ rest) =
      params.map ("%" ++ ·) ++ localNames rest := by
  have one {param : String} (word : IsWord param) {rest : List Char}
      (behind : ∀ c ∈ rest.head?, isLocalChar c = false) :
      localNames (("i32 %" ++ param).toList ++ rest) = ("%" ++ param) :: localNames rest := by
    have chars : ("i32 %" ++ param).toList ++ rest =
        "i32 ".toList ++ ((Slot.mk param 0).render.toList ++ rest) := by
      simp [Slot.render]
    rw [chars, localNames_append (by decide), Slot.localNames_render word behind]
    rfl
  match params with
  | [] => rfl
  | [param] =>
    rw [List.map_singleton, String.intercalate_singleton]
    exact one (words param List.mem_cons_self) behind
  | param :: next :: params =>
    obtain ⟨first, others⟩ := List.forall_mem_cons.mp words
    rw [List.map_cons, List.map_cons, String.intercalate_cons_cons, String.toList_append,
      String.toList_append, List.append_assoc, List.append_assoc,
      one first (by rintro _ ⟨⟩; rfl), localNames_append (by decide), ← List.map_cons,
      localNames_params others behind]
    rfl

/-- The names in the head of a definition are those of the parameters. -/
theorem introducedIn_head {type symbol : String} {params : List String} (noType : '%' ∉ type.toList)
    (noSymbol : '%' ∉ symbol.toList) (words : ∀ param ∈ params, IsWord param) :
    introducedIn ("define " ++ type ++ " @" ++ symbol ++ "(" ++
      ", ".intercalate (params.map ("i32 %" ++ ·)) ++ ") \x7b") = params.map ("%" ++ ·) := by
  have start : '%' ∉ ("define " ++ type ++ " @" ++ symbol ++ "(").toList := by
    simp [noType, noSymbol]
  have isHead : introducedIn ("define " ++ type ++ " @" ++ symbol ++ "(" ++
      ", ".intercalate (params.map ("i32 %" ++ ·)) ++ ") \x7b") =
      localNames ("define " ++ type ++ " @" ++ symbol ++ "(" ++
        ", ".intercalate (params.map ("i32 %" ++ ·)) ++ ") \x7b").toList := by
    simp only [String.append_assoc, introducedIn, String.toList_append]
    rfl
  rw [isHead, String.toList_append, String.toList_append, List.append_assoc,
    localNames_append start, localNames_params words (by rintro _ ⟨⟩; rfl)]
  exact List.append_nil _

/-- The names found in the text of lines are those that the lines introduce. -/
theorem introducedIn_body {code : List Line} (words : ∀ s ∈ slotsOf code, IsWord s.name) :
    (code.map Line.render).flatMap introducedIn = code.flatMap Line.introduced := by
  rw [List.flatMap_map]
  refine List.flatMap_congr fun line mem => introducedIn_render fun s isSlot => ?_
  exact words s (List.mem_filterMap.mpr ⟨line, mem, isSlot⟩)

/-- The text of a routine introduces its places, its results and what it gives back. -/
theorem Frame.introduced_perm {f : Frame} (noSymbol : '%' ∉ f.symbol.toList)
    (words : ∀ s ∈ f.places, IsWord s.name) : f.introduced.Perm (f.named.map Slot.render) := by
  obtain ⟨params, slots⟩ := List.forall_mem_append.mp words
  have noType : '%' ∉ (if f.result.isSome then "i32" else "void").toList := by split <;> decide
  have head := introducedIn_head noType noSymbol fun param mem =>
    params _ (List.mem_map_of_mem mem)
  have text : f.introduced = f.params.map ("%" ++ ·) ++
      (f.lines.toList.flatMap Line.introduced ++
        ((f.result.map fun _ => returnedSlot).toList).map Slot.render) := by
    rw [Frame.introduced, Frame.textLines, List.flatMap_cons, head, List.flatMap_cons,
      List.flatMap_append, List.flatMap_append, Frame.body, introducedIn_body slots]
    cases f.result with
    | none => simp [introducedIn]
    | some slot =>
      have loaded : introducedIn ("  %ret = load " ++ slot.render) = [returnedSlot.render] := by
        rw [← introducedIn_equals isWord_returnedSlot ("load " ++ slot.render),
          ← String.append_assoc, ← String.append_assoc, ← String.append_assoc]
        rfl
      rw [List.flatMap_cons, loaded]
      simp [introducedIn]
  have named : f.named.map Slot.render = f.params.map ("%" ++ ·) ++
      ((slotsOf f.lines.toList).map Slot.render ++
        (resultsOf f.lines.toList).map (fun id => (Operand.temp id).render) ++
        ((f.result.map fun _ => returnedSlot).toList).map Slot.render) := by
    simp only [Frame.named, Frame.places, Frame.results, List.map_append, List.map_map,
      Function.comp_def, render_resultSlot, List.append_assoc]
    rfl
  rw [text, named]
  exact ((flatMap_introduced_perm _).append_right _).append_left _

/-- Two results are never written alike. -/
theorem resultSlot_inj {id other : Nat} (same : resultSlot id = resultSlot other) : id = other := by
  have chars := congrArg (fun s => s.name.toList) same
  simp only [resultSlot, String.toList_append] at chars
  have digits := congrArg (Nat.ofDigitChars 10 · 0) (List.append_cancel_left chars)
  simpa [Nat.toString_eq_ofList_toDigits] using digits

/-- No result is written as what a function gives back. -/
theorem resultSlot_ne_returnedSlot (id : Nat) : resultSlot id ≠ returnedSlot := by
  intro same
  have chars := congrArg (fun s => s.name.toList.head?) same
  simp [resultSlot, returnedSlot] at chars

/-- Names are introduced twice only if a place is written as a result or as what is given back. -/
theorem Frame.nodup_introduced_iff {f : Frame} (noSymbol : '%' ∉ f.symbol.toList)
    (words : ∀ s ∈ f.places, IsWord s.name) (places : f.places.Nodup) (results : f.results.Nodup) :
    f.introduced.Nodup ↔ f.Unmixed := by
  have named : ∀ s ∈ f.named, IsWord s.name := by
    simp only [Frame.named, List.forall_mem_append]
    refine ⟨⟨words, fun s mem => ?_⟩, fun s mem => ?_⟩
    · obtain ⟨id, _, rfl⟩ := List.mem_map.mp mem
      exact isWord_resultSlot id
    · obtain ⟨_, _, rfl⟩ := Option.map_eq_some_iff.mp (Option.mem_toList.mp mem)
      exact isWord_returnedSlot
  have own : (f.results.map resultSlot).Nodup :=
    results.map_on fun _ _ _ _ same => resultSlot_inj same
  have last : (f.result.map fun _ => returnedSlot).toList.Nodup := by cases f.result <;> simp
  have toSlots : f.introduced.Nodup ↔ f.named.Nodup := by
    rw [(Frame.introduced_perm noSymbol words).nodup_iff]
    refine ⟨List.Nodup.of_map _, List.Nodup.map_on fun s hs t ht same => ?_⟩
    exact Slot.render_inj (named s hs) (named t ht) same
  rw [toSlots, Frame.named, List.nodup_append, List.nodup_append]
  constructor
  · rintro ⟨⟨_, _, apart⟩, _, returned⟩
    refine ⟨fun id mem place => apart _ place _ (List.mem_map_of_mem mem) rfl, ?_⟩
    intro isSome place
    obtain ⟨slot, isResult⟩ := Option.isSome_iff_exists.mp isSome
    exact returned _ (List.mem_append_left _ place) returnedSlot (by simp [isResult]) rfl
  · rintro ⟨apart, returned⟩
    refine ⟨⟨places, own, ?_⟩, last, ?_⟩
    · rintro s place _ mem rfl
      obtain ⟨id, isResult, rfl⟩ := List.mem_map.mp mem
      exact apart id isResult place
    · rintro s among _ mem rfl
      obtain ⟨slot, isResult, rfl⟩ := Option.map_eq_some_iff.mp (Option.mem_toList.mp mem)
      rcases List.mem_append.mp among with place | mem
      · exact returned (isResult ▸ rfl) place
      · obtain ⟨id, _, same⟩ := List.mem_map.mp mem
        exact resultSlot_ne_returnedSlot id same

end Listing

/-! ### Programs -/

/-- Symbols have no percent signs. -/
theorem Nesting.percent_not_mem_symbol {path : Nesting} (words : ∀ name ∈ path, IsWord name) :
    '%' ∉ path.symbol.toList := by
  have notIn {name : String} (word : IsWord name) : '%' ∉ name.toList := fun mem => by
    have isWord : '%'.isAlphanum = true := word '%' mem
    cases isWord
  match path with
  | [] => decide
  | [name] =>
    rw [Nesting.symbol]
    split
    · decide
    · exact notIn (words name List.mem_cons_self)
  | name :: next :: around =>
    obtain ⟨word, others⟩ := List.forall_mem_cons.mp words
    simp [Nesting.symbol, percent_not_mem_symbol others, notIn word]

/-- The outermost block makes no slots. -/
theorem Definition.CodeAll.slotsOf_eq_nil {externals : List (String × Nat)} {role : Role}
    {means behind : Meanings} {defs : List Definition} {code : List Line} {globals : List Global}
    (areCode : Definition.CodeAll [] externals role means defs code globals behind) :
    slotsOf code = [] := by
  have reservedNone {name : String} {init : Option Operand} {home : Home} {lines : List Line}
      {globals : List Global} (reserved : Home.Reserved [] name init home lines globals) :
      slotsOf lines = [] := by
    cases reserved <;> rfl
  induction areCode with
  | nil => rfl
  | cons isCode _ ih =>
    rw [slotsOf_append, ih, List.append_nil]
    cases isCode with
    | known init => exact Listing.slotsOf_eq_nil init.phrase
    | kept init reserved | set init reserved =>
      rw [slotsOf_append, Listing.slotsOf_eq_nil init.phrase, reservedNone reserved]
      rfl
    | unset reserved => exact reservedNone reserved

/-- The entry point has no slots: its storage is global. -/
theorem Listing.CodeOf.slotsOf_eq_nil {options : Options} {program : Block} {l : Listing}
    (isCode : l.CodeOf options program) : slotsOf l.moduleFrame.lines.toList = [] := by
  obtain ⟨line, consts, vars, routines, body, scope⟩ := program
  rw [Listing.CodeOf, Block.Code] at isCode
  obtain ⟨_, _, _, _, _, _, _, part, inConsts, inVars, _, _, inBody, lines, _⟩ := isCode
  have bodySlots : slotsOf (Stmt.partLines part) = [] :=
    Listing.slotsOf_eq_nil (Stmt.phrase_partLines fun p mem => (inBody p mem).phrase)
  rw [lines, slotsOf_append, slotsOf_append, inConsts.slotsOf_eq_nil, inVars.slotsOf_eq_nil,
    bodySlots]
  rfl

/-- The entry point introduces results only. -/
theorem Listing.Counted.nodup_entryLines {l : Listing} (counted : l.Counted)
    (noSlots : slotsOf l.moduleFrame.lines.toList = []) :
    (l.entryLines.flatMap introducedIn).Nodup := by
  have results := counted.nodup_results l.moduleFrame_mem_allFrames
  have body : (l.moduleFrame.body.flatMap introducedIn).Perm
      (l.moduleFrame.results.map fun id => (Operand.temp id).render) := by
    have perm := flatMap_introduced_perm l.moduleFrame.lines.toList
    rw [noSlots, List.map_nil, List.nil_append] at perm
    rw [Frame.body, introducedIn_body (by rw [noSlots]; nofun)]
    exact perm
  have text : l.entryLines.flatMap introducedIn = l.moduleFrame.body.flatMap introducedIn := by
    have head : introducedIn "define i32 @main() \x7b" = [] := by decide +kernel
    rw [entryLines, List.flatMap_append, List.flatMap_append, List.flatMap_cons, head]
    simp [introducedIn]
  rw [text, body.nodup_iff]
  refine results.map_on fun id _ other _ same => ?_
  rw [← render_resultSlot, ← render_resultSlot] at same
  exact resultSlot_inj
    (Slot.render_inj (isWord_resultSlot id) (isWord_resultSlot other) same)

/-- Which names behind a percent sign are introduced twice. The text of a listing is that of its
globals and declarations, of its routines and of the entry point. The entry point introduces no name
twice; a routine does so exactly if a place of it is written as one of its results or as what it
gives back, and if no declared name is written so, no routine does. -/
structure Listing.LocalNames (program : Block) (l : Listing) : Prop where
  text : ∃ declarations, l.render = unlines (declarations ++
    l.routines.toList.flatMap (fun f => f.textLines ++ [""]) ++ l.entryLines) ∧
    ∀ line ∈ declarations, introducedIn line = []
  entry : (l.entryLines.flatMap introducedIn).Nodup
  routine : ∀ f ∈ l.routines.toList, f.introduced.Nodup ↔ f.Unmixed
  apart : (∀ name ∈ program.declared, name ≠ "ret" ∧ ∀ id : Nat, name ≠ "t" ++ toString id) →
    ∀ f ∈ l.routines.toList, f.introduced.Nodup

/-- In the listing of an accepted program a routine introduces a name behind a percent sign twice
only where a declared name is spelled as a result or as what a function gives back. -/
theorem AnalyzedProgram.localNames_of_check {options : Options} {source : String}
    {p : AnalyzedProgram} (accepted : check options source = .ok p) :
    p.listing.LocalNames p.program := by
  obtain ⟨isCode, places, _⟩ := AnalyzedProgram.codeOf_listing accepted
  have counted := p.counted_listing
  have declared := (Block.Code.slots_declared _ isCode).2
  have routine : ∀ f ∈ p.listing.routines.toList, f.introduced.Nodup ↔ f.Unmixed := by
    intro f mem
    have symbol : f.symbol ∈ (p.program.paths []).map Nesting.symbol := by
      rw [← Block.Code.symbols _ isCode]
      exact List.mem_map_of_mem mem
    obtain ⟨path, among, same⟩ := List.mem_map.mp symbol
    have noSymbol : '%' ∉ f.symbol.toList := by
      rw [← same]
      exact Nesting.percent_not_mem_symbol (AnalyzedProgram.words_of_mem_paths accepted among).2
    have words := AnalyzedProgram.isWord_of_check accepted
    exact Frame.nodup_introduced_iff noSymbol (fun s place => words _ (declared f mem s place))
      (places f mem) (counted.nodup_results (List.mem_append_left _ mem))
  constructor
  case text =>
    let declarations := p.listing.globals.toList.map (·.render) ++
      p.listing.externals.map fun external => externalText external.1 external.2
    refine ⟨declarations ++ (if declarations.isEmpty then [] else [""]),
      p.listing.render_eq_unlines, ?_⟩
    have each : ∀ line ∈ declarations, introducedIn line = [] := by
      refine List.forall_mem_append.mpr ⟨fun line mem => ?_, fun line mem => ?_⟩
      · obtain ⟨g, _, rfl⟩ := List.mem_map.mp mem
        refine introducedIn_eq_nil "global @" ?_ (by decide +kernel)
        rw [Global.render, String.append_assoc, String.append_assoc, String.toList_append]
        exact List.prefix_append _ _
      · obtain ⟨external, _, rfl⟩ := List.mem_map.mp mem
        have starts (a b c d e : String) : a.toList <+: (a ++ b ++ c ++ d ++ e).toList :=
          ⟨(b ++ c ++ d ++ e).toList, by simp⟩
        exact introducedIn_eq_nil "declare i32 @" (starts _ _ _ _ _) (by decide +kernel)
    refine List.forall_mem_append.mpr ⟨each, fun line mem => ?_⟩
    split at mem
    · cases mem
    · rw [List.mem_singleton.mp mem]
      rfl
  case entry => exact counted.nodup_entryLines isCode.slotsOf_eq_nil
  case routine => exact routine
  case apart =>
    intro other f mem
    refine (routine f mem).mpr ⟨fun id _ place => ?_, fun _ place => ?_⟩
    · exact (other _ (declared f mem _ place)).2 id rfl
    · exact (other _ (declared f mem _ place)).1 rfl

/-- With a slot that is numbered, and names that only look like generated ones. -/
theorem AnalyzedProgram.localNames_of_check_shadowed :
    ∃ p, check {} "function f(t, ret0); var t; f := t; ." = .ok p ∧
      p.listing.LocalNames p.program ∧ p.listing.routines.toList.map Frame.introduced =
        [["%t", "%ret0", "%f", "%t.1", "%t0", "%ret"]] := by
  have outcome : (check {} "function f(t, ret0); var t; f := t; .").toOption.map
      (·.listing.routines.toList.map Frame.introduced) =
      some [["%t", "%ret0", "%f", "%t.1", "%t0", "%ret"]] := by decide +kernel
  have isOk : (check {} "function f(t, ret0); var t; f := t; .").toOption.isSome = true := by
    rw [← Option.isSome_map, outcome]
    rfl
  obtain ⟨p, accepted⟩ := exists_check_of_isSome isOk
  rw [accepted] at outcome
  exact ⟨p, accepted, AnalyzedProgram.localNames_of_check accepted, Option.some.inj outcome⟩

/-- A variable and the result of the load that reads it, both `%t0`. -/
theorem AnalyzedProgram.introduced_twice_of_result_name :
    ∃ p, check {} "procedure p; var t0, x; x := t0; p." = .ok p ∧
      ∃ f ∈ p.listing.routines.toList, f.introduced = ["%t0", "%x", "%t0"] ∧
        ¬ f.introduced.Nodup := by
  have outcome : (check {} "procedure p; var t0, x; x := t0; p.").toOption.map
      (·.listing.routines.toList.map Frame.introduced) = some [["%t0", "%x", "%t0"]] := by
    decide +kernel
  have isOk : (check {} "procedure p; var t0, x; x := t0; p.").toOption.isSome = true := by
    rw [← Option.isSome_map, outcome]
    rfl
  obtain ⟨p, accepted⟩ := exists_check_of_isSome isOk
  rw [accepted] at outcome
  have only := Option.some.inj outcome
  obtain ⟨f, mem, names⟩ := List.mem_map.mp (only ▸ List.mem_singleton_self _)
  refine ⟨p, accepted, f, mem, names, ?_⟩
  rw [names]
  decide

end PlZero
