import PlZero.Proofs.Analysis.Declared
import PlZero.Proofs.Listing.Declarations

/-!
Where storage is. In the listing of an accepted program every load and store goes to the storage of
the declaration that scoping designates: that is what `Listing.CodeOf` says of a program. Here it is
shown that storage is told apart by its text: the places of one routine are written differently, and
so are globals.

Main statement: `AnalyzedProgram.storage_of_check`.
-/

namespace PlZero

namespace Listing

/-! ### Places as text -/

/-- What stands behind the name in a slot. -/
def Slot.numbering (s : Slot) : List Char :=
  if s.earlier = 0 then [] else '.' :: (toString s.earlier).toList

/-- A slot is written as a percent sign, its name and what numbers it. -/
theorem Slot.toList_render (s : Slot) :
    s.render.toList = '%' :: (s.name.toList ++ s.numbering) := by
  unfold Slot.render Slot.numbering
  split
  · simp
  · simp

/-- Slots whose names are words are told apart by their text. -/
theorem Slot.render_inj {s t : Slot} (left : IsWord s.name) (right : IsWord t.name)
    (same : s.render = t.render) : s = t := by
  have behind (s : Slot) : ∀ c ∈ s.numbering.head?, c.isAlphanum = false := by
    unfold Slot.numbering
    split
    · nofun
    · rintro _ ⟨⟩
      rfl
  have chars := congrArg String.toList same
  rw [Slot.toList_render, Slot.toList_render, List.cons_inj_right] at chars
  obtain ⟨names, numbers⟩ := append_inj_of_isAlphanum left right (behind s) (behind t) chars
  obtain ⟨name, earlier⟩ := s
  obtain ⟨name', earlier'⟩ := t
  obtain rfl : name = name' := String.toList_injective names
  have earlier_eq : earlier = earlier' := by
    unfold Slot.numbering at numbers
    dsimp only at numbers
    split at numbers <;> split at numbers
    · next first second => rw [first, second]
    · cases numbers
    · cases numbers
    · have digits := congrArg (Nat.ofDigitChars 10 · 0) (List.cons.inj numbers).2
      simpa [Nat.toString_eq_ofList_toDigits] using digits
  rw [earlier_eq]

end Listing

open Listing

variable {means behind : Meanings} {here : Nesting} {externals : List (String × Nat)}
  {code : List Line} {globals : List Global} {done : List Frame}

/-! ### Slots are declared -/

/-- Storage for a name makes slots of that name only. -/
theorem Listing.Home.Reserved.slotsOf_eq {name : String} {init : Option Operand} {home : Home}
    (reserved : Home.Reserved here name init home code globals) :
    ∀ s ∈ slotsOf code, s.name = name := by
  cases reserved with
  | unset | start | set => nofun
  | @slot _ _ slot init => cases init <;> simp [slotsOf, Line.slot?]

/-- Slots are made for declared names only. -/
theorem Definition.CodeAll.slots_declared {role : Role} {defs : List Definition}
    (areCode : Definition.CodeAll here externals role means defs code globals behind) :
    ∀ s ∈ slotsOf code, s.name ∈ Definition.declared defs := by
  induction areCode with
  | nil => nofun
  | @cons _ _ d _ code _ _ _ _ isCode _ ih =>
    have first : ∀ s ∈ slotsOf code, s.name = d.name := by
      cases isCode with
      | known init => rw [slotsOf_eq_nil init.phrase]; nofun
      | kept init reserved | set init reserved =>
        rw [slotsOf_append, slotsOf_eq_nil init.phrase, List.nil_append]
        exact reserved.slotsOf_eq
      | unset reserved => exact reserved.slotsOf_eq
    rw [slotsOf_append, List.forall_mem_append]
    exact ⟨fun s mem => first s mem ▸ List.mem_cons_self,
      fun s mem => List.mem_cons_of_mem _ (ih s mem)⟩

mutual

/-- The slots of a block, and the places of the routines in it, are named by its declarations. -/
theorem Block.Code.slots_declared {means : Meanings} {here : Nesting} {code : List Line}
    {globals : List Global} {done : List Frame} :
    (block : Block) → block.Code means here externals code globals done →
    (∀ s ∈ slotsOf code, s.name ∈ block.declared) ∧
      ∀ f ∈ done, ∀ s ∈ f.places, s.name ∈ block.declared
  | { consts, vars, routines, body, .. }, isCode => by
    rw [Block.Code] at isCode
    obtain ⟨_, _, _, code₁, code₂, _, _, part, inConsts, inVars, inRoutines, rfl, inBody, rfl, _⟩ :=
      isCode
    have bodySlots : slotsOf (Stmt.partLines part) = [] :=
      slotsOf_eq_nil (Stmt.phrase_partLines fun p mem => (inBody p mem).phrase)
    have among := Routine.CodeAll.places_declared routines inRoutines
    simp only [slotsOf_append, bodySlots, List.append_nil, Block.declared, List.mem_append]
    constructor
    · rintro s (mem | mem)
      · exact .inl (.inl (inConsts.slots_declared s mem))
      · exact .inl (.inr (inVars.slots_declared s mem))
    · exact fun f mem s place => .inr (among f mem s place)

/-- So are those of a routine and of the routines inside it. -/
theorem Routine.Code.places_declared {means : Meanings} {here : Nesting} {done : List Frame} :
    (r : Routine) → r.Code means here externals done →
    ∀ f ∈ done, ∀ s ∈ f.places, s.name ∈ r.declared
  | { name, kind := .procedure, block, .. }, isCode => by
    rw [Routine.Code] at isCode
    obtain ⟨inner, frame, rfl, _, params, _, inBlock⟩ := isCode
    obtain ⟨own, among⟩ := Block.Code.slots_declared block inBlock
    rw [Routine.declared, List.forall_mem_append, List.forall_mem_singleton, Frame.places, params]
    exact ⟨fun f mem s place => List.mem_cons_of_mem _ (among f mem s place),
      fun s place => List.mem_cons_of_mem _ (own s place)⟩
  | { name, kind := .function params, block, .. }, isCode => by
    rw [Routine.Code] at isCode
    obtain ⟨inner, frame, slot, code, rfl, _, isParams, _, isResult, lines, inBlock⟩ := isCode
    obtain ⟨own, among⟩ := Block.Code.slots_declared block inBlock
    have slots : slotsOf frame.lines.toList = slot :: slotsOf code := by rw [lines]; rfl
    rw [Routine.declared, List.forall_mem_append, List.forall_mem_singleton, Frame.places, isParams,
      slots, List.forall_mem_append, List.forall_mem_cons, isResult]
    refine ⟨fun f mem s place => ?_, fun s place => ?_, List.mem_cons_self, fun s place => ?_⟩
    · exact List.mem_cons_of_mem _ (List.mem_append_right _ (among f mem s place))
    · obtain ⟨param, isParam, rfl⟩ := List.mem_map.mp place
      exact List.mem_cons_of_mem _ (List.mem_append_left _ isParam)
    · exact List.mem_cons_of_mem _ (List.mem_append_right _ (own s place))

theorem Routine.CodeAll.places_declared {means behind : Meanings} {here : Nesting}
    {done : List Frame} :
    (rs : List Routine) → Routine.CodeAll means here externals rs done behind →
    ∀ f ∈ done, ∀ s ∈ f.places, s.name ∈ Routine.declaredAll rs
  | [], areCode => by
    rw [Routine.CodeAll] at areCode
    rw [areCode.1]
    nofun
  | r :: rest, areCode => by
    rw [Routine.CodeAll] at areCode
    obtain ⟨first, others, rfl, isCode, areCode⟩ := areCode
    have inFirst := Routine.Code.places_declared r isCode
    have inOthers := Routine.CodeAll.places_declared rest areCode
    rw [Routine.declaredAll, List.forall_mem_append]
    exact ⟨fun f mem s place => List.mem_append_left _ (inFirst f mem s place),
      fun f mem s place => List.mem_append_right _ (inOthers f mem s place)⟩

end

/-! ### Globals -/

/-- Storage for a name makes one global at most, which has that name. -/
theorem Listing.Home.Reserved.globals_sublist {name : String} {init : Option Operand} {home : Home}
    (reserved : Home.Reserved here name init home code globals) :
    (globals.map (·.name)).Sublist [name] := by
  cases reserved with
  | unset | start | set => exact List.Sublist.refl _
  | slot => exact List.nil_sublist _

/-- Globals stand in the order of the definitions; constants that are known have none. -/
theorem Definition.CodeAll.globals_sublist {role : Role} {defs : List Definition}
    (areCode : Definition.CodeAll here externals role means defs code globals behind) :
    (globals.map (·.name)).Sublist (Definition.declared defs) := by
  induction areCode with
  | nil => exact .slnil
  | @cons _ _ d _ _ _ globals _ _ isCode _ ih =>
    have first : (globals.map (·.name)).Sublist [d.name] := by
      cases isCode with
      | known => exact List.nil_sublist _
      | kept _ reserved | unset reserved | set _ reserved => exact reserved.globals_sublist
    rw [List.map_append]
    exact first.append ih

/-- The globals of a program are constants and variables of its outermost block. -/
theorem Block.Code.globals_sublist {program : Block}
    (isCode : program.Code means here externals code globals done) :
    (globals.map (·.name)).Sublist program.stored := by
  obtain ⟨line, consts, vars, routines, body, scope⟩ := program
  rw [Block.Code] at isCode
  obtain ⟨_, _, _, _, _, _, _, _, inConsts, inVars, _, _, _, _, rfl⟩ := isCode
  rw [List.map_append]
  exact inConsts.globals_sublist.append inVars.globals_sublist

/-- No global is made twice, since a block declares no name twice. -/
theorem Block.Code.nodup_globals {program : Block} {names : Lexical.NameMap}
    (isCode : program.Code means here externals code globals done)
    (resolved : program.Resolved names) : (globals.map (·.name)).Nodup := by
  have nodup := resolved.nodup_symbols
  rw [Block.map_fst_symbols] at nodup
  exact (List.nodup_append.mp nodup).1.sublist isCode.globals_sublist

/-! ### Programs -/

/-- The places of each routine of an accepted program are written differently. -/
theorem AnalyzedProgram.nodup_places {options : Options} {source : String} {p : AnalyzedProgram}
    (accepted : check options source = .ok p) : ∀ f ∈ p.listing.routines.toList,
      (f.params.map ("%" ++ ·) ++ (slotsOf f.lines.toList).map Slot.render).Nodup := by
  intro f mem
  obtain ⟨isCode, nodup, _⟩ := AnalyzedProgram.codeOf_listing accepted
  have words := AnalyzedProgram.isWord_of_check accepted
  have declared := (Block.Code.slots_declared _ isCode).2 f mem
  have places : f.params.map ("%" ++ ·) ++ (slotsOf f.lines.toList).map Slot.render =
      f.places.map Slot.render := by
    rw [Frame.places, List.map_append, List.map_map]
    rfl
  rw [places]
  refine List.Nodup.map_on (fun s hs t ht same => ?_) (nodup f mem)
  exact Slot.render_inj (words _ (declared s hs)) (words _ (declared t ht)) same

end PlZero
