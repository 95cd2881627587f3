import PlZero.Proofs.Listing.Build
import PlZero.Proofs.Listing.Calls
import PlZero.Proofs.Text.Quoted

/-!
Inline assembly in a listing. Its text can be anything, line breaks included, and the listing is
read line by line. So the text is quoted, which keeps it on one line whatever it is and lets it be
read back.

A listing that gains a line in one of its frames gains what that line is written as at one place of
its text (`Gains.textLines`); the line of an assembly text is written as one line.

Main statement: `asm_lines`.
-/

namespace PlZero.Listing

open Text

/-! ### The lines of a text -/

/-- The lines of a text: what its line feeds divide it into. -/
def cutLines (text : String) : List (List Char) := text.toList.splitOn '\n'

/-- A line feed ends a line. -/
theorem cutLines_append (text rest : String) :
    cutLines (text ++ "\n" ++ rest) = cutLines text ++ cutLines rest := by
  rw [cutLines, String.toList_append, String.toList_append, List.append_assoc]
  exact List.splitOn_append_cons_self _ _

/-- Lines that have no line feeds in them are found again; one that has is cut. -/
theorem cutLines_unlines (lines : List String) :
    cutLines (unlines lines) = lines.flatMap cutLines ++ [[]] := by
  induction lines with
  | nil => rfl
  | cons line lines ih =>
    have first : unlines (line :: lines) = line ++ "\n" ++ unlines lines := by simp [unlines]
    rw [first, cutLines_append, ih, List.flatMap_cons, List.append_assoc]

/-- The lines found in the text of a listing are those found in each of its lines. -/
theorem cutLines_render (l : Listing) :
    cutLines l.render = l.textLines.flatMap cutLines ++ [[]] := by
  rw [render_eq_unlines, cutLines_unlines]

/-! ### One line more -/

/-- `longer` is the list `xs` with one more element at some place. -/
def OneMore {α : Type} (a : α) (xs longer : List α) : Prop :=
  ∃ before after, xs = before ++ after ∧ longer = before ++ a :: after

namespace OneMore

variable {α β : Type} {a : α} {xs longer : List α}

theorem last (a : α) (xs : List α) : OneMore a xs (xs ++ [a]) :=
  ⟨xs, [], (List.append_nil xs).symm, rfl⟩

theorem append_left (more : OneMore a xs longer) (before : List α) :
    OneMore a (before ++ xs) (before ++ longer) := by
  obtain ⟨first, second, rfl, rfl⟩ := more
  exact ⟨before ++ first, second, (List.append_assoc ..).symm, (List.append_assoc ..).symm⟩

theorem append_right (more : OneMore a xs longer) (after : List α) :
    OneMore a (xs ++ after) (longer ++ after) := by
  obtain ⟨first, second, rfl, rfl⟩ := more
  exact ⟨first, second ++ after, List.append_assoc .., List.append_assoc ..⟩

theorem flatMap (more : OneMore a xs longer) {f : α → List β} {b : β} (single : f a = [b]) :
    OneMore b (xs.flatMap f) (longer.flatMap f) := by
  obtain ⟨first, second, rfl, rfl⟩ := more
  refine ⟨first.flatMap f, second.flatMap f, List.flatMap_append, ?_⟩
  rw [List.flatMap_append, List.flatMap_cons, single, List.singleton_append]

theorem map (more : OneMore a xs longer) (f : α → β) : OneMore (f a) (xs.map f) (longer.map f) := by
  rw [List.map_eq_flatMap, List.map_eq_flatMap]
  exact more.flatMap rfl

end OneMore

/-- `longer` is the frame `f` with one more line. -/
structure Frame.Gains (line : Line) (f longer : Frame) : Prop where
  lines : OneMore line f.lines.toList longer.lines.toList
  rest : longer = { f with lines := longer.lines }

/-- A listing with one more line, which is in its entry point or in one of its routines. -/
inductive Gains (line : Line) (l : Listing) : Listing → Prop
  | entry {f : Frame} (atModule : l.outer = []) (gains : l.frame.Gains line f) :
    Gains line l { l with frame := f }
  | routine {before after : List Frame} {f longer : Frame}
    (routines : l.routines.toList = before ++ f :: after) (gains : f.Gains line longer) :
    Gains line l { l with routines := (before ++ longer :: after).toArray }

namespace Frame.Gains

variable {line : Line} {f longer : Frame}

theorem body (gains : f.Gains line longer) : OneMore line.render f.body longer.body :=
  gains.lines.map _

/-- One more line in a frame is one more line of text. -/
theorem textLines (gains : f.Gains line longer) :
    OneMore line.render f.textLines longer.textLines := by
  have body := gains.body
  rw [gains.rest] at body ⊢
  exact ((body.append_right _).append_right _).append_left [_, _]

end Frame.Gains

/-- The text of a listing that gains a line gains what is written for the line, at one place. -/
theorem Gains.textLines {line : Line} {l longer : Listing} (gains : l.Gains line longer) :
    OneMore line.render l.textLines longer.textLines := by
  cases gains with
  | @entry f atModule gains =>
    have now : l.moduleFrame = l.frame := by rw [moduleFrame, atModule]; rfl
    have later : { l with frame := f }.moduleFrame = f := by rw [moduleFrame, atModule]; rfl
    rw [Listing.textLines, Listing.textLines, now, later]
    exact ((gains.body.append_left _).append_right _).append_left _
  | routine routines gains =>
    rw [Listing.textLines, Listing.textLines, routines]
    refine OneMore.append_right (OneMore.append_left ?_ _) _
    rw [List.flatMap_append, List.flatMap_append, List.flatMap_cons, List.flatMap_cons]
    exact ((gains.textLines.append_right _).append_right _).append_left _

/-! ### The line of an assembly text -/

/-- The line that is written for an assembly text. -/
def asmLine (text : String) : List Char := (Line.instr (.asm text)).render.toList

theorem asmLine_eq (text : String) :
    asmLine text = "  asm \"".toList ++ escape '"' text.toList ++ ['"'] := by
  simp [asmLine, Line.render, Instr.render, quoted]

/-- The line of an assembly text as it should be: the text is in quotes, nothing in the line is a
control character or ends a line, a quote that is not one of the two is escaped, and what the quotes
enclose is read as the text. -/
structure AsmLine (text : String) (inside : List Char) : Prop where
  line : asmLine text = "  asm ".toList ++ '"' :: inside ++ ['"']
  staysInLine : ∀ c ∈ asmLine text, StaysInLine c
  escaped : ∀ before after, inside = before ++ '"' :: after → isEscaped before = true
  read : ∀ rest, readQuoted (inside ++ '"' :: rest) = some (text.toList, rest)

/-- Whatever the text is, its line is one line without control characters. -/
theorem staysInLine_asmLine {text : String} {c : Char} (mem : c ∈ asmLine text) :
    StaysInLine c := by
  rw [asmLine_eq, List.append_assoc, List.mem_append, List.mem_append] at mem
  rcases mem with start | inside | quote
  · have visible : ("  asm \"".toList.all fun d => ' ' ≤ d && d ≤ '~') = true := by decide
    have bounds := List.all_eq_true.mp visible c start
    rw [Bool.and_eq_true, decide_eq_true_iff, decide_eq_true_iff] at bounds
    exact staysInLine_of_ascii bounds.1 bounds.2
  · exact staysInLine_of_mem_escape c inside
  · cases List.mem_singleton.mp quote
    exact staysInLine_of_ascii (by decide) (by decide)

/-- The line of any text is as it should be. -/
theorem asmLine_isAsmLine (text : String) : AsmLine text (escape '"' text.toList) where
  line := asmLine_eq text
  staysInLine _ := staysInLine_asmLine
  escaped _ _ := isEscaped_of_escape_eq
  read := readQuoted_escape text.toList

/-- Two texts have the same line only if they are the same. -/
theorem asmLine_injective : Function.Injective asmLine := by
  intro text other same
  rw [asmLine_eq, asmLine_eq, List.append_cancel_right_eq, List.append_cancel_left_eq] at same
  exact String.toList_inj.mp (escape_injective same)

/-- It is one line, since it has no line feed. -/
theorem cutLines_asm (text : String) :
    cutLines (Line.instr (.asm text)).render = [asmLine text] := by
  refine List.splitOn_eq_singleton ?_
  intro feed
  exact (staysInLine_asmLine feed).notLineEnd (by decide)

/-- So a listing that gains an assembly line gains one line of text, and keeps the others. -/
theorem Gains.cutLines_render {text : String} {l longer : Listing}
    (gains : l.Gains (.instr (.asm text)) longer) :
    OneMore (asmLine text) (cutLines l.render) (cutLines longer.render) := by
  rw [Listing.cutLines_render, Listing.cutLines_render]
  exact (gains.textLines.flatMap (cutLines_asm text)).append_right _

/-- The step that adds inline assembly adds one line to the current frame. -/
theorem gains_asm (l : Listing) (text : String) :
    l.frame.Gains (.instr (.asm text)) (l.emit (.asm text)).frame where
  lines := by
    rw [emit, addLine, Array.toList_push]
    exact OneMore.last _ _
  rest := rfl

/-- **Assembly lines.** Whatever the text, its line is as it should be, and different texts have
different lines. The statement adds one line to the frame that is being built and changes nothing
else, and that line is one line of the text of the listing. -/
theorem asm_lines :
    (∀ text, ∃ inside, AsmLine text inside) ∧
    Function.Injective asmLine ∧
    (∀ info text (l : Listing), ∃ f, l.frame.Gains (.instr (.asm text)) f ∧
      (Stmt.asm info text).build l = { l with frame := f }) ∧
    ∀ text (l longer : Listing), l.Gains (.instr (.asm text)) longer →
      OneMore (asmLine text) (cutLines l.render) (cutLines longer.render) := by
  refine ⟨fun text => ⟨_, asmLine_isAsmLine text⟩, asmLine_injective, ?_, ?_⟩
  · intro info text l
    rw [Stmt.build_asm]
    exact ⟨_, gains_asm l text, rfl⟩
  · intro text l longer gains
    exact gains.cutLines_render

/-- Assembly with a line break and a quote in the text, as the first line of a program. -/
theorem asm_lines_broken :
    ({} : Listing).Gains (.instr (.asm "a\n\"")) (({} : Listing).emit (.asm "a\n\"")) ∧
    OneMore (asmLine "a\n\"") (cutLines ({} : Listing).render)
      (cutLines (({} : Listing).emit (.asm "a\n\"")).render) ∧
    asmLine "a\n\"" = "  asm \"a\\n\\\"\"".toList := by
  have gains : ({} : Listing).Gains (.instr (.asm "a\n\"")) (({} : Listing).emit (.asm "a\n\"")) :=
    .entry rfl (gains_asm {} _)
  exact ⟨gains, asm_lines.2.2.2 _ _ _ gains, by rw [asmLine_eq]; decide +kernel⟩

end PlZero.Listing
