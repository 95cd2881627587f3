import PlZero.Proofs.Parser.Stream
import PlZero.Proofs.Token.Written
import Mathlib.Data.List.Forall2

/-!
A source text in pieces.

A text is separators (runs of blanks, line breaks, comments) and lexemes in a row, nothing left out
and nothing twice. Every piece is as long as it can be where it stands (`Piece.FitsBefore`), so a
text can be cut in one way only. Scanning gives one token for each lexeme, on the line that the line
breaks before it lead to.

Main statement: `tokenize_pieces`.
-/

namespace PlZero

open Text

/-! ### Lines -/

/-- The number of line breaks in a text. A carriage return and the line feed behind it are one. -/
def lineBreaks : List Char → Nat
  | [] => 0
  | '\r' :: '\n' :: rest => lineBreaks rest + 1
  | c :: rest => lineBreaks rest + if isLineBreak c then 1 else 0

/-- No line break is cut in two between the texts. -/
def Joins (first second : List Char) : Prop :=
  first.getLast? = some '\r' → second.head? ≠ some '\n'

section Joins

variable {c : Char} {first second : List Char}

theorem Joins.of_cons (joins : Joins (c :: first) second) : Joins first second := by
  intro last
  refine joins ?_
  cases first with
  | nil => cases last
  | cons d first => simpa using last

/-- A pair that is not in the first text does not come from the second. -/
theorem Joins.not_pair (joins : Joins (c :: first) second)
    (single : ∀ rest, c = '\r' → first = '\n' :: rest → False) :
    ∀ rest, c = '\r' → first ++ second = '\n' :: rest → False := by
  rintro rest rfl same
  cases first with
  | nil => exact joins rfl (by rw [← List.nil_append second, same, List.head?_cons])
  | cons d first =>
    rw [List.cons_append, List.cons.injEq] at same
    exact single first rfl (by rw [same.1])

/-- A text that is not empty hides what stands behind it. -/
theorem Joins.of_append {middle : List Char} (joins : Joins first (middle ++ second))
    (nonempty : middle ≠ []) : Joins first middle := by
  intro last
  have head := joins last
  rwa [List.head?_append_of_ne_nil _ nonempty] at head

/-- A text that is not empty hides what stands before it. -/
theorem Joins.append_left {middle : List Char} (joins : Joins middle second)
    (nonempty : middle ≠ []) : Joins (first ++ middle) second := by
  intro last
  rw [List.getLast?_append_of_ne_nil _ nonempty] at last
  exact joins last

/-- Line breaks add up, unless a return and a line feed come together only now. -/
theorem lineBreaks_append (joins : Joins first second) :
    lineBreaks (first ++ second) = lineBreaks first + lineBreaks second := by
  fun_induction lineBreaks first with
  | case1 => simp
  | case2 rest ih =>
    rw [List.cons_append, List.cons_append, lineBreaks, ih joins.of_cons.of_cons]
    omega
  | case3 c rest single ih =>
    rw [List.cons_append, lineBreaks, ih joins.of_cons]
    · omega
    · exact joins.not_pair single

end Joins

theorem not_isLineBreak {c : Char} (noSpace : isWhiteSpace c = false) : isLineBreak c = false := by
  rw [isLineBreak, Bool.or_eq_false_iff, beq_eq_false_iff_ne, beq_eq_false_iff_ne]
  constructor <;> rintro rfl <;> exact absurd noSpace (by decide)

theorem lineBreaks_eq_zero {text : List Char} (none : ∀ c ∈ text, isLineBreak c = false) :
    lineBreaks text = 0 := by
  fun_induction lineBreaks text with
  | case1 => rfl
  | case2 rest ih => exact absurd (none '\r' List.mem_cons_self) (by decide)
  | case3 c rest single ih =>
    obtain ⟨first, others⟩ := List.forall_mem_cons.mp none
    rw [ih others, first]
    rfl

/-! ### Pieces -/

/-- A run of characters of the sort `inside`, the first of the sort `first`, that does not go on in
the text behind it. -/
structure MaximalRun (first inside : Char → Bool) (run rest : List Char) : Prop where
  starts : run.head?.any first = true
  belongs : ∀ c ∈ run, inside c = true
  ends : ∀ c ∈ rest.head?, inside c = false

/-- A run of characters that makes up a token. -/
inductive Lexeme where
  /-- Letters and digits, a letter first. -/
  | word (run : List Char)
  /-- Letters and digits, a digit first. -/
  | decimal (run : List Char)
  /-- A dollar sign with the letters and digits behind it. -/
  | hexadecimal (run : List Char)
  /-- Operator characters. -/
  | operator (run : List Char)
  /-- Any other character. -/
  | char (c : Char)
  deriving DecidableEq, Repr

namespace Lexeme

def text : Lexeme → List Char
  | .word run | .decimal run | .operator run => run
  | .hexadecimal run => '$' :: run
  | .char c => [c]

def kind : Lexeme → Token.Kind
  | .word run => wordKind run
  | .decimal run => numberKind (readDecimal? run)
  | .hexadecimal run => numberKind (readHexadecimal? run)
  | .operator run => operatorKind run
  | .char c => .char c

/-- The lexeme is one, and it ends where `rest` begins. -/
def FitsBefore (rest : List Char) : Lexeme → Prop
  | .word run => MaximalRun Char.isAlpha Char.isAlphanum run rest
  | .decimal run => MaximalRun Char.isDigit Char.isAlphanum run rest
  | .hexadecimal run =>
    (∀ c ∈ run, c.isAlphanum = true) ∧ ∀ c ∈ rest.head?, c.isAlphanum = false
  | .operator run => MaximalRun isOperatorChar isOperatorChar run rest
  | .char c => StandsAlone c

end Lexeme

/-- A separator or a lexeme. -/
inductive Piece where
  /-- White space that ends no line. -/
  | blanks (run : List Char)
  | lineBreak (terminator : List Char)
  /-- A comment in braces. -/
  | comment (body : List Char)
  /-- A comment that is not closed. -/
  | openComment (body : List Char)
  | lexeme (l : Lexeme)
  deriving DecidableEq, Repr

namespace Piece

def text : Piece → List Char
  | .blanks run => run
  | .lineBreak terminator => terminator
  | .comment body => '\x7b' :: body ++ ['\x7d']
  | .openComment body => '\x7b' :: body
  | .lexeme l => l.text

/-- The piece is one, and it ends where `rest` begins. -/
def FitsBefore (rest : List Char) : Piece → Prop
  | .blanks run => MaximalRun isBlank isBlank run rest
  | .lineBreak terminator => terminator = ['\n'] ∨ terminator = ['\r', '\n'] ∨
      terminator = ['\r'] ∧ rest.head? ≠ some '\n'
  | .comment body => '\x7d' ∉ body
  | .openComment body => '\x7d' ∉ body ∧ rest = []
  | .lexeme l => l.FitsBefore rest

def textAll (pieces : List Piece) : List Char := pieces.flatMap text

/-- Every piece ends where the next one begins. -/
def FitAll : List Piece → Prop
  | [] => True
  | piece :: later => piece.FitsBefore (textAll later) ∧ FitAll later

/-- The pieces in a row are the text. -/
structure Cuts (pieces : List Piece) (source : List Char) : Prop where
  text : textAll pieces = source
  fit : FitAll pieces

/-- The tokens of pieces that stand behind `before`: for each lexeme one, on the line that the line
breaks before it lead to, and the end of the text last. -/
def tokens (before : List Char) : List Piece → List Token
  | [] => [⟨.endOfText, 1 + lineBreaks before⟩]
  | .lexeme l :: later => ⟨l.kind, 1 + lineBreaks before⟩ :: tokens (before ++ l.text) later
  | piece :: later => tokens (before ++ piece.text) later

end Piece

/-! ### Lexemes -/

namespace Lexeme

/-- The lexeme at the front of the text `c :: rest`, and the text behind it. -/
def first (c : Char) (rest : List Char) : Lexeme × List Char :=
  if c.isAlpha then (.word (c :: rest.takeWhile Char.isAlphanum), rest.dropWhile Char.isAlphanum)
  else if c.isDigit then
    (.decimal (c :: rest.takeWhile Char.isAlphanum), rest.dropWhile Char.isAlphanum)
  else if c = '$' then
    (.hexadecimal (rest.takeWhile Char.isAlphanum), rest.dropWhile Char.isAlphanum)
  else if isOperatorChar c then
    (.operator (c :: rest.takeWhile isOperatorChar), rest.dropWhile isOperatorChar)
  else (.char c, rest)

/-- The scanner reads the first lexeme. -/
theorem readLexeme_eq_first (c : Char) (rest : List Char) :
    readLexeme c rest = ((first c rest).1.kind, (first c rest).2) := by
  unfold readLexeme first
  split_ifs <;> rfl

theorem kind_first_ne_endOfText (c : Char) (rest : List Char) :
    (first c rest).1.kind ≠ .endOfText := by
  have known := readLexeme_ne_endOfText c rest
  rwa [readLexeme_eq_first] at known

end Lexeme

section Run

variable {start inside : Char → Bool} {c : Char} {run rest : List Char}

/-- A run that is cut off with its first character is maximal. -/
theorem maximalRun_cons (starts : start c = true) (belongs : inside c = true) (rest : List Char) :
    MaximalRun start inside (c :: rest.takeWhile inside) (rest.dropWhile inside) := by
  refine ⟨starts, List.forall_mem_cons.mpr ⟨belongs, fun d mem => List.mem_takeWhile_imp mem⟩, ?_⟩
  intro d mem
  have stops := List.head?_dropWhile_not inside rest
  rw [Option.mem_def.mp mem] at stops
  simpa using stops

/-- The characters of a maximal run, the first of them apart. -/
theorem MaximalRun.exists_cons (maximal : MaximalRun start inside run rest) :
    ∃ c tail, run = c :: tail ∧ start c = true ∧ inside c = true ∧
      (tail ++ rest).takeWhile inside = tail ∧ (tail ++ rest).dropWhile inside = rest := by
  obtain ⟨starts, belong, ends⟩ := maximal
  cases run with
  | nil => cases starts
  | cons c tail =>
    obtain ⟨first, others⟩ := List.forall_mem_cons.mp belong
    exact ⟨c, tail, rfl, starts, first, takeWhile_append_eq others ends,
      dropWhile_append_eq others ends⟩

end Run

namespace Lexeme

variable {l : Lexeme} {c : Char} {rest : List Char}

/-- A fitting lexeme is not empty, does not begin as a separator, and is the one that is cut off. -/
theorem FitsBefore.exists_cons (fits : l.FitsBefore rest) :
    ∃ c tail, l.text = c :: tail ∧ Solid c ∧ first c (tail ++ rest) = (l, rest) := by
  cases l with
  | word run =>
    obtain ⟨c, tail, rfl, letter, alphanum, taken, behind⟩ := MaximalRun.exists_cons fits
    refine ⟨c, tail, rfl, solid_of_isAlphanum alphanum, ?_⟩
    simp only [first, letter, if_true, taken, behind]
  | decimal run =>
    obtain ⟨c, tail, rfl, digit, alphanum, taken, behind⟩ := MaximalRun.exists_cons fits
    refine ⟨c, tail, rfl, solid_of_isAlphanum alphanum, ?_⟩
    simp only [first, isAlpha_of_isDigit digit, digit, if_true, Bool.false_eq_true, if_false, taken,
      behind]
  | hexadecimal run =>
    obtain ⟨alphanum, ends⟩ := fits
    refine ⟨'$', run, rfl, by decide, ?_⟩
    have noLetter : ¬ '$'.isAlpha = true := by decide
    have noDigit : ¬ '$'.isDigit = true := by decide
    simp only [first, if_neg noLetter, if_neg noDigit, if_true, takeWhile_append_eq alphanum ends,
      dropWhile_append_eq alphanum ends]
  | operator run =>
    obtain ⟨c, tail, rfl, operator, -, taken, behind⟩ := MaximalRun.exists_cons fits
    obtain ⟨noLetter, noDigit, noDollar⟩ := plain_of_isOperatorChar operator
    refine ⟨c, tail, rfl, solid_of_isOperatorChar operator, ?_⟩
    simp only [first, noLetter, noDigit, noDollar, operator, if_true, Bool.false_eq_true, if_false,
      taken, behind]
  | char c =>
    obtain ⟨solid, noAlphanum, noDollar, noOperator⟩ := fits
    obtain ⟨noLetter, noDigit⟩ := Bool.or_eq_false_iff.mp noAlphanum
    refine ⟨c, [], rfl, solid, ?_⟩
    simp only [first, noLetter, noDigit, noDollar, noOperator, Bool.false_eq_true, if_false,
      List.nil_append]

theorem FitsBefore.kind_ne_endOfText (fits : l.FitsBefore rest) : l.kind ≠ .endOfText := by
  obtain ⟨c, tail, -, -, cut⟩ := fits.exists_cons
  have proper := kind_first_ne_endOfText c (tail ++ rest)
  rwa [cut] at proper

/-- The lexeme that is cut off fits where it stood. -/
theorem fitsBefore_first (solid : Solid c) (rest : List Char) :
    (first c rest).1.text ++ (first c rest).2 = c :: rest ∧
      (first c rest).1.FitsBefore (first c rest).2 := by
  unfold first
  split_ifs with letter digit dollar operator
  · refine ⟨by simp [text], maximalRun_cons letter ?_ rest⟩
    simp [Char.isAlphanum, letter]
  · refine ⟨by simp [text], maximalRun_cons digit ?_ rest⟩
    simp [Char.isAlphanum, digit]
  · have cut : MaximalRun (fun _ => true) Char.isAlphanum ('0' :: rest.takeWhile Char.isAlphanum)
        (rest.dropWhile Char.isAlphanum) := maximalRun_cons rfl rfl rest
    refine ⟨by simp [text, dollar], ?_, cut.ends⟩
    exact fun d mem => cut.belongs d (List.mem_cons_of_mem _ mem)
  · exact ⟨by simp [text], maximalRun_cons operator operator rest⟩
  · refine ⟨rfl, solid, ?_, dollar, by simpa using operator⟩
    simp [Char.isAlphanum, letter, digit]

/-- No character of a lexeme is white space. -/
theorem FitsBefore.not_isWhiteSpace (fits : l.FitsBefore rest) :
    ∀ c ∈ l.text, isWhiteSpace c = false := by
  intro c mem
  cases l with
  | word run => exact (solid_of_isAlphanum (fits.belongs c mem)).1
  | decimal run => exact (solid_of_isAlphanum (fits.belongs c mem)).1
  | hexadecimal run =>
    obtain rfl | mem := List.mem_cons.mp mem
    · decide
    · exact (solid_of_isAlphanum (fits.1 c mem)).1
  | operator run => exact (solid_of_isOperatorChar (fits.belongs c mem)).1
  | char d =>
    obtain rfl := List.mem_singleton.mp mem
    exact fits.1.1

end Lexeme

/-! ### Cutting a text -/

namespace Piece

variable {piece : Piece} {c : Char} {rest : List Char}

/-- The piece at the front of the text `c :: rest`, and the text behind it. -/
def first (c : Char) (rest : List Char) : Piece × List Char :=
  if c = '\x7b' then
    match rest.dropWhile (· != '\x7d') with
    | [] => (.openComment rest, [])
    | _ :: behind => (.comment (rest.takeWhile (· != '\x7d')), behind)
  else if c = '\r' ∧ rest.head? = some '\n' then (.lineBreak ['\r', '\n'], rest.tail)
  else if isLineBreak c then (.lineBreak [c], rest)
  else if isBlank c then (.blanks (c :: rest.takeWhile isBlank), rest.dropWhile isBlank)
  else (.lexeme (Lexeme.first c rest).1, (Lexeme.first c rest).2)

/-- Where no separator begins, the first piece is a lexeme. -/
theorem first_of_solid (solid : Solid c) (rest : List Char) :
    first c rest = (.lexeme (Lexeme.first c rest).1, (Lexeme.first c rest).2) := by
  have noBreak : isLineBreak c = false := not_isLineBreak solid.1
  have noReturn : c ≠ '\r' := by
    rintro rfl
    cases noBreak
  simp only [first, solid.2, if_false, noReturn, false_and, noBreak, Bool.false_eq_true, isBlank,
    solid.1, Bool.false_and]

/-- A fitting piece is not empty and is the one that is cut off. -/
theorem FitsBefore.exists_cons (fits : piece.FitsBefore rest) :
    ∃ c tail, piece.text = c :: tail ∧ first c (tail ++ rest) = (piece, rest) := by
  cases piece with
  | blanks run =>
    obtain ⟨c, tail, rfl, -, blank, taken, behind⟩ := MaximalRun.exists_cons fits
    have noBrace : c ≠ '\x7b' := by
      rintro rfl
      exact absurd blank (by decide)
    have noBreak : isLineBreak c = false := by simpa using (Bool.and_eq_true_iff.mp blank).2
    have noReturn : c ≠ '\r' := by
      rintro rfl
      cases noBreak
    refine ⟨c, tail, rfl, ?_⟩
    simp only [first, noBrace, noReturn, noBreak, blank, false_and, Bool.false_eq_true, if_false,
      if_true, taken, behind]
  | lineBreak terminator =>
    obtain rfl | rfl | ⟨rfl, noFeed⟩ := fits
    · exact ⟨'\n', [], rfl, by simp [first, isLineBreak]⟩
    · exact ⟨'\r', ['\n'], rfl, by simp [first]⟩
    · exact ⟨'\r', [], rfl, by simp [first, isLineBreak, noFeed]⟩
  | comment body =>
    have inside : ∀ d ∈ body, (d != '\x7d') = true := by
      intro d mem
      exact bne_iff_ne.mpr fun same => fits (same ▸ mem)
    have ends : ∀ d ∈ ('\x7d' :: rest).head?, (d != '\x7d') = false := by simp
    have taken := takeWhile_append_eq inside ends
    have behind := dropWhile_append_eq inside ends
    refine ⟨'\x7b', body ++ ['\x7d'], rfl, ?_⟩
    simp only [first, if_true, List.append_assoc, List.singleton_append, taken, behind]
  | openComment body =>
    obtain ⟨unclosed, rfl⟩ := fits
    refine ⟨'\x7b', body, rfl, ?_⟩
    have all : body.dropWhile (· != '\x7d') = [] := by
      rw [List.dropWhile_eq_nil_iff]
      intro d mem
      exact bne_iff_ne.mpr fun same => unclosed (same ▸ mem)
    simp only [first, if_true, List.append_nil, all]
  | lexeme l =>
    obtain ⟨c, tail, text, solid, cut⟩ := Lexeme.FitsBefore.exists_cons fits
    exact ⟨c, tail, text, by rw [first_of_solid solid, cut]⟩

/-- The piece that is cut off fits where it stood. -/
theorem fitsBefore_first (c : Char) (rest : List Char) :
    (first c rest).1.text ++ (first c rest).2 = c :: rest ∧
      (first c rest).1.FitsBefore (first c rest).2 := by
  unfold first
  split_ifs with brace pair ends blank
  · subst brace
    have whole := List.takeWhile_append_dropWhile (p := (· != '\x7d')) (l := rest)
    have unclosed : '\x7d' ∉ rest.takeWhile (· != '\x7d') := by
      intro mem
      simpa using List.mem_takeWhile_imp mem
    cases behind : rest.dropWhile (· != '\x7d') with
    | nil =>
      rw [behind, List.append_nil] at whole
      rw [whole] at unclosed
      exact ⟨by simp [text], unclosed, rfl⟩
    | cons d tail =>
      have stops := List.head?_dropWhile_not (· != '\x7d') rest
      rw [behind] at stops whole
      obtain rfl : d = '\x7d' := by simpa using stops
      exact ⟨by simp [text, whole], unclosed⟩
  · obtain ⟨rfl, feed⟩ := pair
    obtain ⟨tail, rfl⟩ := List.head?_eq_some_iff.mp feed
    exact ⟨rfl, .inr (.inl rfl)⟩
  · refine ⟨rfl, ?_⟩
    obtain rfl | rfl : c = '\n' ∨ c = '\r' := by simpa [isLineBreak] using ends
    · exact .inl rfl
    · exact .inr (.inr ⟨rfl, fun feed => pair ⟨rfl, feed⟩⟩)
  · exact ⟨by simp [text], maximalRun_cons blank blank rest⟩
  · refine Lexeme.fitsBefore_first ⟨?_, brace⟩ rest
    simpa [isBlank, ends] using blank

theorem textAll_cons (piece : Piece) (later : List Piece) :
    textAll (piece :: later) = piece.text ++ textAll later := List.flatMap_cons

theorem FitsBefore.text_ne_nil (fits : piece.FitsBefore rest) : piece.text ≠ [] := by
  obtain ⟨c, tail, text, -⟩ := fits.exists_cons
  exact text ▸ List.cons_ne_nil c tail

theorem textAll_ne_nil {later : List Piece} (fit : FitAll (piece :: later)) :
    textAll (piece :: later) ≠ [] := by
  rw [textAll_cons]
  exact List.append_ne_nil_of_left_ne_nil (FitsBefore.text_ne_nil fit.1) _

/-- Every text can be cut. -/
theorem exists_cuts (source : List Char) : ∃ pieces, Cuts pieces source := by
  match source with
  | [] => exact ⟨[], rfl, trivial⟩
  | c :: rest =>
    obtain ⟨whole, fits⟩ := fitsBefore_first c rest
    have shorter : (first c rest).2.length < (c :: rest).length := by
      obtain ⟨d, tail, text, -⟩ := fits.exists_cons
      simp only [← whole, text, List.length_append, List.length_cons]
      omega
    obtain ⟨later, behind, fit⟩ := exists_cuts (first c rest).2
    refine ⟨(first c rest).1 :: later, ?_, ?_, fit⟩
    · rw [textAll_cons, behind, whole]
    · rwa [behind]
termination_by source.length
decreasing_by exact shorter

/-- A text can be cut in one way. -/
theorem cuts_unique {pieces others : List Piece} {source : List Char} (cuts : Cuts pieces source)
    (alsoCuts : Cuts others source) : pieces = others := by
  induction pieces generalizing others source with
  | nil =>
    obtain ⟨rfl, -⟩ := cuts
    cases others with
    | nil => rfl
    | cons other others => exact absurd alsoCuts.text (textAll_ne_nil alsoCuts.fit)
  | cons piece pieces ih =>
    obtain ⟨rfl, fits, fit⟩ := cuts
    cases others with
    | nil => exact absurd alsoCuts.text.symm (textAll_ne_nil ⟨fits, fit⟩)
    | cons other others =>
      obtain ⟨c, tail, text, cut⟩ := fits.exists_cons
      obtain ⟨same, otherFits, otherFit⟩ := alsoCuts
      obtain ⟨d, otherTail, otherText, otherCut⟩ := otherFits.exists_cons
      rw [textAll_cons, textAll_cons, text, otherText, List.cons_append, List.cons_append,
        List.cons.injEq] at same
      obtain ⟨rfl, sameTail⟩ := same
      rw [sameTail, cut, Prod.mk.injEq] at otherCut
      obtain ⟨rfl, behind⟩ := otherCut
      rw [ih ⟨rfl, fit⟩ ⟨behind.symm, otherFit⟩]

end Piece

/-! ### Scanning the pieces -/

theorem skipSeparators_brace (line : Nat) (rest : List Char) :
    skipSeparators line ('\x7b' :: rest) = skipComment line rest := by
  rw [skipSeparators]

/-- Inside a comment nothing but its end stops the skipping. -/
theorem skipComment_append {body rest : List Char} (unclosed : '\x7d' ∉ body)
    (joins : Joins body rest) (line : Nat) :
    skipComment line (body ++ rest) = skipComment (line + lineBreaks body) rest := by
  fun_induction lineBreaks body generalizing line with
  | case1 => rfl
  | case2 behind ih =>
    have later : '\x7d' ∉ behind := fun mem => unclosed (by simp [mem])
    rw [List.cons_append, List.cons_append, skipComment, ih later joins.of_cons.of_cons,
      Nat.add_right_comm, Nat.add_assoc line]
  | case3 c behind single ih =>
    have later : '\x7d' ∉ behind := fun mem => unclosed (List.mem_cons_of_mem _ mem)
    rw [List.cons_append, skipComment, ih later joins.of_cons]
    · congr 1
      split_ifs <;> omega
    · exact joins.not_pair single
    · rintro rfl
      exact unclosed List.mem_cons_self

theorem skipSeparators_of_isBlank {c : Char} (blank : isBlank c = true) (line : Nat)
    (rest : List Char) : skipSeparators line (c :: rest) = skipSeparators line rest := by
  have noBreak : isLineBreak c = false := by simpa using (Bool.and_eq_true_iff.mp blank).2
  rw [skipSeparators]
  · simp [noBreak, blank]
  · rintro _ rfl
    cases noBreak
  · rintro rfl
    exact absurd blank (by decide)

/-- Blanks are skipped. -/
theorem skipSeparators_blanks {run : List Char} (blank : ∀ c ∈ run, isBlank c = true) (line : Nat)
    (rest : List Char) : skipSeparators line (run ++ rest) = skipSeparators line rest := by
  induction run with
  | nil => rfl
  | cons c run ih =>
    obtain ⟨first, others⟩ := List.forall_mem_cons.mp blank
    rw [List.cons_append, skipSeparators_of_isBlank first, ih others]

/-- A line break is skipped and counted. -/
theorem skipSeparators_of_isLineBreak {c : Char} {rest : List Char} (ends : isLineBreak c = true)
    (single : c = '\r' → rest.head? ≠ some '\n') (line : Nat) :
    skipSeparators line (c :: rest) = skipSeparators (line + 1) rest := by
  rw [skipSeparators]
  · simp [ends]
  · rintro tail rfl rfl
    exact single rfl rfl
  · rintro rfl
    exact absurd ends (by decide)

namespace Piece

variable {piece : Piece} {rest : List Char}

/-- A piece that makes no token. -/
def IsSeparator : Piece → Prop
  | .lexeme _ => False
  | _ => True

theorem lineBreaks_openComment (body : List Char) :
    lineBreaks (text (.openComment body)) = lineBreaks body := by
  rw [text, lineBreaks] <;> simp [isLineBreak]

/-- Lines inside of a comment count. -/
theorem lineBreaks_comment (body : List Char) :
    lineBreaks (text (.comment body)) = lineBreaks body := by
  have joins : Joins (text (.openComment body)) ['\x7d'] := by simp [Joins]
  calc lineBreaks (text (.comment body))
      = lineBreaks (text (.openComment body) ++ ['\x7d']) := rfl
    _ = lineBreaks body := by rw [lineBreaks_append joins, lineBreaks_openComment]; rfl

/-- Skipping goes over a separator and counts its line breaks. -/
theorem skipSeparators_separator (separator : piece.IsSeparator) (fits : piece.FitsBefore rest)
    (line : Nat) :
    skipSeparators line (piece.text ++ rest) =
      skipSeparators (line + lineBreaks piece.text) rest := by
  cases piece with
  | blanks run =>
    have none : lineBreaks run = 0 := by
      refine lineBreaks_eq_zero fun c mem => ?_
      simpa using (Bool.and_eq_true_iff.mp (fits.belongs c mem)).2
    rw [text, skipSeparators_blanks fits.belongs, none]
    rfl
  | lineBreak terminator =>
    obtain rfl | rfl | ⟨rfl, noFeed⟩ := fits
    · exact skipSeparators_of_isLineBreak rfl (by simp) line
    · exact skipSeparators.eq_2 line rest
    · exact skipSeparators_of_isLineBreak rfl (fun _ => noFeed) line
  | comment body =>
    have joins : Joins body ('\x7d' :: rest) := by simp [Joins]
    rw [lineBreaks_comment, text, List.append_assoc, List.cons_append, skipSeparators_brace,
      List.singleton_append, skipComment_append fits joins, skipComment]
  | openComment body =>
    obtain ⟨unclosed, rfl⟩ := fits
    have joins : Joins body [] := by simp [Joins]
    rw [lineBreaks_openComment, text, List.cons_append, skipSeparators_brace,
      skipComment_append unclosed joins, skipComment, skipSeparators]
  | lexeme l => exact separator.elim

/-- A separator makes no token; it counts for the lines of what follows. -/
theorem tokens_separator (separator : piece.IsSeparator) (before : List Char) (later : List Piece) :
    tokens before (piece :: later) = tokens (before ++ piece.text) later := by
  cases piece with
  | lexeme l => exact separator.elim
  | blanks | lineBreak | comment | openComment => rfl

/-- No line break reaches over the end of a piece. -/
theorem FitsBefore.joins (fits : piece.FitsBefore rest) : Joins piece.text rest := by
  intro last
  have mem : '\r' ∈ piece.text := List.mem_of_getLast? last
  cases piece with
  | blanks run => exact absurd (fits.belongs _ mem) (by decide)
  | lineBreak terminator =>
    obtain rfl | rfl | ⟨rfl, noFeed⟩ := fits
    · cases last
    · cases last
    · exact noFeed
  | comment body =>
    rw [text, List.getLast?_concat] at last
    cases last
  | openComment body =>
    obtain ⟨-, rfl⟩ := fits
    simp
  | lexeme l => exact absurd (Lexeme.FitsBefore.not_isWhiteSpace fits _ mem) (by decide)

end Piece

namespace Scanner

/-- At a lexeme the next token is the one it spells. -/
theorem next_lexeme {l : Lexeme} {rest : List Char} (fits : l.FitsBefore rest) {s : Scanner}
    (ahead : s.rest = l.text ++ rest) :
    let token : Token := ⟨l.kind, s.line⟩
    s.next = (token, ⟨rest, s.line, s.diagnostics ++ token.diagnostic?.toList⟩) := by
  obtain ⟨c, tail, text, solid, cut⟩ := fits.exists_cons
  have read := Lexeme.readLexeme_eq_first c (tail ++ rest)
  rw [cut] at read
  rw [next, ahead, text, List.cons_append, skipSeparators_of_solid solid]
  simp only [read]

/-- A lexeme makes one token, on the line where it begins. -/
theorem drain_lexeme {l : Lexeme} {rest : List Char} (fits : l.FitsBefore rest) {s : Scanner}
    (ahead : s.rest = l.text ++ rest) :
    let token : Token := ⟨l.kind, s.line⟩
    let later := Scanner.drain ⟨rest, s.line, s.diagnostics ++ token.diagnostic?.toList⟩
    s.drain = (token :: later.1, later.2) := by
  rw [drain, next_lexeme fits ahead, if_neg fits.kind_ne_endOfText]

/-- A separator is left out, its line breaks apart. -/
theorem drain_separator {piece : Piece} {rest : List Char} (separator : piece.IsSeparator)
    (fits : piece.FitsBefore rest) {s : Scanner} (ahead : s.rest = piece.text ++ rest) :
    s.drain = Scanner.drain ⟨rest, s.line + lineBreaks piece.text, s.diagnostics⟩ := by
  refine drain_eq_of_next ?_
  simp only [next, ahead, Piece.skipSeparators_separator separator fits]

/-- Scanning pieces gives their tokens, ends behind them and reports the tokens at fault. -/
theorem drain_pieces {pieces : List Piece} (fit : Piece.FitAll pieces) {before : List Char}
    (joins : Joins before (Piece.textAll pieces)) {s : Scanner}
    (ahead : s.rest = Piece.textAll pieces) (line : s.line = 1 + lineBreaks before) :
    s.drain = (Piece.tokens before pieces, ⟨[], 1 + lineBreaks (before ++ Piece.textAll pieces),
      s.diagnostics ++ (Piece.tokens before pieces).filterMap Token.diagnostic?⟩) := by
  induction pieces generalizing before s with
  | nil =>
    have last : s.next = (⟨.endOfText, s.line⟩, ⟨[], s.line, s.diagnostics⟩) := by
      rw [next, ahead]
      rfl
    rw [drain, last, if_pos rfl, line]
    simp [Piece.tokens, Piece.textAll, Token.diagnostic?, Token.Kind.fault?]
  | cons piece later ih =>
    obtain ⟨fits, fitLater⟩ := fit
    rw [Piece.textAll_cons] at joins ahead
    -- no return is cut off from its line feed, so lines can be counted piece by piece
    have behind : Joins (before ++ piece.text) (Piece.textAll later) :=
      fits.joins.append_left fits.text_ne_nil
    have lines : lineBreaks (before ++ piece.text) = lineBreaks before + lineBreaks piece.text :=
      lineBreaks_append (joins.of_append fits.text_ne_nil)
    rw [Piece.textAll_cons, ← List.append_assoc]
    by_cases separator : piece.IsSeparator
    · have here : s.line + lineBreaks piece.text = 1 + lineBreaks (before ++ piece.text) := by
        omega
      rw [drain_separator separator fits ahead, Piece.tokens_separator separator]
      exact ih fitLater behind rfl here
    · cases piece with
      | blanks | lineBreak | comment | openComment => exact absurd trivial separator
      | lexeme l =>
        have none : lineBreaks l.text = 0 :=
          lineBreaks_eq_zero fun c mem =>
            not_isLineBreak (Lexeme.FitsBefore.not_isWhiteSpace fits c mem)
        have here : s.line = 1 + lineBreaks (before ++ l.text) :=
          line.trans (congrArg (1 + ·) (lines.trans (congrArg _ none)).symm)
        have scanned := ih fitLater behind
          (s := ⟨Piece.textAll later, s.line,
            s.diagnostics ++ (⟨l.kind, s.line⟩ : Token).diagnostic?.toList⟩) rfl here
        have faults : (Piece.tokens before (.lexeme l :: later)).filterMap Token.diagnostic? =
            (⟨l.kind, s.line⟩ : Token).diagnostic?.toList ++
              (Piece.tokens (before ++ l.text) later).filterMap Token.diagnostic? := by
          rw [Piece.tokens, ← line, List.filterMap_cons]
          cases (⟨l.kind, s.line⟩ : Token).diagnostic? <;> rfl
        rw [drain_lexeme fits ahead, scanned, faults, ← List.append_assoc, Piece.tokens, ← line]
        rfl

/-- Scanning a text from its start to its end. -/
theorem drain_ofString {source : String} {pieces : List Piece}
    (cuts : Piece.Cuts pieces source.toList) :
    (ofString source).drain = (Piece.tokens [] pieces, ⟨[], 1 + lineBreaks source.toList,
      (Piece.tokens [] pieces).filterMap Token.diagnostic?⟩) := by
  have start : Joins [] (Piece.textAll pieces) := by simp [Joins]
  have scanned := drain_pieces cuts.fit start (s := ofString source) cuts.text.symm rfl
  rwa [List.nil_append, cuts.text] at scanned

end Scanner

/-- The tokens of pieces end with the end of the text, which stands nowhere else. -/
theorem Piece.exists_tokens_eq_concat {pieces : List Piece} (fit : FitAll pieces)
    (before : List Char) :
    ∃ front, tokens before pieces =
        front ++ [⟨.endOfText, 1 + lineBreaks (before ++ textAll pieces)⟩] ∧
      ∀ token ∈ front, token.kind ≠ .endOfText := by
  induction pieces generalizing before with
  | nil => exact ⟨[], by simp [tokens, textAll], by simp⟩
  | cons piece later ih =>
    obtain ⟨fits, fitLater⟩ := fit
    obtain ⟨front, spelled, proper⟩ := ih fitLater (before ++ piece.text)
    rw [List.append_assoc, ← textAll_cons] at spelled
    cases piece with
    | blanks | lineBreak | comment | openComment => exact ⟨front, spelled, proper⟩
    | lexeme l =>
      refine ⟨⟨l.kind, 1 + lineBreaks before⟩ :: front, congrArg _ spelled, ?_⟩
      exact List.forall_mem_cons.mpr ⟨Lexeme.FitsBefore.kind_ne_endOfText fits, proper⟩

/-- The diagnostics of tokens belong to the tokens at fault, one to each. -/
theorem Token.forall₂_diagnostic? (tokens : List Token) :
    List.Forall₂ (fun token d => token.diagnostic? = some d ∧ d.line = token.line)
      (tokens.filter fun token => token.kind.fault?.isSome)
      (tokens.filterMap Token.diagnostic?) := by
  induction tokens with
  | nil => exact .nil
  | cons token tokens ih =>
    cases fault : token.kind.fault? with
    | none => simpa [List.filterMap_cons, Token.diagnostic?, fault] using ih
    | some cause =>
      have here : token.diagnostic? = some (cause.diagnostic token.line) := by
        rw [Token.diagnostic?, fault, Option.map_some]
      rw [List.filter_cons_of_pos (by rw [fault]; rfl), List.filterMap_cons_some here]
      exact .cons ⟨here, rfl⟩ ih

/-- A text is cut into separators and lexemes in exactly one way, and its tokens are those of the
lexemes with the end of the text behind them. The scanner stops there, on the last line, having
reported just the tokens at fault. -/
theorem tokenize_pieces (source : String) :
    ∃ pieces, Piece.Cuts pieces source.toList ∧
      (∀ others, Piece.Cuts others source.toList → others = pieces) ∧
      tokenize source = Piece.tokens [] pieces ∧
      ∃ front final, (Scanner.ofString source).drain =
          (front ++ [⟨.endOfText, final.line⟩], final) ∧
        (∀ token ∈ front, token.kind ≠ .endOfText) ∧
        final.line = 1 + lineBreaks source.toList ∧
        final.next = (⟨.endOfText, final.line⟩, final) ∧
        List.Forall₂ (fun token d => token.diagnostic? = some d ∧ d.line = token.line)
          ((tokenize source).filter fun token => token.kind.fault?.isSome) final.diagnostics := by
  obtain ⟨pieces, cuts⟩ := Piece.exists_cuts source.toList
  have scanned := Scanner.drain_ofString cuts
  have spelled : tokenize source = Piece.tokens [] pieces := congrArg Prod.fst scanned
  obtain ⟨front, ending, proper⟩ := Piece.exists_tokens_eq_concat cuts.fit []
  rw [List.nil_append, cuts.text] at ending
  refine ⟨pieces, cuts, fun others also => Piece.cuts_unique also cuts, spelled, front,
    ⟨[], 1 + lineBreaks source.toList, (tokenize source).filterMap Token.diagnostic?⟩, ?_, proper,
    rfl, rfl, Token.forall₂_diagnostic? _⟩
  rw [scanned, spelled, ending]

end PlZero
