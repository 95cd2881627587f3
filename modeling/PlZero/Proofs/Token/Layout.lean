import PlZero.Proofs.Token.Literals

/-!
Lexemes and the gaps between them.

A gap is any text of white space, line breaks and closed comments. A scanner that stands before a
gap and a lexeme behind it gives the token of that lexeme, whatever the gap is; only the line
depends on it. So the tokens of lexemes set apart by gaps are those of the lexemes, each scanned by
itself.

Main statements: `Scanner.next_number` says what the scanner makes of digits, and
`tokenize_kinds_of_apart` that the gaps do not matter.
-/

namespace PlZero

open Text

/-! ### Gaps -/

/-- A text of white space, line breaks and closed comments, any number of each in any order. -/
inductive Gap : List Char → Prop where
  | nil : Gap []
  | space {c : Char} {rest : List Char} : isWhiteSpace c = true → Gap rest → Gap (c :: rest)
  | comment {body rest : List Char} :
      '\x7d' ∉ body → Gap rest → Gap (Piece.text (.comment body) ++ rest)

/-- The text does not begin with a separator. -/
def SolidAhead (rest : List Char) : Prop := ∀ c ∈ rest.head?, Solid c

/-- There is nothing to skip where a lexeme begins. -/
theorem skipSeparators_of_solidAhead {rest : List Char} (solid : SolidAhead rest) (line : Nat) :
    skipSeparators line rest = (line, rest) := by
  cases rest with
  | nil => rw [skipSeparators]
  | cons c rest => exact skipSeparators_of_solid (solid c rfl) line rest

/-- A line feed ends the same line as the carriage return before it. -/
theorem skipSeparators_pair (line : Nat) (rest : List Char) :
    skipSeparators line ('\r' :: '\n' :: rest) = skipSeparators line ('\n' :: rest) := by
  rw [skipSeparators.eq_2, skipSeparators_of_isLineBreak rfl (by simp)]

section Gap

variable {gap rest : List Char}

/-- Skipping goes over a gap and counts its line breaks. -/
theorem Gap.skipSeparators_eq (isGap : Gap gap) (solid : SolidAhead rest) (line : Nat) :
    skipSeparators line (gap ++ rest) = (line + lineBreaks gap, rest) := by
  induction isGap generalizing line with
  | nil => exact skipSeparators_of_solidAhead solid line
  | @space c gap white isGap ih =>
    by_cases ends : isLineBreak c = true
    · by_cases pair : c = '\r' ∧ gap.head? = some '\n'
      · obtain ⟨rfl, feed⟩ := pair
        obtain ⟨gap, rfl⟩ := List.head?_eq_some_iff.mp feed
        have one : lineBreaks ('\r' :: '\n' :: gap) = lineBreaks ('\n' :: gap) := by
          rw [lineBreaks, lineBreaks]
          · rfl
          · simp
        rw [List.cons_append, List.cons_append, skipSeparators_pair, one]
        exact ih line
      · have single : c = '\r' → (gap ++ rest).head? ≠ some '\n' := by
          rintro rfl feed
          cases gap with
          | nil => exact absurd (solid '\n' feed).1 (by decide)
          | cons d gap => exact pair ⟨rfl, feed⟩
        have more : lineBreaks (c :: gap) = lineBreaks gap + 1 := by
          rw [lineBreaks, if_pos ends]
          rintro tail rfl rfl
          exact pair ⟨rfl, rfl⟩
        rw [List.cons_append, skipSeparators_of_isLineBreak ends single, ih, more]
        congr 1
        omega
    · have blank : isBlank c = true := by simp [isBlank, white, ends]
      have same : lineBreaks (c :: gap) = lineBreaks gap := by
        rw [lineBreaks, if_neg ends, Nat.add_zero]
        rintro tail rfl
        exact absurd rfl ends
      rw [List.cons_append, skipSeparators_of_isBlank blank, ih, same]
  | @comment body gap closed isGap ih =>
    have fits : Piece.FitsBefore (gap ++ rest) (.comment body) := closed
    have joins : Joins (Piece.text (.comment body)) gap := fun last => by
      rw [Piece.text, List.getLast?_concat] at last
      cases last
    have separator : (Piece.comment body).IsSeparator := trivial
    rw [List.append_assoc, Piece.skipSeparators_separator separator fits, ih,
      lineBreaks_append joins, Nat.add_assoc]

/-- Gaps behind gaps. -/
theorem Gap.append {more : List Char} (isGap : Gap gap) (isGap' : Gap more) : Gap (gap ++ more) := by
  induction isGap with
  | nil => exact isGap'
  | space white _ ih => exact .space white ih
  | comment closed _ ih =>
    rw [List.append_assoc]
    exact .comment closed ih

/-- A gap ends the lexeme before it. -/
theorem Gap.boundary (isGap : Gap gap) (nonempty : gap ≠ []) (rest : List Char) :
    Boundary (gap ++ rest) := by
  cases isGap with
  | nil => exact absurd rfl nonempty
  | @space c gap white isGap =>
    rintro d ⟨⟩
    constructor
    · by_contra word
      have solid := solid_of_isAlphanum (by simpa using word)
      rw [solid.1] at white
      cases white
    · by_contra sign
      have solid := solid_of_isOperatorChar (by simpa using sign)
      rw [solid.1] at white
      cases white
  | comment closed isGap =>
    rintro d ⟨⟩
    decide

end Gap

/-! ### A lexeme behind a gap -/

namespace Lexeme

variable {l : Lexeme} {rest : List Char}

theorem FitsBefore.solidAhead (fits : l.FitsBefore rest) : SolidAhead (l.text ++ rest) := by
  obtain ⟨c, tail, text, solid, -⟩ := fits.exists_cons
  rw [text]
  rintro d ⟨⟩
  exact solid

/-- A lexeme by itself is one before everything that cannot go on with it. -/
theorem FitsBefore.of_boundary (fits : l.FitsBefore []) (boundary : Boundary rest) :
    l.FitsBefore rest := by
  cases l with
  | word run => exact ⟨fits.starts, fits.belongs, fun c mem => (boundary c mem).1⟩
  | decimal run => exact ⟨fits.starts, fits.belongs, fun c mem => (boundary c mem).1⟩
  | hexadecimal run => exact ⟨fits.1, fun c mem => (boundary c mem).1⟩
  | operator run => exact ⟨fits.starts, fits.belongs, fun c mem => (boundary c mem).2⟩
  | char c => exact fits

end Lexeme

namespace Scanner

variable {s : Scanner} {gap rest : List Char} {l : Lexeme}

/-- Behind a gap the next token is that of the lexeme there. -/
theorem next_gap (isGap : Gap gap) (fits : l.FitsBefore rest)
    (ahead : s.rest = gap ++ (l.text ++ rest)) :
    let token : Token := ⟨l.kind, s.line + lineBreaks gap⟩
    s.next = (token, ⟨rest, token.line, s.diagnostics ++ token.diagnostic?.toList⟩) := by
  have skipped := isGap.skipSeparators_eq fits.solidAhead s.line
  have there := next_lexeme fits (s := ⟨l.text ++ rest, s.line + lineBreaks gap, s.diagnostics⟩) rfl
  rw [next, skipSeparators_of_solidAhead fits.solidAhead] at there
  rw [next, ahead, skipped]
  exact there

/-- A lexeme behind a gap: its token stands on the line that the gap leads to, and the rest is
scanned from there. -/
theorem drain_gap (isGap : Gap gap) (fits : l.FitsBefore rest)
    (ahead : s.rest = gap ++ (l.text ++ rest)) :
    let token : Token := ⟨l.kind, s.line + lineBreaks gap⟩
    let later := Scanner.drain ⟨rest, token.line, s.diagnostics ++ token.diagnostic?.toList⟩
    s.drain = (token :: later.1, later.2) := by
  rw [drain, next_gap isGap fits ahead, if_neg fits.kind_ne_endOfText]

/-- Where nothing but a gap is left, the text is at its end. -/
theorem drain_of_gap (isGap : Gap s.rest) :
    s.drain = ([⟨.endOfText, s.line + lineBreaks s.rest⟩],
      ⟨[], s.line + lineBreaks s.rest, s.diagnostics⟩) := by
  have nothing : SolidAhead [] := by simp [SolidAhead]
  have skipped := isGap.skipSeparators_eq nothing s.line
  rw [List.append_nil] at skipped
  have last : s.next = (⟨.endOfText, s.line + lineBreaks s.rest⟩,
      ⟨[], s.line + lineBreaks s.rest, s.diagnostics⟩) := by
    rw [next, skipped]
  rw [drain, last, if_pos rfl]

/-- A run of letters and digits that a digit or a dollar sign begins, as long as it can be and
whatever stands before it: the scanner gives the integer for which it is a literal, and if it is no
literal, a token that is none and one diagnostic. -/
theorem next_number (isGap : Gap gap) (number : l.IsNumber) (fits : l.FitsBefore rest)
    (ahead : s.rest = gap ++ (l.text ++ rest)) :
    (∀ value : Int32, s.next.1.kind = .integer value ↔ Literal l value.toInt) ∧
      ((∃ value, Literal l value) → s.next.2.diagnostics = s.diagnostics) ∧
      ((¬ ∃ value, Literal l value) → (∃ fault, s.next.1.kind = .invalid fault) ∧
        s.next.2.diagnostics = s.diagnostics ++
          [{ stage := .lexer, line := s.line + lineBreaks gap, message := "invalid number" }]) ∧
      s.next.1.line = s.line + lineBreaks gap ∧ s.next.2.rest = rest := by
  rw [next_gap isGap fits ahead]
  refine ⟨fun value => Lexeme.kind_eq_integer_iff number, ?_, ?_, rfl, rfl⟩
  · rintro ⟨value, literal⟩
    obtain ⟨v, rfl⟩ := literal.exists_int32
    have isInteger : l.kind = .integer v := (Lexeme.kind_eq_integer_iff number).mpr literal
    simp [Token.diagnostic?, Token.Kind.fault?, isInteger]
  · intro none
    have isInvalid : l.kind = .invalid .invalidNumber := (Lexeme.kind_eq_invalid_iff number).mpr none
    refine ⟨⟨_, isInvalid⟩, ?_⟩
    simp [Token.diagnostic?, Token.Kind.fault?, isInvalid, LexicalFault.diagnostic,
      LexicalFault.message]

/-- A pattern of all bits set, padded with zeros, behind a comment and a line break. -/
theorem next_number_padded :
    let s : Scanner := { rest := "\x7bx\x7d\r\n$000FFFFffff+1".toList }
    s.next.1 = ⟨.integer (-1), 2⟩ ∧ s.next.2.diagnostics = [] ∧ s.next.2.rest = ['+', '1'] := by
  intro s
  have isGap : Gap ['\x7b', 'x', '\x7d', '\r', '\n'] :=
    @Gap.comment ['x'] _ (by decide) (.space (by decide) (.space (by decide) .nil))
  have fits : Lexeme.FitsBefore ['+', '1'] (.hexadecimal "000FFFFffff".toList) := by
    refine ⟨List.all_eq_true.mp (by decide), ?_⟩
    rintro c ⟨⟩
    decide
  have value : numeralValue 16 "000FFFFffff".toList = 4294967295 := by decide +kernel
  have literal : Literal (.hexadecimal "000FFFFffff".toList) (-1) := by
    have read := @Literal.hexadecimal "000FFFFffff".toList (by decide) (by rw [value]; decide)
    rwa [value] at read
  have number : (Lexeme.hexadecimal "000FFFFffff".toList).IsNumber := trivial
  obtain ⟨integer, silent, -, line, rest⟩ := next_number (s := s) isGap number fits (by decide)
  refine ⟨?_, silent ⟨_, literal⟩, rest⟩
  rw [show s.next.1 = ⟨s.next.1.kind, s.next.1.line⟩ from rfl, (integer (-1)).mpr literal, line]
  decide

end Scanner

/-! ### Lexemes set apart -/

/-- A lexeme and the gap behind it. -/
structure SpacedLexeme where
  lexeme : Lexeme
  gap : List Char

namespace SpacedLexeme

def textAll (items : List SpacedLexeme) : List Char :=
  items.flatMap fun item => item.lexeme.text ++ item.gap

/-- Between two lexemes the gap is not empty. -/
def Apart : List SpacedLexeme → Prop
  | [] => True
  | item :: later =>
    item.lexeme.FitsBefore [] ∧ Gap item.gap ∧ (later ≠ [] → item.gap ≠ []) ∧ Apart later

/-- The tokens of the lexemes, of which the first is on `line`, and the end of the text last. -/
def tokens (line : Nat) : List SpacedLexeme → List Token
  | [] => [⟨.endOfText, line⟩]
  | item :: later => ⟨item.lexeme.kind, line⟩ :: tokens (line + lineBreaks item.gap) later

variable {item : SpacedLexeme} {items : List SpacedLexeme}

theorem textAll_cons (item : SpacedLexeme) (later : List SpacedLexeme) :
    textAll (item :: later) = item.lexeme.text ++ (item.gap ++ textAll later) := by
  rw [textAll, List.flatMap_cons, List.append_assoc, ← textAll]

/-- What stands behind a lexeme does not go on with it. -/
theorem Apart.boundary (apart : Apart (item :: items)) : Boundary (item.gap ++ textAll items) := by
  obtain ⟨-, isGap, between, -⟩ := apart
  by_cases nonempty : item.gap = []
  · have last : items = [] := by
      by_contra more
      exact between more nonempty
    rw [nonempty, last]
    exact boundary_nil
  · exact isGap.boundary nonempty _

theorem map_kind_tokens (line : Nat) (items : List SpacedLexeme) :
    (tokens line items).map (·.kind) = items.map (·.lexeme.kind) ++ [.endOfText] := by
  induction items generalizing line with
  | nil => rfl
  | cons item later ih => rw [tokens, List.map_cons, ih, List.map_cons, List.cons_append]

end SpacedLexeme

/-- Scanning a gap and the lexemes behind it gives their tokens and reports those at fault. -/
theorem Scanner.drain_apart {items : List SpacedLexeme} (apart : SpacedLexeme.Apart items)
    {s : Scanner} {gap : List Char} (isGap : Gap gap)
    (ahead : s.rest = gap ++ SpacedLexeme.textAll items) :
    s.drain.1 = SpacedLexeme.tokens (s.line + lineBreaks gap) items ∧
      s.drain.2.diagnostics = s.diagnostics ++
        (SpacedLexeme.tokens (s.line + lineBreaks gap) items).filterMap Token.diagnostic? := by
  induction items generalizing s gap with
  | nil =>
    have rest : s.rest = gap := ahead.trans (List.append_nil gap)
    rw [drain_of_gap (by rwa [rest]), rest]
    simp [SpacedLexeme.tokens, Token.diagnostic?, Token.Kind.fault?]
  | cons item later ih =>
    have fits := apart.1.of_boundary apart.boundary
    obtain ⟨-, gapBehind, -, apartLater⟩ := apart
    rw [SpacedLexeme.textAll_cons] at ahead
    obtain ⟨tokens, faults⟩ := ih apartLater gapBehind (s := ⟨_, _, _⟩) rfl
    rw [drain_gap isGap fits ahead, tokens, faults, SpacedLexeme.tokens, List.filterMap_cons]
    refine ⟨rfl, ?_⟩
    cases (⟨item.lexeme.kind, s.line + lineBreaks gap⟩ : Token).diagnostic? with
    | none => simp
    | some d => simp

/-! ### Faulty lexemes -/

/-- A lexeme that is no token: a number that is no literal, or operator characters that spell no
operator. -/
def Lexeme.Faulty : Lexeme → Prop
  | .decimal run => ¬ ∃ value, Literal (.decimal run) value
  | .hexadecimal run => ¬ ∃ value, Literal (.hexadecimal run) value
  | .operator run => ∀ op : Operator, op.spelling.toList ≠ run
  | .word _ | .char _ => False

theorem BinaryOp.mem_all (op : BinaryOp) : op ∈ all := by
  cases op <;> decide

/-- Runs of operator characters are faulty if they spell no operator. -/
theorem Operator.ofSpelling?_eq_none_iff {text : String} :
    ofSpelling? text = none ↔ ∀ op : Operator, op.spelling ≠ text := by
  unfold ofSpelling?
  by_cases arrow : text = ":="
  · rw [if_pos arrow]
    exact ⟨fun none => (Option.some_ne_none _ none).elim, fun all => absurd arrow.symm (all .assign)⟩
  · rw [if_neg arrow, Option.map_eq_none_iff, BinaryOp.ofSpelling?, List.find?_eq_none]
    constructor
    · rintro noBinary (op | _)
      · simpa [spelling] using noBinary op op.mem_all
      · exact fun same => arrow same.symm
    · intro all op _
      simpa [spelling] using all (.binary op)

/-- Faulty lexemes are the ones reported. -/
theorem Lexeme.faulty_iff (l : Lexeme) : l.Faulty ↔ l.kind.fault?.isSome = true := by
  have number {read : Option Int32} :
      numberKind read = .invalid .invalidNumber ↔ (numberKind read).fault?.isSome = true := by
    cases read <;> simp [numberKind, Token.Kind.fault?]
  cases l with
  | word run =>
    have proper : (wordKind run).fault? = none := by
      unfold wordKind
      dsimp only
      split <;> rfl
    simp [Faulty, kind, proper]
  | decimal run =>
    have isNumber : (decimal run).IsNumber := trivial
    exact (kind_eq_invalid_iff isNumber).symm.trans number
  | hexadecimal run =>
    have isNumber : (hexadecimal run).IsNumber := trivial
    exact (kind_eq_invalid_iff isNumber).symm.trans number
  | operator run =>
    have spelled (op : Operator) : op.spelling.toList ≠ run ↔ op.spelling ≠ String.ofList run := by
      rw [not_iff_not, ← String.toList_inj, String.toList_ofList]
    rw [Faulty, forall_congr' spelled, ← Operator.ofSpelling?_eq_none_iff, kind, operatorKind]
    cases Operator.ofSpelling? (String.ofList run) <;> simp [Token.Kind.fault?]
  | char c => simp [Faulty, kind, Token.Kind.fault?]

instance (l : Lexeme) : Decidable l.Faulty := decidable_of_iff _ l.faulty_iff.symm

/-- There is one diagnostic for each faulty lexeme. -/
theorem SpacedLexeme.length_filterMap_tokens (line : Nat) (items : List SpacedLexeme) :
    ((tokens line items).filterMap Token.diagnostic?).length =
      (items.filter fun item => item.lexeme.Faulty).length := by
  induction items generalizing line with
  | nil => rfl
  | cons item later ih =>
    rw [tokens, List.filterMap_cons, List.filter_cons]
    cases fault : item.lexeme.kind.fault? with
    | none =>
      have proper : ¬ item.lexeme.Faulty := by simp [Lexeme.faulty_iff, fault]
      simp [Token.diagnostic?, fault, proper, ih]
    | some cause =>
      have faulty : item.lexeme.Faulty := by simp [Lexeme.faulty_iff, fault]
      simp [Token.diagnostic?, fault, faulty, ih]

/-- A lexeme by itself gives its token. -/
theorem Lexeme.FitsBefore.next_kind {l : Lexeme} (fits : l.FitsBefore []) :
    (Scanner.ofString (String.ofList l.text)).next.1.kind = l.kind := by
  have ahead : (Scanner.ofString (String.ofList l.text)).rest = [] ++ (l.text ++ []) := by
    simp [Scanner.ofString]
  rw [Scanner.next_gap .nil fits ahead]

/-- Lexemes that are set apart would be the same alone. -/
theorem SpacedLexeme.Apart.alone {items : List SpacedLexeme} (apart : Apart items) :
    ∀ item ∈ items, item.lexeme.FitsBefore [] := by
  induction items with
  | nil => exact List.forall_mem_nil _
  | cons item later ih => exact List.forall_mem_cons.mpr ⟨apart.1, ih apart.2.2.2⟩

/-- Lexemes with gaps before, between and behind them give the tokens that they give when each is
scanned by itself, whatever the gaps are, and one diagnostic for each faulty one among them. -/
theorem tokenize_kinds_of_apart {lead : List Char} {items : List SpacedLexeme} (isGap : Gap lead)
    (apart : SpacedLexeme.Apart items) :
    let source := String.ofList (lead ++ SpacedLexeme.textAll items)
    (tokenize source).map (·.kind) =
        items.map (fun item => (Scanner.ofString (String.ofList item.lexeme.text)).next.1.kind) ++
          [.endOfText] ∧
      (Scanner.ofString source).drain.2.diagnostics.length =
        (items.filter fun item => item.lexeme.Faulty).length := by
  intro source
  have ahead : (Scanner.ofString source).rest = lead ++ SpacedLexeme.textAll items :=
    String.toList_ofList
  obtain ⟨tokens, faults⟩ := Scanner.drain_apart apart isGap ahead
  constructor
  · rw [tokenize, tokens, SpacedLexeme.map_kind_tokens]
    refine congrArg (· ++ _) (List.map_congr_left fun item mem => ?_)
    exact (apart.alone item mem).next_kind.symm
  · rw [faults, List.length_append, SpacedLexeme.length_filterMap_tokens]
    exact Nat.zero_add _

/-- A keyword in mixed case, an invalid number, an unknown operator and a single character, with a
comment, a line break of two characters and nothing at all behind them. -/
theorem tokenize_kinds_of_apart_mixed :
    let source := String.ofList "\t\x7b\r\n\x7dBeGin\x7b 1 \x7d12ab\r\n:=-\u2028;".toList
    (tokenize source).map (·.kind) = [.keyword .beginKw, .invalid .invalidNumber,
        .invalid .unknownOperator, .char ';', .endOfText] ∧
      (Scanner.ofString source).drain.2.diagnostics.length = 2 := by
  let items : List SpacedLexeme :=
    [⟨.word "BeGin".toList, ['\x7b', ' ', '1', ' ', '\x7d']⟩, ⟨.decimal "12ab".toList, ['\r', '\n']⟩,
      ⟨.operator ":=-".toList, ['\u2028']⟩, ⟨.char ';', []⟩]
  have isGap : Gap ['\t', '\x7b', '\r', '\n', '\x7d'] :=
    .space (by decide) (@Gap.comment ['\r', '\n'] _ (by decide) .nil)
  have apart : SpacedLexeme.Apart items := by
    refine ⟨⟨by decide, List.all_eq_true.mp (by decide), by simp⟩, ?_, by decide,
      ⟨by decide, List.all_eq_true.mp (by decide), by simp⟩, ?_, by decide,
      ⟨by decide, List.all_eq_true.mp (by decide), by simp⟩, ?_, by decide, ?_, .nil, by simp,
      trivial⟩
    · exact @Gap.comment [' ', '1', ' '] _ (by decide) .nil
    · exact .space (by decide) (.space (by decide) .nil)
    · exact .space (by decide) .nil
    · exact (by decide : StandsAlone ';')
  obtain ⟨kinds, faults⟩ := tokenize_kinds_of_apart isGap apart
  refine ⟨kinds.trans (by decide +kernel), faults.trans (by decide +kernel)⟩

end PlZero
