import PlZero.Text.Blank
import PlZero.Token.Basic

/-!
Scanning: the next token of a source text.

A text is separators (blanks, line breaks, comments in braces) and lexemes in turn. `Scanner.next`
drops the separators before a lexeme, cuts the longest lexeme off the text and says what token it
is. A lexeme that is no token is recorded as a diagnostic and scanning goes on behind it. At the end
of the text `next` gives the same end token again and again.

Main statement: a token other than the end of the text uses up at least one character
(`Scanner.next_length_lt`), which is why `Scanner.drain` ends.
-/

namespace PlZero

open Text

/-! ### Separators -/

mutual

/-- Drops blanks, line breaks and comments from the front of a text, counting lines from `line`. A
carriage return and the line feed behind it are one line break. -/
def skipSeparators (line : Nat) : List Char → Nat × List Char
  | [] => (line, [])
  | '\r' :: '\n' :: rest => skipSeparators (line + 1) rest
  | '\x7b' :: rest => skipComment line rest
  | c :: rest =>
    if isLineBreak c then skipSeparators (line + 1) rest
    else if isBlank c then skipSeparators line rest
    else (line, c :: rest)

/-- Drops the rest of a comment, its closing brace and the separators behind it. A comment that is
not closed runs to the end of the text. -/
def skipComment (line : Nat) : List Char → Nat × List Char
  | [] => (line, [])
  | '\r' :: '\n' :: rest => skipComment (line + 1) rest
  | '\x7d' :: rest => skipSeparators line rest
  | c :: rest => skipComment (if isLineBreak c then line + 1 else line) rest

end

/-! ### Numbers -/

/-- The value of a digit in bases up to sixteen, in either case. -/
def digitValue? (base : Nat) (c : Char) : Option Nat :=
  let value :=
    if c.isDigit then c.toNat - '0'.toNat
    else if 'a' ≤ c ∧ c ≤ 'f' then c.toNat - 'a'.toNat + 10
    else if 'A' ≤ c ∧ c ≤ 'F' then c.toNat - 'A'.toNat + 10
    else base
  if value < base then some value else none

/-- The number that one or more digits spell, the most significant first. -/
def readDigits? (base : Nat) (digits : List Char) : Option Nat :=
  if digits.isEmpty then none
  else digits.foldlM (fun n c => (digitValue? base c).map (base * n + ·)) 0

/-- A decimal literal: no leading zero but in `0` itself, and at most the greatest signed integer of
32 bits. -/
def readDecimal? (digits : List Char) : Option Int32 :=
  if digits.length > 1 && digits.head? == some '0' then none
  else match readDigits? 10 digits with
    | some n => if n ≤ 0x7FFFFFFF then some (Int32.ofNat n) else none
    | none => none

/-- A hexadecimal literal: any pattern of 32 bits, read as a signed integer. -/
def readHexadecimal? (digits : List Char) : Option Int32 :=
  match readDigits? 16 digits with
  | some n => if n ≤ 0xFFFFFFFF then some (Int32.ofNat n) else none
  | none => none

/-! ### Lexemes -/

/-- The characters that operators are made of. -/
def isOperatorChar (c : Char) : Bool := "+-*/<=>:".toList.contains c

/-- The token spelled by a run of letters and digits that starts with a letter. -/
def wordKind (run : List Char) : Token.Kind :=
  let word := String.ofList (run.map Char.toLower)
  match Keyword.ofSpelling? word with
  | some keyword => .keyword keyword
  | none => .name word

/-- The token for a literal with the given value, if it has one. -/
def numberKind : Option Int32 → Token.Kind
  | some value => .integer value
  | none => .invalid .invalidNumber

/-- The token spelled by a run of operator characters. -/
def operatorKind (run : List Char) : Token.Kind :=
  match Operator.ofSpelling? (String.ofList run) with
  | some op => .operator op
  | none => .invalid .unknownOperator

/-- Cuts the lexeme that starts with `c` off the text `c :: rest`: its token and the text behind
it. -/
def readLexeme (c : Char) (rest : List Char) : Token.Kind × List Char :=
  if c.isAlpha then
    (wordKind (c :: rest.takeWhile Char.isAlphanum), rest.dropWhile Char.isAlphanum)
  else if c.isDigit then
    (numberKind (readDecimal? (c :: rest.takeWhile Char.isAlphanum)),
      rest.dropWhile Char.isAlphanum)
  else if c = '$' then
    (numberKind (readHexadecimal? (rest.takeWhile Char.isAlphanum)),
      rest.dropWhile Char.isAlphanum)
  else if isOperatorChar c then
    (operatorKind (c :: rest.takeWhile isOperatorChar), rest.dropWhile isOperatorChar)
  else (.char c, rest)

/-! ### The scanner -/

/-- A reading position in a source text: the text ahead, the number of the current line, and the
faults met so far. -/
structure Scanner where
  rest : List Char
  line : Nat := 1
  diagnostics : List Diagnostic := []
  deriving DecidableEq, Repr

namespace Scanner

def ofString (source : String) : Scanner := { rest := source.toList }

/-- The next token, and the scanner behind it. -/
def next (s : Scanner) : Token × Scanner :=
  match skipSeparators s.line s.rest with
  | (line, []) => (⟨.endOfText, line⟩, { s with rest := [], line })
  | (line, c :: tail) =>
    let (kind, rest) := readLexeme c tail
    let token : Token := ⟨kind, line⟩
    (token, { rest, line, diagnostics := s.diagnostics ++ token.diagnostic?.toList })

end Scanner

/-! ### Progress -/

/-- Dropping separators, or the rest of a comment, never lengthens a text. -/
theorem skip_length_le :
    (∀ line cs, (skipSeparators line cs).2.length ≤ cs.length) ∧
      ∀ line cs, (skipComment line cs).2.length ≤ cs.length := by
  refine skipSeparators.mutual_induct
    (fun line cs => (skipSeparators line cs).2.length ≤ cs.length)
    (fun line cs => (skipComment line cs).2.length ≤ cs.length) ?_ ?_ ?_ ?_ ?_ ?_ ?_ ?_ ?_ ?_
  all_goals grind [skipSeparators, skipComment]

/-- Behind a lexeme stands no more than what stood behind its first character. -/
theorem readLexeme_length_le (c : Char) (rest : List Char) :
    (readLexeme c rest).2.length ≤ rest.length := by
  have shorter (p : Char → Bool) : (rest.dropWhile p).length ≤ rest.length :=
    (List.dropWhile_sublist p).length_le
  unfold readLexeme
  repeat' split
  all_goals first | exact shorter _ | exact Nat.le_refl _

namespace Scanner

/-- A token other than the end of the text uses up at least one character. -/
theorem next_length_lt {s : Scanner} (h : s.next.1.kind ≠ .endOfText) :
    s.next.2.rest.length < s.rest.length := by
  have kept := skip_length_le.1 s.line s.rest
  unfold next at h ⊢
  split at h
  · exact absurd rfl h
  · rename_i line c tail skipped
    have behind := readLexeme_length_le c tail
    rw [skipped] at kept
    simp only [List.length_cons] at kept
    exact Nat.lt_of_le_of_lt behind (by omega)

/-- Every token from here on, the end of the text last, and the scanner behind them. -/
def drain (s : Scanner) : List Token × Scanner :=
  let step := s.next
  if step.1.kind = .endOfText then ([step.1], step.2)
  else
    let later := step.2.drain
    (step.1 :: later.1, later.2)
termination_by s.rest.length
decreasing_by exact next_length_lt ‹_›

end Scanner

/-- The tokens of a source text, the end of the text last. -/
def tokenize (source : String) : List Token := (Scanner.ofString source).drain.1

end PlZero
