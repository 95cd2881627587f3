import PlZero.Proofs.Parser.Sound
import PlZero.Proofs.Token.Layout
import PlZero.Tree.Equality

/-!
Inline assembly, scanned again.

A statement of inline assembly keeps the tokens between `begin` and `end` as a text: a space between
two of one line, and a line ending for every semicolon and behind the last token. Scanned again,
that text gives the tokens without the semicolons, each on the line that the semicolons before it
lead to (`rescan`). One kind of token does not come back as it was: a negative integer, which only a
hexadecimal literal can be, is written with a sign and falls apart (`Token.Kind.rescanned`).

Main statement: `Parsing.rescan_of_statement`.
-/

namespace PlZero

open Token (Kind)
open Grammar (kinds)

/-! ### The tokens of a text -/

/-- A token that a program can hold can be written back. -/
theorem Lexeme.FitsBefore.writable {l : Lexeme} {rest : List Char} (fits : l.FitsBefore rest)
    (proper : l.kind.isProper = true) : l.kind.Writable := by
  have number {read : Option Int32} (proper : (numberKind read).isProper = true) :
      (numberKind read).Writable := by
    cases read with
    | none => cases proper
    | some value => trivial
  cases l with
  | word run =>
    obtain ⟨c, tail, rfl, letter, -⟩ := MaximalRun.exists_cons fits
    have inside : ∀ d ∈ tail, d.isAlphanum = true :=
      fun d mem => fits.belongs d (List.mem_cons_of_mem _ mem)
    cases isKind : wordKind (c :: tail) with
    | name text =>
      rw [kind, isKind]
      exact isIdentifier_of_wordKind letter inside isKind
    | keyword word =>
      rw [kind, isKind]
      trivial
    | endOfText | invalid | integer | operator | char =>
      unfold wordKind at isKind
      dsimp only at isKind
      split at isKind <;> cases isKind
  | decimal run => exact number proper
  | hexadecimal run => exact number proper
  | operator run =>
    rw [kind, operatorKind] at proper ⊢
    split at proper
    · trivial
    · cases proper
  | char c => exact fits

/-- Each token but the last is that of a lexeme. -/
theorem Piece.kind_of_mem_tokens {pieces : List Piece} (fit : FitAll pieces) {before : List Char} :
    ∀ t ∈ tokens before pieces,
      t.kind = .endOfText ∨ ∃ l rest, Lexeme.FitsBefore rest l ∧ t.kind = l.kind := by
  induction pieces generalizing before with
  | nil => exact List.forall_mem_singleton.mpr (.inl rfl)
  | cons piece later ih =>
    obtain ⟨fits, fitLater⟩ := fit
    cases piece with
    | blanks | lineBreak | comment | openComment => exact ih fitLater
    | lexeme l => exact List.forall_mem_cons.mpr ⟨.inr ⟨l, _, fits, rfl⟩, ih fitLater⟩

/-- Proper tokens of a text can be written. -/
theorem writable_of_mem_tokenize {source : String} {t : Token} (mem : t ∈ tokenize source)
    (proper : t.kind.isProper = true) : t.kind.Writable := by
  obtain ⟨pieces, cuts⟩ := Piece.exists_cuts source.toList
  have spelled : tokenize source = Piece.tokens [] pieces :=
    congrArg Prod.fst (Scanner.drain_ofString cuts)
  rw [spelled] at mem
  rcases Piece.kind_of_mem_tokens cuts.fit t mem with isEnd | ⟨l, rest, fits, isKind⟩
  · rw [isEnd] at proper
    cases proper
  · rw [isKind] at proper ⊢
    exact fits.writable proper

/-! ### One token -/

/-- The tokens that the spelling of a token is scanned as. A negative integer is a sign and an
amount, and the amount of the least integer is no literal. -/
def Token.Kind.rescanned : Kind → List Kind
  | .integer value =>
    if value < 0 then
      [.operator (.binary .sub),
        if value = Int32.minValue then .invalid .invalidNumber else .integer (-value)]
    else [.integer value]
  | kind => [kind]

theorem fitsBefore_decimal (n : Nat) : Lexeme.FitsBefore [] (.decimal (Nat.toDigits 10 n)) := by
  refine ⟨?_, isAlphanum_of_mem_toDigits (by decide) (by decide), by simp⟩
  cases digits : Nat.toDigits 10 n with
  | nil => exact absurd digits Nat.toDigits_ne_nil
  | cons c others =>
    have digit : c.isDigit = true :=
      Nat.isDigit_of_mem_toDigits (by decide) (by decide) (digits ▸ List.mem_cons_self)
    simpa using digit

theorem fitsBefore_word {word : String} (starts : word.toList.head?.any Char.isLower = true)
    (lowerCase : word.toList.all (fun c => c.isLower || c.isDigit) = true) :
    Lexeme.FitsBefore [] (.word word.toList) := by
  refine ⟨?_, fun c mem => isAlphanum_of_lowerCase (List.all_eq_true.mp lowerCase c mem), by simp⟩
  cases chars : word.toList with
  | nil => simp [chars] at starts
  | cons c others =>
    rw [chars] at starts
    simpa using isAlpha_iff.mpr (.inr starts)

/-- A negative integer is spelled by a sign and a number. -/
theorem spelled_of_negative {value : Int32} (negative : value < 0) :
    ∃ digits, (Kind.integer value).spelling.toList = '-' :: digits ∧
      Lexeme.FitsBefore [] (.decimal digits) ∧
      (Kind.integer value).rescanned =
        [.operator (.binary .sub), (Lexeme.decimal digits).kind] := by
  have below : value.toInt < 0 := Int32.lt_iff_toInt_lt.mp negative
  cases amount : value.toInt with
  | ofNat m =>
    rw [amount] at below
    exact absurd below (Int.not_lt.mpr (Int.natCast_nonneg m))
  | negSucc m =>
    have size : value.toInt = -(m + 1 : Int) := amount
    have least : Int32.minValue.toInt = -2147483648 := rfl
    refine ⟨Nat.toDigits 10 (m + 1), ?_, fitsBefore_decimal _, ?_⟩
    · rw [Kind.spelling, amount]
      change ("-" ++ toString (m + 1)).toList = _
      simp
    · rw [Kind.rescanned, if_pos negative]
      by_cases isLeast : value = Int32.minValue
      · obtain rfl : m = 2147483647 := by
          rw [isLeast, least] at size
          omega
        rw [if_pos isLeast]
        decide +kernel
      · have bound : m + 1 ≤ 0x7FFFFFFF := by
          have atLeast : -2147483648 ≤ value.toInt := value.le_toInt
          by_contra large
          refine isLeast (Int32.toInt_inj.mp ?_)
          omega
        have positive : -value = Int32.ofNat (m + 1) := by
          rw [← Int32.ofInt_toInt value, size, Int32.ofInt_neg, Int32.neg_neg]
          exact Int32.ofInt_eq_ofNat
        rw [if_neg isLeast, positive, Lexeme.kind, readDecimal?_toDigits bound, numberKind]

/-- A token is spelled by one lexeme, or by a sign and a number if it is a negative integer. -/
theorem Token.Kind.Writable.spelled {kind : Kind} (writable : kind.Writable) :
    (∃ l : Lexeme, kind.spelling.toList = l.text ∧ l.FitsBefore [] ∧ l.kind = kind ∧
      kind.rescanned = [kind]) ∨
    ∃ digits, kind.spelling.toList = '-' :: digits ∧ Lexeme.FitsBefore [] (.decimal digits) ∧
      kind.rescanned = [.operator (.binary .sub), (Lexeme.decimal digits).kind] := by
  cases kind with
  | endOfText | invalid => exact writable.elim
  | name text =>
    exact .inl ⟨.word text.toList, rfl, fitsBefore_word writable.starts writable.lowerCase,
      writable.wordKind_eq, rfl⟩
  | integer value =>
    by_cases negative : value < 0
    · exact .inr (spelled_of_negative negative)
    · have nonneg : 0 ≤ value := Int32.not_lt.mp negative
      have bound : value.toNatClampNeg ≤ 0x7FFFFFFF := Nat.le_of_lt_succ value.toNatClampNeg_lt
      refine .inl ⟨.decimal (Nat.toDigits 10 value.toNatClampNeg), ?_, fitsBefore_decimal _, ?_, ?_⟩
      · rw [spelling, Int32.toInt_eq_toNatClampNeg nonneg]
        change (toString value.toNatClampNeg).toList = _
        rw [Nat.toString_eq_ofList_toDigits, String.toList_ofList, Lexeme.text]
      · rw [Lexeme.kind, readDecimal?_toDigits bound, Int32.ofNat_toNatClampNeg value nonneg,
          numberKind]
      · rw [rescanned, if_neg negative]
  | keyword word =>
    refine .inl ⟨.word word.spelling.toList, rfl, fitsBefore_word ?_ ?_, ?_, rfl⟩ <;>
      cases word <;> decide
  | operator op =>
    have signs : op.spelling.toList.all isOperatorChar = true := by
      rcases op with ⟨⟨⟩⟩ | ⟨⟩ <;> decide
    have starts : op.spelling.toList.head?.any isOperatorChar = true := by
      rcases op with ⟨⟨⟩⟩ | ⟨⟩ <;> decide
    have isKind : operatorKind op.spelling.toList = .operator op := by
      rcases op with ⟨⟨⟩⟩ | ⟨⟩ <;> decide
    exact .inl ⟨.operator op.spelling.toList, rfl, ⟨starts, List.all_eq_true.mp signs, by simp⟩,
      isKind, rfl⟩
  | char c =>
    exact .inl ⟨.char c, by simp [spelling, Char.toString, Lexeme.text], writable, rfl, rfl⟩

/-- No line ends inside the spelling of a token. -/
theorem Token.Kind.Writable.count_newline {kind : Kind} (writable : kind.Writable) :
    kind.spelling.toList.count '\n' = 0 := by
  rw [List.count_eq_zero]
  intro mem
  rcases writable.spelled with ⟨l, text, fits, -⟩ | ⟨digits, text, fits, -⟩
  · rw [text] at mem
    exact absurd (fits.not_isWhiteSpace _ mem) (by decide)
  · rw [text] at mem
    rcases List.mem_cons.mp mem with isSign | inside
    · exact absurd isSign (by decide)
    · exact absurd (fits.not_isWhiteSpace _ inside) (by decide)

/-- Where a token is spelled behind a gap, scanning gives what its spelling is scanned as. -/
theorem Scanner.drain_spelling {s : Scanner} {gap rest : List Char} {kind : Kind}
    (writable : kind.Writable) (isGap : Gap gap) (boundary : Boundary rest)
    (ahead : s.rest = gap ++ (kind.spelling.toList ++ rest)) :
    ∃ later : Scanner, later.rest = rest ∧ later.line = s.line + lineBreaks gap ∧
      s.drain.1 = kind.rescanned.map (⟨·, s.line + lineBreaks gap⟩) ++ later.drain.1 := by
  rcases writable.spelled with ⟨l, text, fits, isKind, whole⟩ | ⟨digits, text, fits, apart⟩
  · rw [text] at ahead
    rw [drain_gap isGap (fits.of_boundary boundary) ahead, whole, isKind]
    exact ⟨⟨rest, _, _⟩, rfl, rfl, rfl⟩
  · have sign : Lexeme.FitsBefore (digits ++ rest) (.operator ['-']) := by
      obtain ⟨c, tail, rfl, digit, -⟩ := MaximalRun.exists_cons fits
      refine ⟨by decide, by simp [isOperatorChar], ?_⟩
      rintro d ⟨⟩
      by_contra isSign
      have noDigit := (plain_of_isOperatorChar (by simpa using isSign)).2.1
      rw [digit] at noDigit
      cases noDigit
    have isMinus : (Lexeme.operator ['-']).kind = .operator (.binary .sub) := by decide
    have amount (faults : List Diagnostic) :=
      drain_gap (s := ⟨digits ++ rest, s.line + lineBreaks gap, faults⟩) .nil
        (fits.of_boundary boundary) rfl
    rw [text] at ahead
    rw [drain_gap isGap sign ahead, amount, apart, isMinus]
    exact ⟨⟨rest, _, _⟩, rfl, rfl, rfl⟩

/-! ### The text of inline assembly -/

theorem Parsing.asmText_cons (words : List String) (kind : Kind) (later : List Kind) :
    asmText words (kind :: later) =
      if kind = .char ';' then " ".intercalate words ++ "\n" ++ asmText [] later
      else asmText (words ++ [kind.spelling]) later := by
  by_cases ends : kind = .char ';'
  · rw [if_pos ends, ends, asmText]
  · rw [if_neg ends, asmText]
    exact ends

/-- The characters of inline assembly from some token on. Is it the first of its line? -/
def assembled (fresh : Bool) : List Kind → List Char
  | [] => if fresh then [] else ['\n']
  | kind :: later =>
    if kind = .char ';' then '\n' :: assembled true later
    else (if fresh then [] else [' ']) ++ (kind.spelling.toList ++ assembled false later)

theorem toList_intercalate_concat (words : List String) (word : String) :
    (" ".intercalate (words ++ [word])).toList =
      (" ".intercalate words).toList ++ ((if words.isEmpty then [] else [' ']) ++ word.toList) := by
  induction words with
  | nil => simp
  | cons first others ih =>
    cases others with
    | nil => simp [String.intercalate_cons_cons]
    | cons second others =>
      rw [List.cons_append, List.cons_append, String.intercalate_cons_cons, ← List.cons_append,
        String.intercalate_cons_cons, String.toList_append, ih]
      simp

/-- Line by line, the text of inline assembly is its tokens with a space or an end of line between
them. -/
theorem Parsing.toList_asmText (words : List String) (body : List Kind) :
    (asmText words body).toList =
      (" ".intercalate words).toList ++ assembled words.isEmpty body := by
  induction body generalizing words with
  | nil => cases words <;> simp [asmText, assembled]
  | cons kind later ih =>
    rw [asmText_cons, assembled]
    by_cases ends : kind = .char ';'
    · rw [if_pos ends, if_pos ends, String.toList_append, ih]
      simp
    · have started : (words ++ [kind.spelling]).isEmpty = false := by simp
      rw [if_neg ends, if_neg ends, ih, toList_intercalate_concat, started]
      simp

/-! ### Scanning it again -/

/-- Inline assembly scanned again: for every token but the semicolons what its spelling is scanned
as, on the line that the semicolons before it lead to. -/
def rescan (before : List Kind) : List Kind → List Token
  | [] => []
  | kind :: later =>
    (if kind = .char ';' then [] else kind.rescanned.map (⟨·, 1 + before.count (.char ';')⟩)) ++
      rescan (before ++ [kind]) later

/-- What follows a token of inline assembly is a space or the end of a line. -/
theorem boundary_assembled (body : List Kind) : Boundary (assembled false body) := by
  cases body with
  | nil =>
    rintro c ⟨⟩
    decide
  | cons kind later =>
    rw [assembled]
    split
    · rintro c ⟨⟩
      decide
    · rintro c ⟨⟩
      decide

theorem joins_of_not_mem {first second : List Char} (noReturn : '\r' ∉ first) :
    Joins first second :=
  fun last => absurd (List.mem_of_getLast? last) noReturn

/-- Scanning inline assembly from some token on. The gap holds the line endings for the semicolons
right before that token. -/
theorem Scanner.drain_assembled {body : List Kind} (writable : ∀ kind ∈ body, kind.Writable)
    {before : List Kind} {fresh : Bool} {s : Scanner} {gap : List Char} (isGap : Gap gap)
    (noReturn : '\r' ∉ gap) (ahead : s.rest = gap ++ assembled fresh body)
    (line : s.line + lineBreaks gap = 1 + before.count (.char ';')) :
    ∃ last, s.drain.1 = rescan before body ++ [⟨.endOfText, last⟩] := by
  have feed : Gap ['\n'] := .space (by decide) .nil
  have blank : Gap [' '] := .space (by decide) .nil
  induction body generalizing before fresh s gap with
  | nil =>
    have atEnd : Gap s.rest := by
      rw [ahead]
      cases fresh with
      | true => exact isGap.append .nil
      | false => exact isGap.append feed
    exact ⟨_, congrArg Prod.fst (drain_of_gap atEnd)⟩
  | cons kind later ih =>
    obtain ⟨first, others⟩ := List.forall_mem_cons.mp writable
    rw [assembled] at ahead
    rw [rescan]
    by_cases ends : kind = .char ';'
    · subst ends
      rw [if_pos rfl] at ahead
      have ahead' : s.rest = (gap ++ ['\n']) ++ assembled true later := by simpa using ahead
      have noReturn' : '\r' ∉ gap ++ ['\n'] := by simpa using noReturn
      have line' : s.line + lineBreaks (gap ++ ['\n']) =
          1 + (before ++ [Kind.char ';']).count (.char ';') := by
        rw [lineBreaks_append (joins_of_not_mem noReturn), List.count_append, ← Nat.add_assoc, line,
          Nat.add_assoc]
        rfl
      exact ih others (isGap.append feed) noReturn' ahead' line'
    · -- the spelling of the token stands behind the gap, with a blank if the line has begun
      obtain ⟨gap', isGap', sameLines, text⟩ : ∃ gap', Gap gap' ∧ lineBreaks gap' = lineBreaks gap ∧
          s.rest = gap' ++ (kind.spelling.toList ++ assembled false later) := by
        rw [if_neg ends] at ahead
        cases fresh with
        | true => exact ⟨gap, isGap, rfl, ahead⟩
        | false =>
          refine ⟨gap ++ [' '], isGap.append blank, ?_, by simpa using ahead⟩
          rw [lineBreaks_append (joins_of_not_mem noReturn)]
          rfl
      obtain ⟨behind, rest, sameLine, tokens⟩ :=
        drain_spelling first isGap' (boundary_assembled later) text
      have line' : behind.line + lineBreaks [] = 1 + (before ++ [kind]).count (.char ';') := by
        rw [sameLine, sameLines, line, List.count_append, List.count_singleton,
          beq_eq_false_iff_ne.mpr ends]
        rfl
      obtain ⟨last, others⟩ := ih others .nil (by simp) rest line'
      refine ⟨last, ?_⟩
      rw [tokens, others, sameLines, line, if_neg ends, List.append_assoc]

/-- The line endings in inline assembly. -/
theorem count_assembled {body : List Kind} (writable : ∀ kind ∈ body, kind.Writable)
    (fresh : Bool) :
    (assembled fresh body).count '\n' = body.count (.char ';') +
      if body.getLast?.elim (!fresh) (· != .char ';') then 1 else 0 := by
  induction body generalizing fresh with
  | nil => cases fresh <;> simp [assembled]
  | cons kind later ih =>
    obtain ⟨first, others⟩ := List.forall_mem_cons.mp writable
    rw [assembled, List.getLast?_cons]
    by_cases ends : kind = .char ';'
    · subst ends
      rw [if_pos rfl, List.count_cons_self, List.count_cons_self, ih others]
      cases later.getLast? with
      | none => simp
      | some last =>
        simp
        omega
    · have blank : (if fresh then [] else [' ']).count '\n' = 0 := by cases fresh <;> rfl
      rw [if_neg ends, List.count_append, List.count_append, blank, first.count_newline, ih others,
        List.count_cons_of_ne ends]
      cases later.getLast? <;> simp [ends]

/-- Scanning the text of inline assembly gives its tokens again, on the lines they were put on. -/
theorem Parsing.tokenize_asmText {body : List Kind} (writable : ∀ kind ∈ body, kind.Writable) :
    ∃ last, tokenize (asmText [] body) = rescan [] body ++ [⟨.endOfText, last⟩] := by
  have ahead : (Scanner.ofString (asmText [] body)).rest = [] ++ assembled true body :=
    toList_asmText [] body
  exact Scanner.drain_assembled writable .nil List.not_mem_nil ahead rfl

/-- The text has one line for each semicolon, and one more if something stands behind the last. -/
theorem Parsing.count_asmText {body : List Kind} (writable : ∀ kind ∈ body, kind.Writable) :
    (asmText [] body).toList.count '\n' = body.count (.char ';') +
      if body.getLast?.any (· != .char ';') then 1 else 0 := by
  have text : (asmText [] body).toList = assembled true body := toList_asmText [] body
  rw [text, count_assembled writable]
  cases body.getLast? <;> rfl

/-- A statement of inline assembly, wherever it stands in a text, scanned again. The tokens between
`begin` and `end` come back without the semicolons, each on its line; a negative integer comes back
as a sign and an amount. There is a line ending for every semicolon, and one more if the last token
is none. -/
theorem Parsing.rescan_of_statement {source text : String} {p q : Parser} {n : Nat}
    {info : StmtInfo} (ahead : p.pending <:+ tokenize source)
    (read : Parsing.statement n p = .ok (some (.asm info text)) q) :
    ∃ (asm_ begin_ end_ : Token) (body : List Token),
      p.pending = asm_ :: begin_ :: (body ++ end_ :: q.pending) ∧
      asm_.kind = .keyword .asmKw ∧ begin_.kind = .keyword .beginKw ∧
      end_.kind = .keyword .endKw ∧ (∀ t ∈ body, t.kind ≠ .keyword .endKw) ∧
      (∃ last, tokenize text = rescan [] (kinds body) ++ [⟨.endOfText, last⟩]) ∧
      text.toList.count '\n' = (kinds body).count (.char ';') +
        if (kinds body).getLast?.any (· != .char ';') then 1 else 0 := by
  have sound := Grammar.statement_sound n p trivial
  rw [Runs, Grammar.Phrase.read, read] at sound
  have derives : Grammar.Derives .statement p.pending (some (.asm info text)) q.pending := sound.2
  generalize p.pending = input at derives ahead ⊢
  generalize q.pending = rest at derives ⊢
  cases derives with
  | @asm asm_ begin_ end_ body _ isAsm isBegin inside isEnd =>
    have writable : ∀ kind ∈ kinds body, kind.Writable := by
      intro kind mem
      obtain ⟨t, inBody, rfl⟩ := List.mem_map.mp mem
      have inSource : t ∈ tokenize source := ahead.mem (by simp [inBody])
      exact writable_of_mem_tokenize inSource (inside t inBody).1
    exact ⟨asm_, begin_, end_, body, rfl, isAsm, isBegin, isEnd, fun t mem => (inside t mem).2,
      tokenize_asmText writable, count_asmText writable⟩

instance Parsing.decidableEqResult {α : Type} [DecidableEq α] :
    DecidableEq (EStateM.Result Failure Parser α)
  | .ok a p, .ok b q => decidable_of_iff (a = b ∧ p = q) (by simp)
  | .error f p, .error g q => decidable_of_iff (f = g ∧ p = q) (by simp)
  | .ok _ _, .error _ _ => isFalse (by simp)
  | .error _ _, .ok _ _ => isFalse (by simp)

/-- Of `; mov $ffffffff , $80000000 ; ; x`, on the first line of the text. -/
theorem Parsing.rescan_of_statement_signed :
    let source := "begin asm begin ; mov $ffffffff , $80000000 ; ; x end end."
    let p := (Parser.ofString source).advance
    let q := Nat.iterate Parser.advance 11 p
    let text := "\nmov -1 , -2147483648\n\nx\n"
    p.pending <:+ tokenize source ∧
      Parsing.statement p.fuel p = .ok (some (.asm { line := 1 } text)) q ∧
      ∃ (asm_ begin_ end_ : Token) (body : List Token),
        p.pending = asm_ :: begin_ :: (body ++ end_ :: q.pending) ∧
        (∃ last, tokenize text = rescan [] (kinds body) ++ [⟨.endOfText, last⟩]) ∧
        text.toList.count '\n' = (kinds body).count (.char ';') +
          if (kinds body).getLast?.any (· != .char ';') then 1 else 0 := by
  intro source p q text
  have ahead : p.pending <:+ tokenize source := by decide +kernel
  have read : Parsing.statement p.fuel p = .ok (some (.asm { line := 1 } text)) q := by
    decide +kernel
  obtain ⟨asm_, begin_, end_, body, spelled, -, -, -, -, scanned, lines⟩ :=
    rescan_of_statement ahead read
  exact ⟨ahead, read, asm_, begin_, end_, body, spelled, scanned, lines⟩

end PlZero
