import PlZero.Proofs.Token.Lexemes

/-!
Tokens written back.

`Token.Kind.text` writes a token so that scanning gives it again. Names, keywords and operators are
written as they are spelled and integers in decimal; a negative integer, which has no decimal
literal, is written as the hexadecimal pattern of its 32 bits. A space between two tokens keeps them
apart.

Main statement: `tokenize_written`.
-/

namespace PlZero

open Text Token

/-! ### Numerals -/

theorem digitValue?_digitChar {base d : Nat} (bound : base ≤ 16) (digit : d < base) :
    digitValue? base (Nat.digitChar d) = some d := by
  have table : ∀ base ≤ 16, ∀ d < base, digitValue? base (Nat.digitChar d) = some d := by decide
  exact table base bound d digit

section Digits

variable {base : Nat} (large : 1 < base) (bound : base ≤ 16)
include large bound

/-- The digits of a number spell it. -/
theorem readDigits?_toDigits (n : Nat) : readDigits? base (Nat.toDigits base n) = some n := by
  rw [readDigits?, if_neg (by simp)]
  induction n using Nat.strongRecOn with
  | ind n ih =>
    rcases Nat.lt_or_ge n base with digit | longer
    · rw [Nat.toDigits_of_lt_base digit]
      simp [digitValue?_digitChar bound digit]
    · have last : n % base < base := Nat.mod_lt _ (by omega)
      have shorter : n / base < n := Nat.div_lt_self (by omega) large
      rw [Nat.toDigits_of_base_le large longer, List.foldlM_append, ih _ shorter]
      simp [digitValue?_digitChar bound last, Nat.div_add_mod]

theorem isAlphanum_of_mem_toDigits {n : Nat} :
    ∀ c ∈ Nat.toDigits base n, c.isAlphanum = true := by
  have digits : ∀ d < 16, (Nat.digitChar d).isAlphanum = true := by decide
  induction n using Nat.strongRecOn with
  | ind n ih =>
    rcases Nat.lt_or_ge n base with digit | longer
    · rw [Nat.toDigits_of_lt_base digit]
      exact List.forall_mem_singleton.mpr (digits n (by omega))
    · have last : n % base < base := Nat.mod_lt _ (by omega)
      rw [Nat.toDigits_of_base_le large longer, List.forall_mem_append]
      exact ⟨ih _ (Nat.div_lt_self (by omega) large),
        List.forall_mem_singleton.mpr (digits _ (by omega))⟩

end Digits

/-- A number other than zero is written without a leading zero. -/
theorem head?_toDigits_ne {base : Nat} (large : 1 < base) {n : Nat} (positive : 0 < n) :
    (Nat.toDigits base n).head? ≠ some '0' := by
  induction n using Nat.strongRecOn with
  | ind n ih =>
    rcases Nat.lt_or_ge n base with digit | longer
    · rw [Nat.toDigits_of_lt_base digit]
      simpa using Nat.ne_of_gt positive
    · have kept := ih _ (Nat.div_lt_self (by omega) large) (Nat.div_pos longer (by omega))
      rw [Nat.toDigits_of_base_le large longer]
      cases front : Nat.toDigits base (n / base) with
      | nil => exact absurd front Nat.toDigits_ne_nil
      | cons c digits =>
        rw [front] at kept
        exact kept

/-- A number that was written in decimal is read back. -/
theorem readDecimal?_toDigits {n : Nat} (bound : n ≤ 0x7FFFFFFF) :
    readDecimal? (Nat.toDigits 10 n) = some (Int32.ofNat n) := by
  have noLeadingZero : ¬ ((Nat.toDigits 10 n).length > 1 &&
      (Nat.toDigits 10 n).head? == some '0') = true := by
    rcases Nat.eq_zero_or_pos n with rfl | positive
    · simp
    · have head : (Nat.toDigits 10 n).head? ≠ some '0' :=
        head?_toDigits_ne (by decide) positive
      simp [head]
  have read : readDigits? 10 (Nat.toDigits 10 n) = some n :=
    readDigits?_toDigits (by decide) (by decide) n
  simp only [readDecimal?, if_neg noLeadingZero, read, if_pos bound]

/-- A number of 32 bits that was written in hexadecimal is read back, with its sign. -/
theorem readHexadecimal?_toDigits {n : Nat} (bound : n ≤ 0xFFFFFFFF) :
    readHexadecimal? (Nat.toDigits 16 n) = some (Int32.ofNat n) := by
  have read : readDigits? 16 (Nat.toDigits 16 n) = some n :=
    readDigits?_toDigits (by decide) (by decide) n
  simp only [readHexadecimal?, read, if_pos bound]

/-! ### The text of a token -/

/-- A token as it can be scanned again. -/
def Token.Kind.text : Kind → String
  | .integer value =>
    if value < 0 then "$" ++ String.ofList (Nat.toDigits 16 value.toUInt32.toNat)
    else toString value.toInt
  | kind => kind.spelling

/-- A character that is no separator and starts none. -/
def Solid (c : Char) : Prop := isWhiteSpace c = false ∧ c ≠ '\x7b'

instance (c : Char) : Decidable (Solid c) := inferInstanceAs (Decidable (_ ∧ _))

/-- A character that is a token by itself. -/
def StandsAlone (c : Char) : Prop :=
  Solid c ∧ c.isAlphanum = false ∧ c ≠ '$' ∧ isOperatorChar c = false

instance (c : Char) : Decidable (StandsAlone c) := inferInstanceAs (Decidable (_ ∧ _))

/-- A token that has a text: a name is an identifier, and a character stands alone. -/
def Token.Kind.Writable : Kind → Prop
  | .endOfText | .invalid _ => False
  | .name text => IsIdentifier text
  | .char c => StandsAlone c
  | .integer _ | .keyword _ | .operator _ => True

/-- The visible characters of ASCII up to `z` are solid. -/
theorem solid_of_le {c : Char} (low : '!' ≤ c) (high : c ≤ 'z') : Solid c := by
  have atLeast : 0x21 ≤ c.toNat := low
  have atMost : c.toNat ≤ 0x7A := high
  have outside : (whiteSpaceRanges.all fun range => range.2 < 0x21 || 0x7A < range.1) = true := by
    decide
  constructor
  · refine List.any_eq_false.mpr fun range mem => ?_
    have apart := List.all_eq_true.mp outside range mem
    simp only [Bool.or_eq_true, Bool.and_eq_true, decide_eq_true_eq] at apart ⊢
    omega
  · rintro rfl
    exact absurd atMost (by decide)

theorem solid_of_isAlphanum {c : Char} (word : c.isAlphanum = true) : Solid c := by
  have bounds : '!' ≤ c ∧ c ≤ 'z' := by
    grind [Char.isAlphanum, isAlpha_iff, isLower_iff, isUpper_iff, Char.isDigit, Char.le_def]
  exact solid_of_le bounds.1 bounds.2

theorem solid_of_isOperatorChar {c : Char} (sign : isOperatorChar c = true) : Solid c := by
  have each : ("+-*/<=>:".toList.all fun c => decide (Solid c)) = true := by decide
  have solid := List.all_eq_true.mp each c (by simpa [isOperatorChar] using sign)
  exact of_decide_eq_true solid

theorem skipSeparators_of_solid {c : Char} (solid : Solid c) (line : Nat) (rest : List Char) :
    skipSeparators line (c :: rest) = (line, c :: rest) := by
  obtain ⟨noSpace, noBrace⟩ := solid
  have noBreak : isLineBreak c = false := by
    rw [isLineBreak, Bool.or_eq_false_iff, beq_eq_false_iff_ne, beq_eq_false_iff_ne]
    constructor
    · rintro rfl
      exact absurd noSpace (by decide)
    · rintro rfl
      exact absurd noSpace (by decide)
  rw [skipSeparators]
  · simp [noBreak, isBlank, noSpace]
  · rintro rest' rfl
    exact absurd noBreak (by decide)
  · exact noBrace

/-- The lexeme is cut off as the token `kind` where the text behind it leaves it whole. -/
def ReadsAs (lexeme : List Char) (kind : Kind) : Prop :=
  ∃ c run, lexeme = c :: run ∧ Solid c ∧
    ∀ rest, Boundary rest → readLexeme c (run ++ rest) = (kind, rest)

/-- A word in lower case is read back. -/
theorem readsAs_word {word : String} {kind : Kind}
    (starts : word.toList.head?.any Char.isLower = true)
    (lowerCase : word.toList.all (fun c => c.isLower || c.isDigit) = true)
    (isKind : wordKind word.toList = kind) : ReadsAs word.toList kind := by
  have alphanumeric : ∀ c ∈ word.toList, c.isAlphanum = true :=
    fun c mem => isAlphanum_of_lowerCase (List.all_eq_true.mp lowerCase c mem)
  cases chars : word.toList with
  | nil => simp [chars] at starts
  | cons c run =>
    rw [chars] at starts alphanumeric isKind
    obtain ⟨first, inside⟩ := List.forall_mem_cons.mp alphanumeric
    have letter : c.isAlpha = true := isAlpha_iff.mpr (.inr starts)
    refine ⟨c, run, rfl, solid_of_isAlphanum first, fun rest boundary => ?_⟩
    rw [readLexeme_word letter inside boundary, isKind]

theorem readsAs_decimal {n : Nat} (bound : n ≤ 0x7FFFFFFF) :
    ReadsAs (Nat.toDigits 10 n) (.integer (Int32.ofNat n)) := by
  have alphanumeric : ∀ c ∈ Nat.toDigits 10 n, c.isAlphanum = true :=
    isAlphanum_of_mem_toDigits (by decide) (by decide)
  have digits : ∀ c ∈ Nat.toDigits 10 n, c.isDigit = true :=
    fun c => Nat.isDigit_of_mem_toDigits (by decide) (by decide)
  have value := readDecimal?_toDigits bound
  cases chars : Nat.toDigits 10 n with
  | nil => exact absurd chars Nat.toDigits_ne_nil
  | cons c run =>
    rw [chars] at alphanumeric digits value
    obtain ⟨first, inside⟩ := List.forall_mem_cons.mp alphanumeric
    refine ⟨c, run, rfl, solid_of_isAlphanum first, fun rest boundary => ?_⟩
    rw [readLexeme_decimal (digits c List.mem_cons_self) inside boundary, value]
    rfl

theorem readsAs_hexadecimal {n : Nat} (bound : n ≤ 0xFFFFFFFF) :
    ReadsAs ('$' :: Nat.toDigits 16 n) (.integer (Int32.ofNat n)) := by
  have inside : ∀ c ∈ Nat.toDigits 16 n, c.isAlphanum = true :=
    isAlphanum_of_mem_toDigits (by decide) (by decide)
  refine ⟨'$', _, rfl, by decide, fun rest boundary => ?_⟩
  rw [readLexeme_hexadecimal inside boundary, readHexadecimal?_toDigits bound]
  rfl

/-- An operator is read back. -/
theorem readsAs_operator (op : Operator) : ReadsAs op.spelling.toList (.operator op) := by
  have signs : op.spelling.toList.all isOperatorChar = true := by
    rcases op with ⟨⟨⟩⟩ | ⟨⟩ <;> decide
  have isKind : operatorKind op.spelling.toList = .operator op := by
    rcases op with ⟨⟨⟩⟩ | ⟨⟩ <;> decide
  cases chars : op.spelling.toList with
  | nil =>
    have none : operatorKind [] = .invalid .unknownOperator := by decide
    rw [chars, none] at isKind
    cases isKind
  | cons c run =>
    rw [chars] at signs isKind
    obtain ⟨first, inside⟩ := List.forall_mem_cons.mp (List.all_eq_true.mp signs)
    refine ⟨c, run, rfl, solid_of_isOperatorChar first, fun rest boundary => ?_⟩
    rw [readLexeme_operator first inside boundary, isKind]

/-- Every token with a text is read back from it. -/
theorem Token.Kind.Writable.readsAs {kind : Kind} (writable : kind.Writable) :
    ReadsAs kind.text.toList kind := by
  cases kind with
  | endOfText | invalid => exact writable.elim
  | name text => exact readsAs_word writable.starts writable.lowerCase writable.wordKind_eq
  | integer value =>
    by_cases negative : value < 0
    · have bound : value.toUInt32.toNat ≤ 0xFFFFFFFF := Nat.le_of_lt_succ value.toUInt32.toNat_lt
      have same : Int32.ofNat value.toUInt32.toNat = value := by
        rw [← Int32.toNat_toBitVec, Int32.ofNat_bitVecToNat, Int32.ofBitVec_toBitVec]
      have read := readsAs_hexadecimal bound
      rw [same] at read
      simpa [text, negative] using read
    · have nonneg : 0 ≤ value := Int32.not_lt.mp negative
      have bound : value.toNatClampNeg ≤ 0x7FFFFFFF := Nat.le_of_lt_succ value.toNatClampNeg_lt
      have read := readsAs_decimal bound
      rw [Int32.ofNat_toNatClampNeg value nonneg] at read
      rw [text, if_neg negative, Int32.toInt_eq_toNatClampNeg nonneg]
      change ReadsAs (toString value.toNatClampNeg).toList _
      rwa [Nat.toString_eq_ofList_toDigits, String.toList_ofList]
  | keyword word =>
    refine readsAs_word ?_ ?_ ?_ <;> cases word <;> decide
  | operator op => exact readsAs_operator op
  | char c =>
    obtain ⟨solid, noWord, noDollar, noSign⟩ := writable
    refine ⟨c, [], by simp [text, spelling, Char.toString], solid, fun rest _ => ?_⟩
    rw [Char.isAlphanum, Bool.or_eq_false_iff] at noWord
    simp [readLexeme, noWord.1, noWord.2, noDollar, noSign]

/-! ### Texts of tokens -/

/-- Tokens of the given kinds, all on the first line. -/
def placed (kinds : List Kind) : List Token := kinds.map (⟨·, 1⟩)

/-- The token texts with a space before each. -/
def spaced (kinds : List Kind) : List Char := kinds.flatMap (' ' :: ·.text.toList)

theorem boundary_spaced (kinds : List Kind) : Boundary (spaced kinds) := by
  cases kinds with
  | nil => exact boundary_nil
  | cons kind rest =>
    rintro c ⟨⟩
    decide

/-- A blank at the front of a text is of no account. -/
theorem skipSeparators_space (line : Nat) (rest : List Char) :
    skipSeparators line (' ' :: rest) = skipSeparators line rest := by
  rw [skipSeparators]
  · simp [show isLineBreak ' ' = false by decide, show isBlank ' ' = true by decide]
  · simp
  · decide

namespace Scanner

/-- The first of spaced tokens is the next one, and the others are ahead then. -/
theorem next_spaced {kind : Kind} {kinds : List Kind} (writable : kind.Writable) {s : Scanner}
    (ahead : s.rest = spaced (kind :: kinds)) :
    s.next.1 = ⟨kind, s.line⟩ ∧ s.next.2.rest = spaced kinds ∧ s.next.2.line = s.line := by
  obtain ⟨c, run, chars, solid, read⟩ := writable.readsAs
  have skipped : skipSeparators s.line s.rest = (s.line, c :: (run ++ spaced kinds)) := by
    have text : s.rest = ' ' :: c :: (run ++ spaced kinds) := by
      rw [ahead, spaced, List.flatMap_cons, chars]
      rfl
    rw [text, skipSeparators_space, skipSeparators_of_solid solid]
  simp [next, skipped, read _ (boundary_spaced kinds)]

/-- By induction on the tokens, which all stand on the first line. -/
theorem drain_spaced {kinds : List Kind} (writable : ∀ kind ∈ kinds, kind.Writable) {s : Scanner}
    (ahead : s.rest = spaced kinds) (line : s.line = 1) :
    s.drain.1 = placed kinds ++ [⟨.endOfText, 1⟩] := by
  induction kinds generalizing s with
  | nil =>
    have last : s.next.1 = ⟨.endOfText, 1⟩ := by
      simp [next, show s.rest = [] from ahead, skipSeparators, line]
    rw [drain, if_pos (by rw [last]), last]
    rfl
  | cons kind kinds ih =>
    obtain ⟨isKind, others⟩ := List.forall_mem_cons.mp writable
    obtain ⟨first, behind, sameLine⟩ := next_spaced isKind ahead
    have more : ¬ s.next.1.kind = .endOfText := by
      rw [first]
      rintro rfl
      exact isKind
    rw [drain, if_neg more, first, line]
    exact congrArg _ (ih others behind (sameLine.trans line))

/-- The tokens ahead of a scanner depend on its next step only. -/
theorem drain_eq_of_next {s t : Scanner} (same : s.next = t.next) : s.drain = t.drain := by
  rw [drain, same, ← drain]

end Scanner

/-- A space between two tokens, and one before the first. -/
theorem space_cons_intercalate (kind : Kind) (kinds : List Kind) :
    ' ' :: (" ".intercalate ((kind :: kinds).map Kind.text)).toList = spaced (kind :: kinds) := by
  induction kinds generalizing kind with
  | nil => simp [spaced]
  | cons other kinds ih =>
    rw [List.map_cons, List.map_cons, String.intercalate_cons_cons, spaced, List.flatMap_cons,
      ← spaced, ← ih]
    simp

/-- Tokens written with a space between two are scanned as themselves. -/
theorem tokenize_written {kinds : List Kind} (writable : ∀ kind ∈ kinds, kind.Writable) :
    tokenize (" ".intercalate (kinds.map Kind.text)) = placed kinds ++ [⟨.endOfText, 1⟩] := by
  have drained : ({ rest := spaced kinds } : Scanner).drain.1 = placed kinds ++ [⟨.endOfText, 1⟩] :=
    Scanner.drain_spaced writable rfl rfl
  rw [← drained, tokenize, Scanner.ofString]
  cases kinds with
  | nil => rfl
  | cons kind kinds =>
    rw [← space_cons_intercalate]
    refine congrArg Prod.fst (Scanner.drain_eq_of_next ?_)
    simp only [Scanner.next, skipSeparators_space]

end PlZero
