import PlZero.Proofs.Token.Written
import PlZero.Text.Quoted

/-!
Quoted texts read back.

`readQuoted` reads a text from behind its opening quote up to the first quote that no backslash
escapes. What stands between the quotes of `quoted` is read back as the text it was made from
(`readQuoted_escape`), so no two texts are quoted alike. It is on one line: nothing in it is a
control character or ends a line (`staysInLine_of_mem_escape`), and a quote in it is always escaped
(`isEscaped_of_escape_eq`).
-/

namespace PlZero.Text

/-! ### Reading -/

/-- The character that an escape of one letter stands for. -/
def unescapeChar? : Char → Option Char
  | 't' => some '\t'
  | 'r' => some '\r'
  | 'n' => some '\n'
  | '0' => some '\x00'
  | '\\' => some '\\'
  | '"' => some '"'
  | _ => none

/-- A text that was read, and what stands behind it, with one more character at the front. -/
def readMore (c : Char) (read : Option (List Char × List Char)) : Option (List Char × List Char) :=
  read.map fun found => (c :: found.1, found.2)

mutual

/-- Reads a quoted text from behind its opening quote: the text, and what stands behind the closing
quote. -/
def readQuoted : List Char → Option (List Char × List Char)
  | [] => none
  | '"' :: rest => some ([], rest)
  | '\\' :: 'u' :: '\x7b' :: digit :: rest =>
    match digitValue? 16 digit with
    | some value => readCode value rest
    | none => none
  | '\\' :: c :: rest =>
    match unescapeChar? c with
    | some d => readMore d (readQuoted rest)
    | none => none
  | c :: rest => if c = '\\' then none else readMore c (readQuoted rest)

/-- Reads on inside a code point of which the digits so far have the given value. -/
def readCode (value : Nat) : List Char → Option (List Char × List Char)
  | [] => none
  | '\x7d' :: rest =>
    if value.isValidChar then readMore (Char.ofNat value) (readQuoted rest) else none
  | digit :: rest =>
    match digitValue? 16 digit with
    | some d => readCode (16 * value + d) rest
    | none => none

end

theorem readCode_cons {digit : Char} {d : Nat} (isDigit : digitValue? 16 digit = some d)
    (value : Nat) (rest : List Char) :
    readCode value (digit :: rest) = readCode (16 * value + d) rest := by
  rw [readCode, isDigit]
  rintro rfl
  have noDigit : digitValue? 16 '\x7d' = none := by decide
  rw [noDigit] at isDigit
  cases isDigit

/-- Reading the digits of a character's number gives its number. -/
theorem readCode_digits {digits : List Char} {value n : Nat} (rest : List Char)
    (spelled : digits.foldlM (fun n c => (digitValue? 16 c).map (16 * n + ·)) value = some n) :
    readCode value (digits ++ '\x7d' :: rest) = readCode n ('\x7d' :: rest) := by
  induction digits generalizing value with
  | nil =>
    cases spelled
    rfl
  | cons c digits ih =>
    rw [List.foldlM_cons, Option.bind_eq_bind, Option.bind_eq_some_iff] at spelled
    obtain ⟨next, first, others⟩ := spelled
    obtain ⟨d, isDigit, rfl⟩ := Option.map_eq_some_iff.mp first
    rw [List.cons_append, readCode_cons isDigit, ih others]

/-! ### Writing -/

/-- The ways to write a character between double quotes. -/
inductive EscapedAs (c : Char) : List Char → Prop where
  | letter {d : Char} : unescapeChar? d = some c → EscapedAs c ['\\', d]
  | code : EscapedAs c ('\\' :: 'u' :: '\x7b' :: (Nat.toDigits 16 c.toNat ++ ['\x7d']))
  | plain : c ≠ '\\' → c ≠ '"' → isHidden c = false → EscapedAs c [c]

/-- A character is written with a letter or its number behind a backslash, or as it is. -/
theorem escapedAs_escapeChar (c : Char) : EscapedAs c (escapeChar '"' c) := by
  unfold escapeChar
  split
  · exact .letter rfl
  · exact .letter rfl
  · exact .letter rfl
  · exact .letter rfl
  · exact .letter rfl
  · next notBackslash =>
    split_ifs with isQuote hidden
    · rw [isQuote]
      exact .letter rfl
    · exact .code
    · exact .plain notBackslash isQuote (by simpa using hidden)

variable {c : Char} {written : List Char}

/-- However a character is written, it is read back. -/
theorem EscapedAs.readQuoted_append (escaped : EscapedAs c written) (rest : List Char) :
    readQuoted (written ++ rest) = readMore c (readQuoted rest) := by
  cases escaped with
  | @letter d isLetter =>
    rw [List.cons_append, List.singleton_append, readQuoted, isLetter]
    rintro _ _ rfl
    cases isLetter
  | code =>
    have spelled : readDigits? 16 (Nat.toDigits 16 c.toNat) = some c.toNat :=
      readDigits?_toDigits (by decide) (by decide) c.toNat
    rw [readDigits?, if_neg (by simp)] at spelled
    cases digits : Nat.toDigits 16 c.toNat with
    | nil => exact absurd digits Nat.toDigits_ne_nil
    | cons first others =>
      rw [digits, List.foldlM_cons, Option.bind_eq_bind, Option.bind_eq_some_iff] at spelled
      obtain ⟨_, next, later⟩ := spelled
      obtain ⟨value, isDigit, rfl⟩ := Option.map_eq_some_iff.mp next
      rw [Nat.mul_zero, Nat.zero_add] at later
      have valid : c.toNat.isValidChar := c.valid
      simp only [List.cons_append, List.nil_append, List.append_assoc, readQuoted, isDigit,
        readCode_digits rest later, readCode, if_pos valid, Char.ofNat_toNat]
  | plain notBackslash notQuote _ =>
    rw [List.singleton_append, readQuoted, if_neg notBackslash]
    · exact notQuote
    · rintro _ _ rfl
      exact absurd rfl notBackslash
    · rintro _ _ rfl
      exact absurd rfl notBackslash

/-- What was written for a text is read back as that text, up to the quote behind it. -/
theorem readQuoted_escape (text rest : List Char) :
    readQuoted (escape '"' text ++ '"' :: rest) = some (text, rest) := by
  induction text with
  | nil => rfl
  | cons c text ih =>
    rw [escape, List.flatMap_cons, ← escape, List.append_assoc,
      (escapedAs_escapeChar c).readQuoted_append, ih]
    rfl

/-- No two texts are escaped in the same way, since each can be read back. -/
theorem escape_injective : Function.Injective (escape '"') := by
  intro text other same
  have read := readQuoted_escape text []
  rw [same, readQuoted_escape other []] at read
  exact (Prod.mk.inj (Option.some.inj read)).1.symm

/-! ### Quotes -/

/-- Is a character that stands behind these escaped? A backslash escapes the character behind it,
unless it is escaped itself. -/
def isEscaped (before : List Char) : Bool :=
  before.foldl (fun escaped c => !escaped && c == '\\') false

/-- Behind text that ends with no open escape, escapes count from the start. -/
theorem isEscaped_append {first : List Char} (closed : isEscaped first = false)
    (second : List Char) : isEscaped (first ++ second) = isEscaped second := by
  unfold isEscaped at closed ⊢
  rw [List.foldl_append, closed]

/-- Without a backslash nothing is escaped. -/
theorem isEscaped_of_not_mem {before : List Char} (none : '\\' ∉ before) :
    isEscaped before = false := by
  induction before with
  | nil => rfl
  | cons c before ih =>
    obtain ⟨other, later⟩ := List.ne_and_not_mem_of_not_mem_cons none
    have first : isEscaped [c] = false := by simp [isEscaped, other.symm]
    rw [← List.singleton_append, isEscaped_append first, ih later]

/-- Hexadecimal digits are no signs. -/
theorem not_mem_toDigits {sign : Char} (isSign : sign.isAlphanum = false) (n : Nat) :
    sign ∉ Nat.toDigits 16 n := by
  intro mem
  rw [isAlphanum_of_mem_toDigits (by decide) (by decide) sign mem] at isSign
  cases isSign

/-- What is written for a character leaves no backslash over. -/
theorem EscapedAs.isEscaped_eq (escaped : EscapedAs c written) : isEscaped written = false := by
  cases escaped with
  | letter => rfl
  | code =>
    have front : isEscaped ['\\', 'u'] = false := by decide
    refine (isEscaped_append front _).trans (isEscaped_of_not_mem ?_)
    simp [not_mem_toDigits]
  | plain notBackslash _ _ => exact isEscaped_of_not_mem (by simpa using notBackslash.symm)

/-- A quote in what is written for a character is escaped. -/
theorem EscapedAs.isEscaped_before (escaped : EscapedAs c written) {before after : List Char}
    (quote : written = before ++ '"' :: after) : isEscaped before = true := by
  have mem : '"' ∈ written := by simp [quote]
  cases escaped with
  | letter =>
    rcases before with _ | ⟨b, _ | ⟨b', before⟩⟩
    · cases quote
    · cases quote
      rfl
    · simp at quote
  | code => simp [not_mem_toDigits] at mem
  | plain _ notQuote _ => exact absurd (List.mem_singleton.mp mem).symm notQuote

/-- A quote in what is written for a text is escaped. -/
theorem isEscaped_of_escape_eq {text before after : List Char}
    (quote : escape '"' text = before ++ '"' :: after) : isEscaped before = true := by
  induction text generalizing before with
  | nil => simp [escape] at quote
  | cons c text ih =>
    have escaped := escapedAs_escapeChar c
    rw [escape, List.flatMap_cons, ← escape] at quote
    rcases List.append_eq_append_iff.mp quote with ⟨middle, rfl, later⟩ | ⟨middle, first, later⟩
    · rw [isEscaped_append escaped.isEscaped_eq]
      exact ih later
    · cases middle with
      | nil =>
        -- the quote would be the first character of what follows, where nothing is escaped
        have front : isEscaped [] = true := ih later.symm
        cases front
      | cons d middle =>
        rw [List.cons_append, List.cons.injEq] at later
        rw [← later.1] at first
        exact escaped.isEscaped_before first

/-! ### Lines -/

def isControl (c : Char) : Bool := c.toNat < 0x20 || 0x7F ≤ c.toNat && c.toNat < 0xA0

/-- The characters that end a line by any convention: line feed, vertical tab, form feed, carriage
return, next line, and the separators of lines and of paragraphs. -/
def lineEnds : List Char := ['\n', '\x0B', '\x0C', '\r', '\x85', '\u2028', '\u2029']

/-- `c` is no control character and does not end a line. -/
structure StaysInLine (c : Char) : Prop where
  notControl : isControl c = false
  notLineEnd : c ∉ lineEnds

/-- Characters in the listed ranges are hidden. -/
theorem isHidden_of_mem_range {low high : Nat} (range : (low, high) ∈ unprintableRanges)
    (above : low ≤ c.toNat) (below : c.toNat ≤ high) : isHidden c = true := by
  have unprintable : isUnprintable c = true :=
    List.any_eq_true.mpr ⟨_, range, by simp [above, below]⟩
  simp [isHidden, unprintable]

/-- Characters that end a line are hidden. -/
theorem staysInLine_of_not_isHidden (shown : isHidden c = false) : StaysInLine c := by
  have outside {low high : Nat} (range : (low, high) ∈ unprintableRanges) :
      ¬ (low ≤ c.toNat ∧ c.toNat ≤ high) := by
    rintro ⟨above, below⟩
    rw [isHidden_of_mem_range range above below] at shown
    cases shown
  constructor
  · have low := @outside 0 0x1F (by decide +kernel)
    have high := @outside 0x7F 0xA0 (by decide +kernel)
    simp only [isControl, Bool.or_eq_false_iff, Bool.and_eq_false_iff, decide_eq_false_iff_not]
    omega
  · intro ends
    have each : lineEnds.all isHidden = true := by decide +kernel
    rw [List.all_eq_true.mp each c ends] at shown
    cases shown

/-- The characters of ASCII from the space on can be seen. -/
theorem staysInLine_of_ascii (above : ' ' ≤ c) (below : c ≤ '~') : StaysInLine c := by
  have low : 0x20 ≤ c.toNat := above
  have high : c.toNat ≤ 0x7E := below
  constructor
  · simp only [isControl, Bool.or_eq_false_iff, Bool.and_eq_false_iff, decide_eq_false_iff_not]
    omega
  · have beyond : (lineEnds.all fun d => d.toNat < 0x20 || 0x7E < d.toNat) = true := by decide
    intro ends
    have apart := List.all_eq_true.mp beyond c ends
    simp only [Bool.or_eq_true, decide_eq_true_eq] at apart
    omega

theorem staysInLine_of_isAlphanum (word : c.isAlphanum = true) : StaysInLine c := by
  have bounds : ' ' ≤ c ∧ c ≤ '~' := by
    grind [Char.isAlphanum, isAlpha_iff, isLower_iff, isUpper_iff, Char.isDigit, Char.le_def]
  exact staysInLine_of_ascii bounds.1 bounds.2

/-- What is written for a character is visible ASCII, or the character itself where it can be
seen. -/
theorem EscapedAs.staysInLine (escaped : EscapedAs c written) : ∀ d ∈ written, StaysInLine d := by
  cases escaped with
  | @letter d isLetter =>
    have visible : ' ' ≤ d ∧ d ≤ '~' := by
      unfold unescapeChar? at isLetter
      split at isLetter
      case h_7 => cases isLetter
      all_goals decide
    refine List.forall_mem_cons.mpr ⟨?_, List.forall_mem_singleton.mpr ?_⟩
    · exact staysInLine_of_ascii (by decide) (by decide)
    · exact staysInLine_of_ascii visible.1 visible.2
  | code =>
    intro e mem
    simp only [List.mem_cons, List.mem_append, List.not_mem_nil, or_false] at mem
    rcases mem with rfl | rfl | rfl | digit | rfl
    case inr.inr.inr.inl =>
      exact staysInLine_of_isAlphanum (isAlphanum_of_mem_toDigits (by decide) (by decide) e digit)
    all_goals exact staysInLine_of_ascii (by decide) (by decide)
  | plain _ _ visible => exact List.forall_mem_singleton.mpr (staysInLine_of_not_isHidden visible)

/-- What is written for a text stays on one line. -/
theorem staysInLine_of_mem_escape {text : List Char} : ∀ d ∈ escape '"' text, StaysInLine d := by
  intro d mem
  obtain ⟨c, -, inside⟩ := List.mem_flatMap.mp mem
  exact (escapedAs_escapeChar c).staysInLine d inside

end PlZero.Text
