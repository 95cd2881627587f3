import PlZero.Token.Scanner
import Mathlib.Data.List.TakeWhile

/-!
Lexemes, one at a time.

A lexeme ends where a character follows that cannot continue it. So before a text that starts with
neither a letter, nor a digit, nor an operator character (`Boundary`) it is cut off whole, and the
token it spells does not depend on that text. The names among the tokens are the lower-case
identifiers that are no keywords, whatever the case of the letters in the source.

Main statements: `readLexeme_word`, `readLexeme_decimal`, `readLexeme_hexadecimal`,
`readLexeme_operator`, and `isIdentifier_of_mem_tokenize`.
-/

namespace PlZero

/-! ### Letters -/

section Letters

variable {c : Char}

theorem isUpper_iff : c.isUpper = true ↔ 'A'.val ≤ c.val ∧ c.val ≤ 'Z'.val :=
  decide_eq_true_iff

theorem isLower_iff : c.isLower = true ↔ 'a'.val ≤ c.val ∧ c.val ≤ 'z'.val :=
  (Bool.and_eq_true_iff).trans (and_congr decide_eq_true_iff decide_eq_true_iff)

theorem isAlpha_iff : c.isAlpha = true ↔ c.isUpper = true ∨ c.isLower = true :=
  Bool.or_eq_true_iff

theorem toLower_of_isUpper (upper : c.isUpper = true) :
    c.toLower.val = c.val + ('a'.val - 'A'.val) :=
  congrArg Char.val (dif_pos (isUpper_iff.mp upper))

theorem toLower_of_not_isUpper (notUpper : ¬ c.isUpper = true) : c.toLower = c :=
  dif_neg fun upper => notUpper (isUpper_iff.mpr upper)

end Letters

/-! ### Runs of characters -/

/-- A run of characters ends where other characters begin. -/
theorem takeWhile_append_eq {p : Char → Bool} {run rest : List Char}
    (inside : ∀ c ∈ run, p c = true) (behind : ∀ c ∈ rest.head?, p c = false) :
    (run ++ rest).takeWhile p = run := by
  have stops : rest.takeWhile p = [] := by
    cases rest with
    | nil => rfl
    | cons c rest => simp [behind c rfl]
  rw [List.takeWhile_append_of_pos inside, stops, List.append_nil]

/-- Behind a run of characters stands what follows it. -/
theorem dropWhile_append_eq {p : Char → Bool} {run rest : List Char}
    (inside : ∀ c ∈ run, p c = true) (behind : ∀ c ∈ rest.head?, p c = false) :
    (run ++ rest).dropWhile p = rest := by
  rw [List.dropWhile_append_of_pos inside]
  cases rest with
  | nil => rfl
  | cons c rest => simp [behind c rfl]

/-- The text does not start with a character that could belong to the word, number or operator
before it. -/
def Boundary (rest : List Char) : Prop :=
  ∀ c ∈ rest.head?, c.isAlphanum = false ∧ isOperatorChar c = false

theorem boundary_nil : Boundary [] := nofun

section Cut

variable {c : Char} {run rest : List Char}

/-- A word reaches to the first character that is neither a letter nor a digit. -/
theorem readLexeme_word (letter : c.isAlpha = true) (inside : ∀ d ∈ run, d.isAlphanum = true)
    (boundary : Boundary rest) : readLexeme c (run ++ rest) = (wordKind (c :: run), rest) := by
  have behind : ∀ d ∈ rest.head?, d.isAlphanum = false := fun d mem => (boundary d mem).1
  rw [readLexeme, if_pos letter, takeWhile_append_eq inside behind,
    dropWhile_append_eq inside behind]

/-- A digit is no letter. -/
theorem isAlpha_of_isDigit (digit : c.isDigit = true) : c.isAlpha = false := by
  grind [isAlpha_iff, isLower_iff, isUpper_iff, Char.isDigit]

/-- A decimal number takes letters too, and is then faulty. -/
theorem readLexeme_decimal (digit : c.isDigit = true) (inside : ∀ d ∈ run, d.isAlphanum = true)
    (boundary : Boundary rest) :
    readLexeme c (run ++ rest) = (numberKind (readDecimal? (c :: run)), rest) := by
  have behind : ∀ d ∈ rest.head?, d.isAlphanum = false := fun d mem => (boundary d mem).1
  have noLetter : ¬ c.isAlpha = true := by simp [isAlpha_of_isDigit digit]
  rw [readLexeme, if_neg noLetter, if_pos digit, takeWhile_append_eq inside behind,
    dropWhile_append_eq inside behind]

/-- A hexadecimal number is read behind a dollar sign. -/
theorem readLexeme_hexadecimal (inside : ∀ d ∈ run, d.isAlphanum = true)
    (boundary : Boundary rest) :
    readLexeme '$' (run ++ rest) = (numberKind (readHexadecimal? run), rest) := by
  have behind : ∀ d ∈ rest.head?, d.isAlphanum = false := fun d mem => (boundary d mem).1
  rw [readLexeme, if_neg (by decide), if_neg (by decide), if_pos rfl,
    takeWhile_append_eq inside behind, dropWhile_append_eq inside behind]

/-- An operator character is no letter, no digit and no dollar sign. -/
theorem plain_of_isOperatorChar (sign : isOperatorChar c = true) :
    c.isAlpha = false ∧ c.isDigit = false ∧ c ≠ '$' := by
  have each : ("+-*/<=>:".toList.all fun c => !c.isAlpha && !c.isDigit && c != '$') = true := by
    decide
  have plain := List.all_eq_true.mp each c (by simpa [isOperatorChar] using sign)
  simpa [and_assoc] using plain

/-- An operator takes all the operator characters there are. -/
theorem readLexeme_operator (sign : isOperatorChar c = true)
    (inside : ∀ d ∈ run, isOperatorChar d = true) (boundary : Boundary rest) :
    readLexeme c (run ++ rest) = (operatorKind (c :: run), rest) := by
  have behind : ∀ d ∈ rest.head?, isOperatorChar d = false := fun d mem => (boundary d mem).2
  obtain ⟨noLetter, noDigit, noDollar⟩ := plain_of_isOperatorChar sign
  rw [readLexeme, if_neg (by simp [noLetter]), if_neg (by simp [noDigit]), if_neg noDollar,
    if_pos sign, takeWhile_append_eq inside behind, dropWhile_append_eq inside behind]

end Cut

/-! ### Identifiers -/

/-- A name as the tokens carry it: a lower-case letter, then lower-case letters and digits, and no
keyword. -/
structure IsIdentifier (name : String) : Prop where
  starts : name.toList.head?.any Char.isLower = true
  lowerCase : name.toList.all (fun c => c.isLower || c.isDigit) = true
  notKeyword : ∀ word : Keyword, word.spelling ≠ name

theorem Keyword.mem_all (word : Keyword) : word ∈ all := by
  cases word <;> decide

/-- A word is a name if it spells no keyword. -/
theorem Keyword.ofSpelling?_eq_none_iff {name : String} :
    ofSpelling? name = none ↔ ∀ word : Keyword, word.spelling ≠ name := by
  simp [ofSpelling?, mem_all]

theorem isAlphanum_of_lowerCase {c : Char} (lower : (c.isLower || c.isDigit) = true) :
    c.isAlphanum = true := by
  grind [Char.isAlphanum, isAlpha_iff]

/-- Letters in lower case and digits are left alone by a change to lower case. -/
theorem toLower_eq_self {c : Char} (lower : (c.isLower || c.isDigit) = true) : c.toLower = c := by
  apply toLower_of_not_isUpper
  intro upper
  obtain ⟨low, high⟩ := isUpper_iff.mp upper
  simp only [Bool.or_eq_true, isLower_iff, Char.isDigit, Bool.and_eq_true, decide_eq_true_eq]
    at lower
  rcases lower with ⟨h, _⟩ | ⟨_, h⟩
  · exact absurd (UInt32.le_trans h high) (by decide)
  · exact absurd (UInt32.le_trans low h) (by decide)

/-- A letter in lower case is a lower-case letter. -/
theorem isLower_toLower_of_isAlpha {c : Char} (letter : c.isAlpha = true) :
    c.toLower.isLower = true := by
  by_cases upper : c.isUpper = true
  · have range := isUpper_iff.mp upper
    rw [isLower_iff, toLower_of_isUpper upper]
    grind
  · rw [toLower_of_not_isUpper upper]
    exact (isAlpha_iff.mp letter).resolve_left upper

/-- A letter or digit in lower case is a lower-case letter or a digit. -/
theorem isLower_toLower {c : Char} (word : c.isAlphanum = true) :
    (c.toLower.isLower || c.toLower.isDigit) = true := by
  rcases Bool.or_eq_true_iff.mp word with letter | digit
  · rw [isLower_toLower_of_isAlpha letter, Bool.true_or]
  · have stays : c.toLower = c := toLower_eq_self (by rw [digit, Bool.or_true])
    rw [stays, digit, Bool.or_true]

/-- An identifier is scanned as the name it is. -/
theorem IsIdentifier.wordKind_eq {name : String} (identifier : IsIdentifier name) :
    wordKind name.toList = .name name := by
  have same : name.toList.map Char.toLower = name.toList := by
    refine (List.map_congr_left fun c mem => ?_).trans (List.map_id _)
    exact toLower_eq_self (List.all_eq_true.mp identifier.lowerCase c mem)
  have noKeyword := Keyword.ofSpelling?_eq_none_iff.mpr identifier.notKeyword
  simp only [wordKind, same, String.ofList_toList, noKeyword]

theorem isIdentifier_of_wordKind {c : Char} {run : List Char} {name : String}
    (letter : c.isAlpha = true) (inside : ∀ d ∈ run, d.isAlphanum = true)
    (isName : wordKind (c :: run) = .name name) : IsIdentifier name := by
  unfold wordKind at isName
  dsimp only at isName
  split at isName
  · cases isName
  · next noKeyword =>
    cases isName
    refine ⟨?_, List.all_eq_true.mpr fun d mem => ?_, Keyword.ofSpelling?_eq_none_iff.mp noKeyword⟩
    · simp [isLower_toLower_of_isAlpha letter]
    · rw [String.toList_ofList] at mem
      obtain ⟨d, among, rfl⟩ := List.mem_map.mp mem
      refine isLower_toLower ?_
      rcases List.mem_cons.mp among with rfl | among
      · rw [Char.isAlphanum, letter, Bool.true_or]
      · exact inside d among

/-- Names come from words only. -/
theorem isIdentifier_of_readLexeme {c : Char} {rest : List Char} {name : String}
    (isName : (readLexeme c rest).1 = .name name) : IsIdentifier name := by
  unfold readLexeme at isName
  split at isName
  · next letter =>
    exact isIdentifier_of_wordKind letter (fun d mem => List.mem_takeWhile_imp mem) isName
  · -- no other lexeme is a name
    unfold numberKind operatorKind at isName
    grind

/-! ### All tokens of a text -/

/-- What holds of the end and of every lexeme's token holds of every token of a text. -/
theorem forall_mem_tokenize {property : Token.Kind → Prop} (atEnd : property .endOfText)
    (ofLexeme : ∀ c rest, property (readLexeme c rest).1) (source : String) :
    ∀ t ∈ tokenize source, property t.kind := by
  have ofNext (s : Scanner) : property s.next.1.kind := by
    unfold Scanner.next
    split
    · exact atEnd
    · exact ofLexeme _ _
  have inDrain (s : Scanner) : ∀ t ∈ s.drain.1, property t.kind := by
    fun_induction Scanner.drain s with
    | case1 s step last => exact List.forall_mem_singleton.mpr (ofNext s)
    | case2 s step more later ih => exact List.forall_mem_cons.mpr ⟨ofNext s, ih⟩
  exact inDrain _

/-- Names among the tokens of a text are identifiers, in lower case. -/
theorem isIdentifier_of_mem_tokenize {source name : String} {t : Token} (mem : t ∈ tokenize source)
    (isName : t.kind = .name name) : IsIdentifier name := by
  have named : ∀ t ∈ tokenize source, t.kind = .name name → IsIdentifier name :=
    @forall_mem_tokenize (· = .name name → IsIdentifier name) nofun
      (fun _ _ => isIdentifier_of_readLexeme) source
  exact named t mem isName

end PlZero
