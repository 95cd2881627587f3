import PlZero.Pipeline
import PlZero.Proofs.Parser.Exactness
import PlZero.Proofs.Parser.Lines
import PlZero.Proofs.Token.Literals
import Mathlib.Data.List.Forall2

/-!
Letters in either case.

Letters occur in words, in numbers and in comments, and nowhere does their case matter: a scanner on
a text in lower case goes along with a scanner on the text itself, token by token
(`Scanner.next_lowerCase`). So texts that differ in the case of letters only have the same tokens.
The tokens are all that a parser goes by (`parse_congr`), the lines it blames included.

Main statement: `compile_sameButCase`.
-/

namespace PlZero

open Text

/-! ### Letters -/

section Letters

variable {c d : Char}

/-- Only letters have another case. -/
theorem toLower_of_not_isAlpha (noLetter : c.isAlpha = false) : c.toLower = c := by
  apply toLower_of_not_isUpper
  intro upper
  rw [isAlpha_iff.mpr (.inl upper)] at noLetter
  cases noLetter

/-- What is the same for all letters is the same for both cases of a character. -/
theorem apply_toLower {β : Type} {f : Char → β} {b : β}
    (letters : ∀ d : Char, d.isAlpha = true → f d = b) (c : Char) : f c.toLower = f c := by
  cases letter : c.isAlpha with
  | true =>
    have lower : c.toLower.isAlpha = true :=
      isAlpha_iff.mpr (.inr (isLower_toLower_of_isAlpha letter))
    rw [letters c letter, letters _ lower]
  | false => rw [toLower_of_not_isAlpha letter]

theorem toLower_toLower (c : Char) : c.toLower.toLower = c.toLower := by
  cases letter : c.isAlpha with
  | true => exact toLower_eq_self (by rw [isLower_toLower_of_isAlpha letter, Bool.true_or])
  | false => rw [toLower_of_not_isAlpha letter, toLower_of_not_isAlpha letter]

/-- No letter becomes another character by a change to lower case. -/
theorem toLower_eq_iff (noLetter : d.isAlpha = false) : c.toLower = d ↔ c = d := by
  have other (e : Char) (letter : e.isAlpha = true) : decide (e = d) = false := by
    refine decide_eq_false ?_
    rintro rfl
    rw [letter] at noLetter
    cases noLetter
  simpa using apply_toLower other c

theorem isAlpha_toLower (c : Char) : c.toLower.isAlpha = c.isAlpha :=
  apply_toLower (fun _ letter => letter) c

theorem isDigit_toLower (c : Char) : c.toLower.isDigit = c.isDigit := by
  refine apply_toLower (b := false) (fun d letter => ?_) c
  by_contra digit
  rw [isAlpha_of_isDigit (by simpa using digit)] at letter
  cases letter

theorem isAlphanum_toLower (c : Char) : c.toLower.isAlphanum = c.isAlphanum := by
  rw [Char.isAlphanum, Char.isAlphanum, isAlpha_toLower, isDigit_toLower]

theorem isOperatorChar_toLower (c : Char) : isOperatorChar c.toLower = isOperatorChar c := by
  refine apply_toLower (b := false) (fun d letter => ?_) c
  by_contra operator
  rw [(plain_of_isOperatorChar (by simpa using operator)).1] at letter
  cases letter

theorem isWhiteSpace_toLower (c : Char) : isWhiteSpace c.toLower = isWhiteSpace c := by
  refine apply_toLower (b := false) (fun d letter => ?_) c
  exact (solid_of_isAlphanum (by rw [Char.isAlphanum, letter, Bool.true_or])).1

theorem isLineBreak_toLower (c : Char) : isLineBreak c.toLower = isLineBreak c := by
  simp only [isLineBreak, Bool.beq_eq_decide_eq,
    toLower_eq_iff (show '\n'.isAlpha = false by decide),
    toLower_eq_iff (show '\r'.isAlpha = false by decide)]

theorem isBlank_toLower (c : Char) : isBlank c.toLower = isBlank c := by
  rw [isBlank, isBlank, isWhiteSpace_toLower, isLineBreak_toLower]

end Letters

/-! ### Lexemes -/

section Lexemes

variable {base : Nat}

/-- Digits may be written in either case. -/
theorem digitValue?_toLower (known : base ∈ [10, 16]) (c : Char) :
    digitValue? base c.toLower = digitValue? base c := by
  refine Option.ext fun value => ?_
  rw [digitValue?_eq_some_iff known, digitValue?_eq_some_iff known, IsDigitOf, IsDigitOf,
    toLower_toLower]

/-- Numbers may be written in either case. -/
theorem readDigits?_map_toLower (known : base ∈ [10, 16]) (digits : List Char) :
    readDigits? base (digits.map Char.toLower) = readDigits? base digits := by
  simp only [readDigits?, List.isEmpty_map, List.foldlM_map, digitValue?_toLower known]

theorem readDecimal?_map_toLower (digits : List Char) :
    readDecimal? (digits.map Char.toLower) = readDecimal? digits := by
  have zero : ((digits.map Char.toLower).head? == some '0') = (digits.head? == some '0') := by
    cases digits with
    | nil => rfl
    | cons c digits =>
      simp [Bool.beq_eq_decide_eq, toLower_eq_iff (show '0'.isAlpha = false by decide)]
  rw [readDecimal?, readDecimal?, List.length_map, zero, readDigits?_map_toLower (by decide)]

theorem readHexadecimal?_map_toLower (digits : List Char) :
    readHexadecimal? (digits.map Char.toLower) = readHexadecimal? digits := by
  rw [readHexadecimal?, readHexadecimal?, readDigits?_map_toLower (by decide)]

/-- Keywords and names may be written in either case. -/
theorem wordKind_map_toLower (run : List Char) :
    wordKind (run.map Char.toLower) = wordKind run := by
  have same : (run.map Char.toLower).map Char.toLower = run.map Char.toLower := by
    rw [List.map_map]
    exact List.map_congr_left fun c _ => toLower_toLower c
  rw [wordKind, wordKind, same]

/-- A run of characters other than letters is left alone by a change to lower case. -/
theorem map_toLower_eq_self {run : List Char} (noLetter : ∀ c ∈ run, c.isAlpha = false) :
    run.map Char.toLower = run := by
  refine (List.map_congr_left fun c mem => ?_).trans (List.map_id run)
  exact toLower_of_not_isAlpha (noLetter c mem)

section Runs

variable {p : Char → Bool} (either : ∀ c : Char, p c.toLower = p c) (rest : List Char)
include either

/-- A run of characters ends at the same place in lower case. -/
theorem takeWhile_map_toLower :
    (rest.map Char.toLower).takeWhile p = (rest.takeWhile p).map Char.toLower := by
  rw [List.takeWhile_map, show p ∘ Char.toLower = p from funext either]

theorem dropWhile_map_toLower :
    (rest.map Char.toLower).dropWhile p = (rest.dropWhile p).map Char.toLower := by
  rw [List.dropWhile_map, show p ∘ Char.toLower = p from funext either]

end Runs

/-- In lower case the same token is cut off. -/
theorem readLexeme_toLower (c : Char) (rest : List Char) :
    readLexeme c.toLower (rest.map Char.toLower) =
      ((readLexeme c rest).1, (readLexeme c rest).2.map Char.toLower) := by
  have dollar : c.toLower = '$' ↔ c = '$' := toLower_eq_iff (by decide)
  unfold readLexeme
  simp only [isAlpha_toLower, isDigit_toLower, isOperatorChar_toLower, dollar,
    takeWhile_map_toLower isAlphanum_toLower, dropWhile_map_toLower isAlphanum_toLower,
    takeWhile_map_toLower isOperatorChar_toLower, dropWhile_map_toLower isOperatorChar_toLower,
    ← List.map_cons]
  split_ifs with letter digit isDollar operator
  · rw [wordKind_map_toLower]
  · rw [readDecimal?_map_toLower]
  · rw [readHexadecimal?_map_toLower]
  · have signs : ∀ d ∈ c :: rest.takeWhile isOperatorChar, d.isAlpha = false := by
      intro d mem
      refine (plain_of_isOperatorChar ?_).1
      rcases List.mem_cons.mp mem with rfl | inside
      · exact operator
      · exact List.mem_takeWhile_imp inside
    rw [map_toLower_eq_self signs]
  · rw [toLower_of_not_isAlpha (by simpa using letter)]

end Lexemes

/-! ### Separators -/

section Separators

variable {c d : Char} {rest : List Char} (single : ∀ tail, c = '\r' → rest = '\n' :: tail → False)
include single

/-- One character of white space, if no comment begins here. -/
theorem skipSeparators_cons (noBrace : c ≠ '\x7b') (line : Nat) :
    skipSeparators line (c :: rest) =
      if isLineBreak c then skipSeparators (line + 1) rest
      else if isBlank c then skipSeparators line rest
      else (line, c :: rest) := by
  rw [skipSeparators]
  · exact single
  · exact noBrace

/-- One character of a comment that does not end here. -/
theorem skipComment_cons (noBrace : c ≠ '\x7d') (line : Nat) :
    skipComment line (c :: rest) = skipComment (if isLineBreak c then line + 1 else line) rest := by
  rw [skipComment]
  · exact single
  · exact noBrace

/-- In lower case there is no line break of two characters where there was none. -/
theorem not_pair_toLower :
    ∀ tail, c.toLower = '\r' → rest.map Char.toLower = '\n' :: tail → False := by
  intro tail isReturn pair
  obtain ⟨d, tail', rfl, isFeed, -⟩ := List.map_eq_cons_iff.mp pair
  obtain rfl := (toLower_eq_iff (by decide)).mp isReturn
  obtain rfl := (toLower_eq_iff (by decide)).mp isFeed
  exact single tail' rfl rfl

end Separators

/-- In lower case the same separators are dropped. -/
theorem skip_map_toLower :
    (∀ line cs, skipSeparators line (cs.map Char.toLower) =
        ((skipSeparators line cs).1, (skipSeparators line cs).2.map Char.toLower)) ∧
      ∀ line cs, skipComment line (cs.map Char.toLower) =
        ((skipComment line cs).1, (skipComment line cs).2.map Char.toLower) := by
  have other {c d : Char} (sign : d.isAlpha = false) (ne : c ≠ d) : c.toLower ≠ d :=
    fun same => ne ((toLower_eq_iff sign).mp same)
  refine skipSeparators.mutual_induct
    (fun line cs => skipSeparators line (cs.map Char.toLower) =
      ((skipSeparators line cs).1, (skipSeparators line cs).2.map Char.toLower))
    (fun line cs => skipComment line (cs.map Char.toLower) =
      ((skipComment line cs).1, (skipComment line cs).2.map Char.toLower))
    ?_ ?_ ?_ ?_ ?_ ?_ ?_ ?_ ?_ ?_
  · intro line
    rfl
  · intro line rest ih
    exact ih
  · intro line rest ih
    exact ih
  · intro line c rest single noBrace isBreak ih
    rw [List.map_cons, skipSeparators_cons (not_pair_toLower single) (other (by decide) noBrace),
      skipSeparators_cons single noBrace, isLineBreak_toLower, if_pos isBreak, if_pos isBreak, ih]
  · intro line c rest single noBrace noBreak blank ih
    rw [List.map_cons, skipSeparators_cons (not_pair_toLower single) (other (by decide) noBrace),
      skipSeparators_cons single noBrace, isLineBreak_toLower, isBlank_toLower, if_neg noBreak,
      if_neg noBreak, if_pos blank, if_pos blank, ih]
  · intro line c rest single noBrace noBreak noBlank
    rw [List.map_cons, skipSeparators_cons (not_pair_toLower single) (other (by decide) noBrace),
      skipSeparators_cons single noBrace, isLineBreak_toLower, isBlank_toLower, if_neg noBreak,
      if_neg noBreak, if_neg noBlank, if_neg noBlank, List.map_cons]
  · intro line
    rfl
  · intro line rest ih
    exact ih
  · intro line rest ih
    exact ih
  · intro line c rest single noBrace ih
    rw [List.map_cons, skipComment_cons (not_pair_toLower single) (other (by decide) noBrace),
      skipComment_cons single noBrace, isLineBreak_toLower, ih]

/-! ### Scanners -/

namespace Scanner

/-- The scanner with the text ahead in lower case. -/
def lowerCase (s : Scanner) : Scanner := { s with rest := s.rest.map Char.toLower }

/-- A scanner on the text in lower case finds the same token, on the same line and with the same
faults so far, and is again on the text in lower case. -/
theorem next_lowerCase (s : Scanner) : s.lowerCase.next = (s.next.1, s.next.2.lowerCase) := by
  have skipped : skipSeparators s.lowerCase.line s.lowerCase.rest =
      ((skipSeparators s.line s.rest).1, (skipSeparators s.line s.rest).2.map Char.toLower) :=
    skip_map_toLower.1 s.line s.rest
  rw [next, next, skipped]
  rcases skipSeparators s.line s.rest with ⟨line, _ | ⟨c, tail⟩⟩
  · rfl
  · simp only [List.map_cons, readLexeme_toLower]
    rfl

/-- At its end the whole text is used up. -/
theorem lowerCase_of_end {s : Scanner} (ended : s.next.1.kind = .endOfText) :
    s.next.2.lowerCase = s.next.2 := by
  unfold next at ended ⊢
  split at ended
  · rfl
  · exact absurd ended (readLexeme_ne_endOfText _ _)

/-- A text in lower case has the same tokens, and leaves the scanner in the same state. -/
theorem drain_lowerCase (s : Scanner) : s.lowerCase.drain = s.drain := by
  fun_induction drain s with
  | case1 s step last =>
    have ended : s.lowerCase.next.1.kind = .endOfText := by rw [next_lowerCase]; exact last
    rw [drain, if_pos ended, next_lowerCase, lowerCase_of_end last]
  | case2 s step more later ih =>
    have goesOn : ¬ s.lowerCase.next.1.kind = .endOfText := by rw [next_lowerCase]; exact more
    rw [drain, if_neg goesOn, next_lowerCase, ih]

end Scanner

/-! ### Parsers -/

/-- The failure with its line put back. -/
def Failure.onLine (line : Nat) : Failure → Failure
  | .grammar _ message => .grammar line message
  | .lexical _ message => .lexical line message
  | failure => failure

namespace Grammar

open Parsing (Runs Rejects)

/-- A failure is on the line of the token that was rejected. -/
theorem onLine_of_rejects {place q : Parser} {failure : Failure} (h : Rejects place failure q) :
    failure.unlined.onLine place.current.line = failure := by
  obtain ⟨fault, same⟩ := h
  unfold Parsing.reject at same
  split at same <;> cases same <;> rfl

/-- A text that is not accepted is the beginning of a sentence up to the token that is blamed. -/
theorem exists_misfit {source : String} {failure : Failure} (h : parse source = .error failure) :
    ∃ taken t later, tokenize source = taken ++ t :: later ∧ Begins (kinds taken) ∧
      ¬ Begins (kinds taken ++ [t.kind]) ∧ failure.unlined.onLine t.line = failure := by
  have runs := program_runs (Parser.ofString source)
  unfold Runs at runs
  unfold parse Parser.parse at h
  split at runs
  · next tree q ended =>
    rw [ended] at h
    cases h
  · next stopped q ended =>
    rw [ended] at h
    cases h
    obtain ⟨taken, place, reaches, begins, rejects⟩ := runs
    obtain ⟨later, ahead⟩ := place.pending_eq_cons
    refine ⟨taken, place.current, later, ?_, begins, ?_, onLine_of_rejects rejects⟩
    · rw [← Parser.pending_ofString, reaches.pending_eq, ahead]
    · have misfit := not_begins_of_rejects reaches rejects ended
      rwa [kinds_append] at misfit

/-- There is only one such token. -/
theorem misfit_unique {taken taken' later later' : List Token} {t t' : Token}
    (same : taken ++ t :: later = taken' ++ t' :: later') (begins : Begins (kinds taken))
    (ends : ¬ Begins (kinds taken ++ [t.kind])) (begins' : Begins (kinds taken'))
    (ends' : ¬ Begins (kinds taken' ++ [t'.kind])) : t = t' := by
  have reach (j : Nat) : j ≤ (kinds taken).length ↔ j ≤ (kinds taken').length := by
    rw [← begins_take_iff (v := kinds later) begins ends j,
      ← begins_take_iff (v := kinds later') begins' ends' j, ← kinds_cons, ← kinds_append, same,
      kinds_append, kinds_cons]
  have length : taken.length = taken'.length := by
    have le := (reach _).mp (Nat.le_refl _)
    have ge := (reach _).mpr (Nat.le_refl _)
    simp only [kinds, List.length_map] at le ge
    omega
  exact (List.cons.inj (List.append_inj same length).2).1

end Grammar

/-- A parser goes by the tokens and by nothing else. -/
theorem parse_congr {source other : String} (same : tokenize source = tokenize other) :
    parse source = parse other := by
  rcases parse_alike (congrArg (List.map (·.kind)) same) with
    ⟨tree, -, accepted, -, -⟩ | ⟨failure, failure', stopped, stopped', alike⟩
  · have derives := Grammar.derivesProgram_of_parse accepted
    rw [same] at derives
    rw [accepted, Grammar.parse_eq_ok_of_derivesProgram derives]
  · obtain ⟨taken, t, later, tokens, begins, ends, blamed⟩ := Grammar.exists_misfit stopped
    obtain ⟨taken', t', later', tokens', begins', ends', blamed'⟩ := Grammar.exists_misfit stopped'
    have whole : taken ++ t :: later = taken' ++ t' :: later' := by rw [← tokens, same, tokens']
    obtain rfl := Grammar.misfit_unique whole begins ends begins' ends'
    rw [stopped, stopped', ← blamed, ← blamed', alike]

/-! ### Texts -/

/-- The same character, or the same letter in the other case. -/
def SameLetter (c d : Char) : Prop :=
  c = d ∨ c.isAlpha = true ∧ d.isAlpha = true ∧ c.toLower = d.toLower

instance : DecidableRel SameLetter := fun _ _ => inferInstanceAs (Decidable (_ ∨ _))

/-- The texts differ in nothing but the case of letters. -/
def SameButCase (source other : String) : Prop :=
  List.Forall₂ SameLetter source.toList other.toList

instance : DecidableRel SameButCase := fun _ _ => inferInstanceAs (Decidable (List.Forall₂ _ _ _))

theorem SameLetter.toLower_eq {c d : Char} (same : SameLetter c d) : c.toLower = d.toLower := by
  rcases same with rfl | ⟨-, -, lower⟩
  · rfl
  · exact lower

theorem map_toLower_eq {first second : List Char} (same : List.Forall₂ SameLetter first second) :
    first.map Char.toLower = second.map Char.toLower := by
  induction same with
  | nil => rfl
  | cons letter _ ih => rw [List.map_cons, List.map_cons, letter.toLower_eq, ih]

/-- Texts that differ in case only become the same text in lower case. -/
theorem SameButCase.lowerCase_eq {source other : String} (same : SameButCase source other) :
    (Scanner.ofString source).lowerCase = (Scanner.ofString other).lowerCase := by
  rw [Scanner.lowerCase, Scanner.lowerCase, Scanner.ofString, Scanner.ofString, map_toLower_eq same]

/-- The case of letters makes no difference to a text: the tokens and their lines, the lexical
faults that the scanner records, the tree, the checked program and the listing are the same, or the
failure is. -/
theorem compile_sameButCase {source other : String} (same : SameButCase source other) :
    tokenize source = tokenize other ∧
      (Scanner.ofString source).drain.2.diagnostics =
        (Scanner.ofString other).drain.2.diagnostics ∧
      parse source = parse other ∧
      ∀ options, check options source = check options other ∧
        ∀ target, compile options target source = compile options target other := by
  have drained : (Scanner.ofString source).drain = (Scanner.ofString other).drain := by
    rw [← Scanner.drain_lowerCase, same.lowerCase_eq, Scanner.drain_lowerCase]
  have tokens : tokenize source = tokenize other := congrArg Prod.fst drained
  have parsed : parse source = parse other := parse_congr tokens
  have checked (options : Options) : check options source = check options other := by
    rw [check, check, parsed]
  refine ⟨tokens, by rw [drained], parsed, fun options => ⟨checked options, fun target => ?_⟩⟩
  rw [compile, compile, checked]

/-- A program with letters in words, in a number, in a comment and in assembly. -/
theorem compile_sameButCase_mixed :
    let source := "{ Start } Asm Begin MOV Ax, $Ff End."
    let other := "{ sTART } asm begin mov AX, $fF end."
    SameButCase source other ∧ tokenize source = tokenize other ∧
      (Scanner.ofString source).drain.2.diagnostics =
        (Scanner.ofString other).drain.2.diagnostics ∧
      parse source = parse other ∧
      check {} source = check {} other ∧
      compile {} .text source = compile {} .text other ∧
      (compile {} .text other).toOption.isSome = true := by
  intro source other
  have same : SameButCase source other := by decide
  have accepted : (compile {} .text other).toOption.isSome = true := by decide +kernel
  obtain ⟨tokens, diagnostics, parsed, later⟩ := compile_sameButCase same
  exact ⟨same, tokens, diagnostics, parsed, (later {}).1, (later {}).2 .text, accepted⟩

end PlZero
