import PlZero.Proofs.Token.Pieces
import Mathlib.Data.List.Induction
import Mathlib.Data.Nat.Digits.Defs

/-!
What number lexemes stand for.

A numeral is a row of digits of a base, letters in either case, and stands for the sum of the
digits' values, each times the power of the base at its place (`numeralValue`). `Literal` says which
lexemes are integers of 32 bits and which integer each is; a lexeme may be of any length.

Main statements: a number lexeme is scanned as an integer exactly if it is a literal for that
integer (`Lexeme.kind_eq_integer_iff`) and as an invalid number exactly if it is no literal
(`Lexeme.kind_eq_invalid_iff`).
-/

namespace PlZero

/-! ### Numerals -/

/-- The digits in the order of their values. -/
def digitChars : List Char := "0123456789abcdef".toList

/-- Is `c` a digit of the base, in either case? -/
def IsDigitOf (base : Nat) (c : Char) : Prop := c.toLower ∈ digitChars.take base

instance (base : Nat) (c : Char) : Decidable (IsDigitOf base c) :=
  inferInstanceAs (Decidable (_ ∈ _))

/-- One or more digits of the base. -/
def IsNumeral (base : Nat) (digits : List Char) : Prop :=
  digits ≠ [] ∧ ∀ c ∈ digits, IsDigitOf base c

instance (base : Nat) (digits : List Char) : Decidable (IsNumeral base digits) :=
  decidable_of_iff (digits ≠ [] ∧ (digits.all fun c => decide (IsDigitOf base c)) = true)
    (by simp [IsNumeral])

/-- The number that digits stand for, the last of them at the lowest place. -/
def numeralValue (base : Nat) (digits : List Char) : Nat :=
  Nat.ofDigits base (digits.reverse.map fun c => digitChars.idxOf c.toLower)

/-- The value of a numeral, digit by digit from the left, as it is read. -/
theorem numeralValue_concat (base : Nat) (digits : List Char) (c : Char) :
    numeralValue base (digits ++ [c]) =
      base * numeralValue base digits + digitChars.idxOf c.toLower := by
  rw [numeralValue, List.reverse_append, List.reverse_singleton, List.singleton_append,
    List.map_cons, Nat.ofDigits_cons, Nat.add_comm, ← numeralValue]

/-- Beyond ASCII there are no digits. -/
theorem digitValue?_of_le {base : Nat} {c : Char} (beyond : 128 ≤ c.toNat) :
    digitValue? base c = none ∧ ¬ IsDigitOf base c := by
  have notUpper : ¬ c.isUpper = true := by
    rw [isUpper_iff]
    rintro ⟨-, high⟩
    have low : c.toNat ≤ 'Z'.toNat := high
    exact absurd (Nat.le_trans beyond low) (by decide)
  constructor
  · have high (d : Char) (ascii : d.toNat < 128) : ¬ c ≤ d := fun le =>
      absurd (Nat.le_trans beyond le) (Nat.not_le.mpr ascii)
    have noDigit : ¬ c.isDigit = true := by
      simp only [Char.isDigit, Bool.and_eq_true, decide_eq_true_eq, not_and]
      exact fun _ => high '9' (by decide)
    simp only [digitValue?, noDigit, high 'f' (by decide), high 'F' (by decide), and_false, if_false,
      Nat.lt_irrefl, Bool.false_eq_true]
  · intro digit
    have ascii : (digitChars.all fun d => d.toNat < 128) = true := by decide
    rw [IsDigitOf, toLower_of_not_isUpper notUpper] at digit
    have below := List.all_eq_true.mp ascii c (List.mem_of_mem_take digit)
    exact absurd beyond (Nat.not_le.mpr (of_decide_eq_true below))

section Read

variable {base : Nat} (known : base ∈ [10, 16])
include known

/-- A digit's value is its place among the digits. -/
theorem digitValue?_eq_some_iff {c : Char} {value : Nat} :
    digitValue? base c = some value ↔
      IsDigitOf base c ∧ digitChars.idxOf c.toLower = value := by
  rcases Nat.lt_or_ge c.toNat 128 with ascii | beyond
  · have table : ∀ base ∈ [10, 16], ∀ n < 128, digitValue? base (Char.ofNat n) =
        if IsDigitOf base (Char.ofNat n) then some (digitChars.idxOf (Char.ofNat n).toLower)
        else none := by
      decide +kernel
    have here := table base known c.toNat ascii
    rw [Char.ofNat_toNat] at here
    rw [here]
    by_cases digit : IsDigitOf base c
    · rw [if_pos digit, Option.some_inj, and_iff_right digit]
    · simp [digit]
  · obtain ⟨none, noDigit⟩ := @digitValue?_of_le base c beyond
    simp [none, noDigit]

/-- Digits are added up from the left; one character that is no digit spoils them all. -/
theorem foldlM_digitValue?_eq_some_iff {digits : List Char} {n : Nat} :
    digits.foldlM (fun n c => (digitValue? base c).map (base * n + ·)) 0 = some n ↔
      (∀ c ∈ digits, IsDigitOf base c) ∧ numeralValue base digits = n := by
  induction digits using List.reverseRecOn generalizing n with
  | nil => simp [numeralValue]
  | append_singleton digits c ih =>
    rw [List.foldlM_append, Option.bind_eq_bind, Option.bind_eq_some_iff, numeralValue_concat,
      List.forall_mem_append, List.forall_mem_singleton]
    constructor
    · rintro ⟨m, before, last⟩
      obtain ⟨digitsBefore, rfl⟩ := ih.mp before
      obtain ⟨value, read, rfl⟩ : ∃ value, digitValue? base c = some value ∧
          base * numeralValue base digits + value = n := by
        simpa using last
      obtain ⟨digit, rfl⟩ := (digitValue?_eq_some_iff known).mp read
      exact ⟨⟨digitsBefore, digit⟩, rfl⟩
    · rintro ⟨⟨digitsBefore, digit⟩, rfl⟩
      refine ⟨numeralValue base digits, ih.mpr ⟨digitsBefore, rfl⟩, ?_⟩
      simp [(digitValue?_eq_some_iff known).mpr ⟨digit, rfl⟩]

/-- Digits are read to a number just if they are a numeral of that value. -/
theorem readDigits?_eq_some_iff {digits : List Char} {n : Nat} :
    readDigits? base digits = some n ↔ IsNumeral base digits ∧ numeralValue base digits = n := by
  cases digits with
  | nil => simp [readDigits?, IsNumeral]
  | cons c others =>
    rw [readDigits?, if_neg (by simp), foldlM_digitValue?_eq_some_iff known, IsNumeral,
      and_iff_right (List.cons_ne_nil c others)]

end Read

/-! ### Literals -/

/-- A lexeme that is read as a number. -/
def Lexeme.IsNumber : Lexeme → Prop
  | .decimal _ | .hexadecimal _ => True
  | _ => False

/-- `Literal l value`: the lexeme stands for the integer. In decimal it has no leading zero, zero
itself apart, and is at most the greatest integer of 32 bits; in hexadecimal it is a pattern of 32
bits, with any number of leading zeros, and the highest bit is the sign. -/
inductive Literal : Lexeme → Int → Prop where
  | zero : Literal (.decimal ['0']) 0
  | decimal {first : Char} {others : List Char} :
      first ≠ '0' → IsNumeral 10 (first :: others) →
      numeralValue 10 (first :: others) ≤ 2147483647 →
      Literal (.decimal (first :: others)) (numeralValue 10 (first :: others))
  | hexadecimal {digits : List Char} :
      IsNumeral 16 digits → numeralValue 16 digits < 4294967296 →
      Literal (.hexadecimal digits) ((numeralValue 16 digits : Int).bmod 4294967296)

/-- Decimal numbers go up to the largest positive one. -/
theorem readDecimal?_eq_some_iff {run : List Char} {v : Int32} :
    readDecimal? run = some v ↔ Literal (.decimal run) v.toInt := by
  have small {n : Nat} (le : n ≤ 0x7FFFFFFF) : (Int32.ofNat n).toInt = n :=
    Int32.toInt_ofNat_of_lt (Nat.lt_succ_of_le le)
  constructor
  · intro read
    unfold readDecimal? at read
    split at read
    · cases read
    · next noLeadingZero =>
      split at read
      · next n spelled =>
        split at read
        · next le =>
          cases read
          obtain ⟨numeral, rfl⟩ := (readDigits?_eq_some_iff (by decide)).mp spelled
          rw [small le]
          cases run with
          | nil => exact absurd rfl numeral.1
          | cons first others =>
            by_cases isZero : first = '0'
            · subst isZero
              obtain rfl : others = [] := by simpa [List.length_pos_iff] using noLeadingZero
              exact .zero
            · exact .decimal isZero numeral le
        · cases read
      · cases read
  · intro literal
    generalize value : v.toInt = i at literal
    cases literal with
    | zero =>
      obtain rfl : v = 0 := Int32.toInt_inj.mp value
      decide
    | @decimal first others notZero numeral le =>
      obtain rfl : v = Int32.ofNat (numeralValue 10 (first :: others)) :=
        Int32.toInt_inj.mp (value.trans (small le).symm)
      have spelled : readDigits? 10 (first :: others) = some (numeralValue 10 (first :: others)) :=
        (readDigits?_eq_some_iff (by decide)).mpr ⟨numeral, rfl⟩
      simp only [readDecimal?, List.head?_cons, beq_iff_eq, Option.some_inj, notZero, spelled,
        Bool.and_eq_true, and_false, if_false, if_pos le]

/-- Hexadecimal numbers of 32 bits are read with their sign. -/
theorem readHexadecimal?_eq_some_iff {run : List Char} {v : Int32} :
    readHexadecimal? run = some v ↔ Literal (.hexadecimal run) v.toInt := by
  constructor
  · intro read
    unfold readHexadecimal? at read
    split at read
    · next n spelled =>
      split at read
      · next le =>
        cases read
        obtain ⟨numeral, rfl⟩ := (readDigits?_eq_some_iff (by decide)).mp spelled
        rw [Int32.toInt_ofNat']
        exact .hexadecimal numeral (Nat.lt_succ_of_le le)
      · cases read
    · cases read
  · intro literal
    generalize value : v.toInt = i at literal
    cases literal with
    | hexadecimal numeral lt =>
      obtain rfl : v = Int32.ofNat (numeralValue 16 run) :=
        Int32.toInt_inj.mp (value.trans Int32.toInt_ofNat'.symm)
      have spelled : readDigits? 16 run = some (numeralValue 16 run) :=
        (readDigits?_eq_some_iff (by decide)).mpr ⟨numeral, rfl⟩
      simp only [readHexadecimal?, spelled, if_pos (Nat.le_of_lt_succ lt)]

/-- A literal stands for an integer of 32 bits. -/
theorem Literal.exists_int32 {l : Lexeme} {value : Int} (literal : Literal l value) :
    ∃ v : Int32, v.toInt = value := by
  cases literal with
  | zero => exact ⟨0, rfl⟩
  | decimal _ _ le => exact ⟨.ofNat _, Int32.toInt_ofNat_of_lt (Nat.lt_succ_of_le le)⟩
  | hexadecimal _ _ => exact ⟨.ofNat _, Int32.toInt_ofNat'⟩

namespace Lexeme

variable {l : Lexeme} (number : l.IsNumber)
include number

/-- A number lexeme is scanned as the integer it stands for. -/
theorem kind_eq_integer_iff {v : Int32} : l.kind = .integer v ↔ Literal l v.toInt := by
  have known {read : Option Int32} : numberKind read = .integer v ↔ read = some v := by
    cases read <;> simp [numberKind]
  cases l with
  | decimal run => exact known.trans readDecimal?_eq_some_iff
  | hexadecimal run => exact known.trans readHexadecimal?_eq_some_iff
  | word | operator | char => exact number.elim

/-- A number lexeme that stands for no integer is an invalid number. -/
theorem kind_eq_invalid_iff :
    l.kind = .invalid .invalidNumber ↔ ¬ ∃ value, Literal l value := by
  have known {read : Option Int32} :
      numberKind read = .invalid .invalidNumber ↔ ¬ ∃ v, numberKind read = .integer v := by
    cases read <;> simp [numberKind]
  have same : (∃ value, Literal l value) ↔ ∃ v, l.kind = .integer v := by
    constructor
    · rintro ⟨value, literal⟩
      obtain ⟨v, rfl⟩ := literal.exists_int32
      exact ⟨v, (kind_eq_integer_iff number).mpr literal⟩
    · rintro ⟨v, isInteger⟩
      exact ⟨v.toInt, (kind_eq_integer_iff number).mp isInteger⟩
  rw [same]
  cases l with
  | decimal run => exact known
  | hexadecimal run => exact known
  | word | operator | char => exact number.elim

end Lexeme

end PlZero
