import PlZero.Proofs.Parser.Lockstep

/-!
Every reader goes along with every derivation of its phrase, if the bound on nesting is large enough
and the phrase is followed by a token that cannot belong to it.

One token decides which way a reader goes. `Phrase.Follow` says what may stand behind a phrase so
that the reader stops where the derivation does. `Phrase.rank` orders the phrases that can start on
the same token; with it, eight times the number of tokens ahead is a large enough bound.

Main statement: `Derives.follows`.
-/

namespace PlZero.Grammar

open Token (Kind)
open Parsing

/-! ### What may follow a phrase -/

/-- The tokens behind a phrase at which its reader stops. -/
def Phrase.Follow : Phrase → Kind → Prop
  | .expression | .moreTerms _ _ | .condition => fun k => k ≠ .char '(' ∧
      ∀ op, k = .operator (.binary op) → op.isAdditive = false ∧ op.isMultiplicative = false
  | .term | .moreFactors _ _ => fun k => k ≠ .char '(' ∧
      ∀ op, k = .operator (.binary op) → op.isMultiplicative = false
  | .factor => fun k => k ≠ .char '('
  | .statement | .elsePart => fun k =>
      k = .char ';' ∨ k = .char '.' ∨ k = .keyword .endKw ∨ k = .keyword .elseKw
  | .initializer _ => fun k => k = .char ',' ∨ k = .char ';'
  | .section isConstant => fun k => k ≠ .keyword (sectionKeyword isConstant)
  | .signature _ => fun k => k = .char ';'
  | .block => fun k => k = .char ';' ∨ k = .char '.'
  | .routines => fun k => ∀ isFunction, k ≠ .keyword (routineKeyword isFunction)
  | .arguments | .statements | .definitions _ | .parameters | .routine _ => fun _ => True

theorem Ahead.mono {P Q : Kind → Prop} {tokens : List Token} (h : Ahead P tokens)
    (imp : ∀ k, P k → Q k) : Ahead Q tokens :=
  fun t mem => imp _ (h t mem)

section

variable {input mid rest : List Token}

theorem follow_expression_char {c : Char} (other : c ≠ '(') :
    Phrase.expression.Follow (.char c) := by
  constructor
  · intro same
    cases same
    exact other rfl
  · intro op same
    cases same

theorem follow_expression_keyword (word : Keyword) : Phrase.expression.Follow (.keyword word) := by
  constructor
  · intro same
    cases same
  · intro op same
    cases same

/-- What may follow a statement may follow an expression, with which a statement can end. -/
theorem follow_expression_of_statement {k : Kind} (h : Phrase.statement.Follow k) :
    Phrase.expression.Follow k := by
  rcases h with rfl | rfl | rfl | rfl
  · exact follow_expression_char (by decide)
  · exact follow_expression_char (by decide)
  · exact follow_expression_keyword _
  · exact follow_expression_keyword _

theorem follow_term_of_expression {k : Kind} (h : Phrase.expression.Follow k) :
    Phrase.term.Follow k :=
  ⟨h.1, fun op same => (h.2 op same).2⟩

/-- A factor starts with a name, an integer or a parenthesis. -/
theorem Derives.ahead_factor {e : Expr} (h : Derives .factor input e rest) :
    Ahead (fun k => (∃ name, k = .name name) ∨ (∃ value, k = .integer value) ∨ k = .char '(')
      input := by
  cases h with
  | name kind | call kind => exact ahead_cons.mpr (Or.inl ⟨_, kind⟩)
  | number kind => exact ahead_cons.mpr (Or.inr (Or.inl ⟨_, kind⟩))
  | parentheses isOpening => exact ahead_cons.mpr (Or.inr (Or.inr isOpening))

/-- A term starts with no operator. -/
theorem Derives.ahead_term {e : Expr} (h : Derives .term input e rest) :
    Ahead (fun k => ∀ op, k ≠ .operator op ∧ ∀ word, k ≠ .keyword word) input := by
  cases h with
  | term first =>
    refine first.ahead_factor.mono fun k starts op => ?_
    rcases starts with ⟨name, rfl⟩ | ⟨value, rfl⟩ | rfl <;> simp

/-- An expression starts with no keyword. -/
theorem Derives.ahead_expression {e : Expr} (h : Derives .expression input e rest) :
    Ahead (fun k => ∀ word, k ≠ .keyword word) input := by
  cases h with
  | signed kind =>
    rw [ahead_cons, kind]
    simp
  | unsigned first => exact first.ahead_term.mono fun k starts => (starts .assign).2

/-- What starts with more terms, or ends there, stops a term. -/
theorem Derives.ahead_moreTerms {line : Nat} {lhs e : Expr}
    (h : Derives (.moreTerms line lhs) mid e rest) (ahead : Ahead Phrase.expression.Follow rest) :
    Ahead Phrase.term.Follow mid := by
  cases h with
  | lastTerm => exact ahead.mono fun _ => follow_term_of_expression
  | @nextTerm t op _ _ _ _ _ _ _ kind additive =>
    rw [ahead_cons, kind]
    refine ⟨by simp, fun op' same => ?_⟩
    cases same
    cases op <;> simp_all [BinaryOp.isAdditive, BinaryOp.isMultiplicative]

/-- What starts with more factors, or ends there, stops a factor. -/
theorem Derives.ahead_moreFactors {line : Nat} {lhs e : Expr}
    (h : Derives (.moreFactors line lhs) mid e rest) (ahead : Ahead Phrase.term.Follow rest) :
    Ahead Phrase.factor.Follow mid := by
  cases h with
  | lastFactor => exact ahead.mono fun _ stops => stops.1
  | @nextFactor t op _ _ _ _ _ _ _ kind =>
    rw [ahead_cons, kind]
    exact fun same => by cases same

/-- An `else` may follow a statement, so what stands before an optional `else` may follow one too.
-/
theorem Derives.ahead_elsePart {s : Option Stmt} (h : Derives .elsePart mid s rest)
    (ahead : Ahead Phrase.statement.Follow rest) : Ahead Phrase.statement.Follow mid := by
  cases h with
  | noElse => exact ahead
  | elseBranch kind =>
    rw [ahead_cons, kind]
    exact Or.inr (Or.inr (Or.inr rfl))

/-- Does the keyword start a declaration? -/
def isDeclaring : Keyword → Bool
  | .constKw | .varKw | .procedureKw | .functionKw => true
  | _ => false

/-- No declaration starts on the first token of a statement. -/
theorem Derives.ahead_statement {s : Option Stmt} {word : Keyword} (h : Derives .statement input s rest)
    (declaring : isDeclaring word = true) (ahead : Ahead Phrase.statement.Follow rest) :
    Ahead (· ≠ .keyword word) input := by
  cases h with
  | empty =>
    refine ahead.mono fun k follow same => ?_
    subst same
    rcases follow with same | same | same | same <;> cases same <;> cases declaring
  | assign kind | callStatement kind | nameStatement kind =>
    rw [ahead_cons, kind]
    exact fun same => by cases same
  | sequence kind | ifThen kind | whileDo kind | asm kind | breakLoop kind | continueLoop kind =>
    rw [ahead_cons, kind]
    intro same
    cases same
    cases declaring

/-- Routines begin with their own keywords. -/
theorem Derives.ahead_routines {routines : List Routine} {isConstant : Bool}
    (h : Derives .routines input routines rest)
    (ahead : Ahead (· ≠ .keyword (sectionKeyword isConstant)) rest) :
    Ahead (· ≠ .keyword (sectionKeyword isConstant)) input := by
  cases h with
  | noRoutines => exact ahead
  | @moreRoutines isFunction _ _ _ _ _ first =>
    cases first with
    | routine kind =>
      rw [ahead_cons, kind]
      cases isFunction <;> cases isConstant <;> simp [sectionKeyword, routineKeyword]

theorem Derives.ahead_variables {vars : Option Decls} (h : Derives (.section false) input vars rest)
    (ahead : Ahead (· ≠ .keyword .constKw) rest) : Ahead (· ≠ .keyword .constKw) input := by
  cases h with
  | noSection => exact ahead
  | someSection kind =>
    rw [ahead_cons, kind]
    simp [sectionKeyword]

end

/-! ### How many tokens a phrase takes -/

section

variable {x : Phrase} {input rest : List Token}

/-- A phrase takes tokens off the front. -/
theorem Derives.length_le {tree : x.Tree} (h : Derives x input tree rest) :
    rest.length ≤ input.length := by
  obtain ⟨u, rfl, _⟩ := h.mem_language
  simp

/-- A factor takes at least one token. -/
theorem Derives.factor_length_lt {e : Expr} (h : Derives .factor input e rest) :
    rest.length < input.length := by
  cases h with
  | name | number => simp
  | call _ _ args =>
    have := args.length_le
    simp only [List.length_cons] at this ⊢
    omega
  | parentheses _ inner =>
    have := inner.length_le
    simp only [List.length_cons] at this ⊢
    omega

/-- A term takes at least one token. -/
theorem Derives.term_length_lt {e : Expr} (h : Derives .term input e rest) :
    rest.length < input.length := by
  cases h with
  | term first more => exact Nat.lt_of_le_of_lt more.length_le first.factor_length_lt

/-- A routine takes at least one token. -/
theorem Derives.routine_length_lt {isFunction : Bool} {tree : Routine}
    (h : Derives (.routine isFunction) input tree rest) : rest.length < input.length := by
  cases h with
  | routine _ _ signature _ block =>
    have first := signature.length_le
    have second := block.length_le
    simp only [List.length_cons] at first second ⊢
    omega

end

/-! ### Large enough a bound -/

/-- How many phrases can be entered on the token a phrase starts with before it is. -/
def Phrase.rank : Phrase → Nat
  | .statement | .section _ | .definitions _ | .routines | .term => 1
  | .statements | .routine _ | .factor => 2
  | _ => 0

theorem Phrase.rank_lt (x : Phrase) : x.rank < 8 := by
  cases x <;> exact of_decide_eq_true rfl

section

variable {actual imagined : List Token} {x y : Phrase} {t : Token} {n : Nat}
  {input after mid rest : List Token}

/-- The bound `n` is large enough for the phrase `x` where the imagined text has `input`. -/
def Enough (actual imagined : List Token) (n : Nat) (x : Phrase) (input : List Token) : Prop :=
  8 * (input.length + actual.length) ≤ n + x.rank + 8 * imagined.length

/-- A token less is room for any phrase. -/
theorem Enough.next (h : Enough actual imagined (n + 1) x input)
    (shorter : mid.length < input.length) : Enough actual imagined n y mid := by
  have rank := x.rank_lt
  unfold Enough at h ⊢
  omega

/-- On the same token there is room for a phrase of higher rank. -/
theorem Enough.within (h : Enough actual imagined (n + 1) x input) (deeper : x.rank < y.rank) :
    Enough actual imagined n y input := by
  unfold Enough at h ⊢
  omega

/-- A phrase that is reached later in the same place needs no larger bound. -/
theorem Enough.mono (h : Enough actual imagined n x input) (deeper : x.rank ≤ y.rank) :
    Enough actual imagined n y input := by
  unfold Enough at h ⊢
  omega

theorem Enough.more (h : Enough actual imagined n x input) :
    Enough actual imagined (n + 1) x input := by
  unfold Enough at h ⊢
  omega

/-- The reader of `x` goes along with a derivation of `tree`. -/
def Follows (actual imagined : List Token) (x : Phrase) (input : List Token) (tree : x.Tree)
    (rest : List Token) : Prop :=
  ∀ (n : Nat) (p : Parser), Together actual imagined p input → Enough actual imagined n x input →
    Ahead x.Follow rest → Keeps actual imagined (x.read n) p tree rest

/-- There is always a token ahead, so the bound is not used up. -/
theorem follows_of_succ {tree : x.Tree}
    (step : ∀ (n : Nat) (p : Parser), Together actual imagined p input →
      Enough actual imagined (n + 1) x input → Ahead x.Follow rest →
      Keeps actual imagined (x.read (n + 1)) p tree rest) :
    Follows actual imagined x input tree rest := by
  intro n p together enough ahead
  have some := List.length_pos_of_ne_nil p.pending_ne_nil
  have length := together.length_eq
  have rank := x.rank_lt
  obtain ⟨m, rfl⟩ : ∃ m, n = m + 1 := by
    unfold Enough at enough
    exact ⟨n - 1, by omega⟩
  exact step m p together enough ahead

/-! ### Expressions -/

/-- A sign in front of an expression: it stands for an operation on zero and the first term. -/
theorem follows_signed {op : BinaryOp} {first e : Expr}
    (kind : t.kind = .operator (.binary op)) (additive : op.isAdditive = true)
    (termDerives : Derives .term after first mid)
    (moreDerives : Derives (.moreTerms t.line
      (.binary { line := t.line } op (.number { line := t.line } 0) first)) mid e rest)
    (term : Follows actual imagined .term after first mid)
    (more : Follows actual imagined (.moreTerms t.line
      (.binary { line := t.line } op (.number { line := t.line } 0) first)) mid e rest) :
    Follows actual imagined .expression (t :: after) e rest := by
  refine follows_of_succ fun n p together enough ahead => ?_
  simp only [Phrase.read, Parsing.expression]
  rw [keeps_currentLine, together.current_eq]
  refine keeps_operator?_present together kind additive fun q together => ?_
  refine (term n q together (enough.next (Nat.lt_succ_self _))
    (moreDerives.ahead_moreTerms ahead)).bind fun r together => ?_
  exact more n r together (enough.next (Nat.lt_succ_of_le termDerives.length_le)) ahead

/-- Without a sign, the expression is on the line of its first term. -/
theorem follows_unsigned {first e : Expr} (termDerives : Derives .term input first mid)
    (moreDerives : Derives (.moreTerms (lineOf input) first) mid e rest)
    (term : Follows actual imagined .term input first mid)
    (more : Follows actual imagined (.moreTerms (lineOf input) first) mid e rest) :
    Follows actual imagined .expression input e rest := by
  refine follows_of_succ fun n p together enough ahead => ?_
  have starts := together.current_of_ahead termDerives.ahead_term
  simp only [Phrase.read, Parsing.expression]
  rw [keeps_currentLine, ← together.line_eq]
  refine keeps_operator?_absent (fun op kind => absurd kind (starts _).1) ?_
  refine (term n p together (enough.within (by decide))
    (moreDerives.ahead_moreTerms ahead)).bind fun r together => ?_
  exact more n r together (enough.next termDerives.term_length_lt) ahead

/-- Where no sign is ahead the terms are at their end. -/
theorem follows_lastTerm {line : Nat} {lhs : Expr} :
    Follows actual imagined (.moreTerms line lhs) rest lhs rest := by
  refine follows_of_succ fun n p together _ ahead => ?_
  have stops := together.current_of_ahead ahead
  simp only [Phrase.read, Parsing.moreTerms]
  refine keeps_operator?_absent (fun op kind => (stops.2 op kind).1) ?_
  exact keeps_pure together

/-- One more term is joined to those on its left. -/
theorem follows_nextTerm {op : BinaryOp} {line : Nat} {lhs rhs e : Expr}
    (kind : t.kind = .operator (.binary op)) (additive : op.isAdditive = true)
    (termDerives : Derives .term after rhs mid)
    (moreDerives : Derives (.moreTerms line (.binary { line := line } op lhs rhs)) mid e rest)
    (term : Follows actual imagined .term after rhs mid)
    (more : Follows actual imagined (.moreTerms line (.binary { line := line } op lhs rhs)) mid e
      rest) : Follows actual imagined (.moreTerms line lhs) (t :: after) e rest := by
  refine follows_of_succ fun n p together enough ahead => ?_
  simp only [Phrase.read, Parsing.moreTerms]
  refine keeps_operator?_present together kind additive fun q together => ?_
  refine (term n q together (enough.next (Nat.lt_succ_self _))
    (moreDerives.ahead_moreTerms ahead)).bind fun r together => ?_
  exact more n r together (enough.next (Nat.lt_succ_of_le termDerives.length_le)) ahead

/-- Factors are read as terms are. -/
theorem follows_term {first e : Expr} (factorDerives : Derives .factor input first mid)
    (moreDerives : Derives (.moreFactors (lineOf input) first) mid e rest)
    (factor : Follows actual imagined .factor input first mid)
    (more : Follows actual imagined (.moreFactors (lineOf input) first) mid e rest) :
    Follows actual imagined .term input e rest := by
  refine follows_of_succ fun n p together enough ahead => ?_
  simp only [Phrase.read, Parsing.term]
  rw [keeps_currentLine, ← together.line_eq]
  refine (factor n p together (enough.within (by decide))
    (moreDerives.ahead_moreFactors ahead)).bind fun r together => ?_
  exact more n r together (enough.next factorDerives.factor_length_lt) ahead

theorem follows_lastFactor {line : Nat} {lhs : Expr} :
    Follows actual imagined (.moreFactors line lhs) rest lhs rest := by
  refine follows_of_succ fun n p together _ ahead => ?_
  have stops := together.current_of_ahead ahead
  simp only [Phrase.read, Parsing.moreFactors]
  refine keeps_operator?_absent (fun op kind => stops.2 op kind) ?_
  exact keeps_pure together

theorem follows_nextFactor {op : BinaryOp} {line : Nat} {lhs rhs e : Expr}
    (kind : t.kind = .operator (.binary op)) (multiplicative : op.isMultiplicative = true)
    (factorDerives : Derives .factor after rhs mid)
    (moreDerives : Derives (.moreFactors line (.binary { line := line } op lhs rhs)) mid e rest)
    (factor : Follows actual imagined .factor after rhs mid)
    (more : Follows actual imagined (.moreFactors line (.binary { line := line } op lhs rhs)) mid e
      rest) : Follows actual imagined (.moreFactors line lhs) (t :: after) e rest := by
  refine follows_of_succ fun n p together enough ahead => ?_
  simp only [Phrase.read, Parsing.moreFactors]
  refine keeps_operator?_present together kind multiplicative fun q together => ?_
  refine (factor n q together (enough.next (Nat.lt_succ_self _))
    (moreDerives.ahead_moreFactors ahead)).bind fun r together => ?_
  exact more n r together (enough.next (Nat.lt_succ_of_le factorDerives.length_le)) ahead

/-- A name that no parenthesis follows. -/
theorem follows_name {name : String} (kind : t.kind = .name name) :
    Follows actual imagined .factor (t :: rest) (.name { line := t.line } { name := name }) rest := by
  refine follows_of_succ fun n p together _ ahead => ?_
  simp only [Phrase.read, Parsing.factor]
  rw [keeps_currentLine, keeps_currentKind, together.current_eq, kind]
  refine (keeps_skip together (isProper_of_eq kind rfl)).bind fun q together => ?_
  have stops := together.current_of_ahead ahead
  rw [keeps_if_unseen stops]
  exact keeps_pure together

/-- A name that a parenthesis follows is a call. -/
theorem follows_call {opening : Token} {name : String} {args : List Expr}
    (kind : t.kind = .name name) (isOpening : opening.kind = .char '(')
    (arguments : Follows actual imagined .arguments (opening :: after) args rest) :
    Follows actual imagined .factor (t :: opening :: after)
      (.call { line := t.line } { name := name } args) rest := by
  refine follows_of_succ fun n p together enough _ => ?_
  simp only [Phrase.read, Parsing.factor]
  rw [keeps_currentLine, keeps_currentKind, together.current_eq, kind]
  refine (keeps_skip together (isProper_of_eq kind rfl)).bind fun q together => ?_
  rw [keeps_if_seen (by rw [together.current_eq, isOpening])]
  refine (arguments n q together (enough.next (Nat.lt_succ_self _)) fun _ _ => trivial).bind
    fun r together => ?_
  exact keeps_pure together

theorem follows_number {value : Int32} (kind : t.kind = .integer value) :
    Follows actual imagined .factor (t :: rest) (.number { line := t.line } value) rest := by
  refine follows_of_succ fun n p together _ _ => ?_
  simp only [Phrase.read, Parsing.factor]
  rw [keeps_currentLine, keeps_currentKind, together.current_eq, kind]
  refine (keeps_skip together (isProper_of_eq kind rfl)).bind fun q together => ?_
  exact keeps_pure together

/-- Parentheses leave no trace in the tree. -/
theorem follows_parentheses {opening closing : Token} {e : Expr}
    (isOpening : opening.kind = .char '(') (isClosing : closing.kind = .char ')')
    (expression : Follows actual imagined .expression after e (closing :: rest)) :
    Follows actual imagined .factor (opening :: after) e rest := by
  refine follows_of_succ fun n p together enough _ => ?_
  have stops : Ahead Phrase.expression.Follow (closing :: rest) := by
    rw [ahead_cons, isClosing]
    exact follow_expression_char (by decide)
  have here : p.current.kind = .char '(' := by rw [together.current_eq, isOpening]
  simp only [Phrase.read, Parsing.factor]
  rw [keeps_currentLine, keeps_currentKind, here]
  refine (keeps_if_seen here).mpr ?_
  refine (keeps_skip together (isProper_of_eq isOpening rfl)).bind fun q together => ?_
  refine (expression n q together (enough.next (Nat.lt_succ_self _)) stops).bind
    fun r together => ?_
  refine (keeps_expect together isClosing rfl).bind fun s together => ?_
  exact keeps_pure together

/-! Every series is read in the same way behind a member. -/

/-- The end of a list of phrases: no separator is ahead, and the closing token is. -/
theorem keeps_series_last {α : Type} {sep : Char} {close : Kind} {fault : GrammarFault}
    {f : α → α} {single : α} {r : Parsing α} {q : Parser} {closing : Token}
    (together : Together actual imagined q (closing :: rest)) (isClosing : closing.kind = close)
    (proper : close.isProper = true) (other : close ≠ .char sep) :
    Keeps actual imagined (do
      if ← sees (.char sep) then
        let rest ← r
        return f rest
      else
        expect close fault
        return single) q single rest := by
  rw [keeps_if_unseen (by rwa [together.current_eq, isClosing])]
  refine (keeps_expect together isClosing proper).bind fun s together => ?_
  exact keeps_pure together

/-- A list of phrases goes on behind a separator. -/
theorem keeps_series_more {α : Type} {sep : Char} {close : Kind} {fault : GrammarFault}
    {f : α → α} {single tree : α} {r : Parsing α} {q : Parser} {separator : Token}
    (together : Together actual imagined q (separator :: mid))
    (isSeparator : separator.kind = .char sep) (more : Keeps actual imagined r q tree rest) :
    Keeps actual imagined (do
      if ← sees (.char sep) then
        let rest ← r
        return f rest
      else
        expect close fault
        return single) q (f tree) rest := by
  rw [keeps_if_seen (by rw [together.current_eq, isSeparator])]
  exact more.bind fun s together => keeps_pure together

theorem follows_lastArgument {opening closing : Token} {e : Expr}
    (proper : opening.kind.isProper = true) (isClosing : closing.kind = .char ')')
    (expression : Follows actual imagined .expression after e (closing :: rest)) :
    Follows actual imagined .arguments (opening :: after) [e] rest := by
  refine follows_of_succ fun n p together enough _ => ?_
  have stops : Ahead Phrase.expression.Follow (closing :: rest) := by
    rw [ahead_cons, isClosing]
    exact follow_expression_char (by decide)
  simp only [Phrase.read, Parsing.arguments]
  refine (keeps_skip together proper).bind fun q together => ?_
  refine (expression n q together (enough.next (Nat.lt_succ_self _)) stops).bind
    fun r together => ?_
  exact keeps_series_last together isClosing rfl (by decide)

theorem follows_moreArguments {opening comma : Token} {e : Expr} {args : List Expr}
    (proper : opening.kind.isProper = true) (isComma : comma.kind = .char ',')
    (firstDerives : Derives .expression after e (comma :: mid))
    (expression : Follows actual imagined .expression after e (comma :: mid))
    (more : Follows actual imagined .arguments (comma :: mid) args rest) :
    Follows actual imagined .arguments (opening :: after) (e :: args) rest := by
  refine follows_of_succ fun n p together enough _ => ?_
  have stops : Ahead Phrase.expression.Follow (comma :: mid) := by
    rw [ahead_cons, isComma]
    exact follow_expression_char (by decide)
  simp only [Phrase.read, Parsing.arguments]
  refine (keeps_skip together proper).bind fun q together => ?_
  refine (expression n q together (enough.next (Nat.lt_succ_self _)) stops).bind
    fun r together => ?_
  refine keeps_series_more together isComma ?_
  exact more n r together (enough.next (Nat.lt_succ_of_le firstDerives.length_le))
    fun _ _ => trivial

theorem follows_odd {e : Expr} (kind : t.kind = .keyword .oddKw)
    (expression : Follows actual imagined .expression after e rest) :
    Follows actual imagined .condition (t :: after) (.odd { line := t.line } e) rest := by
  intro n p together enough ahead
  simp only [Phrase.read, Parsing.condition]
  rw [keeps_currentLine, keeps_if_seen (by rw [together.current_eq, kind]), together.current_eq]
  refine (keeps_skip together (isProper_of_eq kind rfl)).bind fun q together => ?_
  refine (expression n q together (enough.more.next (Nat.lt_succ_self _)) ahead).bind
    fun r together => ?_
  exact keeps_pure together

/-- The operator is not taken for a part of the expression on its left. -/
theorem follows_comparison {op : BinaryOp} {lhs rhs : Expr}
    (kind : t.kind = .operator (.binary op)) (relational : op.isRelational = true)
    (lhsDerives : Derives .expression input lhs (t :: mid))
    (left : Follows actual imagined .expression input lhs (t :: mid))
    (right : Follows actual imagined .expression mid rhs rest) :
    Follows actual imagined .condition input (.binary { line := lineOf input } op lhs rhs)
      rest := by
  intro n p together enough ahead
  have starts := together.current_of_ahead lhsDerives.ahead_expression
  have stops : Ahead Phrase.expression.Follow (t :: mid) := by
    rw [ahead_cons, kind]
    refine ⟨by simp, fun op' same => ?_⟩
    cases same
    cases op <;> simp_all [BinaryOp.isRelational, BinaryOp.isAdditive, BinaryOp.isMultiplicative]
  simp only [Phrase.read, Parsing.condition]
  rw [keeps_currentLine, keeps_if_unseen (starts _), ← together.line_eq]
  have := shrinks_comparison n (lineOf input)
  refine (left n p together (enough.mono (by decide)) stops).bind fun q together => ?_
  refine keeps_operator?_present together kind relational fun r together => ?_
  refine (right n r together (enough.more.next ?_) ahead).bind fun s together => ?_
  · exact lhsDerives.length_le
  · exact keeps_pure together

/-! ### Statements -/

/-- Inline assembly is read up to `end`. The bound only has to cover the tokens ahead. -/
theorem keeps_asmTokens {end_ : Token} (isEnd : end_.kind = .keyword .endKw) (body : List Token)
    (inside : ∀ u ∈ body, u.kind.isProper = true ∧ u.kind ≠ .keyword .endKw) (n : Nat) (p : Parser)
    (together : Together actual imagined p (body ++ end_ :: rest))
    (enough : p.pending.length ≤ n) :
    Keeps actual imagined (asmTokens n) p (kinds body) (end_ :: rest) := by
  induction body generalizing n p with
  | nil =>
    have some := List.length_pos_of_ne_nil p.pending_ne_nil
    obtain ⟨m, rfl⟩ : ∃ m, n = m + 1 := ⟨n - 1, by omega⟩
    rw [asmTokens, keeps_currentKind, together.current_eq, isEnd]
    exact keeps_pure together
  | cons t body ih =>
    have some := List.length_pos_of_ne_nil p.pending_ne_nil
    obtain ⟨m, rfl⟩ : ∃ m, n = m + 1 := ⟨n - 1, by omega⟩
    obtain ⟨proper, notEnd⟩ := inside t (by simp)
    rw [List.cons_append] at together
    have length := together.length_eq
    -- The match on the kind goes to the case for all other tokens.
    have step : Keeps actual imagined (do skip; return t.kind :: (← asmTokens m)) p
        (kinds (t :: body)) (end_ :: rest) := by
      refine (keeps_skip together proper).bind fun q together => ?_
      have length' := together.length_eq
      refine (ih (fun u mem => inside u (by simp [mem])) m q together ?_).bind fun r together => ?_
      · rw [List.length_cons] at length
        omega
      · exact keeps_pure together
    rw [asmTokens, keeps_currentKind, together.current_eq]
    cases kind : t.kind with
    | endOfText =>
      rw [kind] at proper
      cases proper
    | invalid fault =>
      rw [kind] at proper
      cases proper
    | keyword word =>
      rw [kind] at step notEnd
      split
      · next same => exact absurd same notEnd
      · next same => cases same
      · next same => cases same
      · exact step
    | _ =>
      rw [kind] at step
      exact step

/-- The empty statement, which takes nothing: none of the tokens that begin a statement is ahead. -/
theorem follows_empty : Follows actual imagined .statement rest none rest := by
  refine follows_of_succ fun n p together _ ahead => ?_
  have stops := together.current_of_ahead ahead
  simp only [Phrase.read, Parsing.statement]
  rw [keeps_currentLine, keeps_currentKind]
  rcases stops with kind | kind | kind | kind <;> rw [kind] <;> exact keeps_pure together

/-- A name with an arrow behind it. -/
theorem follows_assign {arrow : Token} {name : String} {e : Expr} (kind : t.kind = .name name)
    (isArrow : arrow.kind = .operator .assign)
    (expression : Follows actual imagined .expression after e rest) :
    Follows actual imagined .statement (t :: arrow :: after)
      (some (.assign { line := t.line } { name := name } e)) rest := by
  refine follows_of_succ fun n p together enough ahead => ?_
  simp only [Phrase.read, Parsing.statement]
  rw [keeps_currentLine, keeps_currentKind, together.current_eq, kind]
  refine (keeps_skip together (isProper_of_eq kind rfl)).bind fun q together => ?_
  rw [keeps_if_seen (by rw [together.current_eq, isArrow])]
  refine (keeps_skip together (isProper_of_eq isArrow rfl)).bind fun r together => ?_
  refine (expression n r together (enough.next (by simp only [List.length_cons]; omega))
    (ahead.mono fun _ => follow_expression_of_statement)).bind fun s together => ?_
  exact keeps_pure together

theorem follows_callStatement {opening : Token} {name : String} {args : List Expr}
    (kind : t.kind = .name name) (isOpening : opening.kind = .char '(')
    (arguments : Follows actual imagined .arguments (opening :: after) args rest) :
    Follows actual imagined .statement (t :: opening :: after)
      (some (.call { line := t.line } { name := name } args)) rest := by
  refine follows_of_succ fun n p together enough _ => ?_
  simp only [Phrase.read, Parsing.statement]
  rw [keeps_currentLine, keeps_currentKind, together.current_eq, kind]
  refine (keeps_skip together (isProper_of_eq kind rfl)).bind fun q together => ?_
  have here : q.current.kind = .char '(' := by rw [together.current_eq, isOpening]
  rw [keeps_if_unseen (by simp [here]), keeps_if_seen here]
  refine (arguments n q together (enough.next (Nat.lt_succ_self _)) fun _ _ => trivial).bind
    fun r together => ?_
  exact keeps_pure together

/-- A name with neither an arrow nor a parenthesis behind it runs a procedure. -/
theorem follows_nameStatement {name : String} (kind : t.kind = .name name) :
    Follows actual imagined .statement (t :: rest)
      (some (.name { line := t.line } { name := name })) rest := by
  refine follows_of_succ fun n p together _ ahead => ?_
  simp only [Phrase.read, Parsing.statement]
  rw [keeps_currentLine, keeps_currentKind, together.current_eq, kind]
  refine (keeps_skip together (isProper_of_eq kind rfl)).bind fun q together => ?_
  have stops := together.current_of_ahead ahead
  have notOpening := (follow_expression_of_statement stops).1
  have notArrow : q.current.kind ≠ .operator .assign := by
    rcases stops with same | same | same | same <;> rw [same] <;> simp
  rw [keeps_if_unseen notArrow, keeps_if_unseen notOpening]
  exact keeps_pure together

theorem follows_sequence {body : List Stmt} (kind : t.kind = .keyword .beginKw)
    (statements : Follows actual imagined .statements (t :: after) body rest) :
    Follows actual imagined .statement (t :: after) (some (.sequence { line := t.line } body))
      rest := by
  refine follows_of_succ fun n p together enough _ => ?_
  simp only [Phrase.read, Parsing.statement]
  rw [keeps_currentLine, keeps_currentKind, together.current_eq, kind]
  refine (statements n p together (enough.within (by decide)) fun _ _ => trivial).bind
    fun q together => ?_
  exact keeps_pure together

/-- The first branch leaves an `else` to the `if` it belongs to. -/
theorem follows_ifThen {then_ : Token} {mid' : List Token} {cond : Expr}
    {thenBranch elseBranch : Option Stmt} (kind : t.kind = .keyword .ifKw)
    (isThen : then_.kind = .keyword .thenKw)
    (condDerives : Derives .condition after cond (then_ :: mid))
    (thenDerives : Derives .statement mid thenBranch mid')
    (elseDerives : Derives .elsePart mid' elseBranch rest)
    (condition : Follows actual imagined .condition after cond (then_ :: mid))
    (statement : Follows actual imagined .statement mid thenBranch mid')
    (elsePart : Follows actual imagined .elsePart mid' elseBranch rest) :
    Follows actual imagined .statement (t :: after)
      (some (.ifThen { line := t.line } cond thenBranch elseBranch)) rest := by
  refine follows_of_succ fun n p together enough ahead => ?_
  have condLength := condDerives.length_le
  have thenLength := thenDerives.length_le
  have stops : Ahead Phrase.condition.Follow (then_ :: mid) := by
    rw [ahead_cons, isThen]
    exact follow_expression_keyword _
  simp only [List.length_cons] at condLength
  simp only [Phrase.read, Parsing.statement]
  rw [keeps_currentLine, keeps_currentKind, together.current_eq, kind]
  refine (keeps_skip together (isProper_of_eq kind rfl)).bind fun q together => ?_
  refine (condition n q together (enough.next (Nat.lt_succ_self _)) stops).bind
    fun r together => ?_
  refine (keeps_expect together isThen rfl).bind fun s together => ?_
  refine (statement n s together (enough.next (by simp only [List.length_cons]; omega))
    (elseDerives.ahead_elsePart ahead)).bind fun u together => ?_
  refine (elsePart n u together (enough.next (by simp only [List.length_cons]; omega)) ahead).bind
    fun v together => ?_
  exact keeps_pure together

/-- An `if` has no second branch if no `else` is ahead. -/
theorem follows_noElse (notElse : Ahead (· ≠ .keyword .elseKw) rest) :
    Follows actual imagined .elsePart rest none rest := by
  refine follows_of_succ fun n p together _ _ => ?_
  have unseen := together.current_of_ahead notElse
  simp only [Phrase.read, Parsing.elsePart]
  rw [keeps_if_unseen unseen]
  exact keeps_pure together

theorem follows_elseBranch {s : Option Stmt} (kind : t.kind = .keyword .elseKw)
    (statement : Follows actual imagined .statement after s rest) :
    Follows actual imagined .elsePart (t :: after) s rest := by
  refine follows_of_succ fun n p together enough ahead => ?_
  simp only [Phrase.read, Parsing.elsePart]
  rw [keeps_if_seen (by rw [together.current_eq, kind])]
  refine (keeps_skip together (isProper_of_eq kind rfl)).bind fun q together => ?_
  exact statement n q together (enough.next (Nat.lt_succ_self _)) ahead

/-- The condition ends at `do`, which no expression goes on with. -/
theorem follows_whileDo {do_ : Token} {cond : Expr} {body : Option Stmt}
    (kind : t.kind = .keyword .whileKw) (isDo : do_.kind = .keyword .doKw)
    (condDerives : Derives .condition after cond (do_ :: mid))
    (condition : Follows actual imagined .condition after cond (do_ :: mid))
    (statement : Follows actual imagined .statement mid body rest) :
    Follows actual imagined .statement (t :: after)
      (some (.whileDo { line := t.line } cond body)) rest := by
  refine follows_of_succ fun n p together enough ahead => ?_
  have condLength := condDerives.length_le
  have stops : Ahead Phrase.condition.Follow (do_ :: mid) := by
    rw [ahead_cons, isDo]
    exact follow_expression_keyword _
  simp only [List.length_cons] at condLength
  simp only [Phrase.read, Parsing.statement]
  rw [keeps_currentLine, keeps_currentKind, together.current_eq, kind]
  refine (keeps_skip together (isProper_of_eq kind rfl)).bind fun q together => ?_
  refine (condition n q together (enough.next (Nat.lt_succ_self _)) stops).bind
    fun r together => ?_
  refine (keeps_expect together isDo rfl).bind fun s together => ?_
  refine (statement n s together (enough.next (by simp only [List.length_cons]; omega)) ahead).bind
    fun u together => ?_
  exact keeps_pure together

/-- Inline assembly reaches to the first `end`. -/
theorem follows_asm {begin_ end_ : Token} {body : List Token} (kind : t.kind = .keyword .asmKw)
    (isBegin : begin_.kind = .keyword .beginKw)
    (inside : ∀ u ∈ body, u.kind.isProper = true ∧ u.kind ≠ .keyword .endKw)
    (isEnd : end_.kind = .keyword .endKw) :
    Follows actual imagined .statement (t :: begin_ :: (body ++ end_ :: rest))
      (some (.asm { line := t.line } (asmText [] (kinds body)))) rest := by
  refine follows_of_succ fun n p together enough _ => ?_
  simp only [Phrase.read, Parsing.statement]
  rw [keeps_currentLine, keeps_currentKind, together.current_eq, kind]
  refine (keeps_skip together (isProper_of_eq kind rfl)).bind fun q together => ?_
  refine (keeps_expect together isBegin rfl).bind fun r together => ?_
  have length := together.length_eq
  refine (keeps_asmTokens isEnd body inside n r together ?_).bind fun s together => ?_
  · unfold Enough at enough
    simp only [List.length_cons, Phrase.rank] at enough
    omega
  · refine (keeps_skip together (isProper_of_eq isEnd rfl)).bind fun u together => ?_
    exact keeps_pure together

theorem follows_control {exit : LoopExit}
    (kind : t.kind = .keyword (match exit with
      | .breakLoop => .breakKw
      | .continueLoop => .continueKw)) :
    Follows actual imagined .statement (t :: rest) (some (.control { line := t.line } exit))
      rest := by
  refine follows_of_succ fun n p together _ _ => ?_
  have taken := keeps_skip together (isProper_of_eq kind rfl)
  simp only [Phrase.read, Parsing.statement]
  rw [keeps_currentLine, keeps_currentKind, together.current_eq, kind]
  cases exit <;> exact taken.bind fun q together => keeps_pure together

theorem follows_lastStatement {opening end_ : Token} {s : Option Stmt}
    (proper : opening.kind.isProper = true) (isEnd : end_.kind = .keyword .endKw)
    (statement : Follows actual imagined .statement after s (end_ :: rest)) :
    Follows actual imagined .statements (opening :: after) s.toList rest := by
  refine follows_of_succ fun n p together enough _ => ?_
  have stops : Ahead Phrase.statement.Follow (end_ :: rest) := by
    rw [ahead_cons, isEnd]
    exact Or.inr (Or.inr (Or.inl rfl))
  simp only [Phrase.read, Parsing.statements]
  refine (keeps_skip together proper).bind fun q together => ?_
  refine (statement n q together (enough.next (Nat.lt_succ_self _)) stops).bind
    fun r together => ?_
  exact keeps_series_last together isEnd rfl (by decide)

theorem follows_moreStatements {opening semicolon : Token} {s : Option Stmt} {body : List Stmt}
    (proper : opening.kind.isProper = true) (isSemicolon : semicolon.kind = .char ';')
    (firstDerives : Derives .statement after s (semicolon :: mid))
    (statement : Follows actual imagined .statement after s (semicolon :: mid))
    (more : Follows actual imagined .statements (semicolon :: mid) body rest) :
    Follows actual imagined .statements (opening :: after) (s.toList ++ body) rest := by
  refine follows_of_succ fun n p together enough _ => ?_
  have stops : Ahead Phrase.statement.Follow (semicolon :: mid) := by
    rw [ahead_cons, isSemicolon]
    exact Or.inl rfl
  simp only [Phrase.read, Parsing.statements]
  refine (keeps_skip together proper).bind fun q together => ?_
  refine (statement n q together (enough.next (Nat.lt_succ_self _)) stops).bind
    fun r together => ?_
  refine keeps_series_more together isSemicolon ?_
  exact more n r together (enough.next (Nat.lt_succ_of_le firstDerives.length_le))
    fun _ _ => trivial

/-! ### Declarations -/

theorem follows_init {isConstant : Bool} {e : Expr} (kind : t.kind = .operator (.binary .equal))
    (expression : Follows actual imagined .expression after e rest) :
    Follows actual imagined (.initializer isConstant) (t :: after) (some e) rest := by
  intro n p together enough ahead
  have stops : Ahead Phrase.expression.Follow rest := by
    refine ahead.mono fun k follow => ?_
    rcases follow with rfl | rfl
    · exact follow_expression_char (by decide)
    · exact follow_expression_char (by decide)
  simp only [Phrase.read, Parsing.initializer]
  rw [keeps_if_seen (by rw [together.current_eq, kind])]
  refine (keeps_skip together (isProper_of_eq kind rfl)).bind fun q together => ?_
  refine (expression n q together (enough.more.next (Nat.lt_succ_self _)) stops).bind
    fun r together => ?_
  exact keeps_pure together

/-- A variable needs no initial value; a constant does. -/
theorem follows_noInit : Follows actual imagined (.initializer false) rest none rest := by
  intro n p together _ ahead
  have stops := together.current_of_ahead ahead
  have unseen : p.current.kind ≠ .operator (.binary .equal) := by
    rcases stops with same | same <;> rw [same] <;> simp
  simp only [Phrase.read, Parsing.initializer]
  rw [keeps_if_unseen unseen]
  exact keeps_pure together

theorem follows_lastDefinition {opening semicolon : Token} {isConstant : Bool} {name : String}
    {init : Option Expr} (proper : opening.kind.isProper = true) (isName : t.kind = .name name)
    (isSemicolon : semicolon.kind = .char ';')
    (initializer : Follows actual imagined (.initializer isConstant) after init
      (semicolon :: rest)) :
    Follows actual imagined (.definitions isConstant) (opening :: t :: after)
      [⟨t.line, name, init⟩] rest := by
  refine follows_of_succ fun n p together enough _ => ?_
  have stops : Ahead (Phrase.initializer isConstant).Follow (semicolon :: rest) := by
    rw [ahead_cons, isSemicolon]
    exact Or.inr rfl
  simp only [Phrase.read, Parsing.definitions]
  refine (keeps_skip together proper).bind fun q together => ?_
  rw [keeps_currentLine, together.current_eq]
  refine (keeps_expectName together isName).bind fun r together => ?_
  refine (initializer n r together (enough.next (by simp only [List.length_cons]; omega))
    stops).bind fun s together => ?_
  exact keeps_series_last together isSemicolon rfl (by decide)

theorem follows_moreDefinitions {opening comma : Token} {isConstant : Bool} {name : String}
    {init : Option Expr} {defs : List Definition} (proper : opening.kind.isProper = true)
    (isName : t.kind = .name name) (isComma : comma.kind = .char ',')
    (initDerives : Derives (.initializer isConstant) after init (comma :: mid))
    (initializer : Follows actual imagined (.initializer isConstant) after init (comma :: mid))
    (more : Follows actual imagined (.definitions isConstant) (comma :: mid) defs rest) :
    Follows actual imagined (.definitions isConstant) (opening :: t :: after)
      (⟨t.line, name, init⟩ :: defs) rest := by
  refine follows_of_succ fun n p together enough _ => ?_
  have initLength := initDerives.length_le
  have stops : Ahead (Phrase.initializer isConstant).Follow (comma :: mid) := by
    rw [ahead_cons, isComma]
    exact Or.inl rfl
  simp only [Phrase.read, Parsing.definitions]
  refine (keeps_skip together proper).bind fun q together => ?_
  rw [keeps_currentLine, together.current_eq]
  refine (keeps_expectName together isName).bind fun r together => ?_
  refine (initializer n r together (enough.next (by simp only [List.length_cons]; omega))
    stops).bind fun s together => ?_
  refine keeps_series_more together isComma ?_
  refine more n s together (enough.next ?_) fun _ _ => trivial
  simp only [List.length_cons] at initLength ⊢
  omega

/-- A section is left out if its keyword is not ahead. -/
theorem follows_noSection {isConstant : Bool} :
    Follows actual imagined (.section isConstant) rest none rest := by
  intro n p together _ ahead
  have unseen := together.current_of_ahead ahead
  simp only [Phrase.read, Parsing.declarations?]
  rw [keeps_currentLine, keeps_if_unseen unseen]
  exact keeps_pure together

theorem follows_someSection {isConstant : Bool} {defs : List Definition}
    (kind : t.kind = .keyword (sectionKeyword isConstant))
    (definitions : Follows actual imagined (.definitions isConstant) (t :: after) defs rest) :
    Follows actual imagined (.section isConstant) (t :: after)
      (some { line := t.line, defs := defs }) rest := by
  intro n p together enough _
  simp only [Phrase.read, Parsing.declarations?]
  rw [keeps_currentLine, keeps_if_seen (by rw [together.current_eq, kind]), together.current_eq]
  refine (definitions n p together (enough.mono (Nat.le_refl _)) fun _ _ => trivial).bind
    fun q together => ?_
  exact keeps_pure together

theorem follows_lastParameter {opening closing : Token} {name : String}
    (proper : opening.kind.isProper = true) (isName : t.kind = .name name)
    (isClosing : closing.kind = .char ')') :
    Follows actual imagined .parameters (opening :: t :: closing :: rest) [name] rest := by
  refine follows_of_succ fun n p together _ _ => ?_
  simp only [Phrase.read, Parsing.parameters]
  refine (keeps_skip together proper).bind fun q together => ?_
  refine (keeps_expectName together isName).bind fun r together => ?_
  exact keeps_series_last together isClosing rfl (by decide)

theorem follows_moreParameters {opening comma : Token} {name : String} {params : List String}
    (proper : opening.kind.isProper = true) (isName : t.kind = .name name)
    (isComma : comma.kind = .char ',')
    (more : Follows actual imagined .parameters (comma :: mid) params rest) :
    Follows actual imagined .parameters (opening :: t :: comma :: mid) (name :: params) rest := by
  refine follows_of_succ fun n p together enough _ => ?_
  simp only [Phrase.read, Parsing.parameters]
  refine (keeps_skip together proper).bind fun q together => ?_
  refine (keeps_expectName together isName).bind fun r together => ?_
  refine keeps_series_more together isComma ?_
  exact more n r together (enough.next (by simp only [List.length_cons]; omega)) fun _ _ => trivial

theorem follows_procedureSignature :
    Follows actual imagined (.signature false) rest .procedure rest :=
  fun _ _ together _ _ => keeps_pure together

/-- A function may be declared without parameters. -/
theorem follows_noParameters :
    Follows actual imagined (.signature true) rest (.function []) rest := by
  intro n p together _ ahead
  have stops : p.current.kind = .char ';' := together.current_of_ahead ahead
  simp only [Phrase.read, routineKeyword, if_true, Parsing.signature]
  rw [keeps_if_unseen (by simp [stops])]
  exact keeps_pure together

theorem follows_someParameters {opening : Token} {params : List String}
    (isOpening : opening.kind = .char '(')
    (parameters : Follows actual imagined .parameters (opening :: after) params rest) :
    Follows actual imagined (.signature true) (opening :: after) (.function params) rest := by
  intro n p together enough _
  simp only [Phrase.read, routineKeyword, if_true, Parsing.signature]
  rw [keeps_if_seen (by rw [together.current_eq, isOpening])]
  refine (parameters n p together (enough.mono (Nat.le_refl _)) fun _ _ => trivial).bind
    fun q together => ?_
  exact keeps_pure together

/-! ### Blocks -/

/-- The parts of a block, in order. Each of the first three may be missing, so what follows it has
to begin otherwise. -/
theorem follows_block {mid' mid'' : List Token} {consts vars : Option Decls}
    {routineTrees : List Routine} {body : Option Stmt}
    (constsDerive : Derives (.section true) input consts mid)
    (varsDerive : Derives (.section false) mid vars mid')
    (routinesDerive : Derives .routines mid' routineTrees mid'')
    (bodyDerives : Derives .statement mid'' body rest)
    (constSection : Follows actual imagined (.section true) input consts mid)
    (varSection : Follows actual imagined (.section false) mid vars mid')
    (routines : Follows actual imagined .routines mid' routineTrees mid'')
    (statement : Follows actual imagined .statement mid'' body rest) :
    Follows actual imagined .block input
      { line := lineOf input, consts := consts, vars := vars, routines := routineTrees,
        body := body } rest := by
  refine follows_of_succ fun n p together enough ahead => ?_
  -- A part that is not there costs no token, so the next one may start on the same.
  have room {y : Phrase} {tokens : List Token} (length : tokens.length ≤ input.length)
      (rank : y.rank = 1) : Enough actual imagined n y tokens := by
    unfold Enough at enough ⊢
    simp only [Phrase.rank] at enough
    omega
  have constsLength := constsDerive.length_le
  have varsLength := varsDerive.length_le
  have routinesLength := routinesDerive.length_le
  -- Each part is followed by a token that the next one starts with.
  have stops : Ahead Phrase.statement.Follow rest := by
    refine ahead.mono fun k follow => ?_
    rcases follow with rfl | rfl
    · exact Or.inl rfl
    · exact Or.inr (Or.inl rfl)
  have declaring (word : Keyword) (h : isDeclaring word = true) := bodyDerives.ahead_statement h stops
  have afterRoutines : Ahead Phrase.routines.Follow mid'' := by
    intro u mem isFunction
    refine declaring (routineKeyword isFunction) ?_ u mem
    cases isFunction <;> rfl
  have afterVars := routinesDerive.ahead_routines (declaring (sectionKeyword false) rfl)
  have afterConsts :=
    varsDerive.ahead_variables (routinesDerive.ahead_routines (declaring (sectionKeyword true) rfl))
  simp only [Phrase.read, Parsing.block]
  rw [keeps_currentLine, ← together.line_eq]
  refine (constSection n p together (room (Nat.le_refl _) rfl) afterConsts).bind
    fun q together => ?_
  refine (varSection n q together (room constsLength rfl) afterVars).bind fun r together => ?_
  refine (routines n r together (room (by omega) rfl) afterRoutines).bind fun s together => ?_
  refine (statement n s together (room (by omega) rfl) stops).bind fun u together => ?_
  exact keeps_pure together

/-- Routines end where neither of their keywords is ahead. -/
theorem follows_noRoutines : Follows actual imagined .routines rest [] rest := by
  refine follows_of_succ fun n p together _ ahead => ?_
  have stops := together.current_of_ahead ahead
  simp only [Phrase.read, Parsing.routines]
  rw [keeps_currentKind]
  split
  · next kind => exact absurd kind (stops false)
  · next kind => exact absurd kind (stops true)
  · exact keeps_pure together

theorem follows_moreRoutines {isFunction : Bool} {first : Routine} {others : List Routine}
    (firstDerives : Derives (.routine isFunction) input first mid)
    (routine : Follows actual imagined (.routine isFunction) input first mid)
    (more : Follows actual imagined .routines mid others rest) :
    Follows actual imagined .routines input (first :: others) rest := by
  refine follows_of_succ fun n p together enough ahead => ?_
  have starts : Ahead (· = .keyword (routineKeyword isFunction)) input := by
    cases firstDerives with
    | routine kind => exact ahead_cons.mpr kind
  have kind := together.current_of_ahead starts
  have step : Keeps actual imagined (do
      let first ← (Phrase.routine isFunction).read n
      let rest ← Parsing.routines n
      return first :: rest) p (first :: others) rest := by
    refine (routine n p together (enough.within (Nat.le_refl _)) fun _ _ => trivial).bind
      fun q together => ?_
    refine (more n q together (enough.next firstDerives.routine_length_lt) ahead).bind
      fun r together => ?_
    exact keeps_pure together
  simp only [Phrase.read, Parsing.routines]
  rw [keeps_currentKind, kind]
  cases isFunction <;> exact step

/-- A routine has a semicolon behind its head and one behind its block. -/
theorem follows_routine {t' semicolon semicolon' : Token} {isFunction : Bool} {name : String}
    {sig : RoutineKind} {tree : Block} (kind : t.kind = .keyword (routineKeyword isFunction))
    (isName : t'.kind = .name name) (isSemicolon : semicolon.kind = .char ';')
    (isSemicolon' : semicolon'.kind = .char ';')
    (sigDerives : Derives (.signature isFunction) after sig (semicolon :: mid))
    (signature : Follows actual imagined (.signature isFunction) after sig (semicolon :: mid))
    (block : Follows actual imagined .block mid tree (semicolon' :: rest)) :
    Follows actual imagined (.routine isFunction) (t :: t' :: after)
      { line := t.line, name := name, kind := sig, block := tree } rest := by
  refine follows_of_succ fun n p together enough _ => ?_
  have sigLength := sigDerives.length_le
  have sigStops : Ahead (Phrase.signature isFunction).Follow (semicolon :: mid) :=
    ahead_cons.mpr isSemicolon
  have blockStops : Ahead Phrase.block.Follow (semicolon' :: rest) :=
    ahead_cons.mpr (Or.inl isSemicolon')
  simp only [List.length_cons] at sigLength
  simp only [Phrase.read, Parsing.routine]
  rw [keeps_currentLine, together.current_eq]
  refine (keeps_skip together (isProper_of_eq kind rfl)).bind fun q together => ?_
  refine (keeps_expectName together isName).bind fun r together => ?_
  refine (signature n r together (enough.next (by simp only [List.length_cons]; omega))
    sigStops).bind fun s together => ?_
  refine (keeps_expect together isSemicolon rfl).bind fun u together => ?_
  refine (block n u together (enough.next (by simp only [List.length_cons]; omega))
    blockStops).bind fun v together => ?_
  refine (keeps_expect together isSemicolon' rfl).bind fun w together => ?_
  exact keeps_pure together

/-! ### All phrases -/

/-- Every reader goes along with every derivation of its phrase. -/
theorem Derives.follows {tree : x.Tree} (h : Derives x input tree rest)
    (entry : Ahead x.Entry input) : Follows actual imagined x input tree rest := by
  have free (tokens : List Token) : Ahead (fun _ => True) tokens := fun _ _ => trivial
  induction h with
  | signed kind additive term more ihTerm ihMore =>
    exact follows_signed kind additive term more (ihTerm (free _)) (ihMore (free _))
  | unsigned term more ihTerm ihMore =>
    exact follows_unsigned term more (ihTerm (free _)) (ihMore (free _))
  | lastTerm => exact follows_lastTerm
  | nextTerm kind additive term more ihTerm ihMore =>
    exact follows_nextTerm kind additive term more (ihTerm (free _)) (ihMore (free _))
  | term factor more ihFactor ihMore =>
    exact follows_term factor more (ihFactor (free _)) (ihMore (free _))
  | lastFactor => exact follows_lastFactor
  | nextFactor kind multiplicative factor more ihFactor ihMore =>
    exact follows_nextFactor kind multiplicative factor more (ihFactor (free _)) (ihMore (free _))
  | name kind => exact follows_name kind
  | call kind isOpening _ ih =>
    exact follows_call kind isOpening (ih (ahead_cons.mpr (isProper_of_eq isOpening rfl)))
  | number kind => exact follows_number kind
  | parentheses isOpening _ isClosing ih =>
    exact follows_parentheses isOpening isClosing (ih (free _))
  | lastArgument _ isClosing ih =>
    exact follows_lastArgument (ahead_cons.mp entry) isClosing (ih (free _))
  | moreArguments first isComma _ ihFirst ihMore =>
    exact follows_moreArguments (ahead_cons.mp entry) isComma first (ihFirst (free _))
      (ihMore (ahead_cons.mpr (isProper_of_eq isComma rfl)))
  | odd kind _ ih => exact follows_odd kind (ih (free _))
  | comparison left kind relational _ ihLeft ihRight =>
    exact follows_comparison kind relational left (ihLeft (free _)) (ihRight (free _))
  | empty => exact follows_empty
  | assign kind isArrow _ ih => exact follows_assign kind isArrow (ih (free _))
  | callStatement kind isOpening _ ih =>
    exact follows_callStatement kind isOpening (ih (ahead_cons.mpr (isProper_of_eq isOpening rfl)))
  | nameStatement kind => exact follows_nameStatement kind
  | sequence kind _ ih =>
    exact follows_sequence kind (ih (ahead_cons.mpr (isProper_of_eq kind rfl)))
  | ifThen kind cond isThen thenBranch elseBranch ihCond ihThen ihElse =>
    exact follows_ifThen kind isThen cond thenBranch elseBranch (ihCond (free _)) (ihThen (free _))
      (ihElse (free _))
  | noElse notElse => exact follows_noElse notElse
  | elseBranch kind _ ih => exact follows_elseBranch kind (ih (free _))
  | whileDo kind cond isDo _ ihCond ihBody =>
    exact follows_whileDo kind isDo cond (ihCond (free _)) (ihBody (free _))
  | asm kind isBegin inside isEnd => exact follows_asm kind isBegin inside isEnd
  | breakLoop kind => exact follows_control kind
  | continueLoop kind => exact follows_control kind
  | lastStatement _ isEnd ih =>
    exact follows_lastStatement (ahead_cons.mp entry) isEnd (ih (free _))
  | moreStatements first isSemicolon _ ihFirst ihMore =>
    exact follows_moreStatements (ahead_cons.mp entry) isSemicolon first (ihFirst (free _))
      (ihMore (ahead_cons.mpr (isProper_of_eq isSemicolon rfl)))
  | init kind _ ih => exact follows_init kind (ih (free _))
  | noInit => exact follows_noInit
  | lastDefinition isName _ isSemicolon ih =>
    exact follows_lastDefinition (ahead_cons.mp entry) isName isSemicolon (ih (free _))
  | moreDefinitions isName init isComma _ ihInit ihMore =>
    exact follows_moreDefinitions (ahead_cons.mp entry) isName isComma init (ihInit (free _))
      (ihMore (ahead_cons.mpr (isProper_of_eq isComma rfl)))
  | noSection => exact follows_noSection
  | someSection kind _ ih =>
    exact follows_someSection kind (ih (ahead_cons.mpr (isProper_of_eq kind rfl)))
  | lastParameter isName isClosing =>
    exact follows_lastParameter (ahead_cons.mp entry) isName isClosing
  | moreParameters isName isComma _ ih =>
    exact follows_moreParameters (ahead_cons.mp entry) isName isComma
      (ih (ahead_cons.mpr (isProper_of_eq isComma rfl)))
  | procedureSignature => exact follows_procedureSignature
  | noParameters => exact follows_noParameters
  | someParameters isOpening _ ih =>
    exact follows_someParameters isOpening (ih (ahead_cons.mpr (isProper_of_eq isOpening rfl)))
  | block consts vars routines body ihConsts ihVars ihRoutines ihBody =>
    exact follows_block consts vars routines body (ihConsts (free _)) (ihVars (free _))
      (ihRoutines (free _)) (ihBody (free _))
  | noRoutines => exact follows_noRoutines
  | moreRoutines first _ ihFirst ihMore =>
    refine follows_moreRoutines first (ihFirst ?_) (ihMore (free _))
    cases first with
    | routine kind => exact ahead_cons.mpr kind
  | routine kind isName sig isSemicolon _ isSemicolon' ihSig ihBlock =>
    exact follows_routine kind isName isSemicolon isSemicolon' sig (ihSig (free _))
      (ihBlock (free _))

end

end PlZero.Grammar
