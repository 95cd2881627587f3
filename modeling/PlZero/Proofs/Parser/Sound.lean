import PlZero.Proofs.Parser.Item

/-!
Every reader keeps its promise, whatever the bound on nesting is: what it accepts has a derivation,
and what it had taken before a failure could have been continued.

There is one lemma for each reader, from those it calls; the readers that call each other are then
settled together, by induction on the bound.
-/

namespace PlZero.Grammar

open Computability
open Token (Kind)
open Parsing (Runs Rejects runs_bind runs_pure runs_currentKind runs_currentLine runs_if_sees
  runs_skip runs_reject runs_operator?)

variable {n : Nat}

@[simp] theorem lineOf_pending (p : Parser) : lineOf p.pending = p.current.line := by
  obtain ⟨later, same⟩ := p.pending_eq_cons
  rw [same, lineOf_cons]

/-- With no bound left a reader rejects what it stands on. -/
theorem sound_of_reject {x : Phrase} {fault : GrammarFault}
    (read : x.read n = Parsing.reject fault) : Sound x n := by
  intro p _
  rw [read]
  refine runs_reject fun failure q rejects => ?_
  exact ⟨[], p, .refl, hasWord_phrase x, rejects⟩

/-! ### Expressions -/

/-- An optional sign, a term, and more of them. -/
theorem expression_step (term : Sound .term n) (more : ∀ line lhs, Sound (.moreTerms line lhs) n) :
    Sound .expression (n + 1) := by
  intro p _
  have item : Item .expression p [optional (operator BinaryOp.isAdditive), language .term,
      ([operator BinaryOp.isAdditive, language .term].prod)∗] p :=
    .start _ (fun w h => mem_language h) (by simp)
  simp only [Phrase.read, Parsing.expression, runs_bind, runs_currentLine]
  apply runs_operator?
  · intro op kind additive
    have proper := isProper_of_eq kind rfl
    have signed := (item.present (hasWord_operator op additive)).take proper ⟨op, kind, additive⟩
    refine term.runs signed trivial fun first q item derives => ?_
    refine (more _ _).runs item trivial fun e r item derives' => ?_
    refine ⟨item.reaches, ?_⟩
    rw [pending_of_proper proper]
    exact .signed kind additive derives derives'
  · intro _
    refine term.runs item.absent trivial fun first q item derives => ?_
    refine (more _ _).runs item trivial fun e r item derives' => ?_
    refine ⟨item.reaches, .unsigned derives ?_⟩
    rw [lineOf_pending]
    exact derives'

/-- Either no sign is ahead, and all that was read stands on the left; or one is taken and joins one
more term to it. -/
theorem moreTerms_step (term : Sound .term n) (more : ∀ line lhs, Sound (.moreTerms line lhs) n)
    (line : Nat) (lhs : Expr) : Sound (.moreTerms line lhs) (n + 1) := by
  intro p _
  have item : Item (.moreTerms line lhs) p
      [([operator BinaryOp.isAdditive, language .term].prod)∗] p :=
    .start _ (fun w h => mem_prod_singleton.mp h) (by simp)
  simp only [Phrase.read, Parsing.moreTerms, runs_bind]
  apply runs_operator?
  · intro op kind additive
    have proper := isProper_of_eq kind rfl
    have next := (item.again (by simpa using hasWord_operator op additive)).parts.take proper
      ⟨op, kind, additive⟩
    simp only [runs_bind]
    refine term.runs next trivial fun rhs q item derives => ?_
    refine (more _ _).runs item trivial fun e r item derives' => ?_
    refine ⟨item.reaches, ?_⟩
    rw [pending_of_proper proper]
    exact .nextTerm kind additive derives derives'
  · intro _
    exact ⟨⟨[], .refl⟩, .lastTerm⟩

theorem term_step (factor : Sound .factor n)
    (more : ∀ line lhs, Sound (.moreFactors line lhs) n) : Sound .term (n + 1) := by
  intro p _
  have item : Item .term p [language .factor,
      ([operator BinaryOp.isMultiplicative, language .factor].prod)∗] p :=
    .start _ (fun w h => mem_language h) (by simp)
  simp only [Phrase.read, Parsing.term, runs_bind, runs_currentLine]
  refine factor.runs item trivial fun first q item derives => ?_
  refine (more _ _).runs item trivial fun e r item derives' => ?_
  refine ⟨item.reaches, .term derives ?_⟩
  rw [lineOf_pending]
  exact derives'

theorem moreFactors_step (factor : Sound .factor n)
    (more : ∀ line lhs, Sound (.moreFactors line lhs) n) (line : Nat) (lhs : Expr) :
    Sound (.moreFactors line lhs) (n + 1) := by
  intro p _
  have item : Item (.moreFactors line lhs) p
      [([operator BinaryOp.isMultiplicative, language .factor].prod)∗] p :=
    .start _ (fun w h => mem_prod_singleton.mp h) (by simp)
  simp only [Phrase.read, Parsing.moreFactors, runs_bind]
  apply runs_operator?
  · intro op kind multiplicative
    have proper := isProper_of_eq kind rfl
    have next := (item.again (by simpa using hasWord_operator op multiplicative)).parts.take proper
      ⟨op, kind, multiplicative⟩
    simp only [runs_bind]
    refine factor.runs next trivial fun rhs q item derives => ?_
    refine (more _ _).runs item trivial fun e r item derives' => ?_
    refine ⟨item.reaches, ?_⟩
    rw [pending_of_proper proper]
    exact .nextFactor kind multiplicative derives derives'
  · intro _
    exact ⟨⟨[], .refl⟩, .lastFactor⟩

/-- A factor is chosen by its first token, and behind a name by the second. -/
theorem factor_step (expression : Sound .expression n) (arguments : Sound .arguments n) :
    Sound .factor (n + 1) := by
  intro p _
  simp only [Phrase.read, Parsing.factor]
  rw [runs_bind, runs_currentLine, runs_bind, runs_currentKind]
  split
  · next name kind =>
    have proper := isProper_of_eq kind rfl
    have item : Item .factor p
        [id, optional [symbol '(', series ',' (language .expr), symbol ')'].prod] p :=
      .start _ (fun w h => mem_language (Or.inl (Or.inl h))) (by simp)
    have named := item.take proper ⟨name, kind⟩
    simp only [runs_bind, runs_skip]
    refine runs_if_sees (fun isOpening => ?_) fun _ => ?_
    · have opening := isProper_of_eq isOpening rfl
      simp only [runs_bind, runs_pure]
      refine arguments.runs_last (named.present (by simp)).parts opening
        (fun w mem => entered isOpening mem) fun args r reached derives => ⟨reached, ?_⟩
      rw [pending_of_proper opening] at derives
      rw [pending_of_proper proper, pending_of_proper opening]
      exact .call kind isOpening derives
    · refine ⟨named.reaches, ?_⟩
      rw [pending_of_proper proper]
      exact .name kind
  · next value kind =>
    have proper := isProper_of_eq kind rfl
    refine ⟨⟨_, .single proper⟩, ?_⟩
    rw [pending_of_proper proper]
    exact .number kind
  · refine runs_if_sees (fun isOpening => ?_) fun _ => ?_
    · have proper := isProper_of_eq isOpening rfl
      have item : Item .factor p [symbol '(', language .expr, symbol ')'] p :=
        .start _ (fun w h => mem_language (Or.inr h)) (by simp)
      simp only [runs_bind, runs_skip]
      refine expression.runs (item.take proper isOpening) trivial fun e q item derives => ?_
      refine item.expect rfl fun isClosing ahead item => ⟨item.reaches, ?_⟩
      rw [ahead] at derives
      rw [pending_of_proper proper]
      exact .parentheses isOpening derives isClosing
    · exact runs_reject fun failure q rejects =>
        ⟨[], p, .refl, hasWord_phrase .factor, rejects⟩

/-- Both the opening parenthesis and the commas are skipped, since the caller has looked at the
first. -/
theorem arguments_step (expression : Sound .expression n) (arguments : Sound .arguments n) :
    Sound .arguments (n + 1) := by
  intro p proper
  have item : Item .arguments p [anyToken, series ',' (language .expr), symbol ')'] p :=
    .start _ (fun w h => h) (hasWord_phrase .arguments)
  simp only [Phrase.read, Parsing.arguments, runs_bind, runs_skip]
  refine expression.runs (item.take proper trivial).parts trivial fun first q item derives => ?_
  refine item.runs_series rfl rfl rfl arguments (fun args r isComma ahead derives' => ?_)
    fun isClosing ahead => ?_
  · rw [ahead] at derives derives'
    rw [pending_of_proper proper]
    exact .moreArguments derives isComma derives'
  · rw [ahead] at derives
    rw [pending_of_proper proper]
    exact .lastArgument derives isClosing

/-- The readers of expressions, which call each other. -/
theorem expressions_sound (n : Nat) :
    Sound .expression n ∧ (∀ line lhs, Sound (.moreTerms line lhs) n) ∧ Sound .term n ∧
      (∀ line lhs, Sound (.moreFactors line lhs) n) ∧ Sound .factor n ∧ Sound .arguments n := by
  induction n with
  | zero =>
    exact ⟨sound_of_reject rfl, fun _ _ => sound_of_reject rfl, sound_of_reject rfl,
      fun _ _ => sound_of_reject rfl, sound_of_reject rfl, sound_of_reject rfl⟩
  | succ n ih =>
    obtain ⟨expression, moreTerms, term, moreFactors, factor, arguments⟩ := ih
    exact ⟨expression_step term moreTerms, moreTerms_step term moreTerms,
      term_step factor moreFactors, moreFactors_step factor moreFactors,
      factor_step expression arguments, arguments_step expression arguments⟩

theorem expression_sound (n : Nat) : Sound .expression n := (expressions_sound n).1

theorem arguments_sound (n : Nat) : Sound .arguments n := (expressions_sound n).2.2.2.2.2

/-- A condition is no part of the recursion of expressions, which it uses. -/
theorem condition_sound (n : Nat) : Sound .condition n := by
  intro p _
  have comparisons : HasWord (operator BinaryOp.isRelational) := hasWord_operator .equal rfl
  simp only [Phrase.read, Parsing.condition, runs_bind, runs_currentLine]
  refine runs_if_sees (fun isOdd => ?_) fun _ => ?_
  · have proper := isProper_of_eq isOdd rfl
    have item : Item .condition p [keyword .oddKw, language .expr] p :=
      .start _ (fun w h => mem_language (Or.inl h)) (by simp)
    simp only [runs_bind, runs_skip, runs_pure]
    refine (expression_sound n).runs (item.take proper isOdd) trivial
      fun e q item derives => ⟨item.reaches, ?_⟩
    rw [pending_of_proper proper]
    exact .odd isOdd derives
  · have item : Item .condition p
        [language .expr, operator BinaryOp.isRelational, language .expr] p :=
      .start _ (fun w h => mem_language (Or.inr h)) (by simp [comparisons])
    simp only [runs_bind]
    refine (expression_sound n).runs item trivial fun lhs q item derives => ?_
    apply runs_operator?
    · intro op kind relational
      have proper := isProper_of_eq kind rfl
      simp only [runs_bind, runs_pure]
      refine (expression_sound n).runs (item.take proper ⟨op, kind, relational⟩) trivial
        fun rhs r item derives' => ⟨item.reaches, ?_⟩
      rw [pending_of_proper proper] at derives
      rw [← lineOf_pending]
      exact .comparison derives kind relational derives'
    · intro _
      exact runs_reject fun failure r rejects => item.stop rejects

/-! ### Statements -/

/-- Reading inline assembly stops on `end`, or rejects what it cannot hold. -/
theorem asmTokens_runs (n : Nat) (p : Parser) :
    Runs (Parsing.asmTokens n) p
      (fun found q => ∃ body, p.Reaches body q ∧ found = kinds body ∧
        (∀ t ∈ body, t.kind.isProper = true ∧ t.kind ≠ .keyword .endKw) ∧
        q.current.kind = .keyword .endKw)
      (fun failure q => ∃ body place, p.Reaches body place ∧
        (∀ t ∈ body, t.kind.isProper = true ∧ t.kind ≠ .keyword .endKw) ∧
        Rejects place failure q) := by
  induction n generalizing p with
  | zero => exact runs_reject fun failure q rejects => ⟨[], p, .refl, by simp, rejects⟩
  | succ n ih =>
    simp only [Parsing.asmTokens, runs_bind, runs_currentKind]
    split
    · next isEnd => exact ⟨[], .refl, rfl, by simp, isEnd⟩
    · exact runs_reject fun failure q rejects => ⟨[], p, .refl, by simp, rejects⟩
    · exact runs_reject fun failure q rejects => ⟨[], p, .refl, by simp, rejects⟩
    · next notEnd notOver notInvalid =>
      have proper : p.current.kind.isProper = true := by
        cases kind : p.current.kind with
        | endOfText => exact absurd kind notOver
        | invalid fault => exact absurd kind (notInvalid fault)
        | _ => rfl
      have here : p.current.kind.isProper = true ∧ p.current.kind ≠ .keyword .endKw :=
        ⟨proper, notEnd⟩
      simp only [runs_bind, runs_skip, runs_pure]
      refine (ih p.advance).mono ?_ ?_
      · rintro found q ⟨body, reaches, rfl, inside, isEnd⟩
        exact ⟨p.current :: body, .step proper reaches, rfl, by simpa using ⟨here, inside⟩, isEnd⟩
      · rintro failure q ⟨body, place, reaches, inside, rejects⟩
        exact ⟨p.current :: body, place, .step proper reaches, by simpa using ⟨here, inside⟩,
          rejects⟩

/-- A statement that starts with a name. -/
theorem nameStatement_runs {p : Parser} {name : String} (kind : p.current.kind = .name name) :
    Runs (do
      Parsing.skip
      if ← Parsing.sees (.operator .assign) then
        Parsing.skip
        let value ← Parsing.expression n
        return some (.assign { line := p.current.line } { name } value)
      else if ← Parsing.sees (.char '(') then
        let args ← Parsing.arguments n
        return some (.call { line := p.current.line } { name } args)
      else return some (.name { line := p.current.line } { name }))
      p (Accepted .statement p) (Stopped .statement p) := by
  have proper := isProper_of_eq kind rfl
  have item : Item .statement p [id, [becomes, language .expr].prod +
      [symbol '(', series ',' (language .expr), symbol ')'].prod + 1] p :=
    .start _ (fun w h => mem_statement_of .idStat (by simp) (mem_language h)) (by simp)
  have named := item.take proper ⟨name, kind⟩
  simp only [runs_bind, runs_skip]
  refine runs_if_sees (fun isArrow => ?_) fun _ => runs_if_sees (fun isOpening => ?_) fun _ => ?_
  · have arrow := isProper_of_eq isArrow rfl
    have assigned : Item .statement p [becomes, language .expr] p.advance :=
      named.choose (fun w mem => mem_prod_singleton.mpr (Or.inl (Or.inl mem))) (by simp)
    simp only [runs_bind, runs_skip, runs_pure]
    refine (expression_sound n).runs (assigned.take arrow isArrow) trivial
      fun e q item derives => ⟨item.reaches, ?_⟩
    rw [pending_of_proper proper, pending_of_proper arrow]
    exact .assign kind isArrow derives
  · have opening := isProper_of_eq isOpening rfl
    have called : Item .statement p [symbol '(', series ',' (language .expr), symbol ')']
        p.advance :=
      named.choose (fun w mem => mem_prod_singleton.mpr (Or.inl (Or.inr mem))) (by simp)
    simp only [runs_bind, runs_pure]
    refine (arguments_sound n).runs_last called opening (fun w mem => entered isOpening mem)
      fun args q reached derives => ⟨reached, ?_⟩
    rw [pending_of_proper opening] at derives
    rw [pending_of_proper proper, pending_of_proper opening]
    exact .callStatement kind isOpening derives
  · refine ⟨named.reaches, ?_⟩
    rw [pending_of_proper proper]
    exact .nameStatement kind

/-- A statement of inline assembly. -/
theorem asm_runs {p : Parser} (kind : p.current.kind = .keyword .asmKw) :
    Runs (do
      Parsing.skip
      Parsing.expect (.keyword .beginKw) .beginRequired
      let tokens ← Parsing.asmTokens n
      Parsing.skip
      return some (.asm { line := p.current.line } (Parsing.asmText [] tokens)))
      p (Accepted .statement p) (Stopped .statement p) := by
  have proper := isProper_of_eq kind rfl
  have item : Item .statement p [keyword .asmKw, keyword .beginKw, asmToken∗, keyword .endKw] p :=
    .start _ (fun w h => mem_statement_of .asm (by simp) (mem_language h)) (by simp)
  simp only [runs_bind, runs_skip]
  refine (item.take proper kind).expect rfl fun isBegin ahead item => ?_
  simp only [runs_pure]
  refine (asmTokens_runs n _).mono ?_ ?_
  · rintro found q ⟨body, reaches, rfl, inside, isEnd⟩
    have ending := isProper_of_eq isEnd rfl
    have done := (item.read reaches (asmTokens_mem inside)).take ending isEnd
    refine ⟨done.reaches, ?_⟩
    rw [pending_of_proper proper, ahead, reaches.pending_eq, pending_of_proper ending]
    exact .asm kind isBegin inside isEnd
  · rintro failure q ⟨body, place, reaches, inside, rejects⟩
    exact (item.read reaches (asmTokens_mem inside)).stop rejects

/-- A statement is chosen by its first token; if none fits, it is empty. -/
theorem statement_step (statement : Sound .statement n) (elsePart : Sound .elsePart n)
    (statements : Sound .statements n) : Sound .statement (n + 1) := by
  intro p _
  simp only [Phrase.read, Parsing.statement]
  rw [runs_bind, runs_currentLine, runs_bind, runs_currentKind]
  split
  · next name kind => exact nameStatement_runs kind
  · next kind =>
    have proper := isProper_of_eq kind rfl
    have item : Item .statement p
        [keyword .beginKw, series ';' (language .statement), keyword .endKw] p :=
      .start _ (fun w h => mem_statement_of .beginEnd (by simp) (mem_language h)) (by simp)
    simp only [runs_bind, runs_pure]
    refine statements.runs_last item proper (fun w mem => entered kind mem)
      fun body q reached derives => ⟨reached, ?_⟩
    rw [pending_of_proper proper] at derives ⊢
    exact .sequence kind derives
  · next kind =>
    have proper := isProper_of_eq kind rfl
    have item : Item .statement p [keyword .ifKw, language .cond, keyword .thenKw,
        language .statement, optional [keyword .elseKw, language .statement].prod] p :=
      .start _ (fun w h => mem_statement_of .ifStat (by simp) (mem_language h)) (by simp)
    simp only [runs_bind, runs_skip]
    refine (condition_sound n).runs (item.take proper kind) trivial fun cond q item derives => ?_
    refine item.expect rfl fun isThen ahead item => ?_
    refine statement.runs item trivial fun thenBranch r item derives' => ?_
    refine elsePart.runs item trivial fun elseBranch s item derives'' => ⟨item.reaches, ?_⟩
    rw [ahead] at derives
    rw [pending_of_proper proper]
    exact .ifThen kind derives isThen derives' derives''
  · next kind =>
    have proper := isProper_of_eq kind rfl
    have item : Item .statement p
        [keyword .whileKw, language .cond, keyword .doKw, language .statement] p :=
      .start _ (fun w h => mem_statement_of .whileStat (by simp) (mem_language h)) (by simp)
    simp only [runs_bind, runs_skip]
    refine (condition_sound n).runs (item.take proper kind) trivial fun cond q item derives => ?_
    refine item.expect rfl fun isDo ahead item => ?_
    refine statement.runs item trivial fun body r item derives' => ⟨item.reaches, ?_⟩
    rw [ahead] at derives
    rw [pending_of_proper proper]
    exact .whileDo kind derives isDo derives'
  · next kind => exact asm_runs kind
  · next kind =>
    have proper := isProper_of_eq kind rfl
    refine ⟨⟨_, .single proper⟩, ?_⟩
    rw [pending_of_proper proper]
    exact .breakLoop kind
  · next kind =>
    have proper := isProper_of_eq kind rfl
    refine ⟨⟨_, .single proper⟩, ?_⟩
    rw [pending_of_proper proper]
    exact .continueLoop kind
  · exact ⟨⟨[], .refl⟩, .empty⟩

/-- An `else` is taken wherever it may be, so it goes to the nearest `if`. -/
theorem elsePart_step (statement : Sound .statement n) : Sound .elsePart (n + 1) := by
  intro p _
  simp only [Phrase.read, Parsing.elsePart]
  refine runs_if_sees (fun isElse => ?_) fun notElse => ?_
  · have proper := isProper_of_eq isElse rfl
    have item : Item .elsePart p [keyword .elseKw, language .statement] p :=
      .start _ (fun w h => mem_optional.mpr (Or.inr h)) (by simp)
    simp only [runs_bind, runs_skip]
    refine statement.runs (item.take proper isElse) trivial
      fun s q item derives => ⟨item.reaches, ?_⟩
    rw [pending_of_proper proper]
    exact .elseBranch isElse derives
  · refine ⟨⟨[], .refl⟩, .noElse ?_⟩
    obtain ⟨later, same⟩ := p.pending_eq_cons
    rw [same, ahead_cons]
    exact notElse

/-- Statements are separated by semicolons and may be empty, so that one may stand before `end`. -/
theorem statements_step (statement : Sound .statement n) (statements : Sound .statements n) :
    Sound .statements (n + 1) := by
  intro p proper
  have item : Item .statements p
      [anyToken, series ';' (language .statement), keyword .endKw] p :=
    .start _ (fun w h => h) (hasWord_phrase .statements)
  simp only [Phrase.read, Parsing.statements]
  rw [runs_bind, runs_skip, runs_bind]
  refine statement.runs (item.take proper trivial).parts trivial fun first q item derives => ?_
  refine item.runs_series rfl rfl rfl statements (fun body r isSemicolon ahead derives' => ?_)
    fun isEnd ahead => ?_
  · rw [ahead] at derives derives'
    rw [pending_of_proper proper]
    exact .moreStatements derives isSemicolon derives'
  · rw [ahead] at derives
    rw [pending_of_proper proper]
    exact .lastStatement derives isEnd

/-- The readers of statements, which call each other. -/
theorem statements_sound (n : Nat) :
    Sound .statement n ∧ Sound .elsePart n ∧ Sound .statements n := by
  induction n with
  | zero => exact ⟨sound_of_reject rfl, sound_of_reject rfl, sound_of_reject rfl⟩
  | succ n ih =>
    obtain ⟨statement, elsePart, statements⟩ := ih
    exact ⟨statement_step statement elsePart statements, elsePart_step statement,
      statements_step statement statements⟩

theorem statement_sound (n : Nat) : Sound .statement n := (statements_sound n).1

/-! ### Declarations -/

theorem initializer_sound (n : Nat) (isConstant : Bool) : Sound (.initializer isConstant) n := by
  intro p _
  simp only [Phrase.read, Parsing.initializer]
  refine runs_if_sees (fun isEquals => ?_) fun _ => ?_
  · have proper := isProper_of_eq isEquals rfl
    have item : Item (.initializer isConstant) p [equals, language .expr] p := by
      refine .start _ (fun w h => ?_) (by simp)
      cases isConstant with
      | true => exact h
      | false => exact mem_optional.mpr (Or.inr h)
    simp only [runs_bind, runs_skip, runs_pure]
    refine (expression_sound n).runs (item.take proper isEquals) trivial
      fun e q item derives => ⟨item.reaches, ?_⟩
    rw [pending_of_proper proper]
    exact .init isEquals derives
  · cases isConstant with
    | true =>
      exact runs_reject fun failure q rejects => ⟨[], p, .refl, hasWord_phrase _, rejects⟩
    | false => exact ⟨⟨[], .refl⟩, .noInit⟩

/-- By induction on the fuel, for both kinds of section. -/
theorem definitions_sound (n : Nat) (isConstant : Bool) : Sound (.definitions isConstant) n := by
  induction n with
  | zero => exact sound_of_reject rfl
  | succ n ih =>
    intro p proper
    have item : Item (.definitions isConstant) p
        [anyToken, series ',' (definition isConstant), symbol ';'] p :=
      .start _ (fun w h => h) (hasWord_phrase (.definitions isConstant))
    have first := (item.take proper trivial).parts
    rw [definition_eq] at first
    simp only [Phrase.read, Parsing.definitions]
    rw [runs_bind, runs_skip, runs_bind, runs_currentLine, runs_bind]
    refine first.parts.expectName fun name isName ahead item => ?_
    rw [runs_bind]
    refine (initializer_sound n isConstant).runs item trivial fun init q item derives => ?_
    rw [← definition_eq] at item
    refine item.runs_series rfl rfl rfl ih (fun defs r isComma ahead' derives' => ?_)
      fun isSemicolon ahead' => ?_
    · rw [ahead'] at derives derives'
      rw [pending_of_proper proper, ahead]
      exact .moreDefinitions isName derives isComma derives'
    · rw [ahead'] at derives
      rw [pending_of_proper proper, ahead]
      exact .lastDefinition isName derives isSemicolon

/-- A section is there if its keyword is ahead. -/
theorem section_sound (n : Nat) (isConstant : Bool) : Sound (.section isConstant) n := by
  intro p _
  simp only [Phrase.read, Parsing.declarations?, runs_bind, runs_currentLine]
  refine runs_if_sees (fun isKeyword => ?_) fun _ => ?_
  · have proper := isProper_of_eq isKeyword rfl
    have item : Item (.section isConstant) p [keyword (sectionKeyword isConstant),
        series ',' (definition isConstant), symbol ';'] p := by
      refine .start _ (fun w h => ?_) (by simp [definition_eq])
      rw [section_eq]
      exact mem_optional.mpr (Or.inr h)
    simp only [runs_bind, runs_pure]
    refine (definitions_sound n isConstant).runs_last item proper
      (fun w mem => entered isKeyword mem) fun defs q reached derives => ⟨reached, ?_⟩
    rw [pending_of_proper proper] at derives ⊢
    exact .someSection isKeyword derives
  · exact ⟨⟨[], .refl⟩, .noSection⟩

theorem parameters_sound (n : Nat) : Sound .parameters n := by
  induction n with
  | zero => exact sound_of_reject rfl
  | succ n ih =>
    intro p proper
    have item : Item .parameters p [anyToken, series ',' id, symbol ')'] p :=
      .start _ (fun w h => h) (hasWord_phrase .parameters)
    simp only [Phrase.read, Parsing.parameters]
    rw [runs_bind, runs_skip, runs_bind]
    refine (item.take proper trivial).parts.expectName fun name isName ahead item => ?_
    refine item.runs_series rfl rfl rfl ih (fun params r isComma ahead' derives => ?_)
      fun isClosing ahead' => ?_
    · rw [ahead'] at derives
      rw [pending_of_proper proper, ahead, ahead']
      exact .moreParameters isName isComma derives
    · rw [pending_of_proper proper, ahead, ahead']
      exact .lastParameter isName isClosing

theorem signature_sound (n : Nat) (isFunction : Bool) : Sound (.signature isFunction) n := by
  intro p _
  cases isFunction with
  | false => exact ⟨⟨[], .refl⟩, .procedureSignature⟩
  | true =>
    simp only [Phrase.read, routineKeyword, if_true, Parsing.signature]
    refine runs_if_sees (fun isOpening => ?_) fun _ => ?_
    · have proper := isProper_of_eq isOpening rfl
      have item : Item (.signature true) p [symbol '(', series ',' id, symbol ')'] p :=
        .start _ (fun w h => mem_optional.mpr (Or.inr h)) (by simp)
      simp only [runs_bind, runs_pure]
      refine (parameters_sound n).runs_last item proper (fun w mem => entered isOpening mem)
        fun params q reached derives => ⟨reached, ?_⟩
      rw [pending_of_proper proper] at derives ⊢
      exact .someParameters isOpening derives
    · exact ⟨⟨[], .refl⟩, .noParameters⟩

/-! ### Blocks -/

/-- Sections, routines and a statement, all of which may be missing. -/
theorem block_step (routines : Sound .routines n) : Sound .block (n + 1) := by
  intro p _
  have item : Item .block p [optional (language .consts), optional (language .vars),
      (language .procedure + language .function)∗, language .statement] p :=
    .start _ (fun w h => mem_language h) (by simp)
  simp only [Phrase.read, Parsing.block, runs_bind, runs_currentLine, runs_pure]
  refine (section_sound n true).runs item trivial fun consts q item constsDerive => ?_
  refine (section_sound n false).runs item trivial fun vars r item varsDerive => ?_
  refine routines.runs item trivial fun rest s item routinesDerive => ?_
  refine (statement_sound n).runs item trivial fun body t item bodyDerives => ⟨item.reaches, ?_⟩
  rw [← lineOf_pending]
  exact .block constsDerive varsDerive routinesDerive bodyDerives

theorem routines_step (routines : Sound .routines n)
    (routine : ∀ isFunction, Sound (.routine isFunction) n) : Sound .routines (n + 1) := by
  intro p _
  have item : Item .routines p [(language .procedure + language .function)∗] p :=
    .start _ (fun w h => mem_prod_singleton.mp h) (by simp)
  have next := item.again (by simp)
  -- Either keyword starts one more routine, of its kind.
  have more (isFunction : Bool) (kind : p.current.kind = .keyword (routineKeyword isFunction)) :
      Runs (do
        let first ← (Phrase.routine isFunction).read n
        let rest ← Parsing.routines n
        return first :: rest) p (Accepted .routines p) (Stopped .routines p) := by
    have here : Item .routines p [(Phrase.routine isFunction).language,
        (language .procedure + language .function)∗] p := by
      refine next.choose (fun w mem => ?_) (by simp)
      obtain ⟨u, uMem, v, vMem, rfl⟩ := mem_prod_cons.mp mem
      exact append_mem_prod (mem_either_routine uMem) vMem
    rw [runs_bind]
    refine (routine isFunction).runs here kind fun first q item derives => ?_
    rw [runs_bind]
    refine routines.runs item trivial fun rest r item derives' => ?_
    exact ⟨item.reaches, .moreRoutines derives derives'⟩
  simp only [Phrase.read, Parsing.routines]
  rw [runs_bind, runs_currentKind]
  split
  · next kind => exact more false kind
  · next kind => exact more true kind
  · exact ⟨⟨[], .refl⟩, .noRoutines⟩

/-- A routine of either kind, whose block is read in the same way. -/
theorem routine_step (block : Sound .block n) (isFunction : Bool) :
    Sound (.routine isFunction) (n + 1) := by
  intro p kind
  have proper := isProper_of_eq kind rfl
  have item : Item (.routine isFunction) p [keyword (routineKeyword isFunction), id,
      (Phrase.signature isFunction).language, symbol ';', language .block, symbol ';'] p := by
    refine .start _ (fun w h => ?_) (by simp)
    rwa [routine_eq]
  simp only [Phrase.read, Parsing.routine]
  rw [runs_bind, runs_currentLine, runs_bind, runs_skip, runs_bind]
  refine (item.take proper kind).expectName fun name isName nameAhead item => ?_
  rw [runs_bind]
  refine (signature_sound n isFunction).runs item trivial fun sig q item sigDerives => ?_
  rw [runs_bind]
  refine item.expect rfl fun isSemicolon ahead item => ?_
  rw [runs_bind]
  refine block.runs item trivial fun tree r item blockDerives => ?_
  rw [runs_bind]
  refine item.expect rfl fun isSemicolon' ahead' item => ⟨item.reaches, ?_⟩
  rw [ahead] at sigDerives
  rw [ahead'] at blockDerives
  rw [pending_of_proper proper, nameAhead]
  exact .routine kind isName sigDerives isSemicolon blockDerives isSemicolon'

/-- The readers of blocks, which call each other. -/
theorem blocks_sound (n : Nat) :
    Sound .block n ∧ Sound .routines n ∧ ∀ isFunction, Sound (.routine isFunction) n := by
  induction n with
  | zero => exact ⟨sound_of_reject rfl, sound_of_reject rfl, fun _ => sound_of_reject rfl⟩
  | succ n ih =>
    obtain ⟨block, routines, routine⟩ := ih
    exact ⟨block_step routines, routines_step routines routine, routine_step block⟩

theorem block_sound (n : Nat) : Sound .block n := (blocks_sound n).1

end PlZero.Grammar
