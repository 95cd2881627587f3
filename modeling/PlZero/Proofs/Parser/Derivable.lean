import PlZero.Proofs.Parser.Derivation

/-!
Every word of the grammar has a derivation, whatever tokens spell it.

The rules leave open to which `if` an `else` belongs; a derivation does not. A statement that is
followed by `else` may therefore have to take more tokens than its word has: the `else` goes to the
last open `if` in it. How far it has to go depends on what comes then, and `ElseChain` lists the
places where it can stop: each is reached from the one before by an `else` and a statement.

Main statement: `derivesProgram_of_sentence`.
-/

namespace PlZero.Grammar

open Computability
open Token (Kind)

/-! ### Words and the tokens that spell them -/

section

variable {L : Language Kind} {Ls : List (Language Kind)} {sort : Kind → Prop} {sep : Char}
  {input : List Token}

/-- Tokens of a rule's right side are split where its first symbol ends. -/
theorem tokens_prod (h : kinds input ∈ (L :: Ls).prod) :
    ∃ first later, input = first ++ later ∧ kinds first ∈ L ∧ kinds later ∈ Ls.prod := by
  obtain ⟨u, uMem, v, vMem, same⟩ := mem_prod_cons.mp h
  obtain ⟨first, later, rfl, rfl, rfl⟩ := List.map_eq_append_iff.mp same.symm
  exact ⟨first, later, rfl, uMem, vMem⟩

theorem tokens_one (h : kinds input ∈ one sort) : ∃ t, input = [t] ∧ sort t.kind := by
  obtain ⟨k, holds, same⟩ := h
  obtain ⟨t, rfl, rfl⟩ := List.map_eq_singleton_iff.mp same
  exact ⟨t, rfl, holds⟩

theorem tokens_cons (h : kinds input ∈ (one sort :: Ls).prod) :
    ∃ t after, input = t :: after ∧ sort t.kind ∧ kinds after ∈ Ls.prod := by
  obtain ⟨_, after, rfl, firstMem, afterMem⟩ := tokens_prod h
  obtain ⟨t, rfl, holds⟩ := tokens_one firstMem
  exact ⟨t, after, rfl, holds, afterMem⟩

theorem tokens_optional (h : kinds input ∈ optional L) : input = [] ∨ kinds input ∈ L := by
  rcases mem_optional.mp h with none | some
  · exact Or.inl (List.map_eq_nil_iff.mp none)
  · exact Or.inr some

/-- Induction on repetitions, over tokens. -/
theorem tokens_star_induction {motive : List Token → Prop} (nil : motive [])
    (append : ∀ first, kinds first ∈ L → ∀ later, motive later → motive (first ++ later)) :
    ∀ input, kinds input ∈ L∗ → motive input := by
  intro input mem
  refine star_induction (motive := fun w => ∀ input, kinds input = w → motive input) ?_ ?_ _ mem
    input rfl
  · intro input same
    rw [List.map_eq_nil_iff.mp same]
    exact nil
  · intro u uMem v ih input same
    obtain ⟨first, later, rfl, rfl, rfl⟩ := List.map_eq_append_iff.mp same
    exact append first uMem later (ih later rfl)

/-- Induction on lists with separators, over tokens. -/
theorem tokens_series_induction {motive : List Token → Prop}
    (single : ∀ first, kinds first ∈ L → motive first)
    (append : ∀ first, kinds first ∈ L → ∀ separator, separator.kind = .char sep →
      ∀ later, motive later → motive (first ++ separator :: later)) :
    ∀ input, kinds input ∈ series sep L → motive input := by
  intro input mem
  refine series_induction (motive := fun w => ∀ input, kinds input = w → motive input) ?_ ?_ _ mem
    input rfl
  · intro u uMem input same
    exact single input (same ▸ uMem)
  · intro u uMem v ih input same
    obtain ⟨first, _, rfl, rfl, same'⟩ := List.map_eq_append_iff.mp same
    obtain ⟨separator, later, rfl, isSep, rfl⟩ := List.map_eq_cons_iff.mp same'
    exact append first uMem separator isSep later (ih later rfl)

end

/-- A series is read from the token before it to the one that closes it. -/
theorem derives_series {x : Phrase} {sep : Char} {close : Kind} {L : Language Kind}
    (last : ∀ first, kinds first ∈ L → ∀ (opening closing : Token) (rest : List Token),
      closing.kind = close → ∃ tree, Derives x (opening :: (first ++ closing :: rest)) tree rest)
    (more : ∀ first, kinds first ∈ L → ∀ (opening separator : Token) (after rest : List Token) tree,
      separator.kind = .char sep → Derives x (separator :: after) tree rest →
      ∃ tree, Derives x (opening :: (first ++ separator :: after)) tree rest) :
    ∀ input, kinds input ∈ [series sep L, just close].prod → ∀ (opening : Token) (rest : List Token),
      ∃ tree, Derives x (opening :: (input ++ rest)) tree rest := by
  intro input mem opening rest
  obtain ⟨members, _, rfl, membersMem, closingMem⟩ := tokens_prod mem
  obtain ⟨closing, rfl, isClosing⟩ := tokens_one (mem_prod_singleton.mp closingMem)
  revert opening
  refine tokens_series_induction (motive := fun members => ∀ opening,
    ∃ tree, Derives x (opening :: (members ++ [closing] ++ rest)) tree rest) ?_ ?_ members membersMem
  · intro first firstMem opening
    simpa using last first firstMem opening closing rest isClosing
  · intro first firstMem separator isSep later ih opening
    obtain ⟨tree, derives⟩ := ih separator
    simpa using more first firstMem opening separator _ rest tree isSep derives

/-! ### Where an `else` goes -/

/-- `ElseChain place places`: from `place` on, `places` are reached one after the other, each by an
`else` and a statement, and behind the last there is no `else`. -/
inductive ElseChain : List Token → List (List Token) → Prop where
  | stop {place : List Token} : Ahead (· ≠ .keyword .elseKw) place → ElseChain place []
  | step {t : Token} {after place : List Token} {s : Option Stmt} {places : List (List Token)} :
      t.kind = .keyword .elseKw → Derives .statement after s place → ElseChain place places →
      ElseChain (t :: after) (place :: places)

/-- A statement takes `input`, and of what follows it as much as its open `if`s need. -/
def ReadsStatement (input : List Token) : Prop :=
  ∀ rest places, ElseChain rest places → ∃ s place later, Derives .statement (input ++ rest) s place ∧
    ElseChain place later ∧ place :: later <:+ rest :: places

/-- Where no `else` follows, a statement takes just its word. -/
theorem ReadsStatement.derives {input rest : List Token} (h : ReadsStatement input)
    (notElse : Ahead (· ≠ .keyword .elseKw) rest) :
    ∃ s, Derives .statement (input ++ rest) s rest := by
  obtain ⟨s, place, later, derives, _, suffix⟩ := h rest [] (.stop notElse)
  have short := suffix.length_le
  rw [List.length_cons, List.length_singleton] at short
  have same := suffix.eq_of_length (by simp only [List.length_cons, List.length_nil]; omega)
  obtain ⟨rfl, _⟩ := List.cons.inj same
  exact ⟨s, derives⟩

/-- A statement with no open `if`. -/
theorem readsStatement_of_derives {input : List Token}
    (h : ∀ rest, ∃ s, Derives .statement (input ++ rest) s rest) : ReadsStatement input := by
  intro rest places chain
  obtain ⟨s, derives⟩ := h rest
  exact ⟨s, rest, places, derives, chain, List.suffix_refl _⟩

/-- Behind the first branch of an `if`: the `else` that stands there is its own. -/
theorem ElseChain.elsePart {place : List Token} {places : List (List Token)}
    (chain : ElseChain place places) :
    ∃ s place' later, Derives .elsePart place s place' ∧ ElseChain place' later ∧
      (place' :: later <:+ places ∨ places = [] ∧ place' = place ∧ later = []) := by
  cases chain with
  | stop notElse =>
    exact ⟨none, place, [], .noElse notElse, .stop notElse, Or.inr ⟨rfl, rfl, rfl⟩⟩
  | step isElse derives chain =>
    exact ⟨_, _, _, .elseBranch isElse derives, chain, Or.inl (List.suffix_refl _)⟩

section

variable {t then_ : Token} {cond body body' : List Token}

/-- Without an `else` of its own, the statement takes the one that follows if its branch has left
it. -/
theorem readsStatement_ifThen (kind : t.kind = .keyword .ifKw) (isThen : then_.kind = .keyword .thenKw)
    (condition : ∀ rest, ∃ e, Derives .condition (cond ++ rest) e rest)
    (thenBranch : ReadsStatement body) : ReadsStatement (t :: (cond ++ then_ :: body)) := by
  intro rest places chain
  obtain ⟨s, place, later, derives, chain', suffix⟩ := thenBranch rest places chain
  obtain ⟨s', place', later', derives', chain'', reached⟩ := chain'.elsePart
  obtain ⟨e, condDerives⟩ := condition (then_ :: (body ++ rest))
  have whole := Derives.ifThen kind condDerives isThen derives derives'
  rw [List.cons_append, List.append_assoc, List.cons_append]
  refine ⟨_, place', later', whole, chain'', ?_⟩
  rcases reached with further | ⟨rfl, rfl, rfl⟩
  · exact further.trans ((List.suffix_cons _ _).trans suffix)
  · exact suffix

/-- The branch in front of the `else` may take it for an open `if` of its own; then this statement
goes on with what that branch has left. -/
theorem readsStatement_ifThenElse {else_ : Token} (kind : t.kind = .keyword .ifKw)
    (isThen : then_.kind = .keyword .thenKw) (isElse : else_.kind = .keyword .elseKw)
    (condition : ∀ rest, ∃ e, Derives .condition (cond ++ rest) e rest)
    (thenBranch : ReadsStatement body) (elseBranch : ReadsStatement body') :
    ReadsStatement (t :: (cond ++ then_ :: (body ++ else_ :: body'))) := by
  intro rest places chain
  obtain ⟨s, place, later, derives, chain', suffix⟩ := elseBranch rest places chain
  -- For the first branch, the `else` and the second branch are one more place to stop.
  obtain ⟨s', place', later', derives', chain'', suffix'⟩ :=
    thenBranch _ _ (.step isElse derives chain')
  obtain ⟨s'', place'', later'', derives'', chainEnd, reached⟩ := chain''.elsePart
  obtain ⟨e, condDerives⟩ := condition (then_ :: (body ++ else_ :: (body' ++ rest)))
  have whole := Derives.ifThen kind condDerives isThen derives' derives''
  rw [List.cons_append, List.append_assoc, List.cons_append, List.append_assoc, List.cons_append]
  refine ⟨_, place'', later'', whole, chainEnd, List.IsSuffix.trans ?_ suffix⟩
  rcases List.suffix_cons_iff.mp suffix' with same | further
  · obtain ⟨rfl, rfl⟩ := List.cons.inj same
    rcases reached with further | ⟨none, _⟩
    · exact further
    · cases none
  · rcases reached with further' | ⟨rfl, rfl, rfl⟩
    · exact further'.trans ((List.suffix_cons _ _).trans further)
    · exact further

end

/-! ### Every rule can be read -/

/-- What it means that the tokens can be read as a nonterminal. -/
def Readable : Nonterminal → List Token → Prop
  | .factor, input => ∀ rest, ∃ e, Derives .factor (input ++ rest) e rest
  | .term, input => ∀ rest, ∃ e, Derives .term (input ++ rest) e rest
  | .expr, input => ∀ rest, ∃ e, Derives .expression (input ++ rest) e rest
  | .cond, input => ∀ rest, ∃ e, Derives .condition (input ++ rest) e rest
  | .statement, input | .idStat, input | .beginEnd, input | .ifStat, input | .whileStat, input
  | .asm, input => ReadsStatement input
  | .consts, input => ∀ rest, ∃ decls, Derives (.section true) (input ++ rest) decls rest
  | .vars, input => ∀ rest, ∃ decls, Derives (.section false) (input ++ rest) decls rest
  | .procedure, input => ∀ rest, ∃ tree, Derives (.routine false) (input ++ rest) tree rest
  | .function, input => ∀ rest, ∃ tree, Derives (.routine true) (input ++ rest) tree rest
  | .block, input => ∀ rest, Ahead (· ≠ .keyword .elseKw) rest →
      ∃ tree, Derives .block (input ++ rest) tree rest
  | .program, input => ∀ final, final.kind = .endOfText →
      ∃ tree, DerivesProgram (input ++ [final]) tree

/-- The words of which every spelling can be read. -/
def readable (x : Nonterminal) : Language Kind := {w | ∀ input, kinds input = w → Readable x input}

section

variable {input : List Token}

theorem Readable.of_mem {x : Nonterminal} (h : kinds input ∈ readable x) : Readable x input :=
  h input rfl

/-- By induction on the repetition, whatever was read on the left. -/
theorem derives_moreTerms (mem : kinds input ∈ ([operator BinaryOp.isAdditive, readable .term].prod)∗) :
    ∀ line lhs rest, ∃ e, Derives (.moreTerms line lhs) (input ++ rest) e rest := by
  refine tokens_star_induction (motive := fun input => ∀ line lhs rest,
    ∃ e, Derives (.moreTerms line lhs) (input ++ rest) e rest) ?_ ?_ input mem
  · intro line lhs rest
    exact ⟨lhs, .lastTerm⟩
  · intro first firstMem later ih line lhs rest
    obtain ⟨t, operand, rfl, ⟨op, kind, additive⟩, operandMem⟩ := tokens_cons firstMem
    obtain ⟨rhs, operandDerives⟩ :=
      (Readable.of_mem (x := .term) (mem_prod_singleton.mp operandMem)) (later ++ rest)
    obtain ⟨e, derives⟩ := ih line (.binary { line := line } op lhs rhs) rest
    refine ⟨e, ?_⟩
    simpa using Derives.nextTerm kind additive operandDerives derives

theorem derives_moreFactors
    (mem : kinds input ∈ ([operator BinaryOp.isMultiplicative, readable .factor].prod)∗) :
    ∀ line lhs rest, ∃ e, Derives (.moreFactors line lhs) (input ++ rest) e rest := by
  refine tokens_star_induction (motive := fun input => ∀ line lhs rest,
    ∃ e, Derives (.moreFactors line lhs) (input ++ rest) e rest) ?_ ?_ input mem
  · intro line lhs rest
    exact ⟨lhs, .lastFactor⟩
  · intro first firstMem later ih line lhs rest
    obtain ⟨t, operand, rfl, ⟨op, kind, multiplicative⟩, operandMem⟩ := tokens_cons firstMem
    obtain ⟨rhs, operandDerives⟩ :=
      (Readable.of_mem (x := .factor) (mem_prod_singleton.mp operandMem)) (later ++ rest)
    obtain ⟨e, derives⟩ := ih line (.binary { line := line } op lhs rhs) rest
    refine ⟨e, ?_⟩
    simpa using Derives.nextFactor kind multiplicative operandDerives derives

/-- An expression: an optional sign, a term, and more terms. -/
theorem readable_expr (mem : kinds input ∈ rules readable .expr) : Readable .expr input := by
  intro rest
  obtain ⟨sign, others, rfl, signMem, othersMem⟩ := tokens_prod mem
  obtain ⟨first, more, rfl, firstMem, moreMem⟩ := tokens_prod othersMem
  obtain ⟨lhs, firstDerives⟩ := (Readable.of_mem (x := .term) firstMem) (more ++ rest)
  have moreDerives := derives_moreTerms (mem_prod_singleton.mp moreMem)
  rcases tokens_optional signMem with rfl | signMem
  · obtain ⟨e, derives⟩ := moreDerives (lineOf (first ++ (more ++ rest))) lhs rest
    refine ⟨e, ?_⟩
    simpa using Derives.unsigned firstDerives derives
  · obtain ⟨t, rfl, op, kind, additive⟩ := tokens_one signMem
    obtain ⟨e, derives⟩ := moreDerives t.line
      (.binary { line := t.line } op (.number { line := t.line } 0) lhs) rest
    refine ⟨e, ?_⟩
    simpa using Derives.signed kind additive firstDerives derives

theorem readable_term (mem : kinds input ∈ rules readable .term) : Readable .term input := by
  intro rest
  obtain ⟨first, more, rfl, firstMem, moreMem⟩ := tokens_prod mem
  obtain ⟨lhs, firstDerives⟩ := (Readable.of_mem (x := .factor) firstMem) (more ++ rest)
  obtain ⟨e, derives⟩ := derives_moreFactors (mem_prod_singleton.mp moreMem)
    (lineOf (first ++ (more ++ rest))) lhs rest
  refine ⟨e, ?_⟩
  simpa using Derives.term firstDerives derives

/-- The parser reads the opening parenthesis and each comma in the same place. -/
theorem derives_arguments (mem : kinds input ∈ [series ',' (readable .expr), symbol ')'].prod)
    (opening : Token) (rest : List Token) :
    ∃ args, Derives .arguments (opening :: (input ++ rest)) args rest := by
  refine derives_series ?_ ?_ input mem opening rest
  · intro first firstMem opening closing rest isClosing
    obtain ⟨e, derives⟩ := (Readable.of_mem (x := .expr) firstMem) (closing :: rest)
    exact ⟨[e], .lastArgument derives isClosing⟩
  · intro first firstMem opening separator after rest args isComma more
    obtain ⟨e, derives⟩ := (Readable.of_mem (x := .expr) firstMem) (separator :: after)
    exact ⟨e :: args, .moreArguments derives isComma more⟩

/-- A factor, by the four forms it has. -/
theorem readable_factor (mem : kinds input ∈ rules readable .factor) : Readable .factor input := by
  intro rest
  rcases mem with (mem | mem) | mem
  · obtain ⟨t, others, rfl, ⟨name, kind⟩, othersMem⟩ := tokens_cons mem
    rcases tokens_optional (mem_prod_singleton.mp othersMem) with rfl | callMem
    · exact ⟨_, .name kind⟩
    · obtain ⟨opening, args, rfl, isOpening, argsMem⟩ := tokens_cons callMem
      obtain ⟨trees, derives⟩ := derives_arguments argsMem opening rest
      exact ⟨_, .call kind isOpening derives⟩
  · obtain ⟨t, rfl, value, kind⟩ := tokens_one mem
    exact ⟨_, .number kind⟩
  · obtain ⟨opening, others, rfl, isOpening, othersMem⟩ := tokens_cons mem
    obtain ⟨inner, _, rfl, innerMem, closingMem⟩ := tokens_prod othersMem
    obtain ⟨closing, rfl, isClosing⟩ := tokens_one (mem_prod_singleton.mp closingMem)
    obtain ⟨e, derives⟩ := (Readable.of_mem (x := .expr) innerMem) (closing :: rest)
    refine ⟨e, ?_⟩
    simpa using Derives.parentheses isOpening derives isClosing

/-- A condition is `odd` or a comparison. -/
theorem readable_cond (mem : kinds input ∈ rules readable .cond) : Readable .cond input := by
  intro rest
  rcases mem with mem | mem
  · obtain ⟨t, operand, rfl, kind, operandMem⟩ := tokens_cons mem
    obtain ⟨e, derives⟩ := (Readable.of_mem (x := .expr) (mem_prod_singleton.mp operandMem)) rest
    exact ⟨_, .odd kind derives⟩
  · obtain ⟨left, others, rfl, leftMem, othersMem⟩ := tokens_prod mem
    obtain ⟨t, right, rfl, ⟨op, kind, relational⟩, rightMem⟩ := tokens_cons othersMem
    obtain ⟨lhs, leftDerives⟩ := (Readable.of_mem (x := .expr) leftMem) (t :: (right ++ rest))
    obtain ⟨rhs, rightDerives⟩ :=
      (Readable.of_mem (x := .expr) (mem_prod_singleton.mp rightMem)) rest
    refine ⟨.binary { line := lineOf (left ++ t :: (right ++ rest)) } op lhs rhs, ?_⟩
    simpa using Derives.comparison leftDerives kind relational rightDerives

/-! Statements: only those that end in a statement can be left with an open `if`. -/

theorem readable_idStat (mem : kinds input ∈ rules readable .idStat) : ReadsStatement input := by
  refine readsStatement_of_derives fun rest => ?_
  obtain ⟨t, others, rfl, ⟨name, kind⟩, othersMem⟩ := tokens_cons mem
  rcases mem_prod_singleton.mp othersMem with (mem | mem) | mem
  · obtain ⟨arrow, value, rfl, isArrow, valueMem⟩ := tokens_cons mem
    obtain ⟨e, derives⟩ := (Readable.of_mem (x := .expr) (mem_prod_singleton.mp valueMem)) rest
    exact ⟨_, .assign kind isArrow derives⟩
  · obtain ⟨opening, args, rfl, isOpening, argsMem⟩ := tokens_cons mem
    obtain ⟨trees, derives⟩ := derives_arguments argsMem opening rest
    exact ⟨_, .callStatement kind isOpening derives⟩
  · obtain rfl : others = [] := List.map_eq_nil_iff.mp mem
    exact ⟨_, .nameStatement kind⟩

theorem readable_beginEnd (mem : kinds input ∈ rules readable .beginEnd) :
    ReadsStatement input := by
  refine readsStatement_of_derives fun rest => ?_
  obtain ⟨t, members, rfl, kind, membersMem⟩ := tokens_cons mem
  obtain ⟨body, derives⟩ : ∃ body, Derives .statements (t :: (members ++ rest)) body rest := by
    refine derives_series ?_ ?_ members membersMem t rest
    · intro first firstMem opening closing rest isEnd
      have notElse : Ahead (· ≠ .keyword .elseKw) (closing :: rest) := by
        rw [ahead_cons, isEnd]
        simp
      obtain ⟨s, derives⟩ := (Readable.of_mem (x := .statement) firstMem).derives notElse
      exact ⟨_, .lastStatement derives isEnd⟩
    · intro first firstMem opening separator after rest body isSemicolon more
      have notElse : Ahead (· ≠ .keyword .elseKw) (separator :: after) := by
        rw [ahead_cons, isSemicolon]
        simp
      obtain ⟨s, derives⟩ := (Readable.of_mem (x := .statement) firstMem).derives notElse
      exact ⟨_, .moreStatements derives isSemicolon more⟩
  exact ⟨_, .sequence kind derives⟩

/-- An `if` statement, with and without `else`. -/
theorem readable_ifStat (mem : kinds input ∈ rules readable .ifStat) : ReadsStatement input := by
  obtain ⟨t, others, rfl, kind, othersMem⟩ := tokens_cons mem
  obtain ⟨cond, others, rfl, condMem, othersMem⟩ := tokens_prod othersMem
  obtain ⟨then_, others, rfl, isThen, othersMem⟩ := tokens_cons othersMem
  obtain ⟨body, others, rfl, bodyMem, othersMem⟩ := tokens_prod othersMem
  have condition := Readable.of_mem (x := .cond) condMem
  have thenBranch := Readable.of_mem (x := .statement) bodyMem
  rcases tokens_optional (mem_prod_singleton.mp othersMem) with rfl | elseMem
  · rw [List.append_nil]
    exact readsStatement_ifThen kind isThen condition thenBranch
  · obtain ⟨else_, body', rfl, isElse, bodyMem'⟩ := tokens_cons elseMem
    have elseBranch := Readable.of_mem (x := .statement) (mem_prod_singleton.mp bodyMem')
    exact readsStatement_ifThenElse kind isThen isElse condition thenBranch elseBranch

theorem readable_whileStat (mem : kinds input ∈ rules readable .whileStat) :
    ReadsStatement input := by
  obtain ⟨t, others, rfl, kind, othersMem⟩ := tokens_cons mem
  obtain ⟨cond, others, rfl, condMem, othersMem⟩ := tokens_prod othersMem
  obtain ⟨do_, body, rfl, isDo, bodyMem⟩ := tokens_cons othersMem
  have reads := Readable.of_mem (x := .statement) (mem_prod_singleton.mp bodyMem)
  intro rest places chain
  obtain ⟨s, place, later, derives, chain', suffix⟩ := reads rest places chain
  obtain ⟨e, condDerives⟩ := (Readable.of_mem (x := .cond) condMem) (do_ :: (body ++ rest))
  rw [List.cons_append, List.append_assoc, List.cons_append]
  exact ⟨_, place, later, .whileDo kind condDerives isDo derives, chain', suffix⟩

theorem readable_asm (mem : kinds input ∈ rules readable .asm) : ReadsStatement input := by
  refine readsStatement_of_derives fun rest => ?_
  obtain ⟨t, others, rfl, kind, othersMem⟩ := tokens_cons mem
  obtain ⟨begin_, others, rfl, isBegin, othersMem⟩ := tokens_cons othersMem
  obtain ⟨body, others, rfl, bodyMem, othersMem⟩ := tokens_prod othersMem
  obtain ⟨end_, rfl, isEnd⟩ := tokens_one (mem_prod_singleton.mp othersMem)
  have inside : ∀ u ∈ body, u.kind.isProper = true ∧ u.kind ≠ .keyword .endKw := by
    refine tokens_star_induction (motive := fun body => ∀ u ∈ body,
      u.kind.isProper = true ∧ u.kind ≠ .keyword .endKw) ?_ ?_ body bodyMem
    · simp
    · intro first firstMem later ih u uMem
      obtain ⟨v, rfl, holds⟩ := tokens_one firstMem
      rcases List.mem_cons.mp uMem with rfl | uMem
      · exact holds
      · exact ih u uMem
  have whole : Derives .statement (t :: begin_ :: (body ++ end_ :: rest)) _ rest :=
    .asm kind isBegin inside isEnd
  rw [List.cons_append, List.cons_append, List.append_assoc, List.singleton_append]
  exact ⟨_, whole⟩

/-- A statement, by the forms it has; the empty one is among them. -/
theorem readable_statement (mem : kinds input ∈ rules readable .statement) :
    ReadsStatement input := by
  rcases tokens_optional mem with rfl | mem
  · exact readsStatement_of_derives fun rest => ⟨none, .empty⟩
  · rcases mem with (((((mem | mem) | mem) | mem) | mem) | mem) | mem
    · exact Readable.of_mem (x := .idStat) mem
    · exact Readable.of_mem (x := .beginEnd) mem
    · exact Readable.of_mem (x := .ifStat) mem
    · exact Readable.of_mem (x := .whileStat) mem
    · exact Readable.of_mem (x := .asm) mem
    · obtain ⟨t, rfl, kind⟩ := tokens_one mem
      exact readsStatement_of_derives fun rest => ⟨_, .breakLoop kind⟩
    · obtain ⟨t, rfl, kind⟩ := tokens_one mem
      exact readsStatement_of_derives fun rest => ⟨_, .continueLoop kind⟩

/-! Declarations and blocks. -/

/-- A definition is a name and what its initial value can be. -/
theorem derives_definitions {isConstant : Bool} {L : Language Kind}
    (initial : ∀ init, kinds init ∈ L →
      ∀ rest, ∃ tree, Derives (.initializer isConstant) (init ++ rest) tree rest)
    (mem : kinds input ∈ [series ',' [id, L].prod, symbol ';'].prod) (opening : Token)
    (rest : List Token) :
    ∃ defs, Derives (.definitions isConstant) (opening :: (input ++ rest)) defs rest := by
  refine derives_series ?_ ?_ input mem opening rest
  · intro first firstMem opening closing rest isSemicolon
    obtain ⟨t, init, rfl, ⟨name, kind⟩, initMem⟩ := tokens_cons firstMem
    obtain ⟨tree, derives⟩ := initial init (mem_prod_singleton.mp initMem) (closing :: rest)
    exact ⟨_, .lastDefinition kind derives isSemicolon⟩
  · intro first firstMem opening separator after rest defs isComma more
    obtain ⟨t, init, rfl, ⟨name, kind⟩, initMem⟩ := tokens_cons firstMem
    obtain ⟨tree, derives⟩ := initial init (mem_prod_singleton.mp initMem) (separator :: after)
    exact ⟨_, .moreDefinitions kind derives isComma more⟩

theorem derives_init {isConstant : Bool} (mem : kinds input ∈ [equals, readable .expr].prod)
    (rest : List Token) : ∃ tree, Derives (.initializer isConstant) (input ++ rest) tree rest := by
  obtain ⟨t, value, rfl, kind, valueMem⟩ := tokens_cons mem
  obtain ⟨e, derives⟩ := (Readable.of_mem (x := .expr) (mem_prod_singleton.mp valueMem)) rest
  exact ⟨_, .init kind derives⟩

/-- A section of constants, each with its value. -/
theorem readable_consts (mem : kinds input ∈ rules readable .consts) : Readable .consts input := by
  intro rest
  obtain ⟨t, members, rfl, kind, membersMem⟩ := tokens_cons mem
  have regrouped : [id, equals, readable .expr].prod = [id, [equals, readable .expr].prod].prod := by
    simp
  rw [regrouped] at membersMem
  obtain ⟨defs, derives⟩ : ∃ defs, Derives (.definitions true) (t :: (members ++ rest)) defs rest :=
    derives_definitions (fun init initMem rest => derives_init initMem rest) membersMem t rest
  exact ⟨_, .someSection kind derives⟩

theorem readable_vars (mem : kinds input ∈ rules readable .vars) : Readable .vars input := by
  intro rest
  obtain ⟨t, members, rfl, kind, membersMem⟩ := tokens_cons mem
  obtain ⟨defs, derives⟩ : ∃ defs, Derives (.definitions false) (t :: (members ++ rest)) defs rest := by
    refine derives_definitions (fun init initMem rest => ?_) membersMem t rest
    rcases tokens_optional initMem with rfl | initMem
    · exact ⟨none, .noInit⟩
    · exact derives_init initMem rest
  exact ⟨_, .someSection kind derives⟩

/-- What is common to both kinds of routines. -/
theorem derives_routine {isFunction : Bool} {t t' : Token} {name : String} (sig : List Token)
    (kind : t.kind = .keyword (routineKeyword isFunction)) (isName : t'.kind = .name name)
    (signature : ∀ rest, ∃ tree, Derives (.signature isFunction) (sig ++ rest) tree rest)
    (mem : kinds input ∈ [symbol ';', readable .block, symbol ';'].prod) (rest : List Token) :
    ∃ tree, Derives (.routine isFunction) (t :: t' :: (sig ++ input) ++ rest) tree rest := by
  obtain ⟨semicolon, others, rfl, isSemicolon, othersMem⟩ := tokens_cons mem
  obtain ⟨body, others, rfl, bodyMem, othersMem⟩ := tokens_prod othersMem
  obtain ⟨semicolon', rfl, isSemicolon'⟩ := tokens_one (mem_prod_singleton.mp othersMem)
  have notElse : Ahead (· ≠ .keyword .elseKw) (semicolon' :: rest) := by
    rw [ahead_cons, isSemicolon']
    simp
  obtain ⟨tree, sigDerives⟩ := signature (semicolon :: (body ++ semicolon' :: rest))
  obtain ⟨block, blockDerives⟩ := Readable.of_mem (x := .block) bodyMem _ notElse
  refine ⟨{ line := t.line, name := name, kind := tree, block := block }, ?_⟩
  simpa using Derives.routine kind isName sigDerives isSemicolon blockDerives isSemicolon'

theorem readable_procedure (mem : kinds input ∈ rules readable .procedure) :
    Readable .procedure input := by
  intro rest
  obtain ⟨t, others, rfl, kind, othersMem⟩ := tokens_cons mem
  obtain ⟨t', body, rfl, ⟨name, isName⟩, bodyMem⟩ := tokens_cons othersMem
  exact derives_routine [] kind isName (fun rest => ⟨_, .procedureSignature⟩) bodyMem rest

theorem readable_function (mem : kinds input ∈ rules readable .function) :
    Readable .function input := by
  intro rest
  obtain ⟨t, others, rfl, kind, othersMem⟩ := tokens_cons mem
  obtain ⟨t', others, rfl, ⟨name, isName⟩, othersMem⟩ := tokens_cons othersMem
  obtain ⟨sig, body, rfl, sigMem, bodyMem⟩ := tokens_prod othersMem
  refine derives_routine sig kind isName (fun rest => ?_) bodyMem rest
  rcases tokens_optional sigMem with rfl | sigMem
  · exact ⟨_, .noParameters⟩
  · obtain ⟨opening, names, rfl, isOpening, namesMem⟩ := tokens_cons sigMem
    obtain ⟨params, derives⟩ : ∃ params,
        Derives .parameters (opening :: (names ++ rest)) params rest := by
      refine derives_series ?_ ?_ names namesMem opening rest
      · intro first firstMem opening closing rest isClosing
        obtain ⟨u, rfl, name, isName⟩ := tokens_one firstMem
        exact ⟨_, .lastParameter isName isClosing⟩
      · intro first firstMem opening separator after rest params isComma more
        obtain ⟨u, rfl, name, isName⟩ := tokens_one firstMem
        exact ⟨_, .moreParameters isName isComma more⟩
    exact ⟨_, .someParameters isOpening derives⟩

theorem derives_routines (mem : kinds input ∈ (readable .procedure + readable .function)∗) :
    ∀ rest, ∃ trees, Derives .routines (input ++ rest) trees rest := by
  refine tokens_star_induction (motive := fun input => ∀ rest,
    ∃ trees, Derives .routines (input ++ rest) trees rest) ?_ ?_ input mem
  · intro rest
    exact ⟨[], .noRoutines⟩
  · intro first firstMem later ih rest
    obtain ⟨others, moreDerives⟩ := ih rest
    rw [List.append_assoc]
    rcases firstMem with firstMem | firstMem
    · obtain ⟨tree, derives⟩ := (Readable.of_mem (x := .procedure) firstMem) (later ++ rest)
      exact ⟨tree :: others, .moreRoutines derives moreDerives⟩
    · obtain ⟨tree, derives⟩ := (Readable.of_mem (x := .function) firstMem) (later ++ rest)
      exact ⟨tree :: others, .moreRoutines derives moreDerives⟩

/-- A block, whose sections and routines may be missing. -/
theorem readable_block (mem : kinds input ∈ rules readable .block) : Readable .block input := by
  intro rest notElse
  obtain ⟨consts, others, rfl, constsMem, othersMem⟩ := tokens_prod mem
  obtain ⟨vars, others, rfl, varsMem, othersMem⟩ := tokens_prod othersMem
  obtain ⟨routines, body, rfl, routinesMem, bodyMem⟩ := tokens_prod othersMem
  have reads := Readable.of_mem (x := .statement) (mem_prod_singleton.mp bodyMem)
  obtain ⟨s, bodyDerives⟩ := reads.derives notElse
  obtain ⟨trees, routinesDerive⟩ := derives_routines routinesMem (body ++ rest)
  have varsDerive : ∀ rest, ∃ decls, Derives (.section false) (vars ++ rest) decls rest := by
    rcases tokens_optional varsMem with rfl | varsMem
    · exact fun rest => ⟨none, .noSection⟩
    · exact Readable.of_mem (x := .vars) varsMem
  have constsDerive : ∀ rest, ∃ decls, Derives (.section true) (consts ++ rest) decls rest := by
    rcases tokens_optional constsMem with rfl | constsMem
    · exact fun rest => ⟨none, .noSection⟩
    · exact Readable.of_mem (x := .consts) constsMem
  obtain ⟨varDecls, varsDerive⟩ := varsDerive (routines ++ (body ++ rest))
  obtain ⟨constDecls, constsDerive⟩ := constsDerive (vars ++ (routines ++ (body ++ rest)))
  have whole := Derives.block constsDerive varsDerive routinesDerive bodyDerives
  rw [List.append_assoc, List.append_assoc, List.append_assoc]
  exact ⟨_, whole⟩

/-- A program is a block and a period. -/
theorem readable_program (mem : kinds input ∈ rules readable .program) :
    Readable .program input := by
  intro final isFinal
  obtain ⟨block, others, rfl, blockMem, othersMem⟩ := tokens_prod mem
  obtain ⟨period, rfl, isPeriod⟩ := tokens_one (mem_prod_singleton.mp othersMem)
  have notElse : Ahead (· ≠ .keyword .elseKw) [period, final] := by
    rw [ahead_cons, isPeriod]
    simp
  obtain ⟨tree, derives⟩ := Readable.of_mem (x := .block) blockMem _ notElse
  rw [List.append_assoc]
  exact ⟨tree, period, final, derives, isPeriod, isFinal⟩

/-- Every spelling of every word can be read. -/
theorem language_le_readable : language ≤ readable := by
  refine language_le fun x w mem input same => ?_
  subst same
  cases x with
  | program => exact readable_program mem
  | block => exact readable_block mem
  | consts => exact readable_consts mem
  | vars => exact readable_vars mem
  | procedure => exact readable_procedure mem
  | function => exact readable_function mem
  | statement => exact readable_statement mem
  | idStat => exact readable_idStat mem
  | beginEnd => exact readable_beginEnd mem
  | ifStat => exact readable_ifStat mem
  | whileStat => exact readable_whileStat mem
  | asm => exact readable_asm mem
  | cond => exact readable_cond mem
  | expr => exact readable_expr mem
  | term => exact readable_term mem
  | factor => exact readable_factor mem

end

/-- The tokens of a sentence have a tree. -/
theorem derivesProgram_of_sentence {tokens : List Token} (h : Sentence (kinds tokens)) :
    ∃ tree, DerivesProgram tokens tree := by
  obtain ⟨w, mem, same⟩ := h
  obtain ⟨input, _, rfl, rfl, same'⟩ := List.map_eq_append_iff.mp same
  obtain ⟨final, rfl, isFinal⟩ := List.map_eq_singleton_iff.mp same'
  exact (language_le_readable .program mem) input rfl final isFinal

/-- The tokens of a tree are a sentence. -/
theorem DerivesProgram.sentence {tokens : List Token} {tree : Block}
    (h : DerivesProgram tokens tree) : Sentence (kinds tokens) := by
  obtain ⟨period, final, derives, isPeriod, isFinal⟩ := h
  obtain ⟨u, rfl, mem⟩ := derives.mem_language
  refine ⟨kinds u ++ [.char '.'], ?_, ?_⟩
  · refine mem_language (append_mem_prod mem ?_)
    exact mem_prod_singleton.mpr (singleton_mem_one.mpr rfl)
  · simp [isPeriod, isFinal]

end PlZero.Grammar
