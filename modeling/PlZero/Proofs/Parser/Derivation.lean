import PlZero.Proofs.Parser.Language

/-!
The grammar with the tree that a derivation determines.

`Derives x input tree rest` says that the phrase `x` can be read off the front of `input`, leaving
`rest`, and that its tree is `tree`. There is one constructor for each way a rule can be used. The
products bind tighter than the sums and both grow to the left, a leading sign goes with the first
term alone, an empty statement is no tree, and a node's line is that of the first token of its
phrase (of the token behind it, if the phrase is empty).

The only choice that depends on what follows is the one between an `if` with and without `else`: an
`if` that is followed by `else` has that branch (`Derives.noElse`), so an `else` belongs to the
nearest open `if`.

Main statement: the tokens of a derivation are a word of the grammar (`Derives.mem_language`).
-/

namespace PlZero.Grammar

open Computability
open Token (Kind)

def kinds (tokens : List Token) : List Kind := tokens.map (·.kind)

@[simp] theorem kinds_nil : kinds [] = [] := rfl

@[simp] theorem kinds_cons (t : Token) (tokens : List Token) :
    kinds (t :: tokens) = t.kind :: kinds tokens := rfl

@[simp] theorem kinds_append (first second : List Token) :
    kinds (first ++ second) = kinds first ++ kinds second := by
  simp [kinds]

def lineOf (tokens : List Token) : Nat := (tokens.head?.map (·.line)).getD 0

@[simp] theorem lineOf_cons (t : Token) (tokens : List Token) : lineOf (t :: tokens) = t.line := rfl

/-- Does the first token, if there is one, have the given property? -/
def Ahead (property : Kind → Prop) (tokens : List Token) : Prop :=
  ∀ t ∈ tokens.head?, property t.kind

@[simp] theorem ahead_cons {property : Kind → Prop} {t : Token} {tokens : List Token} :
    Ahead property (t :: tokens) ↔ property t.kind := by
  simp [Ahead]

/-! ### Phrases -/

/-- What is read as one piece: the nonterminals that have trees, and the parts of rules that
repeat. A series starts with the token before its first member, whichever that is. -/
inductive Phrase where
  | expression
  /-- The terms behind `lhs` in an expression that starts on `line`. -/
  | moreTerms (line : Nat) (lhs : Expr)
  | term
  /-- The factors behind `lhs` in a term that starts on `line`. -/
  | moreFactors (line : Nat) (lhs : Expr)
  | factor
  | arguments
  | condition
  | statement
  | elsePart
  | statements
  | initializer (isConstant : Bool)
  | definitions (isConstant : Bool)
  /-- A section of constants or variables, if there is one. -/
  | section (isConstant : Bool)
  | parameters
  /-- What stands between the name and the block of a routine. -/
  | signature (isFunction : Bool)
  | block
  | routines
  | routine (isFunction : Bool)

def sectionKeyword (isConstant : Bool) : Keyword := if isConstant then .constKw else .varKw

def routineKeyword (isFunction : Bool) : Keyword := if isFunction then .functionKw else .procedureKw

abbrev Phrase.Tree : Phrase → Type
  | .expression | .moreTerms _ _ | .term | .moreFactors _ _ | .factor | .condition => Expr
  | .arguments => List Expr
  | .statement | .elsePart => Option Stmt
  | .statements => List Stmt
  | .initializer _ => Option Expr
  | .definitions _ => List Definition
  | .section _ => Option Decls
  | .parameters => List String
  | .signature _ => RoutineKind
  | .block => Block
  | .routines => List Routine
  | .routine _ => Routine

/-- Any one token: the one a series starts with. -/
def anyToken : Language Kind := one fun _ => True

/-- The words of a definition, in a section of constants or of variables. -/
def definition (isConstant : Bool) : Language Kind :=
  if isConstant then [id, equals, language .expr].prod
  else [id, optional [equals, language .expr].prod].prod

def Phrase.language : Phrase → Language Kind
  | .expression => Grammar.language .expr
  | .moreTerms _ _ => ([operator BinaryOp.isAdditive, Grammar.language .term].prod)∗
  | .term => Grammar.language .term
  | .moreFactors _ _ => ([operator BinaryOp.isMultiplicative, Grammar.language .factor].prod)∗
  | .factor => Grammar.language .factor
  | .arguments => [anyToken, series ',' (Grammar.language .expr), symbol ')'].prod
  | .condition => Grammar.language .cond
  | .statement => Grammar.language .statement
  | .elsePart => optional [keyword .elseKw, Grammar.language .statement].prod
  | .statements => [anyToken, series ';' (Grammar.language .statement), keyword .endKw].prod
  | .initializer true => [equals, Grammar.language .expr].prod
  | .initializer false => optional [equals, Grammar.language .expr].prod
  | .definitions isConstant => [anyToken, series ',' (definition isConstant), symbol ';'].prod
  | .section true => optional (Grammar.language .consts)
  | .section false => optional (Grammar.language .vars)
  | .parameters => [anyToken, series ',' id, symbol ')'].prod
  | .signature true => optional [symbol '(', series ',' id, symbol ')'].prod
  | .signature false => 1
  | .block => Grammar.language .block
  | .routines => (Grammar.language .procedure + Grammar.language .function)∗
  | .routine true => Grammar.language .function
  | .routine false => Grammar.language .procedure

/-! ### Derivations -/

/-- `Derives x input tree rest`: the phrase `x` stands at the front of `input`, before `rest`, and
`tree` is its tree. -/
inductive Derives : (x : Phrase) → List Token → x.Tree → List Token → Prop where
  -- Expressions
  | signed {t : Token} {op : BinaryOp} {after mid rest : List Token} {first e : Expr} :
      t.kind = .operator (.binary op) → op.isAdditive = true →
      Derives .term after first mid →
      Derives (.moreTerms t.line
        (.binary { line := t.line } op (.number { line := t.line } 0) first)) mid e rest →
      Derives .expression (t :: after) e rest
  | unsigned {input mid rest : List Token} {first e : Expr} :
      Derives .term input first mid → Derives (.moreTerms (lineOf input) first) mid e rest →
      Derives .expression input e rest
  | lastTerm {line : Nat} {lhs : Expr} {rest : List Token} :
      Derives (.moreTerms line lhs) rest lhs rest
  | nextTerm {t : Token} {op : BinaryOp} {line : Nat} {after mid rest : List Token}
      {lhs rhs e : Expr} :
      t.kind = .operator (.binary op) → op.isAdditive = true →
      Derives .term after rhs mid →
      Derives (.moreTerms line (.binary { line := line } op lhs rhs)) mid e rest →
      Derives (.moreTerms line lhs) (t :: after) e rest
  | term {input mid rest : List Token} {first e : Expr} :
      Derives .factor input first mid → Derives (.moreFactors (lineOf input) first) mid e rest →
      Derives .term input e rest
  | lastFactor {line : Nat} {lhs : Expr} {rest : List Token} :
      Derives (.moreFactors line lhs) rest lhs rest
  | nextFactor {t : Token} {op : BinaryOp} {line : Nat} {after mid rest : List Token}
      {lhs rhs e : Expr} :
      t.kind = .operator (.binary op) → op.isMultiplicative = true →
      Derives .factor after rhs mid →
      Derives (.moreFactors line (.binary { line := line } op lhs rhs)) mid e rest →
      Derives (.moreFactors line lhs) (t :: after) e rest
  | name {t : Token} {name : String} {rest : List Token} :
      t.kind = .name name →
      Derives .factor (t :: rest) (.name { line := t.line } { name := name }) rest
  | call {t opening : Token} {name : String} {after rest : List Token} {args : List Expr} :
      t.kind = .name name → opening.kind = .char '(' →
      Derives .arguments (opening :: after) args rest →
      Derives .factor (t :: opening :: after) (.call { line := t.line } { name := name } args) rest
  | number {t : Token} {value : Int32} {rest : List Token} :
      t.kind = .integer value →
      Derives .factor (t :: rest) (.number { line := t.line } value) rest
  | parentheses {opening closing : Token} {after rest : List Token} {e : Expr} :
      opening.kind = .char '(' → Derives .expression after e (closing :: rest) →
      closing.kind = .char ')' →
      Derives .factor (opening :: after) e rest
  | lastArgument {opening closing : Token} {after rest : List Token} {e : Expr} :
      Derives .expression after e (closing :: rest) → closing.kind = .char ')' →
      Derives .arguments (opening :: after) [e] rest
  | moreArguments {opening comma : Token} {after mid rest : List Token} {e : Expr}
      {args : List Expr} :
      Derives .expression after e (comma :: mid) → comma.kind = .char ',' →
      Derives .arguments (comma :: mid) args rest →
      Derives .arguments (opening :: after) (e :: args) rest
  | odd {t : Token} {after rest : List Token} {e : Expr} :
      t.kind = .keyword .oddKw → Derives .expression after e rest →
      Derives .condition (t :: after) (.odd { line := t.line } e) rest
  | comparison {input mid rest : List Token} {t : Token} {op : BinaryOp} {lhs rhs : Expr} :
      Derives .expression input lhs (t :: mid) →
      t.kind = .operator (.binary op) → op.isRelational = true →
      Derives .expression mid rhs rest →
      Derives .condition input (.binary { line := lineOf input } op lhs rhs) rest
  -- Statements
  | empty {rest : List Token} : Derives .statement rest none rest
  | assign {t arrow : Token} {name : String} {after rest : List Token} {e : Expr} :
      t.kind = .name name → arrow.kind = .operator .assign → Derives .expression after e rest →
      Derives .statement (t :: arrow :: after)
        (some (.assign { line := t.line } { name := name } e)) rest
  | callStatement {t opening : Token} {name : String} {after rest : List Token}
      {args : List Expr} :
      t.kind = .name name → opening.kind = .char '(' →
      Derives .arguments (opening :: after) args rest →
      Derives .statement (t :: opening :: after)
        (some (.call { line := t.line } { name := name } args)) rest
  | nameStatement {t : Token} {name : String} {rest : List Token} :
      t.kind = .name name →
      Derives .statement (t :: rest) (some (.name { line := t.line } { name := name })) rest
  | sequence {t : Token} {after rest : List Token} {body : List Stmt} :
      t.kind = .keyword .beginKw → Derives .statements (t :: after) body rest →
      Derives .statement (t :: after) (some (.sequence { line := t.line } body)) rest
  | ifThen {t then_ : Token} {after mid mid' rest : List Token} {cond : Expr}
      {thenBranch elseBranch : Option Stmt} :
      t.kind = .keyword .ifKw → Derives .condition after cond (then_ :: mid) →
      then_.kind = .keyword .thenKw →
      Derives .statement mid thenBranch mid' → Derives .elsePart mid' elseBranch rest →
      Derives .statement (t :: after)
        (some (.ifThen { line := t.line } cond thenBranch elseBranch)) rest
  | noElse {rest : List Token} :
      Ahead (· ≠ .keyword .elseKw) rest → Derives .elsePart rest none rest
  | elseBranch {t : Token} {after rest : List Token} {s : Option Stmt} :
      t.kind = .keyword .elseKw → Derives .statement after s rest →
      Derives .elsePart (t :: after) s rest
  | whileDo {t do_ : Token} {after mid rest : List Token} {cond : Expr} {body : Option Stmt} :
      t.kind = .keyword .whileKw → Derives .condition after cond (do_ :: mid) →
      do_.kind = .keyword .doKw → Derives .statement mid body rest →
      Derives .statement (t :: after) (some (.whileDo { line := t.line } cond body)) rest
  | asm {t begin_ end_ : Token} {body rest : List Token} :
      t.kind = .keyword .asmKw → begin_.kind = .keyword .beginKw →
      (∀ u ∈ body, u.kind.isProper = true ∧ u.kind ≠ .keyword .endKw) →
      end_.kind = .keyword .endKw →
      Derives .statement (t :: begin_ :: (body ++ end_ :: rest))
        (some (.asm { line := t.line } (Parsing.asmText [] (kinds body)))) rest
  | breakLoop {t : Token} {rest : List Token} :
      t.kind = .keyword .breakKw →
      Derives .statement (t :: rest) (some (.control { line := t.line } .breakLoop)) rest
  | continueLoop {t : Token} {rest : List Token} :
      t.kind = .keyword .continueKw →
      Derives .statement (t :: rest) (some (.control { line := t.line } .continueLoop)) rest
  | lastStatement {opening end_ : Token} {after rest : List Token} {s : Option Stmt} :
      Derives .statement after s (end_ :: rest) → end_.kind = .keyword .endKw →
      Derives .statements (opening :: after) s.toList rest
  | moreStatements {opening semicolon : Token} {after mid rest : List Token} {s : Option Stmt}
      {body : List Stmt} :
      Derives .statement after s (semicolon :: mid) → semicolon.kind = .char ';' →
      Derives .statements (semicolon :: mid) body rest →
      Derives .statements (opening :: after) (s.toList ++ body) rest
  -- Declarations
  | init {t : Token} {isConstant : Bool} {after rest : List Token} {e : Expr} :
      t.kind = .operator (.binary .equal) → Derives .expression after e rest →
      Derives (.initializer isConstant) (t :: after) (some e) rest
  | noInit {rest : List Token} : Derives (.initializer false) rest none rest
  | lastDefinition {opening t semicolon : Token} {isConstant : Bool} {name : String}
      {after rest : List Token} {init : Option Expr} :
      t.kind = .name name → Derives (.initializer isConstant) after init (semicolon :: rest) →
      semicolon.kind = .char ';' →
      Derives (.definitions isConstant) (opening :: t :: after) [⟨t.line, name, init⟩] rest
  | moreDefinitions {opening t comma : Token} {isConstant : Bool} {name : String}
      {after mid rest : List Token} {init : Option Expr} {defs : List Definition} :
      t.kind = .name name → Derives (.initializer isConstant) after init (comma :: mid) →
      comma.kind = .char ',' →
      Derives (.definitions isConstant) (comma :: mid) defs rest →
      Derives (.definitions isConstant) (opening :: t :: after) (⟨t.line, name, init⟩ :: defs) rest
  | noSection {isConstant : Bool} {rest : List Token} : Derives (.section isConstant) rest none rest
  | someSection {t : Token} {isConstant : Bool} {after rest : List Token}
      {defs : List Definition} :
      t.kind = .keyword (sectionKeyword isConstant) →
      Derives (.definitions isConstant) (t :: after) defs rest →
      Derives (.section isConstant) (t :: after) (some { line := t.line, defs := defs }) rest
  | lastParameter {opening t closing : Token} {name : String} {rest : List Token} :
      t.kind = .name name → closing.kind = .char ')' →
      Derives .parameters (opening :: t :: closing :: rest) [name] rest
  | moreParameters {opening t comma : Token} {name : String} {mid rest : List Token}
      {params : List String} :
      t.kind = .name name → comma.kind = .char ',' →
      Derives .parameters (comma :: mid) params rest →
      Derives .parameters (opening :: t :: comma :: mid) (name :: params) rest
  | procedureSignature {rest : List Token} : Derives (.signature false) rest .procedure rest
  | noParameters {rest : List Token} : Derives (.signature true) rest (.function []) rest
  | someParameters {opening : Token} {after rest : List Token} {params : List String} :
      opening.kind = .char '(' → Derives .parameters (opening :: after) params rest →
      Derives (.signature true) (opening :: after) (.function params) rest
  -- Blocks
  | block {input mid mid' mid'' rest : List Token} {consts vars : Option Decls}
      {routines : List Routine} {body : Option Stmt} :
      Derives (.section true) input consts mid → Derives (.section false) mid vars mid' →
      Derives .routines mid' routines mid'' → Derives .statement mid'' body rest →
      Derives .block input
        { line := lineOf input, consts := consts, vars := vars, routines := routines, body := body }
        rest
  | noRoutines {rest : List Token} : Derives .routines rest [] rest
  | moreRoutines {isFunction : Bool} {input mid rest : List Token} {first : Routine}
      {others : List Routine} :
      Derives (.routine isFunction) input first mid → Derives .routines mid others rest →
      Derives .routines input (first :: others) rest
  | routine {t t' semicolon semicolon' : Token} {isFunction : Bool} {name : String}
      {after mid rest : List Token} {kind : RoutineKind} {block : Block} :
      t.kind = .keyword (routineKeyword isFunction) → t'.kind = .name name →
      Derives (.signature isFunction) after kind (semicolon :: mid) →
      semicolon.kind = .char ';' →
      Derives .block mid block (semicolon' :: rest) → semicolon'.kind = .char ';' →
      Derives (.routine isFunction) (t :: t' :: after)
        { line := t.line, name := name, kind := kind, block := block } rest

/-- `DerivesProgram tokens tree`: the tokens are those of a whole text, and `tree` is its tree. -/
def DerivesProgram (tokens : List Token) (tree : Block) : Prop :=
  ∃ period final, Derives .block tokens tree [period, final] ∧ period.kind = .char '.' ∧
    final.kind = .endOfText

/-! ### The tokens of a derivation -/

/-- The tokens of `input` before `rest` spell a word of `L`. -/
def Spans (L : Language Kind) (input rest : List Token) : Prop :=
  ∃ u, input = u ++ rest ∧ kinds u ∈ L

/-! There is one lemma for each way in which the rules put languages together. -/

namespace Spans

variable {L M : Language Kind} {Ls : List (Language Kind)} {sort : Kind → Prop} {sep : Char}
  {close : Kind} {t : Token} {input mid rest : List Token}

theorem imp (h : Spans L input rest) (le : ∀ w ∈ L, w ∈ M) : Spans M input rest := by
  obtain ⟨u, same, mem⟩ := h
  exact ⟨u, same, le _ mem⟩

theorem rule {x : Nonterminal} (h : Spans (rules language x) input rest) :
    Spans (language x) input rest :=
  h.imp fun _ => mem_language

theorem nothing (h : [] ∈ L) : Spans L rest rest := ⟨[], rfl, h⟩

theorem single (fits : sort t.kind) : Spans (one sort) (t :: rest) rest :=
  ⟨[t], rfl, singleton_mem_one.mpr fits⟩

/-- The tokens of two symbols, one behind the other. -/
theorem append (head : Spans L input mid) (tail : Spans Ls.prod mid rest) :
    Spans (L :: Ls).prod input rest := by
  obtain ⟨u, rfl, uMem⟩ := head
  obtain ⟨v, rfl, vMem⟩ := tail
  refine ⟨u ++ v, by simp, ?_⟩
  rw [kinds_append]
  exact append_mem_prod uMem vMem

theorem token (fits : sort t.kind) (tail : Spans Ls.prod input rest) :
    Spans (one sort :: Ls).prod (t :: input) rest :=
  (single fits).append tail

/-- The last part of a concatenation. -/
theorem last (h : Spans L input rest) : Spans [L].prod input rest :=
  h.imp fun _ => mem_prod_singleton.mpr

theorem present (h : Spans L input rest) : Spans (optional L) input rest :=
  h.imp fun _ mem => mem_optional.mpr (Or.inr mem)

theorem absent : Spans (optional L) rest rest := nothing (mem_optional.mpr (Or.inl rfl))

theorem left (h : Spans L input rest) : Spans (L + M) input rest := h.imp fun _ => Or.inl

theorem right (h : Spans M input rest) : Spans (L + M) input rest := h.imp fun _ => Or.inr

/-- A repetition that is over. -/
theorem ended : Spans L∗ rest rest := nothing (Language.nil_mem_kstar L)

/-- The repeated part, once more. -/
theorem again (head : Spans L input mid) (tail : Spans L∗ mid rest) : Spans L∗ input rest := by
  obtain ⟨u, rfl, uMem⟩ := head
  obtain ⟨v, rfl, vMem⟩ := tail
  refine ⟨u ++ v, by simp, ?_⟩
  rw [kinds_append]
  exact append_mem_star uMem vMem

/-- The last member of a series, and the token that closes the series. -/
theorem closed (member : Spans L input (t :: rest)) (closes : t.kind = close) :
    Spans [series sep L, just close].prod input rest :=
  (member.imp fun _ => mem_series_single).append (single closes).last

/-- A member of a series, a separator, and the rest of the series. -/
theorem separated (member : Spans L input (t :: mid)) (separates : t.kind = .char sep)
    (more : Spans [series sep L, just close].prod mid rest) :
    Spans [series sep L, just close].prod input rest := by
  obtain ⟨u, rfl, uMem⟩ := member
  obtain ⟨v, rfl, vMem⟩ := more
  refine ⟨u ++ t :: v, by simp, ?_⟩
  rw [kinds_append, kinds_cons, separates]
  exact series_more uMem vMem

/-- What stands behind the token that a series starts with. -/
theorem behind (h : Spans (anyToken :: Ls).prod (t :: input) rest) : Spans Ls.prod input rest := by
  obtain ⟨u, same, mem⟩ := h
  cases u with
  | nil =>
    obtain ⟨_, ⟨k, _, rfl⟩, _, _, clash⟩ := mem_prod_cons.mp mem
    cases clash
  | cons _ v => exact ⟨v, (List.cons.inj same).2, (cons_mem_prod.mp mem).2⟩

end Spans

theorem mem_statement {w : List Kind} :
    w ∈ language .statement ↔ w = [] ∨ w ∈ language .idStat ∨ w ∈ language .beginEnd ∨
      w ∈ language .ifStat ∨ w ∈ language .whileStat ∨ w ∈ language .asm ∨
      w ∈ keyword .breakKw ∨ w ∈ keyword .continueKw := by
  conv_lhs => rw [← rules_language]
  simp only [rules, mem_optional, Language.mem_add, or_assoc]

/-- The longer statements are statements. -/
theorem mem_statement_of (x : Nonterminal) {w : List Kind}
    (isStatement : x ∈ [Nonterminal.idStat, .beginEnd, .ifStat, .whileStat, .asm])
    (mem : w ∈ language x) : w ∈ language .statement := by
  rw [mem_statement]
  simp only [List.mem_cons, List.not_mem_nil, or_false] at isStatement
  rcases isStatement with rfl | rfl | rfl | rfl | rfl <;> simp [mem]

/-- Words of the rules that a statement can be made by. -/
theorem Spans.statement {input rest : List Token} (x : Nonterminal)
    (isStatement : x ∈ [Nonterminal.idStat, .beginEnd, .ifStat, .whileStat, .asm])
    (h : Spans (rules language x) input rest) : Spans (language .statement) input rest :=
  h.rule.imp fun _ => mem_statement_of x isStatement

theorem asmTokens_mem {body : List Token}
    (inside : ∀ t ∈ body, t.kind.isProper = true ∧ t.kind ≠ .keyword .endKw) :
    kinds body ∈ asmToken∗ := by
  induction body with
  | nil => exact Language.nil_mem_kstar _
  | cons t body ih =>
    refine append_mem_star (u := [t.kind]) ?_ (ih fun u hu => inside u (by simp [hu]))
    exact singleton_mem_one.mpr (inside t (by simp))

/-- A definition is a name and its initial value. -/
theorem definition_eq (isConstant : Bool) :
    definition isConstant = [id, (Phrase.initializer isConstant).language].prod := by
  cases isConstant with
  | true => simp [definition, Phrase.language]
  | false => simp [definition, Phrase.language]

theorem Spans.definition {t : Token} {name : String} {isConstant : Bool}
    {input rest : List Token} (isName : t.kind = .name name)
    (init : Spans (Phrase.initializer isConstant).language input rest) :
    Spans (definition isConstant) (t :: input) rest := by
  rw [definition_eq]
  exact .token ⟨name, isName⟩ init.last

/-- The rules of the two sections differ in the keyword and in the definitions. -/
theorem section_eq (isConstant : Bool) :
    (Phrase.section isConstant).language =
      optional [keyword (sectionKeyword isConstant), series ',' (definition isConstant),
        symbol ';'].prod := by
  cases isConstant with
  | true => exact congrArg optional (congrFun rules_language.symm .consts)
  | false => exact congrArg optional (congrFun rules_language.symm .vars)

/-- The rules of the two kinds of routines differ in the keyword and in the signature. -/
theorem routine_eq (isFunction : Bool) :
    (Phrase.routine isFunction).language =
      [keyword (routineKeyword isFunction), id, (Phrase.signature isFunction).language, symbol ';',
        language .block, symbol ';'].prod := by
  cases isFunction with
  | true => exact congrFun rules_language.symm .function
  | false =>
    have rule : language .procedure = rules language .procedure := congrFun rules_language.symm _
    simp [Phrase.language, rule, rules, routineKeyword]

/-- Routines of both kinds stand in any order. -/
theorem mem_either_routine {isFunction : Bool} {w : List Kind}
    (mem : w ∈ (Phrase.routine isFunction).language) :
    w ∈ language .procedure + language .function := by
  cases isFunction with
  | true => exact Or.inr mem
  | false => exact Or.inl mem

/-- The tokens of a derivation are a word of its phrase. -/
theorem Derives.mem_language {x : Phrase} {input rest : List Token} {tree : x.Tree}
    (h : Derives x input tree rest) :
    ∃ u, input = u ++ rest ∧ kinds u ∈ x.language := by
  change Spans x.language input rest
  -- Each case puts its parts together in the order in which the rule names them.
  induction h with
  | @signed t op after mid rest first e kind additive _ _ ihTerm ihMore =>
    have sign : Spans (operator BinaryOp.isAdditive) (t :: after) after :=
      .single ⟨op, kind, additive⟩
    exact .rule (sign.present.append (ihTerm.append ihMore.last))
  | unsigned _ _ ihTerm ihMore => exact .rule (Spans.absent.append (ihTerm.append ihMore.last))
  | lastTerm | lastFactor | noRoutines => exact .ended
  | @nextTerm t op _ _ _ _ _ _ _ kind isSort _ _ ihOperand ihMore
  | @nextFactor t op _ _ _ _ _ _ _ kind isSort _ _ ihOperand ihMore =>
    exact .again (.token ⟨op, kind, isSort⟩ ihOperand.last) ihMore
  | term _ _ ihFactor ihMore => exact .rule (ihFactor.append ihMore.last)
  | @name t text rest kind =>
    exact .rule (.left (.left (.token ⟨text, kind⟩ Spans.absent.last)))
  | @call t opening text after rest args kind isOpening _ ihArgs =>
    have args : Spans [symbol '(', series ',' (language .expr), symbol ')'].prod
        (opening :: after) rest := .token isOpening ihArgs.behind
    exact .rule (.left (.left (.token ⟨text, kind⟩ args.present.last)))
  | @number t value rest kind => exact .rule (.left (.right (.single ⟨value, kind⟩)))
  | parentheses isOpening _ isClosing ihInner =>
    exact .rule (.right (.token isOpening (ihInner.append (Spans.single isClosing).last)))
  | lastArgument _ isClosing ihFirst => exact .token trivial (ihFirst.closed isClosing)
  | moreArguments _ isComma _ ihFirst ihMore =>
    exact .token trivial (ihFirst.separated isComma ihMore.behind)
  | odd kind _ ihOperand => exact .rule (.left (.token kind ihOperand.last))
  | @comparison input mid rest t op lhs rhs _ kind relational _ ihLhs ihRhs =>
    exact .rule (.right (ihLhs.append (.token ⟨op, kind, relational⟩ ihRhs.last)))
  | empty => exact .rule .absent
  | @assign t arrow text after rest e kind isArrow _ ihValue =>
    have value : Spans [becomes, language .expr].prod (arrow :: after) rest :=
      .token isArrow ihValue.last
    exact .statement .idStat (by simp) (.token ⟨text, kind⟩ value.left.left.last)
  | @callStatement t opening text after rest args kind isOpening _ ihArgs =>
    have args : Spans [symbol '(', series ',' (language .expr), symbol ')'].prod
        (opening :: after) rest := .token isOpening ihArgs.behind
    exact .statement .idStat (by simp) (.token ⟨text, kind⟩ args.right.left.last)
  | @nameStatement t text rest kind =>
    have nothing : Spans 1 rest rest := .nothing rfl
    exact .statement .idStat (by simp) (.token ⟨text, kind⟩ nothing.right.last)
  | sequence kind _ ihBody => exact .statement .beginEnd (by simp) (.token kind ihBody.behind)
  | ifThen kind _ isThen _ _ ihCond ihThen ihElse =>
    refine .statement .ifStat (by simp) (.token kind (ihCond.append ?_))
    exact .token isThen (ihThen.append ihElse.last)
  | noElse => exact .absent
  | elseBranch kind _ ihBranch => exact .present (.token kind ihBranch.last)
  | whileDo kind _ isDo _ ihCond ihBody =>
    refine .statement .whileStat (by simp) (.token kind (ihCond.append ?_))
    exact .token isDo ihBody.last
  | @asm t begin_ end_ body rest kind isBegin inside isEnd =>
    have held : Spans asmToken∗ (body ++ end_ :: rest) (end_ :: rest) :=
      ⟨body, rfl, asmTokens_mem inside⟩
    refine .statement .asm (by simp) (.token kind (.token isBegin ?_))
    exact held.append (Spans.single isEnd).last
  | @breakLoop t rest kind =>
    have word : Spans (keyword .breakKw) (t :: rest) rest := .single kind
    exact word.imp fun w mem => mem_statement.mpr (by simp [mem])
  | @continueLoop t rest kind =>
    have word : Spans (keyword .continueKw) (t :: rest) rest := .single kind
    exact word.imp fun w mem => mem_statement.mpr (by simp [mem])
  | lastStatement _ isEnd ihFirst => exact .token trivial (ihFirst.closed isEnd)
  | moreStatements _ isSemicolon _ ihFirst ihMore =>
    exact .token trivial (ihFirst.separated isSemicolon ihMore.behind)
  | @init t isConstant after rest e kind _ ihValue =>
    have value : Spans [equals, language .expr].prod (t :: after) rest := .token kind ihValue.last
    cases isConstant with
    | true => exact value
    | false => exact value.present
  | noInit => exact .absent
  | lastDefinition kind _ isSemicolon ihInit =>
    exact .token trivial ((Spans.definition kind ihInit).closed isSemicolon)
  | moreDefinitions kind _ isComma _ ihInit ihMore =>
    exact .token trivial ((Spans.definition kind ihInit).separated isComma ihMore.behind)
  | noSection =>
    rw [section_eq]
    exact .absent
  | someSection kind _ ihDefs =>
    rw [section_eq]
    exact .present (.token kind ihDefs.behind)
  | @lastParameter opening t closing text rest kind isClosing =>
    have parameter : Spans id (t :: closing :: rest) (closing :: rest) := .single ⟨text, kind⟩
    exact .token trivial (parameter.closed isClosing)
  | @moreParameters opening t comma text mid rest params kind isComma _ ihMore =>
    have parameter : Spans id (t :: comma :: mid) (comma :: mid) := .single ⟨text, kind⟩
    exact .token trivial (parameter.separated isComma ihMore.behind)
  | procedureSignature => exact .nothing rfl
  | noParameters => exact .absent
  | someParameters isOpening _ ihParams => exact .present (.token isOpening ihParams.behind)
  | block _ _ _ _ ihConsts ihVars ihRoutines ihBody =>
    exact .rule (ihConsts.append (ihVars.append (ihRoutines.append ihBody.last)))
  | moreRoutines _ _ ihFirst ihMore =>
    exact .again (ihFirst.imp fun _ => mem_either_routine) ihMore
  | @routine t t' semicolon semicolon' isFunction text after mid rest kind block isKeyword isName _
      isSemicolon _ isSemicolon' ihSignature ihBlock =>
    have ending : Spans [symbol ';', language .block, symbol ';'].prod (semicolon :: mid) rest :=
      .token isSemicolon (ihBlock.append (Spans.single isSemicolon').last)
    rw [routine_eq]
    exact .token isKeyword (.token ⟨text, isName⟩ (ihSignature.append ending))

end PlZero.Grammar
