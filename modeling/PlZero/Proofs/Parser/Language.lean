import Mathlib.Computability.Language
import Mathlib.Order.FixedPoints
import Mathlib.Order.CompletePartialOrder
import PlZero.Proofs.Parser.Stream

/-!
The grammar as a system of equations between languages of token kinds, one equation for each rule:

```
program    = block "." ;
block      = [consts] [vars] {procedure|function} statement ;
consts     = "const" id "=" expr {"," id "=" expr} ";" ;
vars       = "var" id ["=" expr] {"," id ["=" expr]} ";" ;
procedure  = "procedure" id ";" block ";" ;
function   = "function" id ["(" id {"," id} ")"] ";" block ";" ;
statement  = [ id-stat | begin-end | if | while | asm | break|continue ] ;
id-stat    = id (":=" expr | "(" expr {"," expr} ")" | ε) ;
begin-end  = "begin" statement {";" statement} "end" ;
if         = "if" cond "then" statement ["else" statement] ;
while      = "while" cond "do" statement ;
asm        = "asm" "begin" {token}* "end" ;
cond       = "odd" expr | expr relop expr ;
expr       = [addsub] term {addsub term} ;
term       = factor {muldiv factor} ;
factor     = id ["(" expr {"," expr} ")"] | number | "(" expr ")" ;
```

The language of each nonterminal is its part of the least solution. Nothing here looks ahead: an
`else` may belong to any open `if`, and the rules do not say how a phrase is found in a text.
-/

namespace PlZero.Grammar

open Computability
open Token (Kind)

/-- The nonterminals, one for each rule. -/
inductive Nonterminal where
  | program
  | block
  | consts
  | vars
  | procedure
  | function
  | statement
  | idStat
  | beginEnd
  | ifStat
  | whileStat
  | asm
  | cond
  | expr
  | term
  | factor
  deriving DecidableEq, Repr

/-! ### Terminals -/

/-- The words of one token of a given sort. -/
def one (sort : Kind → Prop) : Language Kind := {w | ∃ k, sort k ∧ w = [k]}

def just (kind : Kind) : Language Kind := one (· = kind)

def keyword (word : Keyword) : Language Kind := just (.keyword word)

def symbol (c : Char) : Language Kind := just (.char c)

def equals : Language Kind := just (.operator (.binary .equal))

def becomes : Language Kind := just (.operator .assign)

def id : Language Kind := one fun k => ∃ text, k = .name text

def number : Language Kind := one fun k => ∃ value, k = .integer value

def operator (sort : BinaryOp → Bool) : Language Kind :=
  one fun k => ∃ op, k = .operator (.binary op) ∧ sort op = true

/-- Any token that inline assembly can hold. -/
def asmToken : Language Kind := one fun k => k.isProper = true ∧ k ≠ .keyword .endKw

/-- What stands in brackets in a rule. -/
def optional (L : Language Kind) : Language Kind := 1 + L

/-- `L {sep L}`: one or more, with a separator between two. -/
def series (sep : Char) (L : Language Kind) : Language Kind :=
  [L, ([symbol sep, L].prod)∗].prod

/-! ### Rules -/

/-- The right-hand sides of the rules, with the languages `L` of the nonterminals put in. A list is
read as the concatenation of its parts. -/
def rules (L : Nonterminal → Language Kind) : Nonterminal → Language Kind
  | .program => [L .block, symbol '.'].prod
  | .block =>
    [optional (L .consts), optional (L .vars), (L .procedure + L .function)∗, L .statement].prod
  | .consts => [keyword .constKw, series ',' [id, equals, L .expr].prod, symbol ';'].prod
  | .vars =>
    [keyword .varKw, series ',' [id, optional [equals, L .expr].prod].prod, symbol ';'].prod
  | .procedure => [keyword .procedureKw, id, symbol ';', L .block, symbol ';'].prod
  | .function =>
    [keyword .functionKw, id, optional [symbol '(', series ',' id, symbol ')'].prod, symbol ';',
      L .block, symbol ';'].prod
  | .statement =>
    optional (L .idStat + L .beginEnd + L .ifStat + L .whileStat + L .asm + keyword .breakKw +
      keyword .continueKw)
  | .idStat =>
    [id, [becomes, L .expr].prod + [symbol '(', series ',' (L .expr), symbol ')'].prod + 1].prod
  | .beginEnd => [keyword .beginKw, series ';' (L .statement), keyword .endKw].prod
  | .ifStat =>
    [keyword .ifKw, L .cond, keyword .thenKw, L .statement,
      optional [keyword .elseKw, L .statement].prod].prod
  | .whileStat => [keyword .whileKw, L .cond, keyword .doKw, L .statement].prod
  | .asm => [keyword .asmKw, keyword .beginKw, asmToken∗, keyword .endKw].prod
  | .cond =>
    [keyword .oddKw, L .expr].prod + [L .expr, operator BinaryOp.isRelational, L .expr].prod
  | .expr =>
    [optional (operator BinaryOp.isAdditive), L .term,
      ([operator BinaryOp.isAdditive, L .term].prod)∗].prod
  | .term => [L .factor, ([operator BinaryOp.isMultiplicative, L .factor].prod)∗].prod
  | .factor =>
    [id, optional [symbol '(', series ',' (L .expr), symbol ')'].prod].prod + number +
      [symbol '(', L .expr, symbol ')'].prod

/-- The rules are monotone, so they have a least solution. -/
theorem rules_mono : Monotone rules := by
  intro L M le x
  cases x <;> simp only [rules, series, List.prod_cons, List.prod_nil, optional] <;>
    gcongr <;> exact le _

/-- The language of each nonterminal: its part of the least solution of the rules. -/
def language : Nonterminal → Language Kind := OrderHom.lfp ⟨rules, rules_mono⟩

/-- The language of each symbol is what its rule gives. -/
theorem rules_language : rules language = language :=
  OrderHom.map_lfp ⟨rules, rules_mono⟩

/-- Rule induction: what the rules keep holds of every word of every nonterminal. -/
theorem language_le {holds : Nonterminal → Language Kind} (kept : rules holds ≤ holds) :
    language ≤ holds :=
  OrderHom.lfp_le ⟨rules, rules_mono⟩ kept

/-- The kinds of a whole text: a sentence of the grammar, then the end. -/
def Sentence (kinds : List Kind) : Prop := ∃ w ∈ language .program, kinds = w ++ [.endOfText]

/-! ### Words of a rule -/

section Words

variable {L : Language Kind} {Ls : List (Language Kind)} {sort : Kind → Prop} {k : Kind}
  {sep : Char} {u v w : List Kind}

@[simp] theorem singleton_mem_one : [k] ∈ one sort ↔ sort k := by
  constructor
  · rintro ⟨k', holds, same⟩
    cases same
    exact holds
  · intro holds
    exact ⟨k, holds, rfl⟩

theorem append_mem_prod (head : u ∈ L) (tail : v ∈ Ls.prod) : u ++ v ∈ (L :: Ls).prod := by
  rw [List.prod_cons]
  exact Language.append_mem_mul head tail

theorem mem_prod_cons : w ∈ (L :: Ls).prod ↔ ∃ u ∈ L, ∃ v ∈ Ls.prod, u ++ v = w := by
  rw [List.prod_cons, Language.mem_mul]

@[simp] theorem mem_prod_nil : w ∈ ([] : List (Language Kind)).prod ↔ w = [] := Iff.rfl

@[simp] theorem mem_prod_singleton : w ∈ [L].prod ↔ w ∈ L := by
  rw [List.prod_singleton]

/-- A concatenation that starts with one token is read off the front of the word. -/
@[simp] theorem cons_mem_prod : k :: w ∈ (one sort :: Ls).prod ↔ sort k ∧ w ∈ Ls.prod := by
  rw [mem_prod_cons]
  constructor
  · rintro ⟨_, ⟨k', holds, rfl⟩, v, tail, same⟩
    cases same
    exact ⟨holds, tail⟩
  · rintro ⟨holds, tail⟩
    exact ⟨[k], ⟨k, holds, rfl⟩, w, tail, rfl⟩

theorem mem_optional : w ∈ optional L ↔ w = [] ∨ w ∈ L := by
  rw [optional, Language.mem_add, Language.mem_one]

theorem mem_optional_prod (h : w ∈ Ls.prod) : w ∈ (optional L :: Ls).prod :=
  append_mem_prod (u := []) (mem_optional.mpr (Or.inl rfl)) h

theorem append_mem_optional_prod (head : u ∈ L) (tail : v ∈ Ls.prod) :
    u ++ v ∈ (optional L :: Ls).prod :=
  append_mem_prod (mem_optional.mpr (Or.inr head)) tail

theorem append_mem_star (head : u ∈ L) (tail : v ∈ L∗) : u ++ v ∈ L∗ := by
  rw [← Language.one_add_self_mul_kstar_eq_kstar]
  exact Or.inr (Language.append_mem_mul head tail)

/-- Induction over a repetition. -/
theorem star_induction {motive : List Kind → Prop} (nil : motive [])
    (append : ∀ u ∈ L, ∀ v, motive v → motive (u ++ v)) : ∀ w ∈ L∗, motive w := by
  rintro w ⟨parts, rfl, members⟩
  induction parts with
  | nil => exact nil
  | cons part parts ih =>
    rw [List.flatten_cons]
    exact append part (members part (by simp)) _ (ih fun y hy => members y (by simp [hy]))

theorem mem_series_single (h : w ∈ L) : w ∈ series sep L := by
  rw [series, ← List.append_nil w]
  exact append_mem_prod h (by simpa using Language.nil_mem_kstar _)

theorem mem_series_append (head : u ∈ L) (tail : v ∈ series sep L) :
    u ++ .char sep :: v ∈ series sep L := by
  rw [series, mem_prod_cons] at tail
  obtain ⟨first, firstMem, more, moreMem, rfl⟩ := tail
  rw [mem_prod_singleton] at moreMem
  refine append_mem_prod head ?_
  rw [mem_prod_singleton, ← List.cons_append]
  refine append_mem_star ?_ moreMem
  exact cons_mem_prod.mpr ⟨rfl, mem_prod_singleton.mpr firstMem⟩

/-- Induction over a series. -/
theorem series_induction {motive : List Kind → Prop} (single : ∀ u ∈ L, motive u)
    (append : ∀ u ∈ L, ∀ v, motive v → motive (u ++ .char sep :: v)) :
    ∀ w ∈ series sep L, motive w := by
  intro w mem
  rw [series, mem_prod_cons] at mem
  obtain ⟨first, firstMem, more, moreMem, rfl⟩ := mem
  rw [mem_prod_singleton] at moreMem
  refine star_induction (motive := fun more => ∀ first ∈ L, motive (first ++ more)) ?_ ?_ more
    moreMem first firstMem
  · intro u uMem
    simpa using single u uMem
  · intro step stepMem v ih u uMem
    rw [mem_prod_cons] at stepMem
    obtain ⟨_, ⟨k, rfl, rfl⟩, next, nextMem, rfl⟩ := stepMem
    rw [mem_prod_singleton] at nextMem
    exact append u uMem _ (ih next nextMem)

/-- One of a series, a separator, and the rest of the series. -/
theorem series_more {close : Kind} (h : u ∈ L) (more : v ∈ [series sep L, just close].prod) :
    u ++ .char sep :: v ∈ [series sep L, just close].prod := by
  obtain ⟨others, othersMem, closing, closingMem, rfl⟩ := mem_prod_cons.mp more
  rw [← List.cons_append, ← List.append_assoc]
  exact append_mem_prod (mem_series_append h othersMem) closingMem

/-- Words that a rule gives are words of its symbol. -/
theorem mem_language {x : Nonterminal} (h : w ∈ rules language x) : w ∈ language x := by
  rwa [rules_language] at h

end Words

/-! ### Languages that have a word -/

def HasWord (L : Language Kind) : Prop := ∃ w, w ∈ L

section HasWord

variable {L M : Language Kind} {sort : Kind → Prop} {sep : Char}

@[simp] theorem hasWord_one : HasWord (one sort) ↔ ∃ k, sort k := by
  constructor
  · rintro ⟨_, k, holds, rfl⟩
    exact ⟨k, holds⟩
  · rintro ⟨k, holds⟩
    exact ⟨[k], singleton_mem_one.mpr holds⟩

@[simp] theorem hasWord_just {kind : Kind} : HasWord (just kind) := hasWord_one.mpr ⟨kind, rfl⟩

@[simp] theorem hasWord_keyword {word : Keyword} : HasWord (keyword word) := hasWord_just

@[simp] theorem hasWord_symbol {c : Char} : HasWord (symbol c) := hasWord_just

@[simp] theorem hasWord_equals : HasWord equals := hasWord_just

@[simp] theorem hasWord_becomes : HasWord becomes := hasWord_just

@[simp] theorem hasWord_id : HasWord id := hasWord_one.mpr ⟨.name "", "", rfl⟩

@[simp] theorem hasWord_number : HasWord number := hasWord_one.mpr ⟨.integer 0, 0, rfl⟩

theorem hasWord_operator {sort : BinaryOp → Bool} (op : BinaryOp) (h : sort op = true) :
    HasWord (operator sort) :=
  hasWord_one.mpr ⟨.operator (.binary op), op, rfl, h⟩

@[simp] theorem hasWord_epsilon : HasWord (1 : Language Kind) := ⟨[], rfl⟩

@[simp] theorem hasWord_mul : HasWord (L * M) ↔ HasWord L ∧ HasWord M := by
  constructor
  · rintro ⟨_, u, uMem, v, vMem, rfl⟩
    exact ⟨⟨u, uMem⟩, ⟨v, vMem⟩⟩
  · rintro ⟨⟨u, uMem⟩, ⟨v, vMem⟩⟩
    exact ⟨u ++ v, Language.append_mem_mul uMem vMem⟩

@[simp] theorem hasWord_sup : HasWord (L ⊔ M) ↔ HasWord L ∨ HasWord M := by
  rw [← add_eq_sup]
  simp only [HasWord, Language.mem_add, exists_or]

@[simp] theorem hasWord_optional : HasWord (optional L) := ⟨[], mem_optional.mpr (Or.inl rfl)⟩

@[simp] theorem hasWord_star : HasWord L∗ := ⟨[], Language.nil_mem_kstar L⟩

@[simp] theorem hasWord_series : HasWord (series sep L) ↔ HasWord L := by
  simp [series]

end HasWord

/-- Every symbol of the grammar has a word. -/
@[simp] theorem hasWord_language (x : Nonterminal) : HasWord (language x) := by
  have comparison : HasWord (operator BinaryOp.isRelational) := hasWord_operator .equal rfl
  -- The nonterminals of which others are made come first.
  have factor : HasWord (language .factor) := by
    rw [← rules_language]
    simp [rules]
  have term : HasWord (language .term) := by
    rw [← rules_language]
    simp [rules, factor]
  have expr : HasWord (language .expr) := by
    rw [← rules_language]
    simp [rules, term]
  have cond : HasWord (language .cond) := by
    rw [← rules_language]
    simp [rules, expr, comparison]
  have statement : HasWord (language .statement) := by
    rw [← rules_language]
    exact hasWord_optional
  have block : HasWord (language .block) := by
    rw [← rules_language]
    simp [rules, statement]
  rw [← rules_language]
  cases x <;> simp [rules, factor, term, expr, cond, comparison, statement, block]

/-! ### Beginnings of words -/

/-- `w` can be continued to a word of `L`. -/
def Viable (L : Language Kind) (w : List Kind) : Prop := ∃ v, w ++ v ∈ L

end PlZero.Grammar
