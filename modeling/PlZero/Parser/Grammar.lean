import PlZero.Parser.Basic
import PlZero.Tree.Basic

/-!
The grammar, read by recursive descent with one token of lookahead:

```
program     = block "." .
block       = [ "const" constant { "," constant } ";" ] [ "var" variable { "," variable } ";" ]
              { routine } statement .
constant    = name "=" expression .
variable    = name [ "=" expression ] .
routine     = "procedure" name ";" block ";"
            | "function" name [ "(" name { "," name } ")" ] ";" block ";" .
statement   = [ name ":=" expression | name [ arguments ] | "begin" statement { ";" statement } "end"
            | "if" condition "then" statement [ "else" statement ] | "while" condition "do" statement
            | "asm" "begin" { token } "end" | "break" | "continue" ] .
condition   = "odd" expression | expression comparison expression .
expression  = [ "+" | "-" ] term { ( "+" | "-" ) term } .
term        = factor { ( "*" | "/" ) factor } .
factor      = name [ arguments ] | integer | "(" expression ")" .
arguments   = "(" expression { "," expression } ")" .
```

A node's line is the line of the token the parser was on when it entered the phrase. Each reader
takes a number that bounds how deep phrases nest in it; `Parser.parse` supplies one that the text
ahead cannot exhaust.
-/

namespace PlZero.Parsing

/-! ### Inline assembly -/

/-- The tokens up to the next `end`, on which the parser is left. -/
def asmTokens : Nat → Parsing (List Token.Kind)
  | 0 => reject .endRequired
  | n + 1 => do
    match ← currentKind with
    | .keyword .endKw => return []
    | .endOfText | .invalid _ => reject .endRequired
    | kind =>
      skip
      return kind :: (← asmTokens n)

/-- The text of inline assembly: the tokens written back with a space between two of one line, and
a line ending at every semicolon and behind the last token. `words` are those of the current line. -/
def asmText (words : List String) : List Token.Kind → String
  | [] => if words.isEmpty then "" else " ".intercalate words ++ "\n"
  | .char ';' :: rest => " ".intercalate words ++ "\n" ++ asmText [] rest
  | kind :: rest => asmText (words ++ [kind.spelling]) rest

/-! ### Expressions -/

/-- A leading sign: the term is added to zero or taken from it. -/
def signed (line : Nat) (sign : Option BinaryOp) (term : Expr) : Expr :=
  match sign with
  | none => term
  | some op => .binary { line } op (.number { line } 0) term

mutual

def expression : Nat → Parsing Expr
  | 0 => reject .invalidFactor
  | n + 1 => do
    let line ← currentLine
    let sign ← operator? BinaryOp.isAdditive
    let first ← term n
    moreTerms n line (signed line sign first)

/-- Reads the terms that follow `lhs` in an expression that starts on `line`. -/
def moreTerms : Nat → Nat → Expr → Parsing Expr
  | 0, _, _ => reject .invalidFactor
  | n + 1, line, lhs => do
    match ← operator? BinaryOp.isAdditive with
    | none => return lhs
    | some op =>
      let rhs ← term n
      moreTerms n line (.binary { line } op lhs rhs)

def term : Nat → Parsing Expr
  | 0 => reject .invalidFactor
  | n + 1 => do
    let line ← currentLine
    let first ← factor n
    moreFactors n line first

def moreFactors : Nat → Nat → Expr → Parsing Expr
  | 0, _, _ => reject .invalidFactor
  | n + 1, line, lhs => do
    match ← operator? BinaryOp.isMultiplicative with
    | none => return lhs
    | some op =>
      let rhs ← factor n
      moreFactors n line (.binary { line } op lhs rhs)

/-- Reads a factor. Parentheses leave no node. -/
def factor : Nat → Parsing Expr
  | 0 => reject .invalidFactor
  | n + 1 => do
    let line ← currentLine
    match ← currentKind with
    | .name name =>
      skip
      if ← sees (.char '(') then
        let args ← arguments n
        return .call { line } { name } args
      else return .name { line } { name }
    | .integer value =>
      skip
      return .number { line } value
    | _ =>
      if ← sees (.char '(') then
        skip
        let inner ← expression n
        expect (.char ')') .closingRequired
        return inner
      else reject .invalidFactor

/-- Reads arguments, from the opening parenthesis or a comma to the closing parenthesis. -/
def arguments : Nat → Parsing (List Expr)
  | 0 => reject .invalidFactor
  | n + 1 => do
    skip
    let first ← expression n
    if ← sees (.char ',') then
      let rest ← arguments n
      return first :: rest
    else
      expect (.char ')') .callClosingRequired
      return [first]

end

def condition (n : Nat) : Parsing Expr := do
  let line ← currentLine
  if ← sees (.keyword .oddKw) then
    skip
    let operand ← expression n
    return .odd { line } operand
  else
    let lhs ← expression n
    match ← operator? BinaryOp.isRelational with
    | none => reject .comparisonRequired
    | some op =>
      let rhs ← expression n
      return .binary { line } op lhs rhs

/-! ### Statements -/

mutual

/-- Reads a statement; `none` is the empty one. -/
def statement : Nat → Parsing (Option Stmt)
  | 0 => reject .invalidFactor
  | n + 1 => do
    let line ← currentLine
    match ← currentKind with
    | .name name =>
      skip
      if ← sees (.operator .assign) then
        skip
        let value ← expression n
        return some (.assign { line } { name } value)
      else if ← sees (.char '(') then
        let args ← arguments n
        return some (.call { line } { name } args)
      else return some (.name { line } { name })
    | .keyword .beginKw =>
      let body ← statements n
      return some (.sequence { line } body)
    | .keyword .ifKw =>
      skip
      let cond ← condition n
      expect (.keyword .thenKw) .thenRequired
      let thenBranch ← statement n
      let elseBranch ← elsePart n
      return some (.ifThen { line } cond thenBranch elseBranch)
    | .keyword .whileKw =>
      skip
      let cond ← condition n
      expect (.keyword .doKw) .doRequired
      let body ← statement n
      return some (.whileDo { line } cond body)
    | .keyword .asmKw =>
      skip
      expect (.keyword .beginKw) .beginRequired
      let tokens ← asmTokens n
      skip
      return some (.asm { line } (asmText [] tokens))
    | .keyword .breakKw =>
      skip
      return some (.control { line } .breakLoop)
    | .keyword .continueKw =>
      skip
      return some (.control { line } .continueLoop)
    | _ => return none

def elsePart : Nat → Parsing (Option Stmt)
  | 0 => reject .invalidFactor
  | n + 1 => do
    if ← sees (.keyword .elseKw) then
      skip
      statement n
    else return none

/-- Reads statements, from `begin` or a semicolon to `end`, leaving the empty ones out. -/
def statements : Nat → Parsing (List Stmt)
  | 0 => reject .invalidFactor
  | n + 1 => do
    skip
    let first ← statement n
    if ← sees (.char ';') then
      let rest ← statements n
      return first.toList ++ rest
    else
      expect (.keyword .endKw) .endRequired
      return first.toList

end

/-! ### Declarations -/

/-- Reads the initial value of a definition. A constant must have one. -/
def initializer (n : Nat) (isConstant : Bool) : Parsing (Option Expr) := do
  if ← sees (.operator (.binary .equal)) then
    skip
    let init ← expression n
    return some init
  else if isConstant then reject .equalsRequired
  else return none

/-- Reads definitions, from the section's keyword or a comma to the semicolon. -/
def definitions : Nat → Bool → Parsing (List Definition)
  | 0, _ => reject .invalidFactor
  | n + 1, isConstant => do
    skip
    let line ← currentLine
    let name ← expectName .nameRequired
    let init ← initializer n isConstant
    if ← sees (.char ',') then
      let rest ← definitions n isConstant
      return ⟨line, name, init⟩ :: rest
    else
      expect (.char ';') .semicolonRequired
      return [⟨line, name, init⟩]

/-- Reads a section of definitions, if the parser is on its keyword. -/
def declarations? (n : Nat) (keyword : Keyword) (isConstant : Bool) : Parsing (Option Decls) := do
  let line ← currentLine
  if ← sees (.keyword keyword) then
    let defs ← definitions n isConstant
    return some { line, defs }
  else return none

/-- Reads parameters, from the opening parenthesis or a comma to the closing parenthesis. -/
def parameters : Nat → Parsing (List String)
  | 0 => reject .invalidFactor
  | n + 1 => do
    skip
    let first ← expectName .parameterRequired
    if ← sees (.char ',') then
      let rest ← parameters n
      return first :: rest
    else
      expect (.char ')') .closingRequired
      return [first]

/-- Reads what stands between the name and the block of a routine. -/
def signature (n : Nat) (keyword : Keyword) : Parsing RoutineKind := do
  match keyword with
  | .functionKw =>
    if ← sees (.char '(') then
      let params ← parameters n
      return .function params
    else return .function []
  | _ => return .procedure

/-! ### Blocks -/

mutual

def block : Nat → Parsing Block
  | 0 => reject .invalidFactor
  | n + 1 => do
    let line ← currentLine
    let consts ← declarations? n .constKw true
    let vars ← declarations? n .varKw false
    let routines ← routines n
    let body ← statement n
    return { line, consts, vars, routines, body }

def routines : Nat → Parsing (List Routine)
  | 0 => reject .invalidFactor
  | n + 1 => do
    match ← currentKind with
    | .keyword .procedureKw =>
      let first ← routine n .procedureKw
      let rest ← routines n
      return first :: rest
    | .keyword .functionKw =>
      let first ← routine n .functionKw
      let rest ← routines n
      return first :: rest
    | _ => return []

def routine : Nat → Keyword → Parsing Routine
  | 0, _ => reject .invalidFactor
  | n + 1, keyword => do
    let line ← currentLine
    skip
    let name ← expectName .nameRequired
    let kind ← signature n keyword
    expect (.char ';') .semicolonRequired
    let block ← block n
    expect (.char ';') .semicolonRequired
    return { line, name, kind, block }

end

/-- Reads a program: a block, a period, and the end of the text. -/
def program : Parsing Block := do
  let tree ← block (← get).fuel
  expect (.char '.') .periodRequired
  if ← sees .endOfText then return tree
  else reject .periodRequired

end PlZero.Parsing

namespace PlZero

/-- Reads a program from the current token on: the tree or what stopped it, and the parser as it is
then. -/
def Parser.parse (p : Parser) : Except Failure Block × Parser :=
  match Parsing.program p with
  | .ok tree p => (.ok tree, p)
  | .error failure p => (.error failure, p)

/-- The tree of a source text. -/
def parse (source : String) : Except Failure Block := (Parser.ofString source).parse.1

end PlZero
