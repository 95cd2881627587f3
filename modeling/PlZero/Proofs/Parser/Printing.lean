import PlZero.Proofs.Parser.Derivation
import PlZero.Proofs.Token.Written
import PlZero.Proofs.Tree.Bare
import PlZero.Tree.Names

/-!
Trees as texts.

`Block.tokens` are the tokens of a tree: both operands of an operator in parentheses, an `else` in
every `if`, nothing that could be left out elsewhere. A tree has more freedom than a text can show:
`Block.Printable` says which trees have one. What a text does not carry over either are the lines of
the nodes and what analysis fills in; `Block.bare` is a tree without these, all on the first line.

Main statement: the tokens of a printable tree can be written and scanned
(`Block.Printable.writable`).
-/

namespace PlZero

open Token (Kind)

/-! ### Printable trees -/

/-- Names are identifiers, calls have arguments, and no comparison and no `odd` occurs. -/
inductive Expr.Printable : Expr → Prop where
  | binary {info : ExprInfo} {op : BinaryOp} {lhs rhs : Expr} :
      op.isRelational = false → Printable lhs → Printable rhs → Printable (.binary info op lhs rhs)
  | call {info : ExprInfo} {callee : Reference} {args : List Expr} :
      IsIdentifier callee.name → args ≠ [] → (∀ e ∈ args, Printable e) →
      Printable (.call info callee args)
  | name {info : ExprInfo} {ref : Reference} : IsIdentifier ref.name → Printable (.name info ref)
  | number {info : ExprInfo} {value : Int32} : Printable (.number info value)

/-- A condition has `odd` or a comparison at its root and nowhere else. -/
inductive Expr.PrintableCondition : Expr → Prop where
  | odd {info : ExprInfo} {operand : Expr} :
      operand.Printable → PrintableCondition (.odd info operand)
  | comparison {info : ExprInfo} {op : BinaryOp} {lhs rhs : Expr} :
      op.isRelational = true → lhs.Printable → rhs.Printable →
      PrintableCondition (.binary info op lhs rhs)

/-- Names are identifiers, expressions and conditions are printable, and there is no inline
assembly. -/
inductive Stmt.Printable : Stmt → Prop where
  | assign {info : StmtInfo} {target : Reference} {value : Expr} :
      IsIdentifier target.name → value.Printable → Printable (.assign info target value)
  | sequence {info : StmtInfo} {body : List Stmt} :
      (∀ s ∈ body, Printable s) → Printable (.sequence info body)
  | ifThen {info : StmtInfo} {cond : Expr} {thenBranch elseBranch : Option Stmt} :
      cond.PrintableCondition → (∀ s ∈ thenBranch, Printable s) → (∀ s ∈ elseBranch, Printable s) →
      Printable (.ifThen info cond thenBranch elseBranch)
  | whileDo {info : StmtInfo} {cond : Expr} {body : Option Stmt} :
      cond.PrintableCondition → (∀ s ∈ body, Printable s) → Printable (.whileDo info cond body)
  | control {info : StmtInfo} {exit : LoopExit} : Printable (.control info exit)
  | call {info : StmtInfo} {callee : Reference} {args : List Expr} :
      IsIdentifier callee.name → args ≠ [] → (∀ e ∈ args, e.Printable) →
      Printable (.call info callee args)
  | name {info : StmtInfo} {ref : Reference} : IsIdentifier ref.name → Printable (.name info ref)

/-- The name is an identifier, and a constant has an initial value. -/
structure Definition.Printable (isConstant : Bool) (d : Definition) : Prop where
  name : IsIdentifier d.name
  init : ∀ e ∈ d.init, e.Printable
  given : isConstant = true → d.init.isSome = true

structure Decls.Printable (isConstant : Bool) (decls : Decls) : Prop where
  nonempty : decls.defs ≠ []
  defs : ∀ d ∈ decls.defs, d.Printable isConstant

/-- The names of the routine and of its parameters are identifiers. -/
structure Routine.Named (r : Routine) : Prop where
  name : IsIdentifier r.name
  params : ∀ param ∈ r.kind.params, IsIdentifier param

inductive Block.Printable : Block → Prop where
  | intro {line : Nat} {consts vars : Option Decls} {routines : List Routine} {body : Option Stmt}
      {scope : Option ScopeId} :
      (∀ decls ∈ consts, decls.Printable true) → (∀ decls ∈ vars, decls.Printable false) →
      (∀ r ∈ routines, r.Named) → (∀ r ∈ routines, Printable r.block) →
      (∀ s ∈ body, s.Printable) → Printable ⟨line, consts, vars, routines, body, scope⟩

/-! ### Tokens of a tree -/

/-- Phrases with a character between two. -/
def joined (c : Char) (phrases : List (List Kind)) : List Kind :=
  [Kind.char c].intercalate phrases

@[simp] theorem joined_singleton (c : Char) (phrase : List Kind) :
    joined c [phrase] = phrase := List.intercalate_singleton

@[simp] theorem joined_cons_cons (c : Char) (first second : List Kind)
    (others : List (List Kind)) :
    joined c (first :: second :: others) = first ++ .char c :: joined c (second :: others) := by
  simp [joined, List.intercalate_cons_of_ne_nil]

mutual

/-- The tokens of an expression, or of a condition. -/
def Expr.tokens : Expr → List Kind
  | .odd _ operand => .keyword .oddKw :: operand.tokens
  | .binary _ op lhs rhs =>
    .char '(' :: lhs.tokens ++ .char ')' :: .operator (.binary op) ::
      .char '(' :: rhs.tokens ++ [.char ')']
  | .call _ callee args =>
    .name callee.name :: .char '(' :: joined ',' (Expr.tokensAll args) ++ [.char ')']
  | .name _ ref => [.name ref.name]
  | .number _ value => [.integer value]

def Expr.tokensAll : List Expr → List (List Kind)
  | [] => []
  | e :: rest => e.tokens :: Expr.tokensAll rest

end

def LoopExit.keyword : LoopExit → Keyword
  | .breakLoop => .breakKw
  | .continueLoop => .continueKw

mutual

/-- The tokens of a statement. Inline assembly is not written. -/
def Stmt.tokens : Stmt → List Kind
  | .assign _ target value => .name target.name :: .operator .assign :: value.tokens
  | .sequence _ body =>
    .keyword .beginKw :: joined ';' (Stmt.tokensAll body) ++ [.keyword .endKw]
  | .ifThen _ cond thenBranch elseBranch =>
    .keyword .ifKw :: cond.tokens ++ .keyword .thenKw :: Stmt.tokensOption thenBranch ++
      .keyword .elseKw :: Stmt.tokensOption elseBranch
  | .whileDo _ cond body =>
    .keyword .whileKw :: cond.tokens ++ .keyword .doKw :: Stmt.tokensOption body
  | .asm _ _ => []
  | .control _ exit => [.keyword exit.keyword]
  | .call _ callee args =>
    .name callee.name :: .char '(' :: joined ',' (Expr.tokensAll args) ++ [.char ')']
  | .name _ ref => [.name ref.name]

def Stmt.tokensOption : Option Stmt → List Kind
  | none => []
  | some s => s.tokens

def Stmt.tokensAll : List Stmt → List (List Kind)
  | [] => []
  | s :: rest => s.tokens :: Stmt.tokensAll rest

end

def Definition.initTokens : Option Expr → List Kind
  | none => []
  | some e => .operator (.binary .equal) :: e.tokens

def Definition.tokens (d : Definition) : List Kind := .name d.name :: initTokens d.init

def Decls.tokens (isConstant : Bool) : Option Decls → List Kind
  | none => []
  | some decls =>
    .keyword (Grammar.sectionKeyword isConstant) ::
      joined ',' (decls.defs.map Definition.tokens) ++ [.char ';']

def RoutineKind.isFunction : RoutineKind → Bool
  | .procedure => false
  | .function _ => true

/-- The tokens between the name and the block of a routine. -/
def RoutineKind.tokens (kind : RoutineKind) : List Kind :=
  if kind.params = [] then []
  else .char '(' :: joined ',' (kind.params.map ([.name ·])) ++ [.char ')']

mutual

def Block.tokens : Block → List Kind
  | { consts, vars, routines, body, .. } =>
    Decls.tokens true consts ++ Decls.tokens false vars ++ Routine.tokensAll routines ++
      Stmt.tokensOption body

def Routine.tokens : Routine → List Kind
  | { name, kind, block, .. } =>
    .keyword (Grammar.routineKeyword kind.isFunction) :: .name name :: kind.tokens ++
      .char ';' :: block.tokens ++ [.char ';']

def Routine.tokensAll : List Routine → List Kind
  | [] => []
  | r :: rest => r.tokens ++ Routine.tokensAll rest

end

/-- A program as a text: its tokens with a space between two. -/
def Block.canonicalText (program : Block) : String :=
  " ".intercalate ((program.tokens ++ [Kind.char '.']).map Kind.text)

/-! ### Writing tokens -/

theorem Expr.tokensAll_eq_map (args : List Expr) : Expr.tokensAll args = args.map Expr.tokens := by
  induction args with
  | nil => rfl
  | cons e args ih => rw [Expr.tokensAll, ih, List.map_cons]

theorem Stmt.tokensAll_eq_map (body : List Stmt) : Stmt.tokensAll body = body.map Stmt.tokens := by
  induction body with
  | nil => rfl
  | cons s body ih => rw [Stmt.tokensAll, ih, List.map_cons]

def AllWritable (kinds : List Kind) : Prop := ∀ kind ∈ kinds, kind.Writable

@[simp] theorem allWritable_nil : AllWritable [] := nofun

@[simp] theorem allWritable_cons {kind : Kind} {kinds : List Kind} :
    AllWritable (kind :: kinds) ↔ kind.Writable ∧ AllWritable kinds := List.forall_mem_cons

@[simp] theorem allWritable_append {first second : List Kind} :
    AllWritable (first ++ second) ↔ AllWritable first ∧ AllWritable second :=
  List.forall_mem_append

@[simp] theorem writable_keyword (word : Keyword) : (Kind.keyword word).Writable := trivial

@[simp] theorem writable_operator (op : Operator) : (Kind.operator op).Writable := trivial

/-- Every number can be written, negative ones in hexadecimal. -/
@[simp] theorem writable_integer (value : Int32) : (Kind.integer value).Writable := trivial

@[simp] theorem writable_name {name : String} : (Kind.name name).Writable ↔ IsIdentifier name :=
  Iff.rfl

@[simp] theorem writable_char {c : Char} : (Kind.char c).Writable ↔ StandsAlone c := Iff.rfl

/-- Lists with separators can be written if their parts can. -/
theorem allWritable_joined {c : Char} {phrases : List (List Kind)} (alone : StandsAlone c)
    (each : ∀ phrase ∈ phrases, AllWritable phrase) : AllWritable (joined c phrases) := by
  induction phrases with
  | nil => exact allWritable_nil
  | cons first phrases ih =>
    obtain ⟨writable, others⟩ := List.forall_mem_cons.mp each
    cases phrases with
    | nil => simpa using writable
    | cons second phrases => simpa using ⟨writable, alone, ih others⟩

theorem allWritable_arguments {args : List Expr} (each : ∀ e ∈ args, AllWritable e.tokens) :
    AllWritable (joined ',' (Expr.tokensAll args)) :=
  allWritable_joined (by decide) (by simpa [Expr.tokensAll_eq_map] using each)

/-- The tokens of a printable expression can be written. -/
theorem Expr.Printable.writable {e : Expr} (printable : e.Printable) : AllWritable e.tokens := by
  induction printable with
  | binary _ _ _ lhs rhs => simp +decide [Expr.tokens, lhs, rhs]
  | call identifier _ _ args => simp +decide [Expr.tokens, identifier, allWritable_arguments args]
  | name identifier => simp [Expr.tokens, identifier]
  | number => simp [Expr.tokens]

theorem Expr.PrintableCondition.writable {e : Expr} (printable : e.PrintableCondition) :
    AllWritable e.tokens := by
  cases printable with
  | odd operand => simp [Expr.tokens, operand.writable]
  | comparison _ lhs rhs => simp +decide [Expr.tokens, lhs.writable, rhs.writable]

theorem allWritable_statementOption {s : Option Stmt} (each : ∀ t ∈ s, AllWritable t.tokens) :
    AllWritable (Stmt.tokensOption s) := by
  cases s with
  | none => exact allWritable_nil
  | some s => exact each s rfl

/-- The tokens of a printable statement can be written. -/
theorem Stmt.Printable.writable {s : Stmt} (printable : s.Printable) : AllWritable s.tokens := by
  induction printable with
  | assign identifier value => simp [Stmt.tokens, identifier, value.writable]
  | @sequence _ statements _ body =>
    have inside : AllWritable (joined ';' (Stmt.tokensAll statements)) :=
      allWritable_joined (by decide) (by simpa [Stmt.tokensAll_eq_map] using body)
    simp [Stmt.tokens, inside]
  | ifThen cond _ _ thenBranch elseBranch =>
    simp [Stmt.tokens, cond.writable, allWritable_statementOption thenBranch,
      allWritable_statementOption elseBranch]
  | whileDo cond _ body => simp [Stmt.tokens, cond.writable, allWritable_statementOption body]
  | control => simp [Stmt.tokens]
  | call identifier _ args =>
    simp +decide [Stmt.tokens, identifier, allWritable_arguments fun e mem => (args e mem).writable]
  | name identifier => simp [Stmt.tokens, identifier]

theorem Definition.Printable.writable {isConstant : Bool} {d : Definition}
    (printable : d.Printable isConstant) : AllWritable d.tokens := by
  obtain ⟨identifier, value, _⟩ := printable
  cases init : d.init with
  | none => simp [Definition.tokens, Definition.initTokens, init, identifier]
  | some e =>
    simp [Definition.tokens, Definition.initTokens, init, identifier, (value e init).writable]

theorem allWritable_section {isConstant : Bool} {decls : Option Decls}
    (printable : ∀ d ∈ decls, d.Printable isConstant) :
    AllWritable (Decls.tokens isConstant decls) := by
  cases decls with
  | none => exact allWritable_nil
  | some decls =>
    have inside : AllWritable (joined ',' (decls.defs.map Definition.tokens)) :=
      allWritable_joined (by decide)
        (List.forall_mem_map.mpr fun d mem => ((printable decls rfl).defs d mem).writable)
    simp +decide [Decls.tokens, inside]

theorem allWritable_signature {kind : RoutineKind}
    (identifiers : ∀ param ∈ kind.params, IsIdentifier param) : AllWritable kind.tokens := by
  unfold RoutineKind.tokens
  split
  · exact allWritable_nil
  · have inside : AllWritable (joined ',' (kind.params.map ([.name ·]))) :=
      allWritable_joined (by decide) (by simpa using identifiers)
    simp +decide [inside]

theorem allWritable_routines {routines : List Routine} (named : ∀ r ∈ routines, r.Named)
    (blocks : ∀ r ∈ routines, AllWritable r.block.tokens) :
    AllWritable (Routine.tokensAll routines) := by
  induction routines with
  | nil => exact allWritable_nil
  | cons r routines ih =>
    obtain ⟨first, others⟩ := List.forall_mem_cons.mp named
    obtain ⟨block, otherBlocks⟩ := List.forall_mem_cons.mp blocks
    obtain ⟨line, name, kind, body, scope⟩ := r
    simp +decide [Routine.tokensAll, Routine.tokens, first.name, block,
      allWritable_signature first.params, ih others otherBlocks]

/-- The tokens of a printable block can be written, by induction over blocks and routines. -/
theorem Block.Printable.writable {block : Block} (printable : block.Printable) :
    AllWritable block.tokens := by
  induction printable with
  | intro consts vars named _ body routines =>
    simp [Block.tokens, allWritable_section consts, allWritable_section vars,
      allWritable_routines named routines,
      allWritable_statementOption fun s mem => (body s mem).writable]

end PlZero
