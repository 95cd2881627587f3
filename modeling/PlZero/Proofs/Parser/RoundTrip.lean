import PlZero.Proofs.Parser.Exactness
import PlZero.Proofs.Parser.Printing

/-!
Parsing gives printed trees back.

One way, the tokens of a printable tree derive it in the grammar. There is nothing to look ahead
for: an operand in parentheses is one factor, and an `if` that is printed with its `else` leaves no
other `if` open. The other way, whatever the grammar derives is printable, provided that the names
among the tokens are identifiers, as scanned ones are, and that inline assembly does not occur: its
text does not say which tokens it came from.

Main statement: `Block.parse_canonicalText_and_printable`.
-/

namespace PlZero

open Token (Kind)

/-! ### Reading tokens back -/

/-- An operator compares, adds or multiplies. -/
theorem BinaryOp.isRelational_eq_false_iff {op : BinaryOp} :
    op.isRelational = false ↔ op.isAdditive = true ∨ op.isMultiplicative = true := by
  rw [isRelational, Bool.and_eq_false_iff, Bool.not_eq_false', Bool.not_eq_false']

namespace Grammar

/-- The phrase `x` is read off these tokens, whatever follows, and its tree is `tree`. -/
def Reads (x : Phrase) (kinds : List Kind) (tree : x.Tree) : Prop :=
  ∀ rest, Derives x (placed (kinds ++ rest)) tree (placed rest)

/-- Parentheses make a factor of any expression. -/
theorem Reads.parenthesized {kinds : List Kind} {e : Expr} (inner : Reads .expression kinds e) :
    Reads .factor (.char '(' :: kinds ++ [.char ')']) e := by
  intro rest
  rw [List.append_assoc]
  exact .parentheses rfl (inner (.char ')' :: rest)) rfl

/-- A factor is an expression of one term. -/
theorem Reads.expression {kinds : List Kind} {e : Expr} (factor : Reads .factor kinds e) :
    Reads .expression kinds e :=
  fun rest => .unsigned (.term (factor rest) .lastFactor) .lastTerm

/-- Two operands in parentheses are read before any other operator is. -/
theorem Reads.binary {op : BinaryOp} {left right : List Kind} {lhs rhs : Expr}
    (notComparison : op.isRelational = false) (readLeft : Reads .expression left lhs)
    (readRight : Reads .expression right rhs) :
    Reads .expression (.char '(' :: left ++ .char ')' :: .operator (.binary op) ::
      .char '(' :: right ++ [.char ')']) (.binary { line := 1 } op lhs rhs) := by
  intro rest
  have first := readLeft.parenthesized
    (.operator (.binary op) :: (.char '(' :: right ++ [.char ')'] ++ rest))
  have second := readRight.parenthesized rest
  simp only [List.cons_append, List.append_assoc, List.nil_append] at first second ⊢
  rcases BinaryOp.isRelational_eq_false_iff.mp notComparison with additive | multiplicative
  · exact .unsigned (.term first .lastFactor)
      (.nextTerm rfl additive (.term second .lastFactor) .lastTerm)
  · exact .unsigned (.term first (.nextFactor rfl multiplicative second .lastFactor)) .lastTerm

/-- Arguments are read from the token before the first to the closing parenthesis. -/
theorem reads_arguments {args : List Expr} (nonempty : args ≠ [])
    (each : ∀ e ∈ args, Reads .expression e.tokens e.bare) (opening : Kind) :
    Reads .arguments (opening :: joined ',' (Expr.tokensAll args) ++ [.char ')'])
      (Expr.bareAll args) := by
  induction args generalizing opening with
  | nil => exact absurd rfl nonempty
  | cons e args ih =>
    obtain ⟨first, others⟩ := List.forall_mem_cons.mp each
    intro rest
    cases args with
    | nil =>
      simp only [Expr.tokensAll, joined_singleton, List.cons_append, List.append_assoc]
      exact .lastArgument (first (.char ')' :: rest)) rfl
    | cons e' args =>
      have more := ih (List.cons_ne_nil e' args) others (.char ',') rest
      simp only [Expr.tokensAll, joined_cons_cons, List.cons_append, List.append_assoc,
        List.nil_append] at more ⊢
      exact .moreArguments (first _) rfl more

end Grammar

open Grammar

/-- By induction on the printable expression. Operands are printed in parentheses, so nothing
depends on precedence. -/
theorem Expr.Printable.reads {e : Expr} (printable : e.Printable) :
    Reads .expression e.tokens e.bare := by
  induction printable with
  | binary notComparison _ _ lhs rhs =>
    rw [Expr.tokens, Expr.bare]
    exact lhs.binary notComparison rhs
  | call _ nonempty _ args =>
    rw [Expr.tokens, Expr.bare]
    exact Reads.expression fun rest =>
      .call rfl rfl (reads_arguments nonempty args (.char '(') rest)
  | name _ =>
    rw [Expr.tokens, Expr.bare]
    exact Reads.expression fun rest => .name rfl
  | number =>
    rw [Expr.tokens, Expr.bare]
    exact Reads.expression fun rest => .number rfl

/-- The operator of a condition is printed outside of all parentheses. -/
theorem Expr.PrintableCondition.reads {e : Expr} (printable : e.PrintableCondition) :
    Reads .condition e.tokens e.bare := by
  cases printable with
  | odd operand =>
    rw [Expr.tokens, Expr.bare]
    exact fun rest => .odd rfl (operand.reads rest)
  | @comparison _ op lhs rhs isComparison left right =>
    rw [Expr.tokens, Expr.bare]
    intro rest
    have first := left.reads.parenthesized.expression
      (.operator (.binary op) :: (.char '(' :: rhs.tokens ++ [.char ')'] ++ rest))
    have second := right.reads.parenthesized.expression rest
    simp only [List.cons_append, List.append_assoc, List.nil_append] at first second ⊢
    exact .comparison first rfl isComparison second

namespace Grammar

theorem reads_statementOption {s : Option Stmt}
    (each : ∀ t ∈ s, Reads .statement t.tokens (some t.bare)) :
    Reads .statement (Stmt.tokensOption s) (Stmt.bareOption s) := by
  cases s with
  | none => exact fun rest => .empty
  | some s => exact each s rfl

/-- Statements are read from the token before the first to `end`. -/
theorem reads_statements {body : List Stmt}
    (each : ∀ s ∈ body, Reads .statement s.tokens (some s.bare)) (opening : Kind) :
    Reads .statements (opening :: joined ';' (Stmt.tokensAll body) ++ [.keyword .endKw])
      (Stmt.bareAll body) := by
  induction body generalizing opening with
  | nil => exact fun rest => .lastStatement .empty rfl
  | cons s body ih =>
    obtain ⟨first, others⟩ := List.forall_mem_cons.mp each
    intro rest
    cases body with
    | nil =>
      simp only [Stmt.tokensAll, joined_singleton, List.cons_append, List.append_assoc]
      exact .lastStatement (s := some s.bare) (first (.keyword .endKw :: rest)) rfl
    | cons s' body =>
      have more := ih others (.char ';') rest
      simp only [Stmt.tokensAll, joined_cons_cons, List.cons_append, List.append_assoc,
        List.nil_append] at more ⊢
      exact .moreStatements (s := some s.bare) (first (.char ';' :: _)) rfl more

end Grammar

/-- By induction on the printable statement. An `if` is always printed with an `else`, so that no
other one can go to it. -/
theorem Stmt.Printable.reads {s : Stmt} (printable : s.Printable) :
    Reads .statement s.tokens (some s.bare) := by
  induction printable with
  | assign _ value =>
    rw [Stmt.tokens, Stmt.bare]
    exact fun rest => .assign rfl rfl (value.reads rest)
  | sequence _ body =>
    rw [Stmt.tokens, Stmt.bare]
    exact fun rest => .sequence rfl (reads_statements body (.keyword .beginKw) rest)
  | ifThen cond _ _ thenBranch elseBranch =>
    rw [Stmt.tokens, Stmt.bare]
    intro rest
    simp only [List.cons_append, List.append_assoc]
    exact .ifThen rfl (cond.reads _) rfl (reads_statementOption thenBranch _)
      (.elseBranch rfl (reads_statementOption elseBranch rest))
  | whileDo cond _ body =>
    rw [Stmt.tokens, Stmt.bare]
    intro rest
    simp only [List.cons_append, List.append_assoc]
    exact .whileDo rfl (cond.reads _) rfl (reads_statementOption body rest)
  | @control _ exit =>
    rw [Stmt.tokens, Stmt.bare]
    cases exit with
    | breakLoop => exact fun rest => .breakLoop rfl
    | continueLoop => exact fun rest => .continueLoop rfl
  | call _ nonempty args =>
    rw [Stmt.tokens, Stmt.bare]
    exact fun rest => .callStatement rfl rfl
      (reads_arguments nonempty (fun e mem => (args e mem).reads) (.char '(') rest)
  | name _ =>
    rw [Stmt.tokens, Stmt.bare]
    exact fun rest => .nameStatement rfl

/-- An initial value is read back, and so is its absence. -/
theorem Definition.Printable.reads_init {isConstant : Bool} {d : Definition}
    (printable : d.Printable isConstant) :
    Reads (.initializer isConstant) (initTokens d.init) (d.init.map Expr.bare) := by
  obtain ⟨_, value, given⟩ := printable
  cases init : d.init with
  | none =>
    rw [init] at given
    cases isConstant with
    | false => exact fun rest => .noInit
    | true => exact absurd (given rfl) Bool.false_ne_true
  | some e => exact fun rest => .init rfl ((value e init).reads rest)

namespace Grammar

/-- Definitions are read from the token before the first to the semicolon. -/
theorem reads_definitions {isConstant : Bool} {defs : List Definition} (nonempty : defs ≠ [])
    (each : ∀ d ∈ defs, d.Printable isConstant) (opening : Kind) :
    Reads (.definitions isConstant)
      (opening :: joined ',' (defs.map Definition.tokens) ++ [.char ';'])
      (defs.map Definition.bare) := by
  induction defs generalizing opening with
  | nil => exact absurd rfl nonempty
  | cons d defs ih =>
    obtain ⟨first, others⟩ := List.forall_mem_cons.mp each
    intro rest
    cases defs with
    | nil =>
      simp only [List.map_cons, List.map_nil, joined_singleton, Definition.tokens,
        List.cons_append, List.append_assoc]
      exact .lastDefinition rfl (first.reads_init (.char ';' :: rest)) rfl
    | cons d' defs =>
      have more := ih (List.cons_ne_nil d' defs) others (.char ',') rest
      simp only [List.map_cons, joined_cons_cons, Definition.tokens, List.cons_append,
        List.append_assoc, List.nil_append] at more ⊢
      exact .moreDefinitions rfl (first.reads_init (.char ',' :: _)) rfl more

/-- A section is read back, and so is its absence. -/
theorem reads_section {isConstant : Bool} {decls : Option Decls}
    (printable : ∀ d ∈ decls, d.Printable isConstant) :
    Reads (.section isConstant) (Decls.tokens isConstant decls) (decls.map Decls.bare) := by
  cases decls with
  | none => exact fun rest => .noSection
  | some decls =>
    obtain ⟨nonempty, each⟩ := printable decls rfl
    exact fun rest => .someSection rfl (reads_definitions nonempty each _ rest)

/-- Parameters are read from the token before the first to the closing parenthesis. -/
theorem reads_parameters {params : List String} (nonempty : params ≠ []) (opening : Kind) :
    Reads .parameters (opening :: joined ',' (params.map ([.name ·])) ++ [.char ')']) params := by
  induction params generalizing opening with
  | nil => exact absurd rfl nonempty
  | cons param params ih =>
    intro rest
    cases params with
    | nil => exact .lastParameter rfl rfl
    | cons param' params =>
      have more := ih (List.cons_ne_nil param' params) (.char ',') rest
      simp only [List.map_cons, joined_cons_cons, List.cons_append, List.append_assoc,
        List.nil_append] at more ⊢
      exact .moreParameters rfl rfl more

theorem reads_signature (kind : RoutineKind) :
    Reads (.signature kind.isFunction) kind.tokens kind := by
  intro rest
  cases kind with
  | procedure => exact .procedureSignature
  | function params =>
    by_cases none : params = []
    · subst none
      exact .noParameters
    · rw [RoutineKind.tokens, RoutineKind.params, if_neg none]
      exact .someParameters rfl (reads_parameters none (.char '(') rest)

theorem reads_routines {routines : List Routine}
    (each : ∀ r ∈ routines, Reads (.routine r.kind.isFunction) r.tokens r.bare) :
    Reads .routines (Routine.tokensAll routines) (Routine.bareAll routines) := by
  induction routines with
  | nil => exact fun rest => .noRoutines
  | cons r routines ih =>
    obtain ⟨first, others⟩ := List.forall_mem_cons.mp each
    intro rest
    rw [Routine.tokensAll, Routine.bareAll, List.append_assoc]
    exact .moreRoutines (first _) (ih others rest)

/-- A block may have no tokens; then its line is that of the token behind it. -/
def ReadsBlock (block : Block) : Prop :=
  ∀ next rest, Derives .block (placed (block.tokens ++ next :: rest)) block.bare
    (placed (next :: rest))

/-- A routine is read back, given that its block is. -/
theorem reads_routine {r : Routine} (block : ReadsBlock r.block) :
    Reads (.routine r.kind.isFunction) r.tokens r.bare := by
  obtain ⟨line, name, kind, body, scope⟩ := r
  intro rest
  rw [Routine.tokens, Routine.bare]
  simp only [List.cons_append, List.append_assoc]
  exact .routine rfl rfl (reads_signature kind (.char ';' :: _)) rfl (block (.char ';') rest) rfl

theorem lineOf_placed (kinds : List Kind) (next : Kind) (rest : List Kind) :
    lineOf (placed (kinds ++ next :: rest)) = 1 := by
  cases kinds <;> rfl

end Grammar

/-- By induction over blocks and routines. -/
theorem Block.Printable.reads {block : Block} (printable : block.Printable) : ReadsBlock block := by
  induction printable with
  | intro consts vars _ _ body routines =>
    intro next rest
    have derived := Derives.block (reads_section consts _) (reads_section vars _)
      (reads_routines (fun r mem => reads_routine (routines r mem)) _)
      (reads_statementOption (fun s mem => (body s mem).reads) (next :: rest))
    simp only [← List.append_assoc] at derived
    rw [lineOf_placed] at derived
    rwa [Block.tokens, Block.bare]

/-- The text of a printable tree is parsed to that tree. -/
theorem Block.Printable.parse_canonicalText {tree : Block} (printable : tree.Printable) :
    parse tree.canonicalText = .ok tree.bare := by
  apply parse_eq_ok_of_derivesProgram
  have writable : AllWritable (tree.tokens ++ [.char '.']) := by
    simp +decide [printable.writable]
  rw [Block.canonicalText, tokenize_written writable]
  refine ⟨⟨.char '.', 1⟩, ⟨.endOfText, 1⟩, ?_, rfl, rfl⟩
  simpa [placed] using printable.reads (.char '.') [.endOfText]

/-! ### Derived trees are printable -/

namespace Grammar

/-- The tokens have identifiers for names, and inline assembly starts with none of them. -/
def AllPlain (tokens : List Token) : Prop :=
  ∀ t ∈ tokens, t.kind ≠ .keyword .asmKw ∧ ∀ name, t.kind = .name name → IsIdentifier name

/-- What is ahead of the parser stays plain. -/
theorem Derives.allPlain_rest {x : Phrase} {input rest : List Token} {tree : x.Tree}
    (derives : Derives x input tree rest) (plain : AllPlain input) : AllPlain rest := by
  obtain ⟨u, rfl, _⟩ := derives.mem_language
  exact (List.forall_mem_append.mp plain).2

def Phrase.Printable : (x : Phrase) → x.Tree → Prop
  | .expression, e | .term, e | .factor, e => e.Printable
  | .moreTerms _ lhs, e | .moreFactors _ lhs, e => lhs.Printable → e.Printable
  | .arguments, args => args ≠ [] ∧ ∀ e ∈ args, e.Printable
  | .condition, e => e.PrintableCondition
  | .statement, s | .elsePart, s => ∀ t ∈ s, t.Printable
  | .statements, body => ∀ s ∈ body, s.Printable
  | .initializer isConstant, init =>
    (∀ e ∈ init, e.Printable) ∧ (isConstant = true → init.isSome = true)
  | .definitions isConstant, defs => defs ≠ [] ∧ ∀ d ∈ defs, d.Printable isConstant
  | .section isConstant, decls => ∀ d ∈ decls, d.Printable isConstant
  | .parameters, params => ∀ param ∈ params, IsIdentifier param
  | .signature _, kind => ∀ param ∈ kind.params, IsIdentifier param
  | .block, program => program.Printable
  | .routines, rs => ∀ r ∈ rs, r.Named ∧ r.block.Printable
  | .routine _, r => r.Named ∧ r.block.Printable

theorem AllPlain.tail {t : Token} {tokens : List Token} (plain : AllPlain (t :: tokens)) :
    AllPlain tokens := (List.forall_mem_cons.mp plain).2

theorem AllPlain.identifier {t : Token} {tokens : List Token} {name : String}
    (plain : AllPlain (t :: tokens)) (isName : t.kind = .name name) : IsIdentifier name :=
  (plain t List.mem_cons_self).2 name isName

/-- By induction on the derivation: a tree without inline assembly is printable. -/
theorem Derives.printable {x : Phrase} {input rest : List Token} {tree : x.Tree}
    (derives : Derives x input tree rest) (plain : AllPlain input) : x.Printable tree := by
  induction derives with
  -- the terms and factors behind an operand are printable as far as the operand is
  | signed _ additive term _ first more =>
    have after := plain.tail
    exact more (term.allPlain_rest after)
      (.binary (BinaryOp.isRelational_eq_false_iff.mpr (.inl additive)) .number (first after))
  | unsigned term _ first more => exact more (term.allPlain_rest plain) (first plain)
  | lastTerm | lastFactor => exact fun lhs => lhs
  | nextTerm _ additive term _ next more =>
    intro lhs
    have after := plain.tail
    exact more (term.allPlain_rest after)
      (.binary (BinaryOp.isRelational_eq_false_iff.mpr (.inl additive)) lhs (next after))
  | term factor _ first more => exact more (factor.allPlain_rest plain) (first plain)
  | nextFactor _ multiplicative factor _ next more =>
    intro lhs
    have after := plain.tail
    exact more (factor.allPlain_rest after)
      (.binary (BinaryOp.isRelational_eq_false_iff.mpr (.inr multiplicative)) lhs (next after))
  | name isName => exact .name (plain.identifier isName)
  | call isName _ _ args =>
    obtain ⟨nonempty, each⟩ := args plain.tail
    exact .call (plain.identifier isName) nonempty each
  | number => exact .number
  | parentheses _ _ _ inner => exact inner plain.tail
  | lastArgument _ _ e =>
    have after := plain.tail
    exact ⟨List.cons_ne_nil _ _, List.forall_mem_singleton.mpr (e after)⟩
  | moreArguments first _ _ e args =>
    have after := plain.tail
    exact ⟨List.cons_ne_nil _ _, List.forall_mem_cons.mpr
      ⟨e after, (args (first.allPlain_rest after)).2⟩⟩
  | odd _ _ operand => exact .odd (operand plain.tail)
  | comparison left _ isComparison _ lhs rhs =>
    have after := (left.allPlain_rest plain).tail
    exact .comparison isComparison (lhs plain) (rhs after)
  | empty | noElse => rintro s ⟨⟩
  | assign isName _ _ value =>
    rintro s ⟨⟩
    exact .assign (plain.identifier isName) (value plain.tail.tail)
  | callStatement isName _ _ args =>
    obtain ⟨nonempty, each⟩ := args plain.tail
    rintro s ⟨⟩
    exact .call (plain.identifier isName) nonempty each
  | nameStatement isName =>
    rintro s ⟨⟩
    exact .name (plain.identifier isName)
  | sequence _ _ body =>
    rintro s ⟨⟩
    exact .sequence (body plain)
  | ifThen _ condition _ first _ cond thenBranch elseBranch =>
    have after := plain.tail
    have branches := (condition.allPlain_rest after).tail
    rintro s ⟨⟩
    exact .ifThen (cond after) (thenBranch branches) (elseBranch (first.allPlain_rest branches))
  | elseBranch _ _ branch => exact branch plain.tail
  | whileDo _ condition _ _ cond body =>
    have after := plain.tail
    have turn := (condition.allPlain_rest after).tail
    rintro s ⟨⟩
    exact .whileDo (cond after) (body turn)
  | asm isAsm => exact absurd isAsm (List.forall_mem_cons.mp plain).1.1
  | breakLoop | continueLoop =>
    rintro s ⟨⟩
    exact .control
  | lastStatement _ _ last =>
    have after := plain.tail
    exact fun s mem => last after s (Option.mem_toList.mp mem)
  | moreStatements first _ _ head body =>
    have after := plain.tail
    rw [Phrase.Printable, List.forall_mem_append]
    exact ⟨fun s mem => head after s (Option.mem_toList.mp mem), body (first.allPlain_rest after)⟩
  | init _ _ value =>
    have after := plain.tail
    refine ⟨?_, fun _ => rfl⟩
    rintro e ⟨⟩
    exact value after
  | noInit =>
    constructor
    · rintro e ⟨⟩
    · rintro ⟨⟩
  | lastDefinition isName _ _ value =>
    have named := plain.tail
    obtain ⟨init, given⟩ := value named.tail
    exact ⟨List.cons_ne_nil _ _,
      List.forall_mem_singleton.mpr ⟨named.identifier isName, init, given⟩⟩
  | moreDefinitions isName initializer _ _ value defs =>
    have named := plain.tail
    obtain ⟨init, given⟩ := value named.tail
    exact ⟨List.cons_ne_nil _ _, List.forall_mem_cons.mpr
      ⟨⟨named.identifier isName, init, given⟩, (defs (initializer.allPlain_rest named.tail)).2⟩⟩
  | noSection => rintro decls ⟨⟩
  | someSection _ _ defs =>
    rintro decls ⟨⟩
    exact ⟨(defs plain).1, (defs plain).2⟩
  | lastParameter isName =>
    exact List.forall_mem_singleton.mpr (plain.tail.identifier isName)
  | moreParameters isName _ _ params =>
    have named := plain.tail
    exact List.forall_mem_cons.mpr ⟨named.identifier isName, params named.tail⟩
  | procedureSignature | noParameters => exact List.forall_mem_nil _
  | someParameters _ _ params => exact params plain
  | block consts vars routines _ inConsts inVars inRoutines inBody =>
    have behindConsts := consts.allPlain_rest plain
    have behindVars := vars.allPlain_rest behindConsts
    have each := inRoutines behindVars
    exact .intro (inConsts plain) (inVars behindConsts) (fun r mem => (each r mem).1)
      (fun r mem => (each r mem).2) (inBody (routines.allPlain_rest behindVars))
  | noRoutines => exact List.forall_mem_nil _
  | moreRoutines first _ inFirst inOthers =>
    exact List.forall_mem_cons.mpr ⟨inFirst plain, inOthers (first.allPlain_rest plain)⟩
  | routine _ isName signature _ _ _ params body =>
    have named := plain.tail
    have inside := (signature.allPlain_rest named.tail).tail
    exact ⟨⟨named.identifier isName, params named.tail⟩, body inside⟩

end Grammar

/-- A tree that was parsed from a text without inline assembly is printable. -/
theorem Block.printable_of_parse {source : String} {tree : Block} (parsed : parse source = .ok tree)
    (noAssembly : ∀ t ∈ tokenize source, t.kind ≠ .keyword .asmKw) : tree.Printable := by
  obtain ⟨_, _, derives, _⟩ := derivesProgram_of_parse parsed
  exact derives.printable fun t mem => ⟨noAssembly t mem, fun _ => isIdentifier_of_mem_tokenize mem⟩

/-- A text that was printed from a parsed tree. -/
theorem Block.exists_parse_of_text {source text : String}
    (printed : (parse source).toOption.map canonicalText = some text) :
    ∃ tree, parse source = .ok tree ∧ tree.canonicalText = text := by
  cases parsed : parse source with
  | error failure =>
    rw [parsed] at printed
    cases printed
  | ok tree =>
    rw [parsed] at printed
    exact ⟨tree, rfl, Option.some.inj printed⟩

/-- A printable tree is parsed from its text, bare, and every tree parsed from a text without inline
assembly is printable. -/
theorem Block.parse_canonicalText_and_printable :
    (∀ tree : Block, tree.Printable → parse tree.canonicalText = .ok tree.bare) ∧
      ∀ (source : String) (tree : Block), parse source = .ok tree →
        (∀ t ∈ tokenize source, t.kind ≠ .keyword .asmKw) → tree.Printable :=
  ⟨fun _ printable => printable.parse_canonicalText,
    fun _ _ parsed noAssembly => Block.printable_of_parse parsed noAssembly⟩

/-- A negative literal, a leading sign and an `if` without `else`, printed and parsed again. -/
theorem Block.parse_canonicalText_and_printable_signed :
    ∃ tree, (parse "const a = $FFFFFFFF; function f(x); f := -x * a; IF odd a then f(1, a)." =
        .ok tree ∧
      tree.canonicalText = "const a = $ffffffff ; function f ( x ) ; " ++
        "f := ( 0 ) - ( ( x ) * ( a ) ) ; if odd a then f ( 1 , a ) else .") ∧
      tree.Printable ∧ parse tree.canonicalText = .ok tree.bare := by
  refine (exists_parse_of_text (by decide +kernel)).imp fun tree found => ⟨found, ?_⟩
  have printable := parse_canonicalText_and_printable.2 _ tree found.1 fun t mem => by
    have noAssembly := List.all_eq_true.mp
      (show ((tokenize _).all fun t => t.kind != .keyword .asmKw) = true by decide +kernel) t mem
    simpa using noAssembly
  exact ⟨printable, parse_canonicalText_and_printable.1 tree printable⟩

end PlZero
