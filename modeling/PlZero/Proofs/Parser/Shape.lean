import PlZero.Proofs.Parser.Exactness

/-!
The shape of parsed trees. The type of trees allows any expression as the condition of an `if` or a
`while`; the grammar allows `odd` and the comparisons only. So a condition is never the bare name of
a procedure, which analysis would let pass for want of a value to reject.

Main statement: `Block.tested_of_parse`.
-/

namespace PlZero

/-- Is it the application of an operator, as every condition is? -/
def Expr.IsTest : Expr → Prop
  | .odd _ _ | .binary _ _ _ _ => True
  | _ => False

/-- Every condition in the statement applies an operator. -/
inductive Stmt.Tested : Stmt → Prop where
  | assign {info : StmtInfo} {target : Reference} {value : Expr} : Tested (.assign info target value)
  | sequence {info : StmtInfo} {body : List Stmt} :
      (∀ s ∈ body, Tested s) → Tested (.sequence info body)
  | ifThen {info : StmtInfo} {cond : Expr} {thenBranch elseBranch : Option Stmt} :
      cond.IsTest → (∀ s ∈ thenBranch, Tested s) → (∀ s ∈ elseBranch, Tested s) →
      Tested (.ifThen info cond thenBranch elseBranch)
  | whileDo {info : StmtInfo} {cond : Expr} {body : Option Stmt} :
      cond.IsTest → (∀ s ∈ body, Tested s) → Tested (.whileDo info cond body)
  | asm {info : StmtInfo} {text : String} : Tested (.asm info text)
  | control {info : StmtInfo} {exit : LoopExit} : Tested (.control info exit)
  | call {info : StmtInfo} {callee : Reference} {args : List Expr} : Tested (.call info callee args)
  | name {info : StmtInfo} {ref : Reference} : Tested (.name info ref)

inductive Block.Tested : Block → Prop where
  | intro {block : Block} :
      (∀ r ∈ block.routines, Tested r.block) → (∀ s ∈ block.body, s.Tested) → Tested block

namespace Grammar

def Phrase.Tested : (x : Phrase) → x.Tree → Prop
  | .condition, e => e.IsTest
  | .statement, s | .elsePart, s => ∀ t ∈ s, t.Tested
  | .statements, body => ∀ s ∈ body, s.Tested
  | .block, program => program.Tested
  | .routines, rs => ∀ r ∈ rs, r.block.Tested
  | .routine _, r => r.block.Tested
  | .expression, _ | .moreTerms _ _, _ | .term, _ | .moreFactors _ _, _ | .factor, _
  | .arguments, _ | .initializer _, _ | .definitions _, _ | .section _, _ | .parameters, _
  | .signature _, _ => True

/-- By induction on the derivation: a condition is `odd` or a comparison wherever one stands. -/
theorem Derives.tested {x : Phrase} {input rest : List Token} {tree : x.Tree}
    (derives : Derives x input tree rest) : x.Tested tree := by
  induction derives with
  | odd | comparison => trivial
  | empty | noElse =>
    rintro s ⟨⟩
  | assign | callStatement | nameStatement | asm | breakLoop | continueLoop =>
    rintro s ⟨⟩
    constructor
  | sequence _ _ ih =>
    rintro s ⟨⟩
    exact .sequence ih
  | ifThen _ _ _ _ _ cond thenBranch elseBranch =>
    rintro s ⟨⟩
    exact .ifThen cond thenBranch elseBranch
  | elseBranch _ _ ih => exact ih
  | whileDo _ _ _ _ cond body =>
    rintro s ⟨⟩
    exact .whileDo cond body
  | lastStatement _ _ ih =>
    intro s mem
    exact ih s (Option.mem_toList.mp mem)
  | moreStatements _ _ _ first others =>
    intro s mem
    rcases List.mem_append.mp mem with mem | mem
    · exact first s (Option.mem_toList.mp mem)
    · exact others s mem
  | block _ _ _ _ _ _ routines body => exact .intro routines body
  | noRoutines => exact fun _ mem => absurd mem List.not_mem_nil
  | moreRoutines _ _ first others => exact List.forall_mem_cons.mpr ⟨first, others⟩
  | routine _ _ _ _ _ _ _ block => exact block
  | _ => trivial

end Grammar

/-- In a parsed tree, conditions are `odd` or comparisons. -/
theorem Block.tested_of_parse {source : String} {tree : Block} (parsed : parse source = .ok tree) :
    tree.Tested := by
  obtain ⟨_, _, derives, _⟩ := Grammar.derivesProgram_of_parse parsed
  exact derives.tested

end PlZero
