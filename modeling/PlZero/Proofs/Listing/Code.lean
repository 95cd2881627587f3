import PlZero.Proofs.Analysis.Resolved
import PlZero.Proofs.Listing.Layout
import PlZero.Listing.Render

/-!
The code of a program, described by lexical scoping alone: no frames that are searched, no bindings
that are overwritten, no counters. What a name means at a point is handed along like a name map; a
declaration changes the meaning of its name for what follows, and what a routine declares is not
handed on.

Storage is known by the routine that declares it (`Listing.Home`), and a routine by the names of the
routines around it (`Nesting`). From a line of a routine, a slot of another routine is addressed
across as many boundaries as there are routines between the two (`Listing.Home.SeenFrom`).

`Expr.Code`, `Stmt.Code` and `Block.Code` relate phrases to the lines that are their code. Numbers
of results and labels are left open.
-/

namespace PlZero

/-! ### Routines and storage -/

/-- The routines around a point of a program by name, innermost first; none in the outermost
block. -/
abbrev Nesting := List String

/-- The symbol under which a routine is listed: the names of the routines around it and its own,
outermost first. The entry point is `main`, so a routine of that name in the outermost block gets
another one. -/
def Nesting.symbol : Nesting → String
  | [] => "main"
  | [name] => if name = "main" then "_main" else name
  | name :: next :: around => Nesting.symbol (next :: around) ++ "." ++ name

namespace Listing

/-- Storage, with the routine that declares it. -/
inductive Home where
  | global (name : String)
  | slot (owner : Nesting) (slot : Slot)
  deriving DecidableEq, Repr

/-- The address of storage in the lines of the routine `here`. A slot is reached across the
boundaries of the routines from `here` out to its owner. -/
inductive Home.SeenFrom (here : Nesting) : Home → Address → Prop where
  | global {name : String} : SeenFrom here (.global name) (.global name)
  | slot {crossed owner : Nesting} {slot : Slot} :
      here = crossed ++ owner → SeenFrom here (.slot owner slot) (.slot crossed.length slot)

/-- The text of such an address: `@` for a global, the bare place in the routine that owns it, and
else the number of boundaries before the place. -/
def Home.text (here : Nesting) : Home → String
  | .global name => "@" ++ name
  | .slot owner place =>
    if here.length = owner.length then place.render
    else "^" ++ toString (here.length - owner.length) ++ " " ++ place.render

/-- The slot a line makes. -/
def Line.slot? : Line → Option Slot
  | .instr (.slot s) => some s
  | _ => none

def slotsOf (code : List Line) : List Slot := code.filterMap Line.slot?

/-- The places of a routine: those of its parameters, which are their names, and those its lines
make. -/
def Frame.places (f : Frame) : List Slot := f.params.map (⟨·, 0⟩) ++ slotsOf f.lines.toList

/-- What a name means. -/
inductive Meaning where
  /-- A constant whose value is known. -/
  | known (value : Int32)
  /-- A constant whose value is not known and is kept in storage. -/
  | kept (home : Home)
  /-- A variable or a parameter. -/
  | stored (home : Home)
  /-- A function's own name inside it: the function and the slot of its result. -/
  | result (owner : Nesting) (slot : Slot) (arity : Nat)
  | procedure (routine : Nesting)
  | function (routine : Nesting) (arity : Nat)
  /-- A function of the runtime library. -/
  | runtime (arity : Nat)
  deriving DecidableEq, Repr

/-- What analysis knows of a meaning. -/
def Meaning.symbol : Meaning → Symbol
  | .known _ | .kept _ => { role := .const }
  | .stored _ => { role := .var }
  | .result _ _ arity => { role := .ret, arity }
  | .procedure _ => { role := .proc }
  | .function _ arity | .runtime arity => { role := .func, arity }

/-- Where the value of a name is read. -/
def Meaning.readable? : Meaning → Option Home
  | .kept home | .stored home => some home
  | _ => none

/-- Where an assignment to a name goes. -/
def Meaning.assignable? : Meaning → Option Home
  | .stored home => some home
  | .result owner slot _ => some (.slot owner slot)
  | _ => none

/-- What names mean at a point of a program. -/
abbrev Meanings := String → Option Meaning

/-- The name map that analysis has at that point. -/
def Meanings.symbols (means : Meanings) : Lexical.NameMap := fun name =>
  (means name).map Meaning.symbol

/-- A call of `name` with `count` arguments is one of `symbol`. Runtime functions are declared among
the externals. -/
inductive Meanings.Calls (means : Meanings) (externals : List (String × Nat)) (name : String) :
    String → Nat → Prop where
  | function {routine : Nesting} {count : Nat} :
      means name = some (.function routine count) → Calls means externals name routine.symbol count
  | result {owner : Nesting} {slot : Slot} {count : Nat} :
      means name = some (.result owner slot count) → Calls means externals name owner.symbol count
  | runtime {count : Nat} :
      means name = some (.runtime count) → (name, count) ∈ externals →
      Calls means externals name name count

end Listing

open Listing

/-! ### Expressions and statements -/

/-- `e.Code means here externals code value`: in the routine `here`, the lines `code` compute the
expression, and `value` is its value. -/
inductive Expr.Code (means : Meanings) (here : Nesting) (externals : List (String × Nat)) :
    Expr → List Line → Operand → Prop where
  | number {info : ExprInfo} {value : Int32} :
      Code means here externals (.number info value) [] (.imm value)
  | known {info : ExprInfo} {ref : Reference} {value : Int32} :
      means ref.name = some (.known value) →
      Code means here externals (.name info ref) [] (.imm value)
  | load {info : ExprInfo} {ref : Reference} {meaning : Meaning} {home : Home}
      {address : Address} {id : Nat} :
      means ref.name = some meaning → meaning.readable? = some home →
      home.SeenFrom here address →
      Code means here externals (.name info ref) [.instr (.load id address)] (.temp id)
  | callName {info : ExprInfo} {ref : Reference} {symbol : String} {id : Nat} :
      means.Calls externals ref.name symbol 0 →
      Code means here externals (.name info ref) [.instr (.call id symbol [])] (.temp id)
  | call {info : ExprInfo} {callee : Reference} {parts : List (Expr × List Line × Operand)}
      {symbol : String} {id : Nat} :
      means.Calls externals callee.name symbol parts.length →
      (∀ part ∈ parts, Code means here externals part.1 part.2.1 part.2.2) →
      Code means here externals (.call info callee (parts.map (·.1)))
        (parts.flatMap (·.2.1) ++ [.instr (.call id symbol (parts.map (·.2.2)))]) (.temp id)
  | oddKnown {info : ExprInfo} {operand : Expr} {code : List Line} {value : Int32} :
      Code means here externals operand code (.imm value) →
      Code means here externals (.odd info operand) code (.imm (oddValue value))
  | odd {info : ExprInfo} {operand : Expr} {code : List Line} {of id : Nat} :
      Code means here externals operand code (.temp of) →
      Code means here externals (.odd info operand) (code ++ [.instr (.odd id (.temp of))])
        (.temp id)
  | folded {info : ExprInfo} {op : BinaryOp} {lhs rhs : Expr} {left right : List Line}
      {a b : Operand} {value : Int32} :
      Code means here externals lhs left a → Code means here externals rhs right b →
      fold? op a b = some value →
      Code means here externals (.binary info op lhs rhs) (left ++ right) (.imm value)
  | binary {info : ExprInfo} {op : BinaryOp} {lhs rhs : Expr} {left right : List Line}
      {a b : Operand} {id : Nat} :
      Code means here externals lhs left a → Code means here externals rhs right b →
      fold? op a b = none →
      Code means here externals (.binary info op lhs rhs)
        (left ++ right ++ [.instr (.binary id op a b)]) (.temp id)

def Stmt.partLines (part : Option (Stmt × List Line)) : List Line := (part.map (·.2)).getD []

/-- `s.Code means here externals loops code`: in the routine `here`, with the labels of the loops
around it in `loops`, innermost first, the lines `code` execute the statement. -/
inductive Stmt.Code (means : Meanings) (here : Nesting) (externals : List (String × Nat)) :
    List Loop → Stmt → List Line → Prop where
  | assign {loops : List Loop} {info : StmtInfo} {target : Reference} {value : Expr}
      {code : List Line} {operand : Operand} {meaning : Meaning} {home : Home}
      {address : Address} :
      value.Code means here externals code operand →
      means target.name = some meaning → meaning.assignable? = some home →
      home.SeenFrom here address →
      Code means here externals loops (.assign info target value)
        (code ++ [.instr (.store address operand)])
  | sequence {loops : List Loop} {info : StmtInfo} {parts : List (Stmt × List Line)} :
      (∀ part ∈ parts, Code means here externals loops part.1 part.2) →
      Code means here externals loops (.sequence info (parts.map (·.1))) (parts.flatMap (·.2))
  | ifThen {loops : List Loop} {info : StmtInfo} {cond : Expr} {code : List Line}
      {operand : Operand} {thenPart : Option (Stmt × List Line)} {thenLabel endLabel : Nat} :
      cond.Code means here externals code operand →
      (∀ part ∈ thenPart, Code means here externals loops part.1 part.2) →
      Code means here externals loops (.ifThen info cond (thenPart.map (·.1)) none)
        (code ++ [.instr (.branch operand thenLabel endLabel), .label thenLabel] ++
          Stmt.partLines thenPart ++ [.instr (.jump endLabel), .label endLabel])
  | ifThenElse {loops : List Loop} {info : StmtInfo} {cond : Expr} {code : List Line}
      {operand : Operand} {thenPart : Option (Stmt × List Line)} {elseBranch : Stmt}
      {elseCode : List Line} {thenLabel elseLabel endLabel : Nat} :
      cond.Code means here externals code operand →
      (∀ part ∈ thenPart, Code means here externals loops part.1 part.2) →
      Code means here externals loops elseBranch elseCode →
      Code means here externals loops (.ifThen info cond (thenPart.map (·.1)) (some elseBranch))
        (code ++ [.instr (.branch operand thenLabel elseLabel), .label thenLabel] ++
          Stmt.partLines thenPart ++ [.instr (.jump endLabel), .label elseLabel] ++ elseCode ++
          [.instr (.jump endLabel), .label endLabel])
  /-- A loop. What stands in its body can leave the loop and its turns. -/
  | whileDo {loops : List Loop} {info : StmtInfo} {cond : Expr} {code : List Line}
      {operand : Operand} {body : Option (Stmt × List Line)} {condLabel bodyLabel exitLabel : Nat} :
      cond.Code means here externals code operand →
      (∀ part ∈ body, Code means here externals (⟨condLabel, exitLabel⟩ :: loops) part.1 part.2) →
      Code means here externals loops (.whileDo info cond (body.map (·.1)))
        ([.instr (.jump condLabel), .label condLabel] ++ code ++
          [.instr (.branch operand bodyLabel exitLabel), .label bodyLabel] ++
          Stmt.partLines body ++ [.instr (.jump condLabel), .label exitLabel])
  | asm {loops : List Loop} {info : StmtInfo} {text : String} :
      Code means here externals loops (.asm info text) [.instr (.asm text)]
  /-- `break` jumps behind the innermost loop around it, `continue` to its condition. -/
  | control {loop : Loop} {loops : List Loop} {info : StmtInfo} {exit : LoopExit} {id : Nat} :
      Code means here externals (loop :: loops) (.control info exit)
        [.instr (.jump (loop.target exit)), .label id]
  | call {loops : List Loop} {info : StmtInfo} {info' : ExprInfo} {callee : Reference}
      {args : List Expr} {code : List Line} {operand : Operand} :
      (Expr.call info' callee args).Code means here externals code operand →
      Code means here externals loops (.call info callee args) code
  | run {loops : List Loop} {info : StmtInfo} {ref : Reference} {routine : Nesting} :
      means ref.name = some (.procedure routine) →
      Code means here externals loops (.name info ref) [.instr (.run routine.symbol)]
  | name {loops : List Loop} {info : StmtInfo} {info' : ExprInfo} {ref : Reference}
      {code : List Line} {operand : Operand} :
      (Expr.name info' ref).Code means here externals code operand →
      Code means here externals loops (.name info ref) code

/-- What the lines of expressions and statements are. -/
inductive Listing.Phrase (means : Meanings) (here : Nesting) (externals : List (String × Nat)) :
    Line → Prop where
  | load {name : String} {meaning : Meaning} {home : Home} {id : Nat} {address : Address} :
      means name = some meaning → meaning.readable? = some home → home.SeenFrom here address →
      Phrase means here externals (.instr (.load id address))
  | store {name : String} {meaning : Meaning} {home : Home} {address : Address}
      {operand : Operand} :
      means name = some meaning → meaning.assignable? = some home → home.SeenFrom here address →
      Phrase means here externals (.instr (.store address operand))
  | call {name symbol : String} {id : Nat} {args : List Operand} :
      means.Calls externals name symbol args.length →
      Phrase means here externals (.instr (.call id symbol args))
  | run {name : String} {routine : Nesting} :
      means name = some (.procedure routine) →
      Phrase means here externals (.instr (.run routine.symbol))
  | odd {id : Nat} {operand : Operand} : Phrase means here externals (.instr (.odd id operand))
  | binary {id : Nat} {op : BinaryOp} {lhs rhs : Operand} :
      Phrase means here externals (.instr (.binary id op lhs rhs))
  | asm {text : String} : Phrase means here externals (.instr (.asm text))
  | branch {cond : Operand} {onTrue onFalse : Nat} :
      Phrase means here externals (.instr (.branch cond onTrue onFalse))
  | jump {label : Nat} : Phrase means here externals (.instr (.jump label))
  | label {id : Nat} : Phrase means here externals (.label id)

section

variable {means : Meanings} {here : Nesting} {externals : List (String × Nat)} {code : List Line}

/-- Every line of an expression is one that expressions have. -/
theorem Expr.Code.phrase {e : Expr} {value : Operand}
    (isCode : e.Code means here externals code value) :
    ∀ line ∈ code, Phrase means here externals line := by
  induction isCode with
  | number | known => nofun
  | load known readable seen => exact List.forall_mem_singleton.mpr (.load known readable seen)
  | callName calls => exact List.forall_mem_singleton.mpr (.call calls)
  | @call _ callee parts symbol _ calls _ ih =>
    have calls : means.Calls externals callee.name symbol (parts.map (·.2.2)).length := by
      rw [List.length_map]
      exact calls
    refine List.forall_mem_append.mpr ⟨?_, List.forall_mem_singleton.mpr (.call calls)⟩
    intro line mem
    obtain ⟨part, among, mem⟩ := List.mem_flatMap.mp mem
    exact ih part among line mem
  | oddKnown _ ih => exact ih
  | odd _ ih => exact List.forall_mem_append.mpr ⟨ih, List.forall_mem_singleton.mpr .odd⟩
  | folded _ _ _ left right => exact List.forall_mem_append.mpr ⟨left, right⟩
  | binary _ _ _ left right =>
    exact List.forall_mem_append.mpr
      ⟨List.forall_mem_append.mpr ⟨left, right⟩, List.forall_mem_singleton.mpr .binary⟩

theorem Stmt.phrase_partLines {part : Option (Stmt × List Line)}
    (phrase : ∀ p ∈ part, ∀ line ∈ p.2, Phrase means here externals line) :
    ∀ line ∈ Stmt.partLines part, Phrase means here externals line := by
  cases part with
  | none => nofun
  | some p => exact phrase p rfl

/-- A branch or a jump with the label behind it. -/
theorem Listing.phrase_turn {i : Instr} (first : Phrase means here externals (.instr i))
    (id : Nat) : ∀ line ∈ [.instr i, .label id], Phrase means here externals line :=
  List.forall_mem_cons.mpr ⟨first, List.forall_mem_singleton.mpr .label⟩

/-- Every line of a statement is one that statements have. -/
theorem Stmt.Code.phrase {s : Stmt} {loops : List Loop}
    (isCode : s.Code means here externals loops code) :
    ∀ line ∈ code, Phrase means here externals line := by
  induction isCode with
  | assign value known goes seen =>
    exact List.forall_mem_append.mpr
      ⟨value.phrase, List.forall_mem_singleton.mpr (.store known goes seen)⟩
  | sequence _ ih =>
    intro line mem
    obtain ⟨part, among, mem⟩ := List.mem_flatMap.mp mem
    exact ih part among line mem
  | ifThen cond _ inThen =>
    simp only [List.forall_mem_append]
    exact ⟨⟨⟨cond.phrase, phrase_turn .branch _⟩, Stmt.phrase_partLines inThen⟩,
      phrase_turn .jump _⟩
  | ifThenElse cond _ _ inThen inElse =>
    simp only [List.forall_mem_append]
    exact ⟨⟨⟨⟨⟨cond.phrase, phrase_turn .branch _⟩, Stmt.phrase_partLines inThen⟩,
      phrase_turn .jump _⟩, inElse⟩, phrase_turn .jump _⟩
  | whileDo cond _ body =>
    simp only [List.forall_mem_append]
    exact ⟨⟨⟨⟨phrase_turn .jump _, cond.phrase⟩, phrase_turn .branch _⟩,
      Stmt.phrase_partLines body⟩, phrase_turn .jump _⟩
  | asm => exact List.forall_mem_singleton.mpr .asm
  | control => exact phrase_turn .jump _
  | call whole => exact whole.phrase
  | run known => exact List.forall_mem_singleton.mpr (.run known)
  | name whole => exact whole.phrase

/-- Expressions and statements make no slots. -/
theorem Listing.slotsOf_eq_nil (phrase : ∀ line ∈ code, Phrase means here externals line) :
    slotsOf code = [] := by
  rw [slotsOf, List.filterMap_eq_nil_iff]
  intro line mem
  cases phrase line mem <;> rfl

end

/-! ### Declarations -/

/-- `Reserved here name init home code globals`: storage for `name` is made in the routine `here`.
In the outermost block it is a global, in a routine a slot with a line of its own; an initial value
that a global cannot start with is stored. -/
inductive Listing.Home.Reserved : Nesting → String → Option Operand → Home → List Line →
    List Global → Prop where
  | unset {name : String} : Reserved [] name none (.global name) [] [⟨name, 0⟩]
  | start {name : String} {value : Int32} :
      Reserved [] name (some (.imm value)) (.global name) [] [⟨name, value⟩]
  | set {name : String} {id : Nat} :
      Reserved [] name (some (.temp id)) (.global name)
        [.instr (.store (.global name) (.temp id))] [⟨name, 0⟩]
  | slot {routine : String} {around : Nesting} {slot : Slot} {init : Option Operand} :
      Reserved (routine :: around) slot.name init (.slot (routine :: around) slot)
        (.instr (.slot slot) ::
          init.toList.map fun value => .instr (.store (.slot 0 slot) value)) []

/-- The code of a definition in a section of constants or of variables, the globals it makes, and
what its name means behind it. -/
inductive Definition.Code (means : Meanings) (here : Nesting) (externals : List (String × Nat)) :
    Role → Definition → List Line → List Global → Meaning → Prop where
  | known {line : Nat} {name : String} {init : Expr} {code : List Line} {value : Int32} :
      init.Code means here externals code (.imm value) →
      Code means here externals .const ⟨line, name, some init⟩ code [] (.known value)
  | kept {line : Nat} {name : String} {init : Expr} {code lines : List Line} {id : Nat}
      {home : Home} {globals : List Global} :
      init.Code means here externals code (.temp id) →
      Home.Reserved here name (some (.temp id)) home lines globals →
      Code means here externals .const ⟨line, name, some init⟩ (code ++ lines) globals (.kept home)
  | unset {line : Nat} {name : String} {lines : List Line} {home : Home} {globals : List Global} :
      Home.Reserved here name none home lines globals →
      Code means here externals .var ⟨line, name, none⟩ lines globals (.stored home)
  | set {line : Nat} {name : String} {init : Expr} {code lines : List Line} {operand : Operand}
      {home : Home} {globals : List Global} :
      init.Code means here externals code operand →
      Home.Reserved here name (some operand) home lines globals →
      Code means here externals .var ⟨line, name, some init⟩ (code ++ lines) globals (.stored home)

/-- The code of definitions in order, and what names mean behind them. -/
inductive Definition.CodeAll (here : Nesting) (externals : List (String × Nat)) (role : Role) :
    Meanings → List Definition → List Line → List Global → Meanings → Prop where
  | nil {means : Meanings} : CodeAll here externals role means [] [] [] means
  | cons {means behind : Meanings} {d : Definition} {rest : List Definition}
      {code more : List Line} {globals others : List Global} {meaning : Meaning} :
      d.Code means here externals role code globals meaning →
      CodeAll here externals role (Function.update means d.name (some meaning)) rest more others
        behind →
      CodeAll here externals role means (d :: rest) (code ++ more) (globals ++ others) behind

/-! ### Routines and blocks -/

/-- What the name of a routine means behind its declaration. -/
def RoutineKind.meaning (routine : Nesting) : RoutineKind → Meaning
  | .procedure => .procedure routine
  | .function params => .function routine params.length

/-- What the name and the parameters of a function mean in its own block. The place of a parameter
is its name. -/
def RoutineKind.meaningsInside (routine : Nesting) (name : String) (params : List String)
    (result : Slot) : List (String × Meaning) :=
  (name, .result routine result params.length) ::
    params.map fun param => (param, .stored (.slot routine ⟨param, 0⟩))

mutual

/-- `block.Code means here externals code globals done`: in the routine `here`, the lines `code` are
those of the block, `globals` those it makes, and `done` are the routines declared in it, each
behind those inside it. -/
def Block.Code (means : Meanings) (here : Nesting) (externals : List (String × Nat)) :
    Block → List Line → List Global → List Frame → Prop
  | { consts, vars, routines, body, .. }, code, globals, done =>
    ∃ means₁ means₂ means₃ code₁ code₂ globals₁ globals₂ part,
      Definition.CodeAll here externals .const means (Decls.definitions consts) code₁ globals₁
        means₁ ∧
      Definition.CodeAll here externals .var means₁ (Decls.definitions vars) code₂ globals₂ means₂ ∧
      Routine.CodeAll means₂ here externals routines done means₃ ∧
      body = part.map (·.1) ∧ (∀ p ∈ part, p.1.Code means₃ here externals [] p.2) ∧
      code = code₁ ++ code₂ ++ Stmt.partLines part ∧ globals = globals₁ ++ globals₂

/-- The frame of a routine, behind those of the routines inside it. A function starts with the slot
of its result. -/
def Routine.Code (means : Meanings) (here : Nesting) (externals : List (String × Nat)) :
    Routine → List Frame → Prop
  | { name, kind := .procedure, block, .. }, done =>
    ∃ inner frame, done = inner ++ [frame] ∧ frame.symbol = Nesting.symbol (name :: here) ∧
      frame.params = [] ∧ frame.result = none ∧
      block.Code (declareAll means [(name, .procedure (name :: here))]) (name :: here) externals
        frame.lines.toList [] inner
  | { name, kind := .function params, block, .. }, done =>
    ∃ inner frame slot code, done = inner ++ [frame] ∧
      frame.symbol = Nesting.symbol (name :: here) ∧
      frame.params = params ∧ frame.result = some slot ∧ slot.name = name ∧
      frame.lines.toList = .instr (.slot slot) :: code ∧
      block.Code
        (declareAll means (RoutineKind.meaningsInside (name :: here) name params slot))
        (name :: here) externals code [] inner

/-- The frames of routines in order, and what names mean behind them. -/
def Routine.CodeAll (means : Meanings) (here : Nesting) (externals : List (String × Nat)) :
    List Routine → List Frame → Meanings → Prop
  | [], done, behind => done = [] ∧ behind = means
  | r :: rest, done, behind =>
    ∃ first others, done = first ++ others ∧ r.Code means here externals first ∧
      Routine.CodeAll (declareAll means [(r.name, r.kind.meaning (r.name :: here))]) here externals
        rest others behind

end

/-- What names mean before a program: the runtime functions, if it may call them. -/
def Options.meanings (options : Options) : Meanings := fun name =>
  if options.prelude then (Primitive.find? name).map fun p => .runtime p.arity else none

/-- The listing holds the code of the program. -/
def Listing.CodeOf (options : Options) (program : Block) (l : Listing) : Prop :=
  program.Code options.meanings [] l.externals l.moduleFrame.lines.toList l.globals.toList
    l.routines.toList

end PlZero
