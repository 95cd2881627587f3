import PlZero.Pipeline
import PlZero.Proofs.Lowering.Coupling
import Mathlib.Control.Monad.Writer

/-!
A builder that keeps a log of what it is asked for, for values of any kind.

An operation is logged with its operands when it is called, before any of its deferred parts is run;
of a part it is logged when it begins, and when and with what value it ends. What the values are is
given by `Values`: they are made from operands, and what a construct yields from what those of its
parts have yielded that were run. The log has no influence on them.

The builder of `Transcript` is one of these, and its entries are the events of the log, written out:
`entries_transcribe`.
-/

namespace PlZero.Recorder

open Transcript (Policy note shown listed)

/-- A call of a builder with its operands. Of a deferred part that may be missing it says whether it
is there. -/
inductive Call (V : Type) where
  | block (consts vars body : Bool)
  | constant (name : String) (value : V)
  | storage (name : String) (init : Option V)
  | procedure (name : String)
  | function (name : String) (params : List String)
  | assign (name : String) (target : Role) (value : V)
  | ifThen (cond : V) (thenBranch elseBranch : Bool)
  | whileDo (body : Bool)
  | asm (text : String)
  | control (exit : LoopExit)
  | odd (operand : V)
  | binary (op : BinaryOp) (lhs rhs : V)
  | call (name : String) (args : List V)
  | name (name : String) (role : Role)
  | number (value : Int32)
  deriving DecidableEq, Repr

inductive Event (V : Type) where
  | call (made : Call V)
  /-- A deferred part begins. -/
  | enter (part : String)
  /-- A deferred part ends, and has yielded `value`. -/
  | leave (part : String) (value : Option V)
  deriving DecidableEq, Repr

/-- Where values come from. -/
structure Values (V : Type) where
  odd (operand : V) : V
  binary (op : BinaryOp) (lhs rhs : V) : V
  call (name : String) (args : List V) : V
  name (name : String) (role : Role) : Option V
  number (value : Int32) : V
  /-- What a construct yields, from the names of the parts that were run, in the order in which they
  were, and what each has yielded. -/
  construct (call : Call V) (yielded : List (String × Option V)) : Option V

/-- Work that adds to a log. -/
abbrev Recording (V : Type) := Writer (List (Event V))

/-- A deferred part with its name, if it is there. -/
abbrev Part (V : Type) := String × Option (Recording V (Option V))

variable {V : Type}

/-- Logs a call that has no deferred parts and returns a value. -/
def answer {α : Type} (call : Call V) (value : α) : Recording V α := do
  tell [.call call]
  return value

/-- Runs a deferred part that is there and not skipped. -/
def runPart (skip : List String) (name : String) (part : Option (Recording V (Option V))) :
    Recording V (List (String × Option V)) :=
  match part with
  | none => return []
  | some part =>
    if skip.contains name then return []
    else do
      tell [.enter name]
      let value ← part
      tell [.leave name value]
      return [(name, value)]

def runParts (skip : List String) (construct : List (String × Option V) → Option V)
    (yielded : List (String × Option V)) : List (Part V) → Recording V (Option V)
  | [] => return construct yielded
  | (name, part) :: rest => do
    let more ← runPart skip name part
    runParts skip construct (yielded ++ more) rest

/-- Logs a call and runs its deferred parts as the policy says. -/
def construct (values : Values V) (policy : Policy) (call : Call V) (parts : List (Part V)) :
    Recording V (Option V) := do
  tell [.call call]
  runParts policy.skip (values.construct call) [] (if policy.reverse then parts.reverse else parts)

/-- A loop condition as a deferred part. -/
def deferred (cond : Recording V V) : Recording V (Option V) := do
  let value ← cond
  return some value

def builder (values : Values V) (policy : Policy) : Builder (Recording V) V where
  block consts vars routines body :=
    construct values policy (.block consts.isSome vars.isSome body.isSome)
      [("consts", consts), ("vars", vars), ("routines", some routines), ("body", body)]
  constant x value := tell [.call (.constant x value)]
  storage x init := tell [.call (.storage x init)]
  procedure x block := construct values policy (.procedure x) [("procedure", some block)]
  function x params block := construct values policy (.function x params) [("function", some block)]
  assign x target value :=
    answer (.assign x target value) (values.construct (.assign x target value) [])
  ifThen cond thenBranch elseBranch :=
    construct values policy (.ifThen cond thenBranch.isSome elseBranch.isSome)
      [("then", thenBranch), ("else", elseBranch)]
  whileDo cond body :=
    construct values policy (.whileDo body.isSome)
      [("cond", some (deferred cond)), ("loop", body)]
  asm text := answer (.asm text) (values.construct (.asm text) [])
  control exit := answer (.control exit) (values.construct (.control exit) [])
  odd operand := answer (.odd operand) (values.odd operand)
  binary op lhs rhs := answer (.binary op lhs rhs) (values.binary op lhs rhs)
  call x args := answer (.call x args) (values.call x args)
  name x role := answer (.name x role) (values.name x role)
  number value := answer (.number value) (values.number value)

theorem run_bind {α β : Type} (x : Recording V α) (f : α → Recording V β) :
    (x >>= f).run = ((f x.run.1).run.1, x.run.2 ++ (f x.run.1).run.2) := rfl

def log (values : Values V) (policy : Policy) (program : Block) : List (Event V) :=
  (program.lower (builder values policy)).run.2

/-! ### Written out -/

/-- Whether a part is there, written out. -/
def flag (isThere : Bool) : String := if isThere then "1" else "0"

def Call.text : Call String → String
  | .block consts vars body =>
    "block consts=" ++ flag consts ++ " vars=" ++ flag vars ++ " body=" ++ flag body
  | .constant x value => "constant " ++ x ++ " " ++ value
  | .storage x init => "variable " ++ x ++ " " ++ shown init
  | .procedure x => "procedure " ++ x
  | .function x params => "function " ++ x ++ listed params
  | .assign x target value => "assign " ++ target.label ++ " " ++ x ++ " " ++ value
  | .ifThen cond thenBranch elseBranch =>
    "if " ++ cond ++ " then=" ++ flag thenBranch ++ " else=" ++ flag elseBranch
  | .whileDo body => "while body=" ++ flag body
  | .asm text => "asm " ++ text
  | .control exit => exit.recordName
  | .odd operand => "odd " ++ operand
  | .binary op lhs rhs => "binary " ++ op.spelling ++ " " ++ lhs ++ " " ++ rhs
  | .call x args => "call " ++ x ++ listed args
  | .name x role => "identifier " ++ x ++ " " ++ role.label
  | .number value => "number " ++ toString value.toInt

def Event.text : Event String → String
  | .call made => made.text
  | .enter part => "> " ++ part
  | .leave part value => "< " ++ part ++ " " ++ shown value

/-- Values that show how they came about. A block yields what its body does, a loop too; of two
branches the last that yields a value counts. -/
def Values.text : Values String where
  odd operand := "odd(" ++ operand ++ ")"
  binary op lhs rhs := "(" ++ lhs ++ op.spelling ++ rhs ++ ")"
  call x args := x ++ listed args
  name x role := if role = .proc then none else some x
  number value := toString value.toInt
  construct
    | .block _ _ _, yielded => (yielded.lookup "body").join
    | .procedure _, yielded => (yielded.lookup "procedure").join
    | .function _ _, yielded => (yielded.lookup "function").join
    | .whileDo _, yielded => (yielded.lookup "loop").join
    | .ifThen _ _ _, yielded => yielded.foldl (fun last part => part.2.or last) none
    | .assign _ _ value, _ => some value
    | _, _ => none

/-- Work that adds to a log, and work that adds the same to a transcript, written out. -/
def writtenOut : Coupling (Recording String) (StateM Transcript) where
  Rel same x y := ∀ t : Transcript, same x.run.1 (y.run t).1 ∧
    (y.run t).2.entries.toList = t.entries.toList ++ x.run.2.map Event.text
  of_pure holds t := ⟨holds, (List.append_nil _).symm⟩
  of_bind {α α' β β' same same' x y f g} first next t := by
    obtain ⟨agree, added⟩ := first t
    obtain ⟨agree', added'⟩ := next _ _ agree (y.run t).2
    refine ⟨agree', ?_⟩
    have both : ((y >>= g).run t).2.entries.toList =
        (t.entries.toList ++ x.run.2.map Event.text) ++ (f x.run.1).run.2.map Event.text :=
      added ▸ added'
    rw [both, run_bind, List.map_append, List.append_assoc]
  mono rel weaker t := ⟨weaker _ _ (rel t).1, (rel t).2⟩

/-- An event that is logged is noted as its text. -/
theorem writtenOut_tell (event : Event String) :
    writtenOut.Rel Eq (tell [event]) (note event.text) :=
  fun _ => ⟨rfl, Array.toList_push⟩

theorem writtenOut_answer {α : Type} (call : Call String) (value : α) :
    writtenOut.Rel Eq (answer call value) (do note call.text; return value) :=
  writtenOut.of_bind_eq (writtenOut_tell (.call call)) fun _ => writtenOut.of_pure rfl

/-- What a part that was or was not run has yielded, listed and as such. -/
def Yielded (name : String) (listed : List (String × Option String)) (value : Option String) :
    Prop :=
  listed = [] ∧ value = none ∨ listed = [(name, value)]

section

variable {name : String} {listed : List (String × Option String)} {value : Option String}

/-- A part that was run yields what is listed under its name. -/
theorem Yielded.join_lookup (yielded : Yielded name listed value) :
    (listed.lookup name).join = value := by
  rcases yielded with ⟨rfl, rfl⟩ | rfl
  · rfl
  · simp

theorem Yielded.lookup_eq_none (yielded : Yielded name listed value) {key : String}
    (other : key ≠ name) : listed.lookup key = none := by
  rcases yielded with ⟨rfl, rfl⟩ | rfl
  · rfl
  · rw [List.lookup_cons, beq_eq_false_iff_ne.mpr other]
    rfl

/-- The last part that yields a value counts. -/
theorem Yielded.foldl_or (yielded : Yielded name listed value) (before : Option String) :
    listed.foldl (fun last part => part.2.or last) before = value.or before := by
  rcases yielded with ⟨rfl, rfl⟩ | rfl
  · rfl
  · rfl

end

/-- A part is skipped or run on both sides, and what it logs is written out. -/
theorem writtenOut_runPart {policy : Policy} {name : String}
    {part : Option (Recording String (Option String))}
    {part' : Option (Deferred (StateM Transcript) String)}
    (coupled : Option.Rel (writtenOut.Rel Eq) part part') :
    writtenOut.Rel (Yielded name) (runPart policy.skip name part)
      (Transcript.run policy name part') := by
  cases coupled with
  | none => exact writtenOut.of_pure (.inl ⟨rfl, rfl⟩)
  | some coupled =>
    rw [runPart, Transcript.run]
    split
    · exact writtenOut.of_pure (.inl ⟨rfl, rfl⟩)
    · refine writtenOut.of_bind_eq (writtenOut_tell (.enter name)) fun _ => ?_
      refine writtenOut.of_bind_eq coupled fun value => ?_
      refine writtenOut.of_bind_eq (writtenOut_tell (.leave name value)) fun _ => ?_
      exact writtenOut.of_pure (.inr rfl)

/-- The condition of a loop is skipped or run on both sides; what it yields is not what the loop
yields. -/
theorem writtenOut_runCond {policy : Policy} {cond : Recording String String}
    {cond' : StateM Transcript String} (coupled : writtenOut.Rel Eq cond cond') :
    writtenOut.Rel (fun listed _ => listed.lookup "loop" = none)
      (runPart policy.skip "cond" (some (deferred cond))) (Transcript.runCond policy cond') := by
  rw [runPart, Transcript.runCond]
  split
  · exact writtenOut.of_pure rfl
  · have yields : writtenOut.Rel (fun yielded value => yielded = some value) (deferred cond)
        cond' := by
      rw [← bind_pure cond']
      exact writtenOut.of_bind_eq coupled fun value => writtenOut.of_pure rfl
    have left (value : String) :
        (note ("< cond " ++ value) : StateM Transcript Unit) =
          do note (Event.leave "cond" (some value)).text; return () :=
      (bind_pure (note ("< cond " ++ value))).symm
    refine writtenOut.of_bind_eq (writtenOut_tell (.enter "cond")) fun _ => ?_
    refine writtenOut.of_bind yields ?_
    rintro _ value rfl
    rw [left]
    refine writtenOut.of_bind_eq (writtenOut_tell (.leave "cond" (some value))) fun _ => ?_
    exact writtenOut.of_pure rfl

section

variable {policy : Policy} {name : String} {part : Option (Recording String (Option String))}
  {part' : Option (Deferred (StateM Transcript) String)}
  {construct : List (String × Option String) → Option String}
  {yielded : List (String × Option String)}

/-- Parts are run one after the other; what the first yields is listed for the construct. -/
theorem writtenOut_runParts_cons {rest : List (Part String)}
    {next : Option String → StateM Transcript (Option String)}
    (coupled : Option.Rel (writtenOut.Rel Eq) part part')
    (others : ∀ more value, Yielded name more value →
      writtenOut.Rel Eq (runParts policy.skip construct (yielded ++ more) rest) (next value)) :
    writtenOut.Rel Eq (runParts policy.skip construct yielded ((name, part) :: rest))
      (Transcript.run policy name part' >>= next) :=
  writtenOut.of_bind (writtenOut_runPart coupled) others

theorem writtenOut_runParts_singleton (coupled : Option.Rel (writtenOut.Rel Eq) part part')
    (yields : ∀ more value, Yielded name more value → construct (yielded ++ more) = value) :
    writtenOut.Rel Eq (runParts policy.skip construct yielded [(name, part)])
      (Transcript.run policy name part') := by
  rw [← bind_pure (Transcript.run policy name part')]
  refine writtenOut_runParts_cons coupled fun more value ofPart => ?_
  exact writtenOut.of_pure (yields more value ofPart)

end

theorem isSome_eq_of_rel {α β : Type} {r : α → β → Prop} {a : Option α} {b : Option β}
    (rel : Option.Rel r a b) : a.isSome = b.isSome := by
  cases rel <;> rfl

/-- The builder of transcripts records what the recording builder does whose values are texts. -/
theorem coupled_builder (policy : Policy) :
    (builder Values.text policy).Coupled writtenOut Eq (Transcript.builder policy) where
  refl _ := rfl
  block {consts vars body consts' vars' body' routines routines'} constsRel varsRel routinesRel
      bodyRel := by
    have told : writtenOut.Rel Eq (tell [.call (.block consts.isSome vars.isSome body.isSome)])
        (note ("block consts=" ++ Transcript.presence consts' ++ " vars=" ++
          Transcript.presence vars' ++ " body=" ++ Transcript.presence body')) := by
      rw [isSome_eq_of_rel constsRel, isSome_eq_of_rel varsRel, isSome_eq_of_rel bodyRel]
      exact writtenOut_tell (.call (.block consts'.isSome vars'.isSome body'.isSome))
    refine writtenOut.of_bind_eq told fun _ => ?_
    -- in either order the value of the block is the one that was kept for its body
    by_cases order : policy.reverse = true
    · rw [if_pos order, if_pos order]
      refine writtenOut_runParts_cons bodyRel fun _ _ ofBody => ?_
      refine writtenOut_runParts_cons (.some routinesRel) fun _ _ ofRoutines => ?_
      refine writtenOut_runParts_cons varsRel fun _ _ ofVars => ?_
      refine writtenOut_runParts_cons constsRel fun _ _ ofConsts => writtenOut.of_pure ?_
      change (List.lookup "body" _).join = _
      rw [List.lookup_append, List.lookup_append, List.lookup_append,
        ofRoutines.lookup_eq_none (by decide), ofVars.lookup_eq_none (by decide),
        ofConsts.lookup_eq_none (by decide), Option.or_none, Option.or_none, Option.or_none]
      exact ofBody.join_lookup
    · rw [if_neg order, if_neg order]
      refine writtenOut_runParts_cons constsRel fun _ _ ofConsts => ?_
      refine writtenOut_runParts_cons varsRel fun _ _ ofVars => ?_
      refine writtenOut_runParts_cons (.some routinesRel) fun _ _ ofRoutines => ?_
      refine writtenOut_runParts_singleton bodyRel fun _ _ ofBody => ?_
      change (List.lookup "body" _).join = _
      rw [List.lookup_append, List.lookup_append, List.lookup_append,
        List.nil_append, ofConsts.lookup_eq_none (by decide), ofVars.lookup_eq_none (by decide),
        ofRoutines.lookup_eq_none (by decide), Option.none_or, Option.none_or, Option.none_or]
      exact ofBody.join_lookup
  constant x value := writtenOut_tell (.call (.constant x value))
  storage x init := writtenOut_tell (.call (.storage x init))
  procedure x block block' coupled := by
    refine writtenOut.of_bind_eq (writtenOut_tell (.call (.procedure x))) fun _ => ?_
    rw [List.reverse_singleton, ite_self]
    exact writtenOut_runParts_singleton (.some coupled) fun _ _ ofBlock => ofBlock.join_lookup
  function x params block block' coupled := by
    refine writtenOut.of_bind_eq (writtenOut_tell (.call (.function x params))) fun _ => ?_
    rw [List.reverse_singleton, ite_self]
    exact writtenOut_runParts_singleton (.some coupled) fun _ _ ofBlock => ofBlock.join_lookup
  assign x target value := writtenOut_answer (.assign x target value) (some value)
  ifThen cond {thenBranch elseBranch thenBranch' elseBranch'} thenRel elseRel := by
    have told : writtenOut.Rel Eq (tell [.call (.ifThen cond thenBranch.isSome elseBranch.isSome)])
        (note ("if " ++ cond ++ " then=" ++ Transcript.presence thenBranch' ++ " else=" ++
          Transcript.presence elseBranch')) := by
      rw [isSome_eq_of_rel thenRel, isSome_eq_of_rel elseRel]
      exact writtenOut_tell (.call (.ifThen cond thenBranch'.isSome elseBranch'.isSome))
    refine writtenOut.of_bind_eq told fun _ => ?_
    by_cases order : policy.reverse = true
    · rw [if_pos order, if_pos order]
      refine writtenOut_runParts_cons elseRel fun _ _ ofElse => ?_
      refine writtenOut_runParts_cons thenRel fun _ _ ofThen => writtenOut.of_pure ?_
      change List.foldl _ none _ = _
      rw [List.foldl_append, List.nil_append, ofElse.foldl_or, ofThen.foldl_or, Option.or_none]
    · rw [if_neg order, if_neg order]
      refine writtenOut_runParts_cons thenRel fun _ _ ofThen => ?_
      refine writtenOut_runParts_cons elseRel fun _ _ ofElse => writtenOut.of_pure ?_
      change List.foldl _ none _ = _
      rw [List.foldl_append, List.nil_append, ofThen.foldl_or, ofElse.foldl_or, Option.or_none]
  whileDo {cond cond' body body'} condRel bodyRel := by
    have told : writtenOut.Rel Eq (tell [.call (.whileDo body.isSome)])
        (note ("while body=" ++ Transcript.presence body')) := by
      rw [isSome_eq_of_rel bodyRel]
      exact writtenOut_tell (.call (.whileDo body'.isSome))
    refine writtenOut.of_bind_eq told fun _ => ?_
    by_cases order : policy.reverse = true
    · rw [if_pos order, if_pos order]
      refine writtenOut_runParts_cons bodyRel fun _ _ ofLoop => ?_
      refine writtenOut.of_bind (writtenOut_runCond condRel) fun _ _ noLoop => writtenOut.of_pure ?_
      change (List.lookup "loop" _).join = _
      rw [List.lookup_append, noLoop, Option.or_none]
      exact ofLoop.join_lookup
    · rw [if_neg order, if_neg order]
      refine writtenOut.of_bind (writtenOut_runCond condRel) fun _ _ noLoop => ?_
      refine writtenOut_runParts_singleton bodyRel fun _ _ ofLoop => ?_
      change (List.lookup "loop" _).join = _
      rw [List.lookup_append, List.nil_append, noLoop, Option.none_or]
      exact ofLoop.join_lookup
  asm text := writtenOut_answer (.asm text) none
  control exit := writtenOut_answer (.control exit) none
  odd operand := writtenOut_answer (.odd operand) (Values.text.odd operand)
  binary op lhs rhs := writtenOut_answer (.binary op lhs rhs) (Values.text.binary op lhs rhs)
  call x args := writtenOut_answer (.call x args) (Values.text.call x args)
  name x role := writtenOut_answer (.name x role) (Values.text.name x role)
  number value := writtenOut_answer (.number value) (Values.text.number value)

/-- The entries of a transcript are the events of the log. -/
theorem entries_transcribe {options : Options} {source : String} {p : AnalyzedProgram}
    (accepted : check options source = .ok p) (policy : Policy) :
    (transcribe options policy source).map (fun result => result.2.entries.toList) =
      .ok ((log Values.text policy p.program).map Event.text) := by
  have written := (p.program.lower_coupled (coupled_builder policy) {}).2
  rw [transcribe, accepted]
  exact congrArg Except.ok written

end PlZero.Recorder
