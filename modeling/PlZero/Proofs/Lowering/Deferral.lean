import PlZero.Proofs.Analysis.Declared
import PlZero.Proofs.Lowering.Emptied

/-!
Deferred parts do their work when a builder runs them, and otherwise not at all.

A log in which all parts were run in order is compared with one in which parts of certain names were
skipped, and those of one construct possibly run last to first. In the full log the calls made
inside a part stand between its beginning and its end (`Nested`). The other log has just the calls
that do not stand inside a skipped part (`callsOutside`): in the same order, or rearranged.

Main statement: `calls_log`.
-/

namespace PlZero.Recorder

open Transcript (Policy)

variable {V : Type}

/-! ### Calls and parts in a log -/

def Event.call? : Event V → Option (Call V)
  | .call made => some made
  | .enter _ | .leave _ _ => none

def calls (events : List (Event V)) : List (Call V) := events.filterMap Event.call?

/-- The calls in a log that are not made inside a part of a name in `skip`. `opened` are the names
of the parts that have begun and not ended. -/
def callsOutside (skip : List String) : List String → List (Event V) → List (Call V)
  | _, [] => []
  | opened, .call made :: rest =>
    if opened.any skip.contains then callsOutside skip opened rest
    else made :: callsOutside skip opened rest
  | opened, .enter part :: rest => callsOutside skip (part :: opened) rest
  | opened, .leave _ _ :: rest => callsOutside skip opened.tail rest

/-- Every part that begins ends, the one that began last first. -/
inductive Nested : List (Event V) → Prop where
  | nil : Nested []
  | call {made : Call V} {rest : List (Event V)} : Nested rest → Nested (.call made :: rest)
  | part {name : String} {value : Option V} {inner rest : List (Event V)} :
    Nested inner → Nested rest → Nested (.enter name :: (inner ++ .leave name value :: rest))

theorem Nested.append {events rest : List (Event V)} (first : Nested events)
    (second : Nested rest) : Nested (events ++ rest) := by
  induction first with
  | nil => exact second
  | call _ ih => exact .call ih
  | part inner _ _ ih =>
    rw [List.cons_append, List.append_assoc, List.cons_append]
    exact .part inner ih

section

variable {skip opened : List String} {events : List (Event V)}

/-- Behind a nested log the same parts are open as before it. -/
theorem callsOutside_append (nested : Nested events) (rest : List (Event V)) :
    callsOutside skip opened (events ++ rest) =
      callsOutside skip opened events ++ callsOutside skip opened rest := by
  induction nested generalizing opened rest with
  | nil => rfl
  | call _ ih =>
    rw [List.cons_append, callsOutside, callsOutside]
    split
    · exact ih rest
    · rw [ih rest, List.cons_append]
  | part _ _ ihInner ihRest =>
    rw [List.cons_append, List.append_assoc, List.cons_append, callsOutside, callsOutside, ihInner,
      ihInner, List.append_assoc]
    exact congrArg _ (ihRest rest)

/-- A part that begins and ends: its calls are looked at with the part open, and what follows with
the part closed. -/
theorem callsOutside_part {inner : List (Event V)} (nested : Nested inner) (name : String)
    (value : Option V) (rest : List (Event V)) :
    callsOutside skip opened (.enter name :: (inner ++ .leave name value :: rest)) =
      callsOutside skip (name :: opened) inner ++ callsOutside skip opened rest := by
  rw [callsOutside, callsOutside_append nested]
  rfl

/-- Inside of a skipped part no call counts. -/
theorem callsOutside_of_skipped (nested : Nested events)
    (inside : opened.any skip.contains = true) : callsOutside skip opened events = [] := by
  induction nested generalizing opened with
  | nil => rfl
  | call _ ih =>
    rw [callsOutside, if_pos inside]
    exact ih inside
  | part inner _ ihInner ihRest =>
    rw [callsOutside_part inner, ihInner (by simp [inside]), ihRest inside, List.append_nil]

/-- Only the names of the parts around a call matter that are skipped. -/
theorem callsOutside_of_not_skipped (nested : Nested events)
    (outside : opened.any skip.contains = false) :
    callsOutside skip opened events = callsOutside skip [] events := by
  induction nested generalizing opened with
  | nil => rfl
  | call _ ih => simp [callsOutside, outside, ih]
  | @part name _ _ _ inner _ ihInner ihRest =>
    rw [callsOutside_part inner, callsOutside_part inner, ihRest outside]
    cases isSkipped : skip.contains name with
    | true =>
      have inside (around : List String) : (name :: around).any skip.contains = true := by
        rw [List.any_cons, isSkipped, Bool.true_or]
      rw [callsOutside_of_skipped inner (inside opened), callsOutside_of_skipped inner (inside [])]
    | false =>
      have same (around : List String) :
          (name :: around).any skip.contains = around.any skip.contains := by
        rw [List.any_cons, isSkipped, Bool.false_or]
      rw [ihInner ((same opened).trans outside), ihInner (same [])]

end

/-! ### A log compared with the full one -/

/-- A log that has the calls of the full log outside of the skipped parts. -/
structure Prunes (policy : Policy) (full events : List (Event V)) : Prop where
  nested : Nested full
  perm : (calls events).Perm (callsOutside policy.skip [] full)
  eq : policy.reverse = false → calls events = callsOutside policy.skip [] full

section

variable {policy : Policy} {full full' events events' : List (Event V)}

theorem prunes_nil : Prunes policy ([] : List (Event V)) [] :=
  ⟨.nil, .nil, fun _ => rfl⟩

theorem prunes_call (made : Call V) : Prunes policy [.call made] [.call made] :=
  ⟨.call .nil, .refl _, fun _ => rfl⟩

/-- Logs that are pruned piece by piece. -/
theorem Prunes.append (first : Prunes policy full events) (second : Prunes policy full' events') :
    Prunes policy (full ++ full') (events ++ events') := by
  have split : calls (events ++ events') = calls events ++ calls events' := List.filterMap_append
  refine ⟨first.nested.append second.nested, ?_, fun forward => ?_⟩
  · rw [split, callsOutside_append first.nested]
    exact first.perm.append second.perm
  · rw [split, callsOutside_append first.nested, first.eq forward, second.eq forward]

/-- Where parts are run in another order the order of the calls does not matter. -/
theorem Prunes.reorder (prunes : Prunes policy full events) (reversed : policy.reverse = true)
    (perm : events.Perm events') : Prunes policy full events' := by
  refine ⟨prunes.nested, (perm.filterMap Event.call?).symm.trans prunes.perm, fun forward => ?_⟩
  rw [reversed] at forward
  cases forward

theorem callsOutside_singlePart (nested : Nested full) (name : String) (value : Option V) :
    callsOutside policy.skip [] (.enter name :: (full ++ [.leave name value])) =
      callsOutside policy.skip [name] full := by
  rw [callsOutside_part nested]
  exact List.append_nil _

/-- A part that is skipped leaves nothing in the log. -/
theorem prunes_skipped (nested : Nested full) {name : String} (value : Option V)
    (isSkipped : policy.skip.contains name = true) :
    Prunes policy (.enter name :: (full ++ [.leave name value])) [] := by
  have inside : [name].any policy.skip.contains = true := by
    rw [List.any_cons, isSkipped, Bool.true_or]
  have none : callsOutside policy.skip [] (.enter name :: (full ++ [.leave name value])) = [] := by
    rw [callsOutside_singlePart nested, callsOutside_of_skipped nested inside]
  exact ⟨.part nested .nil, none ▸ .nil, fun _ => none.symm⟩

/-- A part that is run, with what is skipped inside it left out. -/
theorem Prunes.part (prunes : Prunes policy full events) {name : String} (value value' : Option V)
    (notSkipped : policy.skip.contains name = false) :
    Prunes policy (.enter name :: (full ++ [.leave name value]))
      (.enter name :: (events ++ [.leave name value'])) := by
  have outside : [name].any policy.skip.contains = false := by
    rw [List.any_cons, notSkipped, Bool.false_or]
    rfl
  have same : calls (.enter name :: (events ++ [.leave name value'])) = calls events := by
    change calls (events ++ [.leave name value']) = calls events
    rw [calls, List.filterMap_append]
    exact List.append_nil _
  have same' : callsOutside policy.skip [] (.enter name :: (full ++ [.leave name value])) =
      callsOutside policy.skip [] full := by
    rw [callsOutside_singlePart prunes.nested, callsOutside_of_not_skipped prunes.nested outside]
  refine ⟨.part prunes.nested .nil, ?_, fun forward => ?_⟩
  · rw [same, same']
    exact prunes.perm
  · rw [same, same', prunes.eq forward]

end

/-! ### The recording builder with and without a policy -/

section

variable {policy : Policy}

/-- Work under the policy that runs everything in order, and work under another one. -/
def deferring (V : Type) (policy : Policy) : Coupling (Recording V) (Recording V) where
  Rel same x y := same x.run.1 y.run.1 ∧ Prunes policy x.run.2 y.run.2
  of_pure holds := ⟨holds, prunes_nil⟩
  of_bind first next :=
    have second := next _ _ first.1
    ⟨second.1, first.2.append second.2⟩
  mono rel weaker := ⟨weaker _ _ rel.1, rel.2⟩

theorem deferring_answer {α : Type} (call : Call V) (value : α) :
    (deferring V policy).Rel Eq (answer call value) (answer call value) :=
  ⟨rfl, prunes_call call⟩

/-- What constructs yield may differ between the two. -/
def Any (_ _ : Option V) : Prop := True

/-- Running a part under a policy prunes what running it in full logs. -/
theorem prunes_runPart {name : String} {part part' : Option (Recording V (Option V))}
    (coupled : Option.Rel ((deferring V policy).Rel Any) part part') :
    Prunes policy (runPart [] name part).run.2 (runPart policy.skip name part').run.2 := by
  cases coupled with
  | none => exact prunes_nil
  | @some x y coupled =>
    have prunes : Prunes policy x.run.2 y.run.2 := coupled.2
    have ran : (runPart [] name (some x)).run.2 =
        .enter name :: (x.run.2 ++ [.leave name x.run.1]) := rfl
    rw [ran]
    cases isSkipped : policy.skip.contains name with
    | true =>
      rw [runPart, if_pos isSkipped]
      exact prunes_skipped prunes.nested _ isSkipped
    | false =>
      rw [runPart, if_neg (by rw [isSkipped]; decide)]
      exact prunes.part _ _ isSkipped

/-- The log of several parts is made of their logs, in the order in which they are run. -/
theorem run_runParts (skip : List String) (construct : List (String × Option V) → Option V)
    (yielded : List (String × Option V)) (parts : List (Part V)) :
    (runParts skip construct yielded parts).run.2 =
      parts.flatMap fun part => (runPart skip part.1 part.2).run.2 := by
  induction parts generalizing yielded with
  | nil => rfl
  | cons part rest ih =>
    rw [runParts, run_bind, ih, List.flatMap_cons]

/-- Lists of parts of the same names whose work goes together. -/
abbrev PartsCoupled (policy : Policy) : List (Part V) → List (Part V) → Prop :=
  List.Forall₂ fun part part' =>
    part.1 = part'.1 ∧ Option.Rel ((deferring V policy).Rel Any) part.2 part'.2

variable {parts parts' : List (Part V)}

/-- Running parts one after the other. -/
theorem prunes_flatMap (coupled : PartsCoupled policy parts parts') :
    Prunes policy (parts.flatMap fun part => (runPart [] part.1 part.2).run.2)
      (parts'.flatMap fun part => (runPart policy.skip part.1 part.2).run.2) := by
  induction coupled with
  | nil => exact prunes_nil
  | @cons part part' _ _ first _ ih =>
    obtain ⟨sameName, coupled⟩ := first
    rw [List.flatMap_cons, List.flatMap_cons, sameName]
    exact (prunes_runPart coupled).append ih

/-- A construct logs its call under either policy, and then its parts; in which order these are run
is the policy's business. -/
theorem deferring_construct (values : Values V) {call call' : Call V} (same : call = call')
    (coupled : PartsCoupled policy parts parts') :
    (deferring V policy).Rel Any (construct values {} call parts)
      (construct values policy call' parts') := by
  subst same
  have ran : Prunes policy (runParts [] (values.construct call) [] parts).run.2
      (runParts policy.skip (values.construct call) []
        (if policy.reverse then parts'.reverse else parts')).run.2 := by
    rw [run_runParts, run_runParts]
    -- the parts are run in another order, but each logs what it logs anyway
    by_cases reversed : policy.reverse = true
    · rw [if_pos reversed]
      have perm := (List.reverse_perm parts').symm.flatMap_right fun part =>
        (runPart policy.skip part.1 part.2).run.2
      exact (prunes_flatMap coupled).reorder reversed perm
    · rw [if_neg reversed]
      exact prunes_flatMap coupled
  exact ⟨trivial, (prunes_call call).append ran⟩

/-- The recording builder under the policy that runs everything in order, and under another one. -/
theorem coupled_policies (values : Values V) (policy : Policy) :
    (builder values {}).Coupled (deferring V policy) Any (builder values policy) where
  refl _ := trivial
  block constsRel varsRel routinesRel bodyRel := by
    refine deferring_construct values ?_ (.cons ⟨rfl, constsRel⟩ (.cons ⟨rfl, varsRel⟩
      (.cons ⟨rfl, .some routinesRel⟩ (.cons ⟨rfl, bodyRel⟩ .nil))))
    rw [isSome_eq_of_rel constsRel, isSome_eq_of_rel varsRel, isSome_eq_of_rel bodyRel]
  constant x value := ⟨rfl, prunes_call _⟩
  storage x init := ⟨rfl, prunes_call _⟩
  procedure x _ _ rel := deferring_construct values rfl (.cons ⟨rfl, .some rel⟩ .nil)
  function x params _ _ rel := deferring_construct values rfl (.cons ⟨rfl, .some rel⟩ .nil)
  assign x target value := ⟨trivial, prunes_call _⟩
  ifThen cond _ _ _ _ thenRel elseRel := by
    refine deferring_construct values ?_ (.cons ⟨rfl, thenRel⟩ (.cons ⟨rfl, elseRel⟩ .nil))
    rw [isSome_eq_of_rel thenRel, isSome_eq_of_rel elseRel]
  whileDo condRel bodyRel := by
    have deferredRel : (deferring V policy).Rel Any (deferred _) (deferred _) :=
      (deferring V policy).of_bind condRel fun _ _ _ => (deferring V policy).of_pure trivial
    refine deferring_construct values ?_
      (.cons ⟨rfl, .some deferredRel⟩ (.cons ⟨rfl, bodyRel⟩ .nil))
    rw [isSome_eq_of_rel bodyRel]
  asm text := ⟨trivial, prunes_call _⟩
  control exit := ⟨trivial, prunes_call _⟩
  odd operand := deferring_answer _ _
  binary op lhs rhs := deferring_answer _ _
  call x args := deferring_answer _ _
  name x role := deferring_answer _ _
  number value := deferring_answer _ _

end

/-- The calls made of a recording builder under a policy, for every program that is accepted. They
are those that the builder which runs everything in order is asked for outside of the skipped parts:
in the same order, or rearranged if the policy reverses the parts. What stands in a skipped part has
no influence on the log. A transcript is such a log, written out. -/
theorem calls_log {options : Options} {source : String} {p : AnalyzedProgram}
    (accepted : check options source = .ok p) (policy : Policy) :
    (∀ {V : Type} (values : Values V),
      Nested (log values {} p.program) ∧
      (policy.reverse = false →
        calls (log values policy p.program) =
          callsOutside policy.skip [] (log values {} p.program)) ∧
      (policy.reverse = true →
        (calls (log values policy p.program)).Perm
          (callsOutside policy.skip [] (log values {} p.program))) ∧
      ∀ other : Block, other.emptied policy.skip = p.program.emptied policy.skip →
        log values policy other = log values policy p.program) ∧
    (transcribe options policy source).map (fun result => result.2.entries.toList) =
      .ok ((log Values.text policy p.program).map Event.text) := by
  refine ⟨fun {V} values => ?_, entries_transcribe accepted policy⟩
  have prunes : Prunes policy (log values {} p.program) (log values policy p.program) :=
    (p.program.lower_coupled (coupled_policies values policy)).2
  exact ⟨prunes.nested, prunes.eq, fun _ => prunes.perm,
    fun other same => log_eq_of_emptied_eq values policy same⟩

/-- A loop without its condition and a choice without its first branch, last parts first. -/
theorem calls_log_reversed :
    let source := "while 1 < 2 do if odd 3 then break else continue."
    let policy : Policy := { skip := ["cond", "then"], reverse := true }
    ∃ p, check {} source = .ok p ∧
      (calls (log Values.text policy p.program)).Perm
        (callsOutside policy.skip [] (log Values.text {} p.program)) ∧
      (transcribe {} policy source).map (fun result => result.2.entries.toList) =
        .ok ((log Values.text policy p.program).map Event.text) := by
  intro source policy
  have isOk : (check {} source).toOption.isSome = true := by decide +kernel
  obtain ⟨p, accepted⟩ := exists_check_of_isSome isOk
  obtain ⟨recorded, written⟩ := calls_log accepted policy
  obtain ⟨-, -, rearranged, -⟩ := recorded Values.text
  exact ⟨p, accepted, rearranged rfl, written⟩

end PlZero.Recorder
