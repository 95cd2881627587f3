import PlZero.Proofs.Semantics.Simulation

/-!
The machine runs the lines of a statement as the statement is executed. A statement is left by
`break` or `continue` where the machine stands behind the label of the innermost loop that belongs
to it (`Listing.Left`). Such labels are placed before or after the statement, so all that is known
of them is that they stand somewhere in the code (`Listing.Targets`); labels are distinct, so a loop
finds the machine behind the label that it placed itself.

Main statement: `Stmt.Scoped.simulated`.
-/

namespace PlZero

open Listing

variable {options : Options} {env : Env} {depth : Nat} {l : Listing}

/-! ### Leaving a loop -/

namespace Listing

variable {code : List Line} {oracle : Oracle} {l' : Listing} {w : World} {m : Machine}

/-- The labels of all open loops stand in the code. -/
def Targets (code : List Line) (l : Listing) : Prop :=
  ∀ loop ∈ l.frame.loops, ∀ exit, ∃ i : Nat, code[i]? = some (.label (loop.target exit))

/-- The machine stands behind the label that leads out of a turn of the innermost loop. -/
inductive Left (code : List Line) (l : Listing) (exit : LoopExit) (w : World) (m : Machine) :
    Prop where
  | intro {loop : Loop} {i : Nat} : loop ∈ l.frame.loops.head? →
      code[i]? = some (.label (loop.target exit)) → m.pc = i + 1 → Mirrors l w m →
      Left code l exit w m

/-- Open loops stay where they are while nothing is opened or closed. -/
theorem Targets.keeps (targets : Targets code l) (keeps : Keeps l l') : Targets code l' := by
  unfold Targets
  rw [keeps.loops]
  exact targets

/-- To leave a loop from inside of a phrase is to leave it from the phrase. -/
theorem Left.keeps {exit : LoopExit} (keeps : Keeps l l') (left : Left code l' exit w m) :
    Left code l exit w m := by
  obtain ⟨innermost, there, pc, mirrors⟩ := left
  rw [keeps.loops] at innermost
  exact .intro innermost there pc
    (mirrors.congr keeps.bindings.symm keeps.outer.symm rfl rfl mirrors.calls)

/-- `break` and `continue` go to the innermost loop. -/
theorem Ready.simulates_control {fuel : Nat} {done : Unit → World → Machine → Prop}
    {exit : LoopExit} (nodup : (labels code).Nodup) (ready : Ready l w m)
    (inside : l.frame.loops ≠ []) (targets : Targets code l)
    (known : (l.control exit).lines <+: code) :
    Machine.Simulates code oracle fuel (throw (.leave exit)) w m (Left code l) done := by
  obtain ⟨loop, outer, loops⟩ := List.exists_cons_of_ne_nil inside
  have mem : loop ∈ l.frame.loops := loops ▸ List.mem_cons_self
  obtain ⟨i, there⟩ := targets loop mem exit
  have jumps : (l.emit (.jump (loop.target exit))).lines <+: (l.control exit).lines := by
    rw [control_of_loop loops]
    simp
  rw [lines_emit] at jumps
  have here := ready.instr (jumps.trans known)
  have steps : Machine.Steps code oracle 2 m (m.behind i) :=
    Machine.steps_jump nodup here there
  exact ⟨2, _, steps, .leave (.intro (loops ▸ rfl) there rfl
    (ready.toMirrors.congr rfl rfl rfl rfl ready.calls))⟩

/-! ### Assignments -/

/-- Only the name that gets a value changes. -/
theorem Mirrors.assign {m' : Machine} {name : String} {value : Int32} (mirrors : Mirrors l w m)
    (others : ∀ other ≠ name, l'.resolve? other = l.resolve? other)
    (memory : ∀ other ≠ name, m'.memory other = m.memory other) (calls : m'.calls = m.calls)
    (self : ∀ up binding, l'.resolve? name = some (up, binding) →
      binding = .const value ∨
        binding = .storage (.global name) ∧ m'.memory name = some value) :
    Mirrors l' (w.assign name value) m' := by
  constructor
  · exact calls.trans mirrors.calls
  · intro other up binding resolved
    by_cases same : other = name
    · subst same
      have stored := w.store_assign_self other value
      rcases self up binding resolved with rfl | ⟨rfl, there⟩
      · exact .const stored
      · exact .storage (there.trans (congrArg some stored.symm))
    · have kept := w.store_assign_of_ne value same
      rw [others other same] at resolved
      cases mirrors.names other up binding resolved with
      | const known => exact .const (kept.trans known)
      | storage known => exact .storage (by rw [memory other same, kept, known])

/-- A store gives the name its value and changes no other name. -/
theorem Ready.simulates_store {fuel up : Nat} {name : String} {operand : Operand} {value : Int32}
    {leaves : LoopExit → World → Machine → Prop} (ready : Ready l w m)
    (resolved : l.resolve? name = some (up, .storage (.global name)))
    (has : m.value operand = some value)
    (known : (l.emit (.store (.global name) operand)).lines <+: code) :
    Machine.Simulates code oracle fuel (Exec.assign name value) w m leaves
      fun _ w' m' => Ready (l.emit (.store (.global name) operand)) w' m' := by
  rw [lines_emit] at known
  have present : ∃ old, m.memory name = some old := by
    cases ready.names name up _ resolved with
    | storage there => exact ⟨_, there⟩
  obtain ⟨old, present⟩ := present
  have steps : Machine.Steps code oracle 1 m (m.store name value) :=
    Machine.steps_store (ready.instr known) present has
  have mirrors : Mirrors (l.emit (.store (.global name) operand)) (w.assign name value)
      (m.store name value) := by
    apply ready.toMirrors.assign
    · exact fun _ _ => rfl
    · exact fun other ne => Function.update_of_ne ne _ _
    · rfl
    · intro up' binding found
      cases resolved.symm.trans found
      exact .inr ⟨rfl, Function.update_self _ _ _⟩
  have pc : (m.store name value).pc = (l.emit (.store (.global name) operand)).lines.length := by
    rw [lines_emit, List.length_append, ← ready.pc]
    rfl
  exact ⟨1, _, steps, .done ⟨mirrors, pc⟩⟩

/-- What can be assigned here is kept in a global of its own name. -/
theorem Mirrors.resolve?_assignable {target : Reference} (mirrors : Mirrors l w m)
    (fits : Fits options env l) (resolved : target.ResolvedIn env)
    (assignable : target.role.isAssignable = true) :
    ∃ up, l.resolve? target.name = some (up, .storage (.global target.name)) := by
  have agrees := fits.agrees resolved
  have names := mirrors.names target.name
  generalize l.resolve? target.name = found, target.role = role at agrees assignable names ⊢
  cases agrees with
  | var =>
    cases names _ _ rfl with
    | storage => exact ⟨_, rfl⟩
  | ret => cases names _ _ rfl
  | const | kept | proc | func | runtime => cases assignable

/-- An assignment, whose target is a variable: a flat program has no functions to assign the results
of. -/
theorem Ready.simulates_assign {fuel : Nat} {target : Reference} {operand : Operand}
    {value : Int32} {leaves : LoopExit → World → Machine → Prop} (ready : Ready l w m)
    (fits : Fits options env l) (resolved : target.ResolvedIn env)
    (assignable : target.role.isAssignable = true) (has : m.value operand = some value)
    (known : (l.assign target.name operand).lines <+: code) :
    Machine.Simulates code oracle fuel (Exec.assign target.name value) w m leaves
      fun _ w' m' => Ready (l.assign target.name operand) w' m' := by
  obtain ⟨up, found⟩ := ready.toMirrors.resolve?_assignable fits resolved assignable
  have stores : l.assign target.name operand = l.emit (.store (.global target.name) operand) := by
    rw [Listing.assign, found]
    rfl
  rw [stores] at known ⊢
  exact ready.simulates_store found has known

/-! ### Jumps -/

/-- The lines end with the label. -/
def EndsWith (l : Listing) (id : Nat) : Prop := ∃ before, l.lines = before ++ [.label id]

/-- The label at the end of some lines stands in the code. -/
theorem EndsWith.there {id : Nat} (ends : l.EndsWith id) (known : l.lines <+: code) :
    ∃ i : Nat, code[i]? = some (.label id) ∧ l.lines.length = i + 1 := by
  obtain ⟨before, same⟩ := ends
  rw [same] at known ⊢
  exact ⟨_, getElem?_of_prefix known (List.getElem?_cons_zero ..), by simp⟩

theorem lines_leaveBranch (l : Listing) (target label : Nat) :
    (l.leaveBranch target label).lines = l.lines ++ [.instr (.jump target)] ++ [.label label] := by
  rw [leaveBranch, lines_place, lines_emit]

theorem jump_leaveBranch (l : Listing) (target label : Nat) :
    l.lines ++ [.instr (.jump target)] <+: (l.leaveBranch target label).lines := by
  rw [lines_leaveBranch]
  exact List.prefix_append _ _

theorem keeps_leaveBranch (l : Listing) (target label : Nat) :
    Keeps l (l.leaveBranch target label) := ⟨rfl, rfl, rfl⟩

/-- A branch ends with the label of what follows. -/
theorem leaveBranch_endsWith (l : Listing) (target label : Nat) :
    (l.leaveBranch target label).EndsWith label := ⟨_, lines_place _ _⟩

section

variable {id i : Nat} (nodup : (labels code).Nodup)

include nodup

/-- Behind a label the machine is behind the lines that end with it. -/
theorem Mirrors.ready (mirrors : Mirrors l w m) (there : code[i]? = some (.label id))
    (pc : m.pc = i + 1) (ends : l'.EndsWith id) (known : l'.lines <+: code)
    (bindings : l'.frame.bindings = l.frame.bindings) (outer : l'.outer = l.outer) :
    Ready l' w m := by
  obtain ⟨j, placedThere, length⟩ := ends.there known
  have same : some i = some j :=
    (position?_eq_some nodup there).symm.trans (position?_eq_some nodup placedThere)
  cases same
  exact ⟨mirrors.congr bindings outer rfl rfl mirrors.calls, pc.trans length.symm⟩

/-- A jump leads to the end of lines that end with its label, in two steps. -/
theorem Ready.jump (ready : Ready l w m) (here : l.lines ++ [.instr (.jump id)] <+: code)
    (ends : l'.EndsWith id) (known : l'.lines <+: code)
    (bindings : l'.frame.bindings = l.frame.bindings) (outer : l'.outer = l.outer) :
    ∃ m', Machine.Steps code oracle 2 m m' ∧ Ready l' w m' := by
  obtain ⟨i, there, _⟩ := ends.there known
  have mirrors : Mirrors l w (m.behind i) := ready.toMirrors.congr rfl rfl rfl rfl ready.calls
  exact ⟨_, Machine.steps_jump nodup (ready.instr here) there,
    mirrors.ready nodup there rfl ends known bindings outer⟩

/-- A branch leads to one of two such places, by the value of the condition. -/
theorem Ready.branch {cond : Operand} {value : Int32} {onTrue onFalse : Nat} (ready : Ready l w m)
    (has : m.value cond = some value)
    (here : l.lines ++ [.instr (.branch cond onTrue onFalse)] <+: code)
    (ends : l'.EndsWith (if value = 0 then onFalse else onTrue)) (known : l'.lines <+: code)
    (bindings : l'.frame.bindings = l.frame.bindings) (outer : l'.outer = l.outer) :
    ∃ m', Machine.Steps code oracle 2 m m' ∧ Ready l' w m' := by
  obtain ⟨i, there, _⟩ := ends.there known
  have mirrors : Mirrors l w (m.behind i) := ready.toMirrors.congr rfl rfl rfl rfl ready.calls
  exact ⟨_, Machine.steps_branch nodup (ready.instr here) has there,
    mirrors.ready nodup there rfl ends known bindings outer⟩

end

/-! ### Phrases between two listings -/

/-- `l'` is `l` with the lines of a phrase added. From the end of the lines of `l` the machine comes
to the end of those of `l'` while `x` is executed, or leaves the innermost loop. -/
structure Performs (code : List Line) (oracle : Oracle) (fuel : Nat) (x : Exec Unit)
    (l l' : Listing) : Prop where
  keeps : Keeps l l'
  grows : l.lines <+: l'.lines
  runs : l'.lines <+: code → ∀ w m, Ready l w m →
    Machine.Simulates code oracle fuel x w m (Left code l) fun _ => Ready l'

section

variable {fuel id : Nat} {x y : Exec Unit} {l₁ l₂ : Listing}

theorem performs_pure (l : Listing) : Performs code oracle fuel (pure ()) l l :=
  ⟨.refl l, List.prefix_refl _, fun _ _ _ ready => Machine.simulates_pure ready⟩

/-- A phrase inside of another one, in which the innermost loop is the same. -/
theorem Performs.leaving (performs : Performs code oracle fuel x l₁ l₂) (keeps : Keeps l l₁)
    (known : l₂.lines <+: code) (ready : Ready l₁ w m) :
    Machine.Simulates code oracle fuel x w m (Left code l) fun _ => Ready l₂ :=
  (performs.runs known w m ready).mono_leaves fun _ _ _ => Left.keeps keeps

/-- Phrase after phrase. -/
theorem Performs.bind (first : Performs code oracle fuel x l l₁)
    (next : Performs code oracle fuel y l₁ l₂) : Performs code oracle fuel (do x; y) l l₂ := by
  refine ⟨first.keeps.trans next.keeps, first.grows.trans next.grows, ?_⟩
  intro known w m ready
  apply (first.runs (next.grows.trans known) w m ready).bind
  intro _ w₁ m₁ ready₁
  exact next.leaving first.keeps known ready₁

/-- A jump behind the phrase. -/
theorem Performs.jump (nodup : (labels code).Nodup) (first : Performs code oracle fuel x l l₁)
    (keeps : Keeps l₁ l₂) (here : l₁.lines ++ [.instr (.jump id)] <+: l₂.lines)
    (ends : l₂.EndsWith id) : Performs code oracle fuel x l l₂ := by
  have grows : l₁.lines <+: l₂.lines := (List.prefix_append _ _).trans here
  refine ⟨first.keeps.trans keeps, first.grows.trans grows, ?_⟩
  intro known w m ready
  apply (first.runs (grows.trans known) w m ready).behind
  intro _ w₁ m₁ ready₁
  obtain ⟨m₂, steps, ready₂⟩ :=
    ready₁.jump nodup (here.trans known) ends known keeps.bindings keeps.outer
  exact ⟨2, m₂, steps, ready₂⟩

/-- A branch to one of two phrases, each behind its label. -/
theorem Ready.simulates_branch {cond : Operand} {value : Int32} {onTrue onFalse : Nat}
    {l₃ : Listing} (nodup : (labels code).Nodup) (ready : Ready l w m)
    (has : m.value cond = some value)
    (here : l.lines ++ [.instr (.branch cond onTrue onFalse)] <+: l₁.lines)
    (trueEnds : l₁.EndsWith onTrue) (falseEnds : l₂.EndsWith onFalse)
    (trueKeeps : Keeps l l₁) (falseKeeps : Keeps l l₂)
    (whenTrue : Performs code oracle fuel x l₁ l₃)
    (whenFalse : Performs code oracle fuel y l₂ l₃) (known : l₃.lines <+: code) :
    Machine.Simulates code oracle fuel (if value = 0 then y else x) w m (Left code l)
      fun _ => Ready l₃ := by
  have knownTrue := whenTrue.grows.trans known
  by_cases zero : value = 0
  · obtain ⟨m', steps, ready'⟩ := ready.branch nodup has (here.trans knownTrue)
      (by rwa [if_pos zero]) (whenFalse.grows.trans known) falseKeeps.bindings falseKeeps.outer
    rw [if_pos zero]
    exact (whenFalse.leaving falseKeeps known ready').before steps (Nat.le_add_right _ _)
  · obtain ⟨m', steps, ready'⟩ := ready.branch nodup has (here.trans knownTrue)
      (by rwa [if_neg zero]) knownTrue trueKeeps.bindings trueKeeps.outer
    rw [if_neg zero]
    exact (whenTrue.leaving trueKeeps known ready').before steps (Nat.le_add_right _ _)

theorem keeps_openIf (l : Listing) (cond : Operand) (hasElse : Bool) :
    Keeps l (l.openIf cond hasElse).2 := ⟨rfl, rfl, rfl⟩

/-- An `if` is opened with its branch. -/
theorem branch_openIf (l : Listing) (cond : Operand) (hasElse : Bool) :
    l.lines ++ [.instr (.branch cond l.nextLabel
      (if hasElse then l.nextLabel + 1 else l.nextLabel + 2))] <+:
        (l.openIf cond hasElse).2.lines := by
  rw [lines_openIf]
  exact ⟨[.label l.nextLabel], by simp⟩

/-- When an `if` is opened, the label of its first branch is at the end. -/
theorem openIf_endsWith (l : Listing) (cond : Operand) (hasElse : Bool) :
    (l.openIf cond hasElse).2.EndsWith l.nextLabel := ⟨_, lines_place _ _⟩

/-- An `if` without `else`, behind its condition. -/
theorem Ready.simulates_ifThen {cond : Operand} {value : Int32} (nodup : (labels code).Nodup)
    (ready : Ready l w m) (has : m.value cond = some value)
    (thenPart : Performs code oracle fuel x (l.openIf cond false).2 l₁)
    (known : (l₁.leaveBranch (l.nextLabel + 2) (l.nextLabel + 2)).lines <+: code) :
    Machine.Simulates code oracle fuel (if value = 0 then pure () else x) w m (Left code l)
      fun _ => Ready (l₁.leaveBranch (l.nextLabel + 2) (l.nextLabel + 2)) := by
  have opened := keeps_openIf l cond false
  have left := keeps_leaveBranch l₁ (l.nextLabel + 2) (l.nextLabel + 2)
  have ends := leaveBranch_endsWith l₁ (l.nextLabel + 2) (l.nextLabel + 2)
  exact ready.simulates_branch nodup has (branch_openIf l cond false)
    (openIf_endsWith l cond false) ends opened ((opened.trans thenPart.keeps).trans left)
    (thenPart.jump nodup left (jump_leaveBranch _ _ _) ends) (performs_pure _) known

/-- An `if` with `else`, behind its condition. -/
theorem Ready.simulates_ifThenElse {cond : Operand} {value : Int32}
    (nodup : (labels code).Nodup) (ready : Ready l w m) (has : m.value cond = some value)
    (thenPart : Performs code oracle fuel x (l.openIf cond true).2 l₁)
    (elsePart : Performs code oracle fuel y
      (l₁.leaveBranch (l.nextLabel + 2) (l.nextLabel + 1)) l₂)
    (known : (l₂.leaveBranch (l.nextLabel + 2) (l.nextLabel + 2)).lines <+: code) :
    Machine.Simulates code oracle fuel (if value = 0 then y else x) w m (Left code l)
      fun _ => Ready (l₂.leaveBranch (l.nextLabel + 2) (l.nextLabel + 2)) := by
  have opened := keeps_openIf l cond true
  have between := keeps_leaveBranch l₁ (l.nextLabel + 2) (l.nextLabel + 1)
  have left := keeps_leaveBranch l₂ (l.nextLabel + 2) (l.nextLabel + 2)
  have ends := leaveBranch_endsWith l₂ (l.nextLabel + 2) (l.nextLabel + 2)
  have jumps := jump_leaveBranch l₂ (l.nextLabel + 2) (l.nextLabel + 2)
  have later : (l₁.leaveBranch (l.nextLabel + 2) (l.nextLabel + 1)).lines <+:
      (l₂.leaveBranch (l.nextLabel + 2) (l.nextLabel + 2)).lines :=
    elsePart.grows.trans ((List.prefix_append _ _).trans jumps)
  exact ready.simulates_branch nodup has (branch_openIf l cond true) (openIf_endsWith l cond true)
    (leaveBranch_endsWith _ _ _) opened ((opened.trans thenPart.keeps).trans between)
    (thenPart.jump nodup ((between.trans elsePart.keeps).trans left)
      ((jump_leaveBranch _ _ _).trans later) ends)
    (elsePart.jump nodup left jumps ends) known

end

/-! ### Loops -/

section

variable {fuel : Nat} {cond : Exec Int32} {body : Exec Unit} {operand : Operand} {l₁ l₂ : Listing}

theorem openLoop_endsWith (l : Listing) : l.openLoop.2.EndsWith l.nextLabel := ⟨_, lines_place _ _⟩

/-- The body of a loop begins behind its label. -/
theorem loopBody_endsWith (l l₁ : Listing) (operand : Operand) :
    (loopBody l l₁ operand).EndsWith (l.nextLabel + 1) :=
  ⟨l₁.lines ++ [.instr (.branch operand (l.nextLabel + 1) (l.nextLabel + 2))], by simp [loopBody]⟩

/-- A loop ends with the label that leads out of it. -/
theorem loopEnd_endsWith (l l₂ : Listing) : (loopEnd l l₂).EndsWith (l.nextLabel + 2) :=
  ⟨_, lines_place _ _⟩

theorem jump_openLoop (l : Listing) :
    l.lines ++ [.instr (.jump l.nextLabel)] <+: l.openLoop.2.lines := by
  rw [lines_openLoop]
  exact ⟨[.label l.nextLabel], by simp⟩

theorem branch_loopBody (l l₁ : Listing) (operand : Operand) :
    l₁.lines ++ [.instr (.branch operand (l.nextLabel + 1) (l.nextLabel + 2))] <+:
      (loopBody l l₁ operand).lines := by
  rw [loopBody, lines_openLoopBody]
  exact ⟨[.label (l.nextLabel + 1)], by simp⟩

/-- Behind the body of a loop there is a jump back to the condition. -/
theorem jump_loopEnd (l l₂ : Listing) :
    l₂.lines ++ [.instr (.jump l.nextLabel)] <+: (loopEnd l l₂).lines := by
  rw [loopEnd, lines_closeLoop]
  exact ⟨[.label (l.nextLabel + 2)], by simp⟩

/-- Inside the body the labels of the loop can be jumped to as well. -/
theorem Targets.loopBody (targets : Targets code l) (condKeeps : Keeps l.openLoop.2 l₁)
    (knownStart : l.openLoop.2.lines <+: code) (known : (loopEnd l l₂).lines <+: code) :
    Targets code (Listing.loopBody l l₁ operand) := by
  have loops : (Listing.loopBody l l₁ operand).frame.loops =
      ⟨l.nextLabel, l.nextLabel + 2⟩ :: l.frame.loops := congrArg (_ :: ·) condKeeps.loops
  intro loop mem exit
  rw [loops] at mem
  rcases List.mem_cons.mp mem with rfl | outside
  · cases exit with
    | breakLoop =>
      obtain ⟨i, there, _⟩ := (loopEnd_endsWith l l₂).there known
      exact ⟨i, there⟩
    | continueLoop =>
      obtain ⟨i, there, _⟩ := (openLoop_endsWith l).there knownStart
      exact ⟨i, there⟩
  · exact targets loop outside exit

/-- One turn of a loop, from the start of its body. -/
theorem Ready.simulates_turn {leaves : LoopExit → World → Machine → Prop}
    (nodup : (labels code).Nodup) (ready : Ready (loopBody l l₁ operand) w m)
    (condKeeps : Keeps l.openLoop.2 l₁) (knownStart : l.openLoop.2.lines <+: code)
    (bodyPart : Performs code oracle fuel body (loopBody l l₁ operand) l₂)
    (known : (loopEnd l l₂).lines <+: code) :
    Machine.Simulates code oracle fuel (Exec.turn body) w m leaves
      fun goesOn => if goesOn then Ready l.openLoop.2 else Ready (loopEnd l l₂) := by
  have jumps := (jump_loopEnd l l₂).trans known
  have bindings : l.openLoop.2.frame.bindings = (loopBody l l₁ operand).frame.bindings :=
    condKeeps.bindings.symm
  have outer : l.openLoop.2.outer = (loopBody l l₁ operand).outer := condKeeps.outer.symm
  apply (bodyPart.runs ((List.prefix_append _ _).trans jumps) w m ready).turn
  · intro w' m' ready'
    obtain ⟨m'', steps, again⟩ := ready'.jump nodup jumps (openLoop_endsWith l) knownStart
      (bindings.trans bodyPart.keeps.bindings.symm) (outer.trans bodyPart.keeps.outer.symm)
    exact ⟨2, m'', steps, again⟩
  · rintro exit w' m' ⟨innermost, there, pc, mirrors⟩
    cases innermost
    refine ⟨0, m', .refl, ?_⟩
    cases exit with
    | breakLoop =>
      exact mirrors.ready nodup there pc (loopEnd_endsWith l l₂) known bodyPart.keeps.bindings
        bodyPart.keeps.outer
    | continueLoop =>
      exact mirrors.ready nodup there pc (openLoop_endsWith l) knownStart bindings outer

/-- A loop. Each turn comes back to the label before the condition, or goes to the one behind the
loop. -/
theorem Ready.simulates_loop (nodup : (labels code).Nodup) (ready : Ready l w m)
    (condKeeps : Keeps l.openLoop.2 l₁) (condGrows : l.openLoop.2.lines <+: l₁.lines)
    (condition : ∀ bound leaves w m, Ready l.openLoop.2 w m →
      Machine.Simulates code oracle bound cond w m leaves (Yields l.openLoop.2 m (operand, l₁)))
    (bodyPart : Performs code oracle fuel body (loopBody l l₁ operand) l₂)
    (known : (loopEnd l l₂).lines <+: code) :
    Machine.Simulates code oracle fuel (Exec.loop cond body fuel) w m (Left code l)
      fun _ => Ready (loopEnd l l₂) := by
  have knownBody : (loopBody l l₁ operand).lines <+: code :=
    bodyPart.grows.trans ((List.prefix_append _ _).trans ((jump_loopEnd l l₂).trans known))
  have knownBranch := (branch_loopBody l l₁ operand).trans knownBody
  have knownStart : l.openLoop.2.lines <+: code :=
    condGrows.trans ((List.prefix_append _ _).trans knownBranch)
  have tests : ∀ w m, Ready l.openLoop.2 w m → ∀ bound,
      Machine.Simulates code oracle bound cond w m (Left code l)
        fun value w' m' => Ready l₁ w' m' ∧ m'.value operand = some value := by
    intro w m ready bound
    exact (condition bound _ w m ready).mono_done
      fun _ _ _ yields => ⟨yields.advances.ready, yields.known.value⟩
  -- a condition that is zero leads behind the loop, another one through the body and back
  have fails : ∀ w m, Ready l₁ w m ∧ m.value operand = some 0 →
      ∃ k m', Machine.Steps code oracle k m m' ∧ Ready (loopEnd l l₂) w m' := by
    rintro w m ⟨ready, has⟩
    obtain ⟨m', steps, stopped⟩ := ready.branch nodup has knownBranch (loopEnd_endsWith l l₂) known
      bodyPart.keeps.bindings bodyPart.keeps.outer
    exact ⟨2, m', steps, stopped⟩
  have holds : ∀ value w m, value ≠ 0 → (Ready l₁ w m ∧ m.value operand = some value) →
      ∃ k m', Machine.Steps code oracle (k + 1) m m' ∧
        Machine.Simulates code oracle fuel (Exec.turn body) w m' (Left code l)
          fun goesOn => if goesOn then Ready l.openLoop.2 else Ready (loopEnd l l₂) := by
    rintro value w m nonzero ⟨ready, has⟩
    have ends : (loopBody l l₁ operand).EndsWith
        (if value = 0 then l.nextLabel + 2 else l.nextLabel + 1) := by
      rw [if_neg nonzero]
      exact loopBody_endsWith l l₁ operand
    obtain ⟨m', steps, ready'⟩ := ready.branch nodup has knownBranch ends knownBody rfl rfl
    exact ⟨1, m', steps, ready'.simulates_turn nodup condKeeps knownStart bodyPart known⟩
  obtain ⟨m', steps, started⟩ := ready.jump nodup ((jump_openLoop l).trans knownStart)
    (openLoop_endsWith l) knownStart rfl rfl
  have loops := Machine.Simulates.loop (fun _ _ ready => ready.calls) tests fails holds
    (Nat.le_refl fuel) started
  exact loops.before steps (Nat.le_add_right _ _)

end

end Listing

/-! ### Statements -/

/-- Wherever names fit and as many loops are open as stand around it, the machine runs the lines of
the statement as the statement is executed. -/
def Stmt.Simulated (options : Options) (env : Env) (depth : Nat) (code : List Line)
    (oracle : Oracle) (fuel : Nat) (s : Stmt) : Prop :=
  ∀ l, Fits options env l → l.frame.loops.length = depth → Targets code l →
    (s.build l).lines <+: code → ∀ w m, Ready l w m →
    Machine.Simulates code oracle fuel (s.exec oracle fuel) w m (Left code l)
      fun _ => Ready (s.build l)

section

variable {code : List Line} {oracle : Oracle} {fuel : Nat}

/-- A simulated statement as a phrase between two listings. -/
theorem Stmt.Scoped.performs {s : Stmt} (inScope : s.Scoped env depth)
    (simulated : s.Simulated options env depth code oracle fuel) (fits : Fits options env l)
    (open_ : l.frame.loops.length = depth) (targets : Targets code l) :
    Performs code oracle fuel (s.exec oracle fuel) l (s.build l) :=
  ⟨inScope.keeps_build fits open_, (s.extends_build l).lines, simulated l fits open_ targets⟩

/-- A missing statement does nothing. -/
theorem Stmt.performs_buildOption {s : Option Stmt} (inScope : ∀ t ∈ s, t.Scoped env depth)
    (simulated : ∀ t ∈ s, t.Simulated options env depth code oracle fuel)
    (fits : Fits options env l) (open_ : l.frame.loops.length = depth)
    (targets : Targets code l) :
    Performs code oracle fuel (Stmt.execOption oracle fuel s) l (Stmt.buildOption s l) := by
  cases s with
  | none =>
    rw [Stmt.buildOption_none, Stmt.execOption]
    exact performs_pure l
  | some s =>
    rw [Stmt.buildOption_some, Stmt.execOption]
    exact (inScope s rfl).performs (simulated s rfl) fits open_ targets

/-- Statements in order. -/
theorem Stmt.performs_buildAll {body : List Stmt} (inScope : ∀ s ∈ body, s.Scoped env depth)
    (simulated : ∀ s ∈ body, s.Simulated options env depth code oracle fuel)
    (fits : Fits options env l) (open_ : l.frame.loops.length = depth)
    (targets : Targets code l) :
    Performs code oracle fuel (Stmt.execAll oracle fuel body) l (Stmt.buildAll body l) := by
  induction body generalizing l with
  | nil =>
    rw [Stmt.buildAll_nil, Stmt.execAll]
    exact performs_pure l
  | cons s rest ih =>
    obtain ⟨firstInScope, othersInScope⟩ := List.forall_mem_cons.mp inScope
    obtain ⟨first, others⟩ := List.forall_mem_cons.mp simulated
    rw [Stmt.buildAll_cons, Stmt.execAll]
    have performs := firstInScope.performs first fits open_ targets
    have keeps := performs.keeps
    exact performs.bind (ih othersInScope others (fits.keeps keeps) (keeps.loops_length open_)
      (targets.keeps keeps))

/-- The two branches of an `if`, behind its condition. -/
theorem Stmt.simulates_branches {info : StmtInfo} {cond : Expr} {thenBranch elseBranch : Option Stmt}
    {value : Int32} {w : World} {m : Machine} (nodup : (labels code).Nodup)
    (thenInScope : ∀ t ∈ thenBranch, t.Scoped env depth)
    (thenSimulated : ∀ t ∈ thenBranch, t.Simulated options env depth code oracle fuel)
    (elseInScope : ∀ t ∈ elseBranch, t.Scoped env depth)
    (elseSimulated : ∀ t ∈ elseBranch, t.Simulated options env depth code oracle fuel)
    (fits : Fits options env (cond.build l).2) (open_ : (cond.build l).2.frame.loops.length = depth)
    (targets : Targets code (cond.build l).2)
    (known : ((Stmt.ifThen info cond thenBranch elseBranch).build l).lines <+: code)
    (ready : Ready (cond.build l).2 w m) (has : m.value (cond.build l).1 = some value) :
    Machine.Simulates code oracle fuel
      (if value = 0 then Stmt.execOption oracle fuel elseBranch
        else Stmt.execOption oracle fuel thenBranch) w m (Left code (cond.build l).2)
      fun _ => Ready ((Stmt.ifThen info cond thenBranch elseBranch).build l) := by
  have thenPart (hasElse : Bool) :=
    have opened := keeps_openIf (cond.build l).2 (cond.build l).1 hasElse
    Stmt.performs_buildOption thenInScope thenSimulated (fits.keeps opened)
      (opened.loops_length open_) (targets.keeps opened)
  cases elseBranch with
  | none =>
    rw [Stmt.build_ifThen] at known ⊢
    rw [Stmt.execOption]
    exact ready.simulates_ifThen nodup has (thenPart false) known
  | some s =>
    rw [Stmt.build_ifThenElse] at known ⊢
    rw [Stmt.execOption]
    have opened := keeps_openIf (cond.build l).2 (cond.build l).1 true
    have between := (opened.trans (thenPart true).keeps).trans
      (keeps_leaveBranch _ ((cond.build l).2.nextLabel + 2) ((cond.build l).2.nextLabel + 1))
    have elsePart := (elseInScope s rfl).performs (elseSimulated s rfl) (fits.keeps between)
      (between.loops_length open_) (targets.keeps between)
    exact ready.simulates_ifThenElse nodup has (thenPart true) elsePart known

/-- A loop: its condition and its body are simulated where they stand, and `simulates_loop` puts the
turns together. -/
theorem Stmt.simulates_whileDo {info : StmtInfo} {cond : Expr} {body : Option Stmt} {w : World}
    {m : Machine} (nodup : (labels code).Nodup) (condInScope : cond.Scoped env)
    (inScope : ∀ t ∈ body, t.Scoped env (depth + 1))
    (simulated : ∀ t ∈ body, t.Simulated options env (depth + 1) code oracle fuel)
    (fits : Fits options env l) (open_ : l.frame.loops.length = depth) (targets : Targets code l)
    (known : ((Stmt.whileDo info cond body).build l).lines <+: code) (ready : Ready l w m) :
    Machine.Simulates code oracle fuel
      (Exec.loop (cond.eval oracle) (Stmt.execOption oracle fuel body) fuel) w m (Left code l)
      fun _ => Ready ((Stmt.whileDo info cond body).build l) := by
  rw [Stmt.build_whileDo] at known ⊢
  have opened : Fits options env l.openLoop.2 := fits.congr rfl rfl
  have condKeeps : Keeps l.openLoop.2 (cond.build l.openLoop.2).2 :=
    (condInScope.served l.openLoop.2 opened).holds
  have condGrows := (cond.extends_build l.openLoop.2).lines
  generalize ran : cond.build l.openLoop.2 = lowered at known condKeeps condGrows ⊢
  have knownBody : (loopBody l lowered.2 lowered.1).lines <+: code :=
    (Stmt.extends_buildOption _ body).lines.trans
      ((List.prefix_append _ _).trans ((jump_loopEnd l _).trans known))
  have knownCond : lowered.2.lines <+: code :=
    (List.prefix_append _ _).trans ((branch_loopBody l _ _).trans knownBody)
  have condition (bound : Nat) (leaves : LoopExit → World → Machine → Prop) (w : World)
      (m : Machine) (ready : Ready l.openLoop.2 w m) :
      Machine.Simulates code oracle bound (cond.eval oracle) w m leaves
        (Yields l.openLoop.2 m lowered) := by
    subst ran
    exact condInScope.simulated bound leaves _ w m opened ready knownCond
  have inside : Fits options env (loopBody l lowered.2 lowered.1) :=
    opened.congr condKeeps.bindings condKeeps.outer
  have bodyPart := Stmt.performs_buildOption inScope simulated inside
    (congrArg (· + 1) (condKeeps.loops_length open_))
    (targets.loopBody condKeeps (condGrows.trans knownCond) known)
  exact ready.simulates_loop nodup condKeeps condGrows condition bodyPart known

/-- By induction on the scoping of the statement. What a statement leaves to its context is the way
out of the innermost loop. -/
theorem Stmt.Scoped.simulated {s : Stmt} (nodup : (labels code).Nodup)
    (inScope : s.Scoped env depth) : s.Simulated options env depth code oracle fuel := by
  induction inScope with
  | assign resolved assignable value =>
    intro l fits open_ targets known w m ready
    rw [Stmt.build_assign] at known ⊢
    rw [Stmt.exec]
    have knownValue := (effects_assign _ _ _).extends_.lines.trans known
    apply (value.simulated _ _ l w m fits ready knownValue).bind
    intro value w₁ m₁ yields
    exact yields.advances.ready.simulates_assign (fits.keeps yields.advances.keeps) resolved
      assignable yields.known.value known
  | sequence inScope ih =>
    intro l fits open_ targets known w m ready
    rw [Stmt.build_sequence] at known ⊢
    rw [Stmt.exec]
    exact (Stmt.performs_buildAll inScope ih fits open_ targets).runs known w m ready
  | ifThen cond thenInScope elseInScope thenSimulated elseSimulated =>
    intro l fits open_ targets known w m ready
    rw [Stmt.exec]
    have knownCond := (Stmt.grows_ifThen _ l _ _ _).trans known
    apply (cond.simulated _ _ l w m fits ready knownCond).bind
    intro value w₁ m₁ yields
    have keeps := yields.advances.keeps
    exact (Stmt.simulates_branches nodup thenInScope thenSimulated elseInScope elseSimulated
      (fits.keeps keeps) (keeps.loops_length open_) (targets.keeps keeps) known
      yields.advances.ready yields.known.value).mono_leaves fun _ _ _ => Left.keeps keeps
  | whileDo cond inScope ih =>
    intro l fits open_ targets known w m ready
    rw [Stmt.exec]
    exact Stmt.simulates_whileDo nodup cond inScope ih fits open_ targets known ready
  | asm =>
    intro l fits open_ targets known w m ready
    rw [Stmt.build_asm] at known ⊢
    rw [Stmt.exec]
    rw [lines_emit] at known
    exact ready.simulates_stuck known rfl
  | control inside =>
    intro l fits open_ targets known w m ready
    rw [Stmt.build_control] at known ⊢
    rw [Stmt.exec]
    have isLoop : l.frame.loops ≠ [] := by
      apply List.ne_nil_of_length_pos
      rw [open_]
      exact inside
    exact ready.simulates_control nodup isLoop targets known
  | call resolved _ args =>
    intro l fits open_ targets known w m ready
    rw [Stmt.build_call] at known ⊢
    rw [Stmt.exec]
    apply (Expr.simulates_buildArgs (fun e mem => (args e mem).simulated) fits ready
      ((answers_call _ _ _).effects.extends_.lines.trans known)).bind
    rintro values w₁ m₁ ⟨advances, has⟩
    apply (advances.ready.simulates_call has known).bind
    intro _ w₂ m₂ yields
    exact Machine.simulates_pure yields.advances.ready
  | name resolved _ =>
    intro l fits open_ targets known w m ready
    rw [Stmt.build_name] at known ⊢
    rw [Stmt.exec]
    obtain ⟨operand, l', answered, simulates⟩ := ready.name fits resolved
    rw [answered] at known ⊢
    apply (simulates known).bind
    intro _ w₁ m₁ yields
    exact Machine.simulates_pure yields.advances.ready

end

end PlZero
