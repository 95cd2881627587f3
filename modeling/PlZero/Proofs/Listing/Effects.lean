import PlZero.Listing.Step
import Mathlib.Logic.Relation

/-!
What the steps of making a listing do. A step that declares a name, stores or computes a value
decides by the bindings and the operands it finds. Whatever it decides, it does no more than add
instructions that end no basic block, take slots, and note globals and external functions. Each step
is taken apart into such effects here.

A property of listings that no effect breaks is then kept by all these steps. So to prove one there
is a case for each effect, and the definitions of the steps are not opened again.

Main statements: `effects_assign`, `declares_storage`, `declares_constant` for the steps that answer
nothing, `answers_odd`, `answers_binary`, `answers_call`, `answers_name` for those that answer with
a value, and `control_cases` for jumps out of a loop.
-/

namespace PlZero.Listing

/-! ### Instructions -/

/-- Does the instruction end a basic block? -/
def Instr.isTerminator : Instr → Bool
  | .branch _ _ _ | .jump _ => true
  | _ => false

/-- The number of the result of an instruction that has one. -/
def Instr.result? : Instr → Option Nat
  | .load result _ | .binary result _ _ _ | .odd result _ | .call result _ _ => some result
  | .slot _ | .store _ _ | .run _ | .asm _ | .branch _ _ _ | .jump _ => none

def Instr.operands : Instr → List Operand
  | .store _ value => [value]
  | .binary _ _ lhs rhs => [lhs, rhs]
  | .odd _ operand => [operand]
  | .call _ _ args => args
  | .branch cond _ _ => [cond]
  | .slot _ | .load _ _ | .run _ | .asm _ | .jump _ => []

/-- What has a result does not end a basic block. -/
theorem Instr.isTerminator_of_result {i : Instr} {id : Nat} (result : i.result? = some id) :
    i.isTerminator = false := by
  cases i with
  | branch | jump => cases result
  | slot | store | load | binary | odd | call | run | asm => rfl

/-! ### Effects -/

/-- `l'` is `l` after one effect, in which no operands are used but those of `uses`. -/
inductive Effect (uses : List Operand) (l : Listing) : (l' : Listing) → Prop where
  | emit {i : Instr} : i.isTerminator = false → i.result? = none → i.operands ⊆ uses →
      Effect uses l (l.emit i)
  /-- The instruction is numbered, and the number is that of its result. -/
  | result {i : Nat → Instr} : (∀ id, (i id).result? = some id) →
      (∀ id, (i id).operands ⊆ uses) → Effect uses l (l.emitResult i).2
  | slot (name : String) : Effect uses l (l.freshSlot name).2
  | global (g : Global) : Effect uses l { l with globals := l.globals.push g }
  | external (name : String) (arity : Nat) :
      Effect uses l { l with externals := declareExternal name arity l.externals }

/-- `l'` is `l` after any number of effects. -/
abbrev Effects (uses : List Operand) (l l' : Listing) : Prop :=
  Relation.ReflTransGen (Effect uses) l l'

/-- `l'` is `l` after effects, and then with a binding for the name. -/
def Declares (uses : List Operand) (name : String) (l l' : Listing) : Prop :=
  ∃ l₁ binding, Effects uses l l₁ ∧ l' = l₁.bind name binding

/-- A listing that is `l` after effects, and a value with it: one that is known, or the result of
the last instruction. -/
inductive Answers (uses : List Operand) (l : Listing) : Operand × Listing → Prop where
  | known {l' : Listing} (value : Int32) : Effects uses l l' → Answers uses l (.imm value, l')
  | made {l' : Listing} {i : Nat → Instr} : Effects uses l l' → (∀ id, (i id).result? = some id) →
      (∀ id, (i id).operands ⊆ uses) → Answers uses l (l'.emitResult i)

variable {uses : List Operand} {l : Listing} {out : Operand × Listing}

theorem Answers.effects (answers : Answers uses l out) : Effects uses l out.2 := by
  cases answers with
  | known value earlier => exact earlier
  | made earlier own operands => exact earlier.tail (.result own operands)

/-! ### Steps that answer with a value -/

/-- A known operand is answered at once, any other takes an instruction. -/
theorem answers_odd (l : Listing) (operand : Operand) : Answers [operand] l (l.odd operand) := by
  unfold odd
  split
  · exact .known _ .refl
  · exact .made .refl (fun _ => rfl) fun _ => List.Subset.refl _

/-- An operation on known operands is answered at once if it has a value. -/
theorem answers_binary (l : Listing) (op : BinaryOp) (lhs rhs : Operand) :
    Answers [lhs, rhs] l (l.binary op lhs rhs) := by
  unfold binary
  split
  · exact .known _ .refl
  · exact .made .refl (fun _ => rfl) fun _ => List.Subset.refl _

/-- A call of a name that is no function of the program notes it first. -/
theorem answers_call (l : Listing) (name : String) (args : List Operand) :
    Answers args l (l.call name args) := by
  unfold call
  split
  · exact .made .refl (fun _ => rfl) fun _ => List.Subset.refl _
  · exact .made .refl (fun _ => rfl) fun _ => List.Subset.refl _
  · exact .made (.single (.external name _)) (fun _ => rfl) fun _ => List.Subset.refl _

/-- A bare name, where one that yields nothing counts as zero. -/
theorem answers_name (l : Listing) (name : String) (role : Role) :
    Answers [] l ((l.name name role).1.getD (.imm 0), (l.name name role).2) := by
  unfold Listing.name
  split
  · exact .known 0 (.single (.emit rfl rfl (List.nil_subset _)))
  · exact answers_call l name []
  · exact answers_call l name []
  · exact .known _ .refl
  · exact .made (i := (.load · _)) .refl (fun _ => rfl) fun _ => List.nil_subset _
  · exact .known 0 .refl

/-! ### Steps that answer nothing -/

/-- An assignment to what cannot be assigned does nothing. -/
theorem effects_assign (l : Listing) (name : String) (value : Operand) :
    Effects [value] l (l.assign name value) := by
  unfold assign
  split
  · exact .single (.emit rfl rfl (List.Subset.refl _))
  · exact .single (.emit rfl rfl (List.Subset.refl _))
  · exact .refl

/-- A slot and the line that makes it. -/
theorem effects_slot (uses : List Operand) (l : Listing) (name : String) :
    Effects uses l ((l.freshSlot name).2.emit (.slot (l.freshSlot name).1)) :=
  (Relation.ReflTransGen.single (.slot name)).tail (.emit rfl rfl (List.nil_subset _))

/-- Declared storage is bound in the end, whether it is global or a slot and wherever its initial
value is kept. -/
theorem storage_eq_bind (l : Listing) (name : String) (init : Option Operand) :
    ∃ l₁ place, l.storage name init = l₁.bind name (.storage place) ∧
      Effects init.toList l l₁ := by
  unfold storage
  dsimp only
  split
  · refine ⟨_, _, rfl, ?_⟩
    split
    · exact .single (.global _)
    · exact (Relation.ReflTransGen.single (.global _)).tail
        (.emit rfl rfl (List.Subset.refl _))
    · exact .single (.global _)
  · refine ⟨_, _, rfl, ?_⟩
    split
    · exact (effects_slot _ l name).tail (.emit rfl rfl (List.Subset.refl _))
    · exact effects_slot _ l name

theorem declares_storage (l : Listing) (name : String) (init : Option Operand) :
    Declares init.toList name l (l.storage name init) := by
  obtain ⟨l₁, place, stored, effects⟩ := storage_eq_bind l name init
  exact ⟨l₁, _, effects, stored⟩

/-- A constant with a known value is only bound. Any other is storage. -/
theorem declares_constant (l : Listing) (name : String) (value : Operand) :
    Declares [value] name l (l.constant name value) := by
  cases value with
  | imm value => exact ⟨l, _, .refl, rfl⟩
  | temp id => exact declares_storage l name (some (.temp id))

/-! ### Jumps out of a loop -/

/-- The label that leads out of a turn of the loop. -/
def Loop.target (loop : Loop) : LoopExit → Nat
  | .breakLoop => loop.exit
  | .continueLoop => loop.cond

/-- Inside a loop the jump goes to a label of the innermost one. -/
theorem control_of_loop {loop : Loop} {loops : List Loop} (open_ : l.frame.loops = loop :: loops)
    (exit : LoopExit) :
    l.control exit = (l.emit (.jump (loop.target exit))).freshLabel.2.place l.nextLabel := by
  unfold control
  rw [open_]
  cases exit <;> rfl

/-- Outside of a loop nothing is done; inside, there is one jump, and a new label behind it. -/
theorem control_cases (l : Listing) (exit : LoopExit) :
    l.frame.loops = [] ∧ l.control exit = l ∨ ∃ loop ∈ l.frame.loops,
      l.control exit = (l.emit (.jump (loop.target exit))).freshLabel.2.place l.nextLabel := by
  cases open_ : l.frame.loops with
  | nil => exact .inl ⟨rfl, by rw [control, open_]⟩
  | cons loop loops => exact .inr ⟨loop, List.mem_cons_self, control_of_loop open_ exit⟩

end PlZero.Listing
