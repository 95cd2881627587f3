import PlZero.Proofs.Listing.Agreement
import PlZero.Proofs.Semantics.Machine

/-!
The machine does what evaluation does. The code is fixed and known to begin with the lines of a
listing in the making. Where the machine stands behind those lines and its globals hold the values
of the names (`Listing.Ready`), and a phrase is lowered next, the machine runs the lines of the
phrase as the phrase evaluates (`Machine.Simulates`): it comes to the line behind them, or to the
label of the loop that is left, or it gets stuck too. If evaluation runs out of fuel, the machine
makes at least as many steps as there was fuel.

Main statements: the rules of the calculus, among them `Machine.Simulates.loop`, and
`Expr.Scoped.simulated` for expressions.
-/

namespace PlZero

open Listing

/-! ### Lines of the code -/

section

variable {code before lines : List Line} {line : Line} {i : Nat}

/-- A line behind a known beginning of the code. -/
theorem getElem?_of_prefix (known : before ++ lines <+: code) (there : lines[i]? = some line) :
    code[before.length + i]? = some line := by
  obtain ⟨short, rfl⟩ := List.getElem?_eq_some_iff.mp there
  have inside : before.length + i < (before ++ lines).length := by
    rw [List.length_append]
    exact Nat.add_lt_add_left short _
  rw [List.prefix_iff_getElem?.mp known _ inside]
  simp

/-- A label that is placed once is found where it was placed. -/
theorem position?_eq_some {id : Nat} (nodup : (labels code).Nodup)
    (there : code[i]? = some (.label id)) : position? code id = some i := by
  induction code generalizing i with
  | nil => cases there
  | cons first rest ih =>
    rw [position?, List.idxOf?_cons]
    cases i with
    | zero =>
      cases there
      rw [if_pos (beq_self_eq_true _)]
    | succ i =>
      have inRest : id ∈ labels rest :=
        List.mem_filterMap.mpr ⟨_, List.mem_of_getElem? there, rfl⟩
      have other : first ≠ .label id := by
        rintro rfl
        exact (List.nodup_cons.mp nodup).1 inRest
      have found := ih (nodup.sublist ((List.sublist_cons_self first rest).filterMap _)) there
      rw [if_neg (by simpa using other), ← position?, found]
      rfl

end

namespace Machine

variable {code : List Line} {oracle : Oracle} {m m₁ m₂ : Machine} {i : Nat}

def behind (m : Machine) (i : Nat) : Machine := { m with pc := i + 1 }

/-- A label is passed in one step. -/
theorem steps_label {id : Nat} (here : code[m.pc]? = some (.label id)) :
    Steps code oracle 1 m (m.behind m.pc) := by
  apply Steps.single
  rw [step, here]
  rfl

/-- A jump comes out behind its label, in two steps: to the label and past it. -/
theorem steps_goto {id : Nat} (nodup : (labels code).Nodup)
    (stepped : m.step code oracle = m.goto code id) (there : code[i]? = some (.label id)) :
    Steps code oracle 2 m (m.behind i) := by
  have jumped : m.step code oracle = some { m with pc := i } := by
    rw [stepped, goto, position?_eq_some nodup there]
    rfl
  have arrived : Steps code oracle 1 { m with pc := i } (m.behind i) := steps_label there
  exact .cons jumped arrived

/-- A jump, and the label it goes to. -/
theorem steps_jump {id : Nat} (nodup : (labels code).Nodup)
    (here : code[m.pc]? = some (.instr (.jump id))) (there : code[i]? = some (.label id)) :
    Steps code oracle 2 m (m.behind i) := by
  apply steps_goto nodup ?_ there
  rw [step, here]
  rfl

/-- A branch, and the label it goes to. -/
theorem steps_branch {cond : Operand} {onTrue onFalse : Nat} {value : Int32}
    (nodup : (labels code).Nodup) (here : code[m.pc]? = some (.instr (.branch cond onTrue onFalse)))
    (known : m.value cond = some value)
    (there : code[i]? = some (.label (if value = 0 then onFalse else onTrue))) :
    Steps code oracle 2 m (m.behind i) := by
  apply steps_goto nodup ?_ there
  rw [step, here]
  show (m.value cond).bind _ = _
  rw [known]
  rfl

def store (m : Machine) (name : String) (value : Int32) : Machine :=
  { m with memory := Function.update m.memory name (some value), pc := m.pc + 1 }

/-- A store to a global that exists. -/
theorem steps_store {name : String} {operand : Operand} {value old : Int32}
    (here : code[m.pc]? = some (.instr (.store (.global name) operand)))
    (present : m.memory name = some old) (has : m.value operand = some value) :
    Steps code oracle 1 m (m.store name value) := by
  apply Steps.single
  rw [step, here]
  show m.execute code oracle _ = _
  rw [execute, present, has]
  rfl

/-! ### Simulation -/

/-- Where the machine is, after `n` steps, when an evaluation has come to an outcome: `done` holds
at its end and `leaves` where a loop is left. -/
inductive Arrives {α : Type} (code : List Line) (oracle : Oracle) (bound : Nat)
    (leaves : LoopExit → World → Machine → Prop) (done : α → World → Machine → Prop) :
    Except Exit α × World → Nat → Machine → Prop where
  | done {n : Nat} {a : α} {w : World} {m : Machine} :
      done a w m → Arrives code oracle bound leaves done (.ok a, w) n m
  | stuck {n : Nat} {w : World} {m : Machine} :
      m.step code oracle = none → m.pc ≠ code.length → m.calls = w.calls →
      Arrives code oracle bound leaves done (.error .stuck, w) n m
  | outOfFuel {n : Nat} {w : World} {m : Machine} :
      bound ≤ n → m.calls = w.calls →
      Arrives code oracle bound leaves done (.error .outOfFuel, w) n m
  | leave {n : Nat} {w : World} {m : Machine} {exit : LoopExit} :
      leaves exit w m → Arrives code oracle bound leaves done (.error (.leave exit), w) n m

/-- From `m` the machine does what `x` does in the world `w`. -/
structure Simulates {α : Type} (code : List Line) (oracle : Oracle) (bound : Nat) (x : Exec α)
    (w : World) (m : Machine) (leaves : LoopExit → World → Machine → Prop)
    (done : α → World → Machine → Prop) : Prop where
  arrives : ∃ n m', Steps code oracle n m m' ∧
    Arrives code oracle bound leaves done (x.run.run w) n m'

section

variable {α β : Type} {bound bound' k n : Nat} {x : Exec α} {f : α → Exec β} {w : World}
  {leaves : LoopExit → World → Machine → Prop} {mid done : α → World → Machine → Prop}
  {last : β → World → Machine → Prop} {outcome : Except Exit α × World}

/-- Steps made before count too. -/
theorem Arrives.add (arrives : Arrives code oracle bound leaves done outcome n m)
    (enough : bound' ≤ bound + k) : Arrives code oracle bound' leaves done outcome (k + n) m := by
  cases arrives with
  | done holds => exact .done holds
  | stuck ended short calls => exact .stuck ended short calls
  | outOfFuel le calls => exact .outOfFuel (by omega) calls
  | leave holds => exact .leave holds

/-- Steps that the machine makes before it begins count for it. -/
theorem Simulates.before (steps : Steps code oracle k m m₁)
    (simulates : Simulates code oracle bound x w m₁ leaves done) (enough : bound' ≤ bound + k) :
    Simulates code oracle bound' x w m leaves done := by
  obtain ⟨n, m₂, more, arrives⟩ := simulates.arrives
  exact ⟨k + n, m₂, steps.trans more, arrives.add enough⟩

/-- A smaller bound asks for less. -/
theorem Simulates.mono (simulates : Simulates code oracle bound x w m leaves done)
    (le : bound' ≤ bound) : Simulates code oracle bound' x w m leaves done :=
  simulates.before .refl le

theorem simulates_pure {a : α} (holds : done a w m) :
    Simulates code oracle bound (pure a) w m leaves done :=
  ⟨0, m, .refl, .done holds⟩

/-- Where the evaluation is stuck the machine cannot go on either, and has made the same calls. -/
theorem simulates_throw_stuck (ended : m.step code oracle = none) (short : m.pc ≠ code.length)
    (calls : m.calls = w.calls) :
    Simulates code oracle bound (throw .stuck : Exec α) w m leaves done :=
  ⟨0, m, .refl, .stuck ended short calls⟩

/-- Evaluation after evaluation: the machine begins the second where it ended the first. If the
first does not come to its end, neither does the whole. -/
theorem Simulates.bind (first : Simulates code oracle bound x w m leaves mid)
    (next : ∀ a w' m', mid a w' m' → Simulates code oracle bound (f a) w' m' leaves last) :
    Simulates code oracle bound (x >>= f) w m leaves last := by
  obtain ⟨n, m', steps, arrives⟩ := first.arrives
  have ran : (x >>= f).run.run w =
      (ExceptT.bindCont f (x.run.run w).1).run (x.run.run w).2 := rfl
  generalize x.run.run w = outcome at arrives ran
  constructor
  rw [ran]
  cases arrives with
  | done holds =>
    obtain ⟨k, m₂, more, arrives⟩ := (next _ _ _ holds).arrives
    exact ⟨n + k, m₂, steps.trans more, arrives.add (Nat.le_add_right _ _)⟩
  | stuck ended short calls => exact ⟨n, m', steps, .stuck ended short calls⟩
  | outOfFuel le calls => exact ⟨n, m', steps, .outOfFuel le calls⟩
  | leave holds => exact ⟨n, m', steps, .leave holds⟩

/-- Steps made behind the end. -/
theorem Simulates.behind (first : Simulates code oracle bound x w m leaves mid)
    (next : ∀ a w' m', mid a w' m' → ∃ k m'', Steps code oracle k m' m'' ∧ done a w' m'') :
    Simulates code oracle bound x w m leaves done := by
  rw [← bind_pure x]
  apply first.bind
  intro a w' m' holds
  obtain ⟨k, m'', steps, holds⟩ := next a w' m' holds
  exact (simulates_pure holds).before steps (Nat.le_add_right _ _)

theorem Simulates.mono_done (simulates : Simulates code oracle bound x w m leaves mid)
    (imp : ∀ a w' m', mid a w' m' → done a w' m') :
    Simulates code oracle bound x w m leaves done :=
  simulates.behind fun a w' m' holds => ⟨0, m', .refl, imp a w' m' holds⟩

theorem Simulates.mono_leaves {leaves' : LoopExit → World → Machine → Prop}
    (simulates : Simulates code oracle bound x w m leaves done)
    (imp : ∀ exit w' m', leaves exit w' m' → leaves' exit w' m') :
    Simulates code oracle bound x w m leaves' done := by
  obtain ⟨n, m', steps, arrives⟩ := simulates.arrives
  refine ⟨n, m', steps, ?_⟩
  generalize x.run.run w = outcome at arrives ⊢
  cases arrives with
  | done holds => exact .done holds
  | stuck ended short calls => exact .stuck ended short calls
  | outOfFuel le calls => exact .outOfFuel le calls
  | leave holds => exact .leave (imp _ _ _ holds)

/-- Only what the evaluation does in this world matters. -/
theorem Simulates.congr {y : Exec α} (simulates : Simulates code oracle bound x w m leaves done)
    (same : y.run.run w = x.run.run w) : Simulates code oracle bound y w m leaves done :=
  ⟨same ▸ simulates.arrives⟩

end

/-! ### Loops -/

section

variable {bound fuel turns : Nat} {cond : Exec Int32} {body : Exec Unit} {w : World}
  {leaves inner : LoopExit → World → Machine → Prop} {mid : Unit → World → Machine → Prop}
  {last : Bool → World → Machine → Prop}

/-- One turn: the loop goes on behind the body and where the body is left by `continue`. -/
theorem Simulates.turn (first : Simulates code oracle bound body w m inner mid)
    (ends : ∀ w' m', mid () w' m' → ∃ k m'', Steps code oracle k m' m'' ∧ last true w' m'')
    (left : ∀ exit w' m', inner exit w' m' →
      ∃ k m'', Steps code oracle k m' m'' ∧ last (decide (exit = .continueLoop)) w' m'') :
    Simulates code oracle bound (Exec.turn body) w m leaves last := by
  obtain ⟨n, m', steps, arrives⟩ := first.arrives
  -- what the body does elsewhere does not matter
  have ran : (Exec.turn body).run.run w = (Exec.turn fun _ => body.run.run w).run.run w := rfl
  generalize body.run.run w = outcome at arrives ran
  constructor
  rw [ran]
  cases arrives with
  | done holds =>
    obtain ⟨k, m₂, more, holds⟩ := ends _ _ holds
    exact ⟨n + k, m₂, steps.trans more, .done holds⟩
  | stuck ended short calls => exact ⟨n, m', steps, .stuck ended short calls⟩
  | outOfFuel le calls => exact ⟨n, m', steps, .outOfFuel le calls⟩
  | @leave _ _ _ exit holds =>
    obtain ⟨k, m₂, more, holds⟩ := left _ _ _ holds
    cases exit <;> exact ⟨n + k, m₂, steps.trans more, .done holds⟩

/-- A loop: from where the condition starts, each turn comes back there or to where the loop
stops, and makes a step. -/
theorem Simulates.loop {start stop : World → Machine → Prop}
    {tested : Int32 → World → Machine → Prop}
    (calls : ∀ w m, start w m → m.calls = w.calls)
    (condition : ∀ w m, start w m → ∀ bound, Simulates code oracle bound cond w m leaves tested)
    (fails : ∀ w m, tested 0 w m → ∃ k m', Steps code oracle k m m' ∧ stop w m')
    (holds : ∀ value w m, value ≠ 0 → tested value w m →
      ∃ k m', Steps code oracle (k + 1) m m' ∧
        Simulates code oracle fuel (Exec.turn body) w m' leaves
          fun goesOn => if goesOn then start else stop)
    (le : turns ≤ fuel) (started : start w m) :
    Simulates code oracle turns (Exec.loop cond body turns) w m leaves fun _ => stop := by
  induction turns generalizing w m with
  | zero =>
    rw [Exec.loop]
    exact ⟨0, m, .refl, .outOfFuel (Nat.zero_le _) (calls w m started)⟩
  | succ turns ih =>
    rw [Exec.loop]
    apply (condition w m started _).bind
    intro value w₁ m₁ test
    by_cases zero : value = 0
    · subst zero
      obtain ⟨k, m₂, steps, stopped⟩ := fails w₁ m₁ test
      exact (simulates_pure stopped).before steps (Nat.le_add_right _ _)
    · obtain ⟨k, m₂, steps, turned⟩ := holds value w₁ m₁ zero test
      rw [if_neg zero]
      have goes : Simulates code oracle turns
          (Exec.turn body >>= fun goesOn => if goesOn then Exec.loop cond body turns else pure ())
          w₁ m₂ leaves fun _ => stop := by
        apply (turned.mono (Nat.le_of_succ_le le)).bind
        intro goesOn w₂ m₃ arrived
        cases goesOn with
        | false => exact simulates_pure arrived
        | true => exact ih (Nat.le_of_succ_le le) arrived
      exact goes.before steps (by omega)

end

end Machine

/-! ### The state between two phrases -/

namespace Listing

variable {code : List Line} {oracle : Oracle} {l l' l'' : Listing} {w w' w'' : World}
  {m m' m'' : Machine} {name : String} {operand : Operand} {value : Int32} {i : Instr}

/-- What a name is bound to has the value of the name. -/
inductive Holds (w : World) (m : Machine) (name : String) : Binding → Prop where
  | const {value : Int32} : w.store name = value → Holds w m name (.const value)
  | storage : m.memory name = some (w.store name) → Holds w m name (.storage (.global name))

/-- The machine has the values of all names and has made the same calls. -/
structure Mirrors (l : Listing) (w : World) (m : Machine) : Prop where
  calls : m.calls = w.calls
  names : ∀ name up binding, l.resolve? name = some (up, binding) → Holds w m name binding

/-- The machine stands behind the lines made so far. -/
structure Ready (l : Listing) (w : World) (m : Machine) : Prop extends Mirrors l w m where
  pc : m.pc = l.lines.length

/-- Values of names depend on bindings, memory and the store, and on nothing else. -/
theorem Mirrors.congr (mirrors : Mirrors l w m) (bindings : l'.frame.bindings = l.frame.bindings)
    (outer : l'.outer = l.outer) (memory : m'.memory = m.memory) (store : w'.store = w.store)
    (calls : m'.calls = w'.calls) : Mirrors l' w' m' := by
  constructor
  · exact calls
  · intro name up binding resolved
    rw [resolve?_congr bindings outer] at resolved
    cases mirrors.names name up binding resolved with
    | const same => exact .const (by rw [store, same])
    | storage same => exact .storage (by rw [memory, store, same])

/-- A line that comes next. -/
theorem Ready.line {lines : List Line} {line : Line} {k : Nat} (ready : Ready l w m)
    (known : l.lines ++ lines <+: code) (there : lines[k]? = some line) :
    code[m.pc + k]? = some line := by
  rw [ready.pc]
  exact getElem?_of_prefix known there

/-- The next line to be run is the one that was added last. -/
theorem Ready.instr (ready : Ready l w m) (known : l.lines ++ [.instr i] <+: code) :
    code[m.pc]? = some (.instr i) := ready.line (k := 0) known rfl

/-- The instruction that comes next is the one that is executed. -/
theorem Ready.step (ready : Ready l w m) (known : l.lines ++ [.instr i] <+: code) :
    m.step code oracle = m.execute code oracle i := by
  rw [Machine.step, ready.instr known]

/-- Where an instruction has no effect the machine is stuck. -/
theorem Ready.simulates_stuck {α : Type} {bound : Nat}
    {leaves : LoopExit → World → Machine → Prop} {done : α → World → Machine → Prop}
    (ready : Ready l w m) (known : l.lines ++ [.instr i] <+: code)
    (none : m.execute code oracle i = none) :
    Machine.Simulates code oracle bound (throw .stuck : Exec α) w m leaves done := by
  have here := ready.instr known
  apply Machine.simulates_throw_stuck
  · rw [ready.step known, none]
  · intro off
    rw [off, List.getElem?_length] at here
    cases here
  · exact ready.calls

/-! ### Values of expressions -/

/-- The operand has a value, which later results leave alone. -/
structure Known (l : Listing) (m : Machine) (operand : Operand) (value : Int32) : Prop where
  value : m.value operand = some value
  below : ∀ id, operand = .temp id → id < l.nextTemp

/-- From `l` and `m`, an expression was lowered and run: globals and earlier results are as they
were. -/
structure Advances (l : Listing) (m : Machine) (l' : Listing) (w' : World) (m' : Machine) :
    Prop where
  ready : Ready l' w' m'
  keeps : Keeps l l'
  memory : m'.memory = m.memory
  globals : l'.globals = l.globals
  temps : ∀ id < l.nextTemp, m'.temps id = m.temps id
  grown : l.nextTemp ≤ l'.nextTemp

theorem Ready.advances (ready : Ready l w m) : Advances l m l w m :=
  ⟨ready, .refl l, rfl, rfl, fun _ _ => rfl, Nat.le_refl _⟩

/-- Advancing is transitive: results are only added. -/
theorem Advances.trans (first : Advances l m l' w' m')
    (second : Advances l' m' l'' w'' m'') : Advances l m l'' w'' m'' where
  ready := second.ready
  keeps := first.keeps.trans second.keeps
  memory := second.memory.trans first.memory
  globals := second.globals.trans first.globals
  temps id lt := (second.temps id (Nat.lt_of_lt_of_le lt first.grown)).trans (first.temps id lt)
  grown := Nat.le_trans first.grown second.grown

/-- An operand keeps its value while later results are added, since each has a number of its own. -/
theorem Known.advances (known : Known l m operand value) (advances : Advances l m l' w' m') :
    Known l' m' operand value := by
  cases operand with
  | imm => exact ⟨known.value, nofun⟩
  | temp id =>
    have lt := known.below id rfl
    constructor
    · exact (advances.temps id lt).trans known.value
    · rintro _ ⟨⟩
      exact Nat.lt_of_lt_of_le lt advances.grown

theorem mapM_value {operands : List Operand} {values : List Int32}
    (known : List.Forall₂ (Known l m) operands values) : operands.mapM m.value = some values := by
  induction known with
  | nil => rfl
  | cons first _ ih =>
    rw [List.mapM_cons, first.value, ih]
    rfl

/-- `l'` is `l` with one more instruction, which has a result. -/
structure Adds (l l' : Listing) (i : Instr) : Prop where
  lines : l'.lines = l.lines ++ [.instr i]
  keeps : Keeps l l'
  globals : l'.globals = l.globals
  temps : l'.nextTemp = l.nextTemp + 1

theorem adds_emitResult (l : Listing) (i : Nat → Instr) :
    Adds l (l.emitResult i).2 (i l.nextTemp) :=
  ⟨lines_emit _ _, ⟨rfl, rfl, rfl⟩, rfl, rfl⟩

/-- One more instruction, which writes its result and touches nothing else. -/
theorem Ready.result (ready : Ready l w m) (adds : Adds l l' i) (store : w'.store = w.store)
    (value : Int32) :
    Advances l m l' w' { m.result l.nextTemp value with calls := w'.calls } ∧
      Known l' { m.result l.nextTemp value with calls := w'.calls } (.temp l.nextTemp) value := by
  refine ⟨⟨⟨?_, ?_⟩, adds.keeps, rfl, adds.globals, ?_, ?_⟩, ?_, ?_⟩
  · exact ready.toMirrors.congr adds.keeps.bindings adds.keeps.outer rfl store rfl
  · show m.pc + 1 = _
    rw [adds.lines, List.length_append, ready.pc]
    rfl
  · intro id lt
    exact Function.update_of_ne (Nat.ne_of_lt lt) _ _
  · rw [adds.temps]
    exact Nat.le_succ _
  · exact Function.update_self _ _ _
  · rintro _ ⟨⟩
    rw [adds.temps]
    exact Nat.lt_succ_self _

/-- From `l` and `m`, an expression was lowered and run, and the operand has its value. -/
structure Yields (l : Listing) (m : Machine) (lowered : Operand × Listing) (value : Int32)
    (w' : World) (m' : Machine) : Prop where
  advances : Advances l m lowered.2 w' m'
  known : Known lowered.2 m' lowered.1 value

/-- An expression that is run behind another one. -/
theorem Yields.after {lowered : Operand × Listing} (yields : Yields l' m' lowered value w'' m'')
    (first : Advances l m l' w' m') : Yields l m lowered value w'' m'' :=
  ⟨first.trans yields.advances, yields.known⟩

section Requests

variable {bound : Nat} {leaves : LoopExit → World → Machine → Prop}

/-- An instruction with a result does what an evaluation does that leaves all names alone. -/
theorem Ready.simulates_result {x : Exec Int32} (ready : Ready l w m) (adds : Adds l l' i)
    (known : l'.lines <+: code) (ran : x.run.run w = (.ok value, w'))
    (store : w'.store = w.store)
    (executed : m.execute code oracle i =
      some { m.result l.nextTemp value with calls := w'.calls }) :
    Machine.Simulates code oracle bound x w m leaves (Yields l m (.temp l.nextTemp, l')) := by
  rw [adds.lines] at known
  obtain ⟨advances, result⟩ := ready.result adds store value
  refine ⟨1, _, .single ((ready.step known).trans executed), ?_⟩
  rw [ran]
  exact .done ⟨advances, result⟩

/-- The same for one that makes no call. -/
theorem Ready.simulates_value (ready : Ready l w m) (adds : Adds l l' i)
    (known : l'.lines <+: code)
    (executed : m.execute code oracle i = some (m.result l.nextTemp value)) :
    Machine.Simulates code oracle bound (pure value) w m leaves
      (Yields l m (.temp l.nextTemp, l')) := by
  apply ready.simulates_result adds known rfl rfl
  rw [executed, ← ready.calls]
  rfl

/-- A known value takes no step. -/
theorem Ready.simulates_imm (ready : Ready l w m) (value : Int32) :
    Machine.Simulates code oracle bound (pure value) w m leaves (Yields l m (.imm value, l)) :=
  Machine.simulates_pure ⟨ready.advances, rfl, nofun⟩

/-- Whether an operand is odd, known or tested by an instruction. -/
theorem Ready.simulates_odd (ready : Ready l w m) (operand : Operand)
    (has : Known l m operand value) (known : (l.odd operand).2.lines <+: code) :
    Machine.Simulates code oracle bound (pure (oddValue value)) w m leaves
      (Yields l m (l.odd operand)) := by
  cases operand with
  | imm constant =>
    cases has.value
    exact ready.simulates_imm _
  | temp id =>
    apply ready.simulates_value (adds_emitResult l (.odd · (.temp id))) known
    rw [Machine.execute, has.value]
    rfl

/-- An operation is folded only if it has a value. -/
theorem eval_of_fold? {op : BinaryOp} {lhs rhs : Operand} {x y : Int32}
    (folded : fold? op lhs rhs = some value) (left : m.value lhs = some x)
    (right : m.value rhs = some y) : op.eval x y = some value := by
  unfold fold? at folded
  split at folded
  · cases left
    cases right
    exact folded
  · cases folded

/-- An operation, folded or done by an instruction. A division by zero has no value, and the machine
is stuck in the instruction. -/
theorem Ready.simulates_binary {op : BinaryOp} {lhs rhs : Operand} {x y : Int32}
    (ready : Ready l w m) (left : Known l m lhs x) (right : Known l m rhs y)
    (known : (l.binary op lhs rhs).2.lines <+: code) :
    Machine.Simulates code oracle bound
      (match op.eval x y with
        | some value => pure value
        | none => throw .stuck)
      w m leaves (Yields l m (l.binary op lhs rhs)) := by
  unfold binary at known ⊢
  cases folded : fold? op lhs rhs with
  | some value =>
    rw [eval_of_fold? folded left.value right.value]
    exact ready.simulates_imm value
  | none =>
    rw [folded] at known
    have adds := adds_emitResult l (.binary · op lhs rhs)
    have executed : m.execute code oracle (.binary l.nextTemp op lhs rhs) =
        (op.eval x y).bind fun value => some (m.result l.nextTemp value) := by
      rw [Machine.execute, left.value, right.value]
      rfl
    cases computed : op.eval x y with
    | some value =>
      rw [computed] at executed
      exact ready.simulates_value adds known executed
    | none =>
      rw [computed] at executed
      exact ready.simulates_stuck (adds.lines ▸ known) executed

/-- A global is read. -/
theorem Ready.simulates_load (ready : Ready l w m) (has : m.memory name = some value)
    (known : (l.emitResult (.load · (.global name))).2.lines <+: code) :
    Machine.Simulates code oracle bound (pure value) w m leaves
      (Yields l m (l.emitResult (.load · (.global name)))) := by
  apply ready.simulates_value (adds_emitResult l (.load · (.global name))) known
  rw [Machine.execute, has]
  rfl

/-- No name stands for a function of the program, so a call goes outside. -/
theorem Mirrors.call (mirrors : Mirrors l w m) (name : String) (args : List Operand) :
    ∃ l', l.call name args = (.temp l.nextTemp, l') ∧ Adds l l' (.call l.nextTemp name args) := by
  unfold Listing.call
  split
  · next resolved => cases mirrors.names _ _ _ resolved
  · next resolved => cases mirrors.names _ _ _ resolved
  · exact ⟨_, rfl, lines_emit _ _, ⟨rfl, rfl, rfl⟩, rfl, rfl⟩

/-- A call of a function outside the program, with the values of its arguments, is answered by the
oracle. -/
theorem Ready.simulates_call {args : List Operand} {values : List Int32} (ready : Ready l w m)
    (has : List.Forall₂ (Known l m) args values) (known : (l.call name args).2.lines <+: code) :
    Machine.Simulates code oracle bound (Exec.external oracle name values) w m leaves
      (Yields l m (l.call name args)) := by
  obtain ⟨l', called, adds⟩ := ready.toMirrors.call name args
  rw [called] at known ⊢
  have ran : (Exec.external oracle name values).run.run w =
      (.ok (oracle w.calls.length), { w with calls := w.calls ++ [⟨name, values⟩] }) := rfl
  apply ready.simulates_result adds known ran rfl
  rw [Machine.execute, mapM_value has, ready.calls]
  rfl

end Requests

end Listing

/-! ### Expressions -/

section

variable {options : Options} {env : Env} {code : List Line} {oracle : Oracle} {bound : Nat}
  {leaves : LoopExit → World → Machine → Prop} {l : Listing} {w : World} {m : Machine}

/-- A bare name: a constant that is known needs no line, storage is loaded, and a runtime function
is called. -/
theorem Listing.Ready.name {ref : Reference} (ready : Ready l w m) (fits : Fits options env l)
    (resolved : ref.ResolvedIn env) :
    ∃ operand l', l.name ref.name ref.role = (some operand, l') ∧ (l'.lines <+: code →
      Machine.Simulates code oracle bound (ref.eval oracle) w m leaves
        (Yields l m (operand, l'))) := by
  have agrees := fits.agrees resolved
  have holds := ready.names ref.name
  have ran (role : Role) : role = .const ∨ role = .var →
      (Reference.eval oracle ⟨ref.name, role⟩).run.run w = (.ok (w.store ref.name), w) := by
    rintro (rfl | rfl) <;> rfl
  obtain ⟨name, role⟩ := ref
  unfold Listing.name
  generalize l.resolve? name = found at agrees holds
  cases agrees with
  | const =>
    cases holds _ _ rfl with
    | const same =>
      subst same
      exact ⟨_, _, rfl, fun _ => (ready.simulates_imm _).congr (ran .const (.inl rfl))⟩
  | kept =>
    cases holds _ _ rfl with
    | storage same =>
      exact ⟨_, _, rfl, fun known => (ready.simulates_load same known).congr (ran _ (.inl rfl))⟩
  | var =>
    cases holds _ _ rfl with
    | storage same =>
      exact ⟨_, _, rfl, fun known => (ready.simulates_load same known).congr (ran _ (.inr rfl))⟩
  | ret => cases holds _ _ rfl
  | proc => cases holds _ _ rfl
  | func => cases holds _ _ rfl
  | runtime => exact ⟨_, _, rfl, fun known => ready.simulates_call .nil known⟩

/-- Wherever the machine is ready and names fit, it runs the lines of the expression as the
expression evaluates. -/
def Expr.Simulated (options : Options) (env : Env) (code : List Line) (oracle : Oracle)
    (e : Expr) : Prop :=
  ∀ bound leaves l w m, Fits options env l → Ready l w m → (e.build l).2.lines <+: code →
    Machine.Simulates code oracle bound (e.eval oracle) w m leaves (Yields l m (e.build l))

/-- Arguments from left to right; the values of the first ones are still there when the last one has
been computed. -/
theorem Expr.simulates_buildArgs {args : List Expr}
    (simulated : ∀ e ∈ args, e.Simulated options env code oracle) (fits : Fits options env l)
    (ready : Ready l w m) (known : (Expr.buildArgs args l).2.lines <+: code) :
    Machine.Simulates code oracle bound (Expr.evalArgs oracle args) w m leaves
      fun values w' m' => Advances l m (Expr.buildArgs args l).2 w' m' ∧
        List.Forall₂ (Known (Expr.buildArgs args l).2 m') (Expr.buildArgs args l).1 values := by
  induction args generalizing l w m with
  | nil =>
    rw [Expr.buildArgs_nil, Expr.evalArgs]
    exact Machine.simulates_pure ⟨ready.advances, .nil⟩
  | cons e rest ih =>
    obtain ⟨first, others⟩ := List.forall_mem_cons.mp simulated
    rw [Expr.buildArgs_cons] at known ⊢
    rw [Expr.evalArgs]
    have grown := (Expr.extends_buildArgs rest (e.build l).2).lines
    apply (first _ _ l w m fits ready (grown.trans known)).bind
    intro value w₁ m₁ yields
    have advances := yields.advances
    apply (ih others (fits.keeps advances.keeps) advances.ready known).bind
    rintro values w₂ m₂ ⟨advances', has⟩
    exact Machine.simulates_pure
      ⟨advances.trans advances', .cons (yields.known.advances advances') has⟩

/-- By induction on the scoping of the expression. -/
theorem Expr.Scoped.simulated {e : Expr} (inScope : e.Scoped env) :
    e.Simulated options env code oracle := by
  induction inScope with
  | odd _ ih =>
    intro bound leaves l w m fits ready known
    rw [Expr.build_odd] at known ⊢
    rw [Expr.eval]
    apply (ih _ _ l w m fits ready ((answers_odd _ _).effects.extends_.lines.trans known)).bind
    intro value w₁ m₁ yields
    exact (yields.advances.ready.simulates_odd _ yields.known known).mono_done
      fun _ _ _ odd => odd.after yields.advances
  | binary _ _ left right =>
    intro bound leaves l w m fits ready known
    rw [Expr.build_binary] at known ⊢
    rw [Expr.eval]
    have knownRight := (answers_binary _ _ _ _).effects.extends_.lines.trans known
    apply (left _ _ l w m fits ready ((Expr.extends_build _ _).lines.trans knownRight)).bind
    intro x w₁ m₁ lhs
    have advances := lhs.advances
    apply (right _ _ _ w₁ m₁ (fits.keeps advances.keeps) advances.ready knownRight).bind
    intro y w₂ m₂ rhs
    have advances' := rhs.advances
    exact (advances'.ready.simulates_binary (lhs.known.advances advances') rhs.known
      known).mono_done fun _ _ _ result => result.after (advances.trans advances')
  | call _ _ _ ih =>
    intro bound leaves l w m fits ready known
    rw [Expr.build_call] at known ⊢
    rw [Expr.eval]
    have knownArgs := (answers_call _ _ _).effects.extends_.lines.trans known
    apply (Expr.simulates_buildArgs ih fits ready knownArgs).bind
    rintro values w₁ m₁ ⟨advances, has⟩
    exact (advances.ready.simulates_call has known).mono_done
      fun _ _ _ result => result.after advances
  | name resolved _ =>
    intro bound leaves l w m fits ready known
    obtain ⟨operand, l', answered, simulates⟩ := ready.name fits resolved
    rw [Expr.build_name _ answered] at known ⊢
    rw [Expr.eval]
    exact simulates known
  | number =>
    intro bound leaves l w m fits ready known
    rw [Expr.build_number, Expr.eval]
    exact ready.simulates_imm _

end

end PlZero
