import PlZero.Proofs.Semantics.Statements

/-!
A program without routines and its listing behave the same.

Declarations come first. A name is declared once, so until then its global holds the value that the
listing gives it at the start (`Listing.Declaring`): the known initial value, or zero where the
initial value is stored by an instruction. Behind the declarations the body is run as one statement.

Main statement: `AnalyzedProgram.sameBehavior_of_check`.
-/

namespace PlZero

namespace Listing

variable {options : Options} {env : Env} {code : List Line} {oracle : Oracle} {bound : Nat}
  {leaves : LoopExit → World → Machine → Prop} {globals : List Global} {l l₁ : Listing}
  {w w₁ : World} {m m₁ : Machine} {name : String} {value start : Int32}

/-! ### Globals before they are declared -/

def initially (globals : List Global) (name : String) : Option Int32 :=
  (globals.find? (·.name == name)).map (·.value)

/-- A global starts with the value it was declared with, if no earlier one has its name. -/
theorem initially_of_prefix {before : List Global} (fresh : ∀ g ∈ before, g.name ≠ name)
    (known : before ++ [⟨name, start⟩] <+: globals) : initially globals name = some start := by
  obtain ⟨rest, rfl⟩ := known
  have skipped : before.find? (·.name == name) = none := by
    rw [List.find?_eq_none]
    intro g mem
    simpa using fresh g mem
  rw [initially, List.append_assoc, List.find?_append, skipped]
  simp

/-- The machine is ready, and the globals of names that are not declared yet hold what they start
with. -/
structure Declaring (globals : List Global) (l : Listing) (w : World) (m : Machine) : Prop
    extends Ready l w m where
  atModule : l.outer = []
  bound : ∀ g ∈ l.globals.toList, l.resolve? g.name ≠ none
  untouched : ∀ name, l.resolve? name = none → m.memory name = initially globals name

/-- A name that is declared now starts with the value of its global. -/
theorem Declaring.memory (declaring : Declaring globals l w m) (unbound : l.resolve? name = none)
    (known : (l.globals.push ⟨name, start⟩).toList <+: globals) : m.memory name = some start := by
  rw [declaring.untouched name unbound]
  rw [Array.toList_push] at known
  apply initially_of_prefix ?_ known
  rintro g mem rfl
  exact declaring.bound g mem unbound

/-- Initial values are expressions, which leave globals alone. -/
theorem Declaring.advance (declaring : Declaring globals l w m)
    (advances : Advances l m l₁ w₁ m₁) : Declaring globals l₁ w₁ m₁ := by
  have keeps := advances.keeps
  have same := resolve?_congr keeps.bindings keeps.outer
  constructor
  · exact advances.ready
  · rw [keeps.outer, declaring.atModule]
  · rw [advances.globals]
    intro g mem
    rw [same]
    exact declaring.bound g mem
  · intro name unbound
    rw [same] at unbound
    rw [advances.memory, declaring.untouched name unbound]

/-- Binding a name that has got its value. -/
theorem Declaring.bind {binding : Binding} (declaring : Declaring globals l w m)
    (keeps : Keeps l l₁) (declared : ∀ g ∈ l₁.globals.toList, g ∈ l.globals.toList ∨ g.name = name)
    (memory : ∀ other ≠ name, m₁.memory other = m.memory other) (calls : m₁.calls = m.calls)
    (pc : m₁.pc = l₁.lines.length)
    (self : binding = .const value ∨
      binding = .storage (.global name) ∧ m₁.memory name = some value) :
    Declaring globals (l₁.bind name binding) (w.assign name value) m₁ := by
  have others (other : String) (ne : other ≠ name) :
      (l₁.bind name binding).resolve? other = l.resolve? other := by
    rw [resolve?_bind, if_neg ne, resolve?_congr keeps.bindings keeps.outer]
  have found : (l₁.bind name binding).resolve? name = some (0, binding) := by
    rw [resolve?_bind, if_pos rfl]
  have mirrors : Mirrors (l₁.bind name binding) (w.assign name value) m₁ := by
    apply declaring.toMirrors.assign others memory calls
    intro up binding' resolved
    cases found.symm.trans resolved
    exact self
  constructor
  · exact ⟨mirrors, pc⟩
  · exact keeps.outer.trans declaring.atModule
  · intro g mem
    by_cases same : g.name = name
    · rw [same, found]
      exact Option.some_ne_none _
    · rw [others _ same]
      rcases declared g mem with old | new
      · exact declaring.bound g old
      · exact absurd new same
  · intro other unbound
    by_cases same : other = name
    · subst same
      rw [found] at unbound
      cases unbound
    · rw [others other same] at unbound
      rw [memory other same, declaring.untouched other unbound]

/-! ### One declaration -/

def addGlobal (l : Listing) (name : String) (start : Int32) : Listing :=
  { l with globals := l.globals.push ⟨name, start⟩ }

section

variable (atModule : l.outer = [])

include atModule

theorem storage_imm (name : String) (value : Int32) :
    l.storage name (some (.imm value)) =
      (l.addGlobal name value).bind name (.storage (.global name)) := by
  unfold storage
  rw [if_pos (by rw [Listing.atModule, atModule]; rfl)]
  rfl

/-- A value that has to be computed is stored in a global that starts with zero. -/
theorem storage_temp (name : String) (id : Nat) :
    l.storage name (some (.temp id)) =
      ((l.addGlobal name 0).emit (.store (.global name) (.temp id))).bind name
        (.storage (.global name)) := by
  unfold storage
  rw [if_pos (by rw [Listing.atModule, atModule]; rfl)]
  rfl

theorem storage_none (name : String) :
    l.storage name none = (l.addGlobal name 0).bind name (.storage (.global name)) := by
  unfold storage
  rw [if_pos (by rw [Listing.atModule, atModule]; rfl)]
  rfl

end

theorem mem_addGlobal {g : Global} (mem : g ∈ (l.addGlobal name start).globals.toList) :
    g ∈ l.globals.toList ∨ g.name = name := by
  rw [addGlobal, Array.toList_push, List.mem_append, List.mem_singleton] at mem
  rcases mem with old | rfl
  · exact .inl old
  · exact .inr rfl

/-- A global that starts with its value needs no instruction. -/
theorem Declaring.simulates_global (declaring : Declaring globals l w m)
    (unbound : l.resolve? name = none)
    (known : (l.addGlobal name value).globals.toList <+: globals) :
    Machine.Simulates code oracle bound (Exec.assign name value) w m leaves fun _ =>
      Declaring globals ((l.addGlobal name value).bind name (.storage (.global name))) := by
  have has := declaring.memory unbound known
  exact ⟨0, m, .refl, .done (declaring.bind ⟨rfl, rfl, rfl⟩ (fun _ => mem_addGlobal)
    (fun _ _ => rfl) rfl declaring.pc (.inr ⟨rfl, has⟩))⟩

/-- Any other initial value is stored. -/
theorem Declaring.simulates_initialStore {operand : Operand} (declaring : Declaring globals l w m)
    (unbound : l.resolve? name = none) (has : m.value operand = some value)
    (known : ((l.addGlobal name 0).emit (.store (.global name) operand)).lines <+: code)
    (knownGlobals : (l.addGlobal name 0).globals.toList <+: globals) :
    Machine.Simulates code oracle bound (Exec.assign name value) w m leaves fun _ =>
      Declaring globals (((l.addGlobal name 0).emit (.store (.global name) operand)).bind name
        (.storage (.global name))) := by
  have present := declaring.memory unbound knownGlobals
  rw [lines_emit] at known
  have steps : Machine.Steps code oracle 1 m (m.store name value) :=
    Machine.steps_store (declaring.instr known) present has
  have pc : (m.store name value).pc =
      ((l.addGlobal name 0).emit (.store (.global name) operand)).lines.length := by
    rw [lines_emit, List.length_append]
    exact congrArg (· + 1) declaring.pc
  exact ⟨1, _, steps, .done (declaring.bind ⟨rfl, rfl, rfl⟩ (fun _ => mem_addGlobal)
    (fun _ ne => Function.update_of_ne ne _ _) rfl pc (.inr ⟨rfl, Function.update_self _ _ _⟩))⟩

/-- Declared storage holds its initial value, whether it starts with it or gets it by a store. -/
theorem Declaring.simulates_storage {operand : Operand} (declaring : Declaring globals l w m)
    (unbound : l.resolve? name = none) (has : m.value operand = some value)
    (known : (l.storage name (some operand)).lines <+: code)
    (knownGlobals : (l.storage name (some operand)).globals.toList <+: globals) :
    Machine.Simulates code oracle bound (Exec.assign name value) w m leaves
      fun _ => Declaring globals (l.storage name (some operand)) := by
  cases operand with
  | imm constant =>
    cases has
    rw [storage_imm declaring.atModule] at knownGlobals ⊢
    exact declaring.simulates_global unbound knownGlobals
  | temp id =>
    rw [storage_temp declaring.atModule] at known knownGlobals ⊢
    exact declaring.simulates_initialStore unbound has known knownGlobals

/-- A constant whose value is known needs no global. -/
theorem Declaring.simulates_constant {operand : Operand} (declaring : Declaring globals l w m)
    (unbound : l.resolve? name = none) (has : m.value operand = some value)
    (known : (l.constant name operand).lines <+: code)
    (knownGlobals : (l.constant name operand).globals.toList <+: globals) :
    Machine.Simulates code oracle bound (Exec.assign name value) w m leaves
      fun _ => Declaring globals (l.constant name operand) := by
  cases operand with
  | imm constant =>
    cases has
    exact ⟨0, m, .refl, .done (declaring.bind (.refl l) (fun _ => .inl) (fun _ _ => rfl) rfl
      declaring.pc (.inl rfl))⟩
  | temp id => exact declaring.simulates_storage unbound has known knownGlobals

end Listing

open Listing

/-! ### Definitions in order -/

section

variable {options : Options} {env : Env} {code : List Line} {oracle : Oracle} {bound : Nat}
  {leaves : LoopExit → World → Machine → Prop} {globals : List Global} {l l₁ : Listing}
  {w : World} {m : Machine} {role : Role}

/-- `l'` is `l` with the names declared that `env` has besides: what it knows of others stays. -/
structure Listing.Places (options : Options) (env : Env) (names : List String) (l l' : Listing) :
    Prop where
  declared : Declared options env l l'
  grows : Extends l l'
  others : ∀ other ∉ names, l'.resolve? other = l.resolve? other

/-- One definition in the listing: lines are added and its name is bound, and no other. -/
theorem Definition.places_build {d : Definition} (isValue : role = .const ∨ role = .var)
    (present : role = .const → d.init.isSome = true) (inScope : ∀ e ∈ d.init, e.Scoped env)
    (fits : Fits options env l) :
    Places options (declareAll env [(d.name, role)]) [d.name] l (d.build role l) := by
  obtain ⟨line, name, _ | init⟩ := d
  · rcases isValue with rfl | rfl
    · cases present rfl
    · constructor
      · exact declared_storage fits (.refl l) none fun _ => .var
      · exact (declares_storage l name none).extends_
      · intro other new
        exact (declares_storage l name none).resolve?_of_ne (List.ne_of_not_mem_cons new)
  · have keeps := (inScope init rfl).keeps_build fits
    have same := resolve?_congr keeps.bindings keeps.outer
    rcases isValue with rfl | rfl
    · constructor
      · exact declared_constant fits keeps _
      · exact (init.extends_build l).trans (declares_constant _ name _).extends_
      · intro other new
        have ne := List.ne_of_not_mem_cons new
        exact ((declares_constant _ name _).resolve?_of_ne ne).trans (same other)
    · constructor
      · exact declared_storage fits keeps _ fun _ => .var
      · exact (init.extends_build l).trans (declares_storage _ name _).extends_
      · intro other new
        have ne := List.ne_of_not_mem_cons new
        exact ((declares_storage _ name _).resolve?_of_ne ne).trans (same other)

/-- One definition on the machine: the lines of its initial value are run, and behind them its name
has that value. -/
theorem Definition.simulates_build {d : Definition} (isValue : role = .const ∨ role = .var)
    (present : role = .const → d.init.isSome = true) (inScope : ∀ e ∈ d.init, e.Scoped env)
    (fits : Fits options env l) (declaring : Declaring globals l w m)
    (unbound : l.resolve? d.name = none) (known : (d.build role l).lines <+: code)
    (knownGlobals : (d.build role l).globals.toList <+: globals) :
    Machine.Simulates code oracle bound
      (do
        let value ← d.initialValue oracle
        Exec.assign d.name value)
      w m leaves fun _ => Declaring globals (d.build role l) := by
  obtain ⟨line, name, _ | init⟩ := d
  · rcases isValue with rfl | rfl
    · cases present rfl
    · have added := storage_none declaring.atModule name
      have stored : Definition.build .var l ⟨line, name, none⟩ = l.storage name none := rfl
      rw [stored, added] at knownGlobals ⊢
      exact declaring.simulates_global unbound knownGlobals
  · have evaluates (knownInit : (init.build l).2.lines <+: code) :
        Machine.Simulates code oracle bound (init.eval oracle) w m leaves
          (Yields l m (init.build l)) :=
      (inScope init rfl).simulated bound leaves l w m fits declaring.toReady knownInit
    have keeps := (inScope init rfl).keeps_build fits
    have unbound' := (resolve?_congr keeps.bindings keeps.outer name).trans unbound
    rcases isValue with rfl | rfl
    · apply (evaluates ((declares_constant _ name _).extends_.lines.trans known)).bind
      intro value w₁ m₁ yields
      exact (declaring.advance yields.advances).simulates_constant unbound' yields.known.value
        known knownGlobals
    · apply (evaluates ((declares_storage _ name _).extends_.lines.trans known)).bind
      intro value w₁ m₁ yields
      exact (declaring.advance yields.advances).simulates_storage unbound' yields.known.value
        known knownGlobals

/-- Definitions in order, in the listing. -/
theorem Definition.places_all {defs : List Definition} (isValue : role = .const ∨ role = .var)
    (inScope : Definition.Scoped role env defs) (fits : Fits options env l) :
    Places options (declareAll env (Definition.entries role defs)) (defs.map (·.name)) l
      (defs.foldl (Definition.build role) l) := by
  induction defs generalizing env l with
  | nil => exact ⟨fits.declared, .refl l, fun _ _ => rfl⟩
  | cons d rest ih =>
    obtain ⟨present, init, others⟩ := inScope
    have first : Places options (declareAll env [(d.name, role)]) [d.name] l (d.build role l) :=
      Definition.places_build isValue present init fits
    have next := ih others first.declared.fits
    constructor
    · exact first.declared.trans next.declared
    · exact first.grows.trans next.grows
    · intro other new
      rw [List.map_cons, List.mem_cons, not_or] at new
      exact (next.others other new.2).trans (first.others other (by simpa using new.1))

/-- Definitions in order, on the machine. Their names are distinct, so each global is still
untouched when its turn comes. -/
theorem Definition.simulates_all {defs : List Definition} (isValue : role = .const ∨ role = .var)
    (inScope : Definition.Scoped role env defs) (distinct : (defs.map (·.name)).Nodup)
    (fits : Fits options env l) (declaring : Declaring globals l w m)
    (unbound : ∀ d ∈ defs, l.resolve? d.name = none)
    (known : (defs.foldl (Definition.build role) l).lines <+: code)
    (knownGlobals : (defs.foldl (Definition.build role) l).globals.toList <+: globals) :
    Machine.Simulates code oracle bound (Definition.exec oracle defs) w m leaves
      fun _ => Declaring globals (defs.foldl (Definition.build role) l) := by
  induction defs generalizing env l w m with
  | nil => exact Machine.simulates_pure declaring
  | cons d rest ih =>
    obtain ⟨present, init, others⟩ := inScope
    obtain ⟨new, distinct⟩ := List.nodup_cons.mp distinct
    obtain ⟨unboundFirst, unboundRest⟩ := List.forall_mem_cons.mp unbound
    have first : Places options (declareAll env [(d.name, role)]) [d.name] l (d.build role l) :=
      Definition.places_build isValue present init fits
    have next := Definition.places_all isValue others first.declared.fits
    have unbound' : ∀ other ∈ rest, (d.build role l).resolve? other.name = none := by
      intro other mem
      rw [first.others _ ?_, unboundRest other mem]
      rw [List.mem_singleton]
      intro same
      exact new (List.mem_map.mpr ⟨other, mem, same⟩)
    rw [Definition.exec, ← bind_assoc]
    apply (Definition.simulates_build isValue present init fits declaring unboundFirst
      (next.grows.lines.trans known) (next.grows.globals.trans knownGlobals)).bind
    intro _ w₁ m₁ declaring₁
    exact ih others distinct first.declared.fits declaring₁ unbound' known knownGlobals

end

/-! ### Programs -/

def Block.buildDecls (block : Block) : Listing :=
  (Decls.definitions block.vars).foldl (Definition.build .var)
    ((Decls.definitions block.consts).foldl (Definition.build .const) {})

/-- The listing of a program without routines. -/
def Block.build (block : Block) : Listing := Stmt.buildOption block.body block.buildDecls

section

variable {options : Options} {block : Block} {oracle : Oracle} {fuel : Nat}

theorem Definition.map_fst_entries (role : Role) (defs : List Definition) :
    (Definition.entries role defs).map Prod.fst = defs.map (·.name) := by
  rw [Definition.entries, List.map_map]
  rfl

/-- Behind definitions of one role, their names have that role. -/
theorem Definition.declare_entries {role : Role} {defs : List Definition} {env : Env}
    {name : String} (stands : env name = some role ∨ name ∈ defs.map (·.name)) :
    declareAll env (Definition.entries role defs) name = some role := by
  induction defs generalizing env with
  | nil =>
    rcases stands with stands | mem
    · exact stands
    · cases mem
  | cons d rest ih =>
    have first : Definition.entries role (d :: rest) =
        (d.name, role) :: Definition.entries role rest := rfl
    rw [first, declareAll_cons]
    apply ih
    by_cases same : name = d.name
    · exact .inl (by rw [same, Function.update_self])
    · rcases stands with stands | mem
      · exact .inl (by rw [Function.update_of_ne same, stands])
      · exact .inr ((List.mem_cons.mp mem).resolve_left same)

/-- A well-scoped program without routines. -/
structure Block.Flat (options : Options) (block : Block) : Prop where
  constsInScope : Definition.Scoped .const options.env (Decls.definitions block.consts)
  varsInScope : Definition.Scoped .var
    (declareAll options.env (Definition.entries .const (Decls.definitions block.consts)))
    (Decls.definitions block.vars)
  distinct : ((Decls.definitions block.consts).map (·.name) ++
    (Decls.definitions block.vars).map (·.name)).Nodup
  bodyInScope : ∀ s ∈ block.body, s.Scoped
    (declareAll
      (declareAll options.env (Definition.entries .const (Decls.definitions block.consts)))
      (Definition.entries .var (Decls.definitions block.vars))) 0

/-- A well-scoped program without routines is flat: nothing is declared twice in it. -/
theorem Block.Scoped.flat (inScope : block.Scoped options.env) (flat : block.routines = []) :
    block.Flat options := by
  obtain ⟨line, consts, vars, routines, body, scope⟩ := block
  cases flat
  rw [Block.Scoped] at inScope
  obtain ⟨distinct, constsInScope, varsInScope, _, bodyInScope⟩ := inScope
  have none : Routine.entries [] = [] := rfl
  rw [none, List.append_nil] at distinct bodyInScope
  rw [declareAll_append] at bodyInScope
  rw [List.map_append, Definition.map_fst_entries, Definition.map_fst_entries] at distinct
  exact ⟨constsInScope, varsInScope, distinct, bodyInScope⟩

/-- Before the first line every global holds what it starts with. -/
theorem Listing.declaring_start (l : Listing) :
    Declaring l.globals.toList ({} : Listing) {} l.start := by
  have unbound (name : String) : ({} : Listing).resolve? name = none := rfl
  refine ⟨⟨⟨rfl, ?_⟩, rfl⟩, rfl, nofun, fun _ _ => rfl⟩
  intro name up binding found
  rw [unbound] at found
  cases found

theorem Listing.fresh_empty : Fresh [] {} := ⟨List.nodup_nil, nofun⟩

section

variable (flat : block.Flat options)

include flat

/-- The constants of a flat program, from an empty listing. -/
theorem Block.Flat.places_consts :
    Places options
      (declareAll options.env (Definition.entries .const (Decls.definitions block.consts)))
      ((Decls.definitions block.consts).map (·.name)) {}
      ((Decls.definitions block.consts).foldl (Definition.build .const) {}) :=
  Definition.places_all (.inl rfl) flat.constsInScope fits_empty

/-- The variables of a flat program, behind its constants. -/
theorem Block.Flat.places_vars :
    Places options
      (declareAll
        (declareAll options.env (Definition.entries .const (Decls.definitions block.consts)))
        (Definition.entries .var (Decls.definitions block.vars)))
      ((Decls.definitions block.vars).map (·.name))
      ((Decls.definitions block.consts).foldl (Definition.build .const) {}) block.buildDecls :=
  Definition.places_all (.inr rfl) flat.varsInScope flat.places_consts.declared.fits

theorem Block.Flat.loops : block.buildDecls.frame.loops = [] :=
  flat.places_vars.declared.loops.trans flat.places_consts.declared.loops

/-- The statement binds nothing. -/
theorem Block.Flat.keeps : Keeps block.buildDecls block.build :=
  Stmt.keeps_buildOption flat.bodyInScope flat.places_vars.declared.fits
    (congrArg List.length flat.loops)

theorem Block.Flat.outer : block.build.outer = [] :=
  flat.keeps.outer.trans
    (flat.places_vars.declared.outer.trans flat.places_consts.declared.outer)

/-- Labels are distinct, so every jump has one place to go to. -/
theorem Block.Flat.nodup : (labels block.build.lines).Nodup := by
  have grows := (flat.places_consts.grows.trans flat.places_vars.grows).trans
    (Stmt.extends_buildOption block.buildDecls block.body)
  have distinct := (grows.fresh [] fresh_empty).nodup
  rwa [List.append_nil] at distinct

/-- Every variable has a global, which has the value of the variable. -/
theorem Block.Flat.memory {w : World} {m : Machine} (mirrors : Mirrors block.build w m)
    {name : String} (mem : name ∈ block.variableNames) : m.memory name = some (w.store name) := by
  have agrees := flat.places_vars.declared.fits.keeps flat.keeps name .var
    (Definition.declare_entries (.inr mem))
  have names := mirrors.names name
  generalize block.build.resolve? name = found at agrees names
  cases agrees with
  | var =>
    cases names _ _ rfl with
    | storage has => exact has

/-- Declarations, then the body. -/
theorem Block.Flat.simulates :
    Machine.Simulates block.build.lines oracle fuel (block.exec oracle fuel) {} block.build.start
      (fun _ _ _ => False) fun _ => Ready block.build := by
  have grows := Stmt.extends_buildOption block.buildDecls block.body
  obtain ⟨distinctConsts, distinctVars, apart⟩ := List.nodup_append.mp flat.distinct
  have unbound : ∀ d ∈ Decls.definitions block.vars,
      ((Decls.definitions block.consts).foldl (Definition.build .const) {}).resolve? d.name =
        none := by
    intro d mem
    apply flat.places_consts.others
    intro mem'
    exact apart _ mem' _ (List.mem_map_of_mem mem) rfl
  have targets : Targets block.build.lines block.buildDecls := by
    intro loop mem
    rw [flat.loops] at mem
    cases mem
  rw [Block.exec]
  apply (Definition.simulates_all (.inl rfl) flat.constsInScope distinctConsts fits_empty
    (declaring_start block.build) (fun _ _ => rfl)
    (flat.places_vars.grows.trans grows).lines (flat.places_vars.grows.trans grows).globals).bind
  intro _ w₁ m₁ declaring₁
  apply (Definition.simulates_all (.inr rfl) flat.varsInScope distinctVars
    flat.places_consts.declared.fits declaring₁ unbound grows.lines grows.globals).bind
  intro _ w₂ m₂ declaring₂
  have body : Performs block.build.lines oracle fuel (Stmt.execOption oracle fuel block.body)
      block.buildDecls block.build :=
    Stmt.performs_buildOption flat.bodyInScope
      (fun s mem => (flat.bodyInScope s mem).simulated flat.nodup)
      flat.places_vars.declared.fits (congrArg List.length flat.loops) targets
  apply (body.runs (List.prefix_refl _) w₂ m₂ declaring₂.toReady).mono_leaves
  rintro exit w m ⟨innermost, _, _, _⟩
  rw [flat.loops] at innermost
  cases innermost

/-- The code of the entry point is what was built. -/
theorem Block.Flat.code_build : block.build.code = block.build.lines := by
  rw [Listing.code, Listing.moduleFrame, flat.outer]
  rfl

end

end

/-! ### Behavior -/

/-- The machine does what the evaluation does, however much fuel that is given. -/
theorem Block.Flat.follows {options : Options} {block : Block} (flat : block.Flat options)
    (oracle : Oracle) :
    (block.build.execution oracle block.variableNames).Follows (block.evaluation oracle) := by
  intro fuel
  have simulates : Machine.Simulates block.build.lines oracle fuel (block.exec oracle fuel) {}
      block.build.start (fun _ _ _ => False) (fun _ => Ready block.build) := flat.simulates
  obtain ⟨n, m, steps, arrives⟩ := simulates.arrives
  have reached : block.build.execution oracle block.variableNames n =
      m.progress block.build.lines oracle block.variableNames := by
    rw [Listing.execution, flat.code_build, Machine.after_of_steps steps]
  unfold Block.evaluation
  generalize (block.exec oracle fuel).run.run {} = outcome at arrives
  cases arrives with
  | done ready =>
    have values := List.map_congr_left fun x mem => flat.memory ready.toMirrors mem
    have same := reached.trans (Machine.progress_of_end ready.pc)
    rw [ready.calls, values] at same
    constructor
    · intro _
      exact ⟨n, same⟩
    · intro running
      cases running
  | stuck ended short calls =>
    have same := reached.trans (Machine.progress_of_stuck ended short)
    rw [calls] at same
    constructor
    · intro _
      exact ⟨n, same⟩
    · intro running
      cases running
  | outOfFuel le calls =>
    -- the machine has made as many steps as there was fuel, and could make each of them
    constructor
    · intro ended
      exact absurd rfl ended
    · intro _
      refine ⟨n, le, ?_, by rw [reached]; exact calls⟩
      intro j before
      rw [Listing.execution, flat.code_build, Machine.status_running_iff]
      exact Machine.isSome_step_of_steps steps before
  | leave impossible =>
    -- no loop stands around a program
    cases impossible

end PlZero
