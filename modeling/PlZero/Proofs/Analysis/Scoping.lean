import PlZero.Tree.Basic
import Mathlib.Logic.Function.Basic

/-!
Well-scoped trees. An environment says what each name stands for at a point of a program; a tree is
well scoped in an environment if every name it uses stands for the role recorded beside it, has a
role that is of use in that place, and if loops are left only from inside.

Declarations change the environment for what follows them. A procedure stands for itself in its own
body; in the body of a function its name is the result, and outside it is the function. The names
that one block declares are distinct.
-/

namespace PlZero

/-! ### Names behind declarations -/

/-- What names stand for behind declarations, of which the last one of a name counts. -/
def declareAll {β : Type} (names : String → Option β) (entries : List (String × β)) :
    String → Option β :=
  entries.foldl (fun names entry => Function.update names entry.1 (some entry.2)) names

section

variable {β γ : Type} (names : String → Option β) (entries others : List (String × β))

@[simp] theorem declareAll_nil : declareAll names [] = names := rfl

@[simp] theorem declareAll_cons (entry : String × β) :
    declareAll names (entry :: entries) =
      declareAll (Function.update names entry.1 (some entry.2)) entries := rfl

/-- Declarations behind declarations. -/
theorem declareAll_append :
    declareAll names (entries ++ others) = declareAll (declareAll names entries) others := by
  simp [declareAll]

/-- Declarations over an empty map hide what is below them. -/
theorem declareAll_or (below : String → Option β) (name : String) :
    (declareAll names entries name).or (below name) =
      declareAll (fun name => (names name).or (below name)) entries name := by
  induction entries generalizing names with
  | nil => rfl
  | cons entry entries ih =>
    rw [declareAll_cons, declareAll_cons, ih]
    congr 1
    funext other
    simp only [Function.update_apply]
    split <;> rfl

theorem declareAll_map (f : β → γ) (name : String) :
    (declareAll names entries name).map f =
      declareAll (fun name => (names name).map f) (entries.map fun e => (e.1, f e.2)) name := by
  induction entries generalizing names with
  | nil => rfl
  | cons entry entries ih =>
    rw [declareAll_cons, List.map_cons, declareAll_cons, ih]
    congr 1
    funext other
    simp only [Function.update_apply]
    split <;> rfl

variable {names entries} in
/-- Declarations do not concern other names. -/
theorem declareAll_of_not_mem {name : String} (other : name ∉ entries.map Prod.fst) :
    declareAll names entries name = names name := by
  induction entries generalizing names with
  | nil => rfl
  | cons entry entries ih =>
    rw [List.map_cons, List.mem_cons, not_or] at other
    rw [declareAll_cons, ih other.2, Function.update_of_ne other.1]

/-- Declarations of other names do not touch what a name stands for. -/
theorem declareAll_update {name : String} (other : name ∉ entries.map Prod.fst)
    (found : Option β) :
    declareAll (Function.update names name found) entries =
      Function.update (declareAll names entries) name found := by
  induction entries generalizing names with
  | nil => rfl
  | cons entry entries ih =>
    rw [List.map_cons, List.mem_cons, not_or] at other
    rw [declareAll_cons, declareAll_cons, Function.update_comm other.1, ih _ other.2]

variable {entries} in
theorem isSome_declareAll {name : String} (declared : name ∈ entries.map Prod.fst) :
    (declareAll names entries name).isSome = true := by
  induction entries generalizing names with
  | nil => cases declared
  | cons entry entries ih =>
    rw [declareAll_cons]
    by_cases again : name ∈ entries.map Prod.fst
    · exact ih _ again
    · have same : name = entry.1 := (List.mem_cons.mp declared).resolve_right again
      rw [declareAll_of_not_mem again, same, Function.update_self]
      rfl

end

/-! ### Environments -/

/-- What names stand for, at a point of a program. -/
abbrev Env := String → Option Role

/-- Does a name of this role yield a value when it stands alone? -/
def Role.yieldsValue : Role → Bool
  | .const | .var | .func | .ret => true
  | _ => false

def Role.isAssignable : Role → Bool
  | .var | .ret => true
  | _ => false

/-- The name stands for the role recorded beside it. -/
def Reference.ResolvedIn (env : Env) (ref : Reference) : Prop := env ref.name = some ref.role

/-! ### Expressions and statements -/

/-- A well-scoped expression that yields a value. -/
inductive Expr.Scoped (env : Env) : Expr → Prop where
  | odd {info : ExprInfo} {operand : Expr} : Scoped env operand → Scoped env (.odd info operand)
  | binary {info : ExprInfo} {op : BinaryOp} {lhs rhs : Expr} :
      Scoped env lhs → Scoped env rhs → Scoped env (.binary info op lhs rhs)
  | call {info : ExprInfo} {callee : Reference} {args : List Expr} :
      callee.ResolvedIn env → callee.role.isCallable = true → (∀ e ∈ args, Scoped env e) →
      Scoped env (.call info callee args)
  | name {info : ExprInfo} {ref : Reference} :
      ref.ResolvedIn env → ref.role.yieldsValue = true → Scoped env (.name info ref)
  | number {info : ExprInfo} {value : Int32} : Scoped env (.number info value)

/-- A well-scoped statement with `depth` loops around it. -/
inductive Stmt.Scoped (env : Env) : Nat → Stmt → Prop where
  | assign {depth : Nat} {info : StmtInfo} {target : Reference} {value : Expr} :
      target.ResolvedIn env → target.role.isAssignable = true → value.Scoped env →
      Scoped env depth (.assign info target value)
  | sequence {depth : Nat} {info : StmtInfo} {body : List Stmt} :
      (∀ s ∈ body, Scoped env depth s) → Scoped env depth (.sequence info body)
  | ifThen {depth : Nat} {info : StmtInfo} {cond : Expr} {thenBranch elseBranch : Option Stmt} :
      cond.Scoped env → (∀ s ∈ thenBranch, Scoped env depth s) →
      (∀ s ∈ elseBranch, Scoped env depth s) →
      Scoped env depth (.ifThen info cond thenBranch elseBranch)
  | whileDo {depth : Nat} {info : StmtInfo} {cond : Expr} {body : Option Stmt} :
      cond.Scoped env → (∀ s ∈ body, Scoped env (depth + 1) s) →
      Scoped env depth (.whileDo info cond body)
  | asm {depth : Nat} {info : StmtInfo} {text : String} : Scoped env depth (.asm info text)
  | control {depth : Nat} {info : StmtInfo} {exit : LoopExit} :
      0 < depth → Scoped env depth (.control info exit)
  | call {depth : Nat} {info : StmtInfo} {callee : Reference} {args : List Expr} :
      callee.ResolvedIn env → callee.role.isCallable = true → (∀ e ∈ args, e.Scoped env) →
      Scoped env depth (.call info callee args)
  | name {depth : Nat} {info : StmtInfo} {ref : Reference} :
      ref.ResolvedIn env → (ref.role = .proc ∨ ref.role.yieldsValue = true) →
      Scoped env depth (.name info ref)

/-! ### Declarations and blocks -/

/-- The definitions of a section that may be missing. -/
def Decls.definitions (decls : Option Decls) : List Definition := (decls.map (·.defs)).getD []

def Definition.entries (role : Role) (defs : List Definition) : List (String × Role) :=
  defs.map fun d => (d.name, role)

/-- Well-scoped definitions of the given role: each sees those before it, and a constant has a
value. -/
def Definition.Scoped (role : Role) (env : Env) : List Definition → Prop
  | [] => True
  | d :: rest => (role = .const → d.init.isSome = true) ∧ (∀ e ∈ d.init, e.Scoped env) ∧
      Definition.Scoped role (declareAll env [(d.name, role)]) rest

/-- What the name of a routine stands for behind its declaration. -/
def RoutineKind.role : RoutineKind → Role
  | .procedure => .proc
  | .function _ => .func

def Routine.entries (routines : List Routine) : List (String × Role) :=
  routines.map fun r => (r.name, r.kind.role)

/-- What the name and the parameters of a routine stand for in its own block. -/
def RoutineKind.inside (name : String) : RoutineKind → List (String × Role)
  | .procedure => [(name, .proc)]
  | .function params => (name, .ret) :: params.map fun param => (param, .var)

mutual

def Block.Scoped (env : Env) : Block → Prop
  | { consts, vars, routines, body, .. } =>
    let constants := Definition.entries .const (Decls.definitions consts)
    let values := constants ++ Definition.entries .var (Decls.definitions vars)
    let all := values ++ Routine.entries routines
    (all.map Prod.fst).Nodup ∧
      Definition.Scoped .const env (Decls.definitions consts) ∧
      Definition.Scoped .var (declareAll env constants) (Decls.definitions vars) ∧
      Routine.ScopedAll (declareAll env values) routines ∧
      ∀ s ∈ body, s.Scoped (declareAll env all) 0

/-- A well-scoped routine. Its parameters are distinct from each other and from its name. -/
def Routine.Scoped (env : Env) : Routine → Prop
  | { name, kind, block, .. } =>
    ((kind.inside name).map Prod.fst).Nodup ∧ block.Scoped (declareAll env (kind.inside name))

/-- Well-scoped routines: each sees those before it. -/
def Routine.ScopedAll (env : Env) : List Routine → Prop
  | [] => True
  | r :: rest => r.Scoped env ∧ Routine.ScopedAll (declareAll env [(r.name, r.kind.role)]) rest

end

end PlZero
