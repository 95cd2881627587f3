import PlZero.Tree.Basic

/-!
Nested scopes. A scope table numbers scopes by creation; each scope holds the names declared in it
and the number of the scope around it. Scopes are never removed, so a number stays good.

The scope around another was always created before it, so a search that goes outward goes to
smaller numbers; `ScopeTable.resolve?` insists on that and so always ends.
-/

namespace PlZero

/-- One scope: the scope around it, if any, and its names, the latest first. -/
structure Scope where
  parent : Option ScopeId := none
  symbols : List (String × Symbol) := []
  deriving DecidableEq, Repr

/-- Every scope made so far, by number. -/
structure ScopeTable where
  scopes : Array Scope := #[]
  deriving DecidableEq, Repr

namespace ScopeTable

def size (t : ScopeTable) : Nat := t.scopes.size

/-- Adds a scope inside `parent`; its number is the former number of scopes. -/
def push (t : ScopeTable) (parent : Option ScopeId) : ScopeTable :=
  { scopes := t.scopes.push { parent } }

def parent? (t : ScopeTable) (s : ScopeId) : Option ScopeId := t.scopes[s]?.bind (·.parent)

def isRoot (t : ScopeTable) (s : ScopeId) : Bool := (t.parent? s).isNone

/-- What `name` was declared as in scope `s` itself. -/
def find? (t : ScopeTable) (s : ScopeId) (name : String) : Option Symbol :=
  t.scopes[s]?.bind (·.symbols.lookup name)

/-- What `name` stands for in scope `s`: its declaration there, or else in the nearest scope around
`s` that has one. -/
def resolve? (t : ScopeTable) (s : ScopeId) (name : String) : Option Symbol :=
  match t.find? s name with
  | some symbol => some symbol
  | none =>
    match t.parent? s with
    | some parent => if parent < s then t.resolve? parent name else none
    | none => none
termination_by s

/-- Declares `name` in scope `s`. A name that scope already has keeps its symbol, which is the
answer then. -/
def insert (t : ScopeTable) (s : ScopeId) (name : String) (symbol : Symbol) :
    Except Symbol ScopeTable :=
  match t.find? s name with
  | some existing => .error existing
  | none => .ok { scopes := t.scopes.modify s fun scope =>
      { scope with symbols := (name, symbol) :: scope.symbols } }

end ScopeTable

end PlZero
