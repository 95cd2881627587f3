import PlZero.ScopeTable
import Mathlib.Logic.Function.Basic

/-!
Scope tables, step by step: what a new scope and what a declaration do to the scopes of a table, to
the names in them and to the scopes around them.
-/

namespace PlZero.ScopeTable

variable {t t' : ScopeTable} {s : ScopeId} {name : String} {symbol : Symbol}

/-! ### New scopes -/

@[simp] theorem size_push (t : ScopeTable) (p : Option ScopeId) : (t.push p).size = t.size + 1 := by
  simp [size, push]

/-- A new scope changes none of the others. -/
theorem push_below (t : ScopeTable) (p : Option ScopeId) {i : ScopeId} (h : i < t.size) :
    (t.push p).scopes[i]? = t.scopes[i]? := by
  simp only [push, size] at h ⊢
  rw [Array.getElem?_push, if_neg (Nat.ne_of_lt h)]

@[simp] theorem parent?_push (t : ScopeTable) (p : Option ScopeId) : (t.push p).parent? t.size = p := by
  simp [parent?, push, size]

@[simp] theorem find?_push (t : ScopeTable) (p : Option ScopeId) (name : String) :
    (t.push p).find? t.size name = none := by
  simp [find?, push, size]

/-! ### Declarations -/

section Insert

variable (inserted : t.insert s name symbol = .ok t')

include inserted

theorem find?_of_insert : t.find? s name = none := by
  unfold insert at inserted
  split at inserted
  · cases inserted
  · assumption

theorem scopes_insert : t'.scopes = t.scopes.modify s fun scope =>
    { scope with symbols := (name, symbol) :: scope.symbols } := by
  unfold insert at inserted
  split at inserted <;> cases inserted
  rfl

theorem size_insert : t'.size = t.size := by
  rw [size, scopes_insert inserted, Array.size_modify, size]

/-- A declaration changes one scope. -/
theorem insert_other {i : ScopeId} (other : i ≠ s) : t'.scopes[i]? = t.scopes[i]? := by
  rw [scopes_insert inserted, Array.getElem?_modify, if_neg other.symm]

theorem insert_self : t'.scopes[s]? = t.scopes[s]?.map fun scope =>
    { scope with symbols := (name, symbol) :: scope.symbols } := by
  rw [scopes_insert inserted, Array.getElem?_modify, if_pos rfl]

/-- A declaration does not change how scopes are nested. -/
theorem parent?_insert (i : ScopeId) : t'.parent? i = t.parent? i := by
  unfold parent?
  by_cases own : i = s
  · rw [own, insert_self inserted]
    cases t.scopes[s]? <;> rfl
  · rw [insert_other inserted own]

/-- Behind a declaration the name stands for what was declared, and other names for what they did.
-/
theorem find?_insert (exists_ : s < t.size) (other : String) :
    t'.find? s other = if other = name then some symbol else t.find? s other := by
  unfold find?
  rw [insert_self inserted, Array.getElem?_eq_getElem exists_, Option.map_some, Option.bind_some,
    Option.bind_some, List.lookup_cons]
  by_cases same : other = name
  · simp [same]
  · simp [same, beq_false_of_ne same]

end Insert

end PlZero.ScopeTable
