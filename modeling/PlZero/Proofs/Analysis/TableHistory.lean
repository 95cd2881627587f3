import PlZero.Proofs.Analysis.StoredScopes

/-!
Scope tables over time. A table begins empty, and scopes are made and names declared in it one after
the other; the scopes an operation is given are such that were made before it.

Then the scope around another one always has the smaller number. So whoever goes outward from a
scope gets to the outermost one, and the scopes on the way are a chain (`Ordered.exists_chain`).
Looking a name up finds its nearest declaration on the chain, and a new declaration is found from
where no scope in between has the name.

Main statement: `scoped_of_proper`.
-/

namespace PlZero.ScopeTable

variable {t t' : ScopeTable} {s u : ScopeId} {name other : String} {symbol : Symbol}
  {chain : List ScopeId}

/-! ### Chains of scopes -/

/-- The scope around another one has the smaller number. -/
def Ordered (t : ScopeTable) : Prop := ∀ s p : Nat, t.parent? s = some p → p < s

/-- The scopes that are passed on the way from a scope outward, that scope first and one that has
none around it last. -/
inductive Chain (t : ScopeTable) : ScopeId → List ScopeId → Prop
  | root {s : ScopeId} (free : t.parent? s = none) : Chain t s [s]
  | inside {s p : ScopeId} {chain : List ScopeId} (parent : t.parent? s = some p)
    (outer : Chain t p chain) : Chain t s (s :: chain)

/-- There is one way out of a scope. -/
theorem Chain.unique (first : Chain t s chain) :
    ∀ second, Chain t s second → second = chain := by
  induction first with
  | root free =>
    intro second way
    cases way with
    | root => rfl
    | inside parent => rw [free] at parent; cases parent
  | inside parent _ ih =>
    intro second way
    cases way with
    | root free => rw [free] at parent; cases parent
    | inside parent' outer =>
      cases parent.symm.trans parent'
      rw [ih _ outer]

/-- Scopes stand inside of ones with smaller numbers, so every way out comes to an end. -/
theorem Ordered.exists_chain (ordered : t.Ordered) (s : Nat) : ∃ chain, Chain t s chain := by
  induction s using Nat.strong_induction_on with
  | _ s ih =>
    cases parent : t.parent? s with
    | none => exact ⟨[s], .root parent⟩
    | some p =>
      obtain ⟨chain, outer⟩ := ih p (ordered s p parent)
      exact ⟨s :: chain, .inside parent outer⟩

/-- A chain goes to smaller numbers only. -/
theorem Chain.le (ordered : t.Ordered) (way : Chain t s chain) : ∀ i ∈ chain, i ≤ s := by
  induction way with
  | root => exact List.forall_mem_singleton.mpr (Nat.le_refl _)
  | @inside s p _ parent _ ih =>
    have smaller : p < s := ordered s p parent
    exact List.forall_mem_cons.mpr
      ⟨Nat.le_refl _, fun i mem => Nat.le_trans (ih i mem) (Nat.le_of_lt smaller)⟩

/-- The chain is the same in a table with the same parents along it. -/
theorem Chain.congr (way : Chain t s chain) (same : ∀ i ∈ chain, t'.parent? i = t.parent? i) :
    Chain t' s chain := by
  induction way with
  | root free => exact .root ((same _ List.mem_cons_self).trans free)
  | inside parent _ ih =>
    have first := same _ List.mem_cons_self
    exact .inside (first.trans parent) (ih fun i mem => same i (List.mem_cons_of_mem _ mem))

/-- Looking a name up goes along the chain, to the first scope that has the name. -/
theorem Chain.resolve?_eq (ordered : t.Ordered) (way : Chain t s chain) (name : String) :
    t.resolve? s name = chain.findSome? (t.find? · name) := by
  induction way with
  | @root s free =>
    rw [resolve?, free, List.findSome?_singleton]
    cases t.find? s name <;> rfl
  | @inside s p _ parent _ ih =>
    rw [resolve?_of_parent parent (ordered s p parent), ih, List.findSome?_cons]
    cases t.find? s name <;> rfl

/-! ### A declaration seen from inside -/

/-- A declaration of `name` in `s` would be found along the chain: `s` is on it, and no scope before
it has the name. -/
def Exposed (t : ScopeTable) (chain : List ScopeId) (s : ScopeId) (name : String) : Prop :=
  ∃ inner outer, chain = inner ++ s :: outer ∧ ∀ i ∈ inner, t.find? i name = none

theorem exposed_cons {i : ScopeId} : t.Exposed (i :: chain) s name ↔
    i = s ∨ t.find? i name = none ∧ t.Exposed chain s name := by
  constructor
  · rintro ⟨inner, outer, cut, unnamed⟩
    cases inner with
    | nil => exact .inl (List.cons.inj cut).1
    | cons j inner =>
      obtain ⟨rfl, rest⟩ := List.cons.inj cut
      rw [List.forall_mem_cons] at unnamed
      exact .inr ⟨unnamed.1, inner, outer, rest, unnamed.2⟩
  · rintro (rfl | ⟨unnamed, inner, outer, rfl, rest⟩)
    · exact ⟨[], chain, rfl, List.forall_mem_nil _⟩
    · exact ⟨i :: inner, outer, rfl, List.forall_mem_cons.mpr ⟨unnamed, rest⟩⟩

section Insert

variable (inserted : t.insert s name symbol = .ok t') (made : s < t.size)

include inserted made

theorem find?_of_inserted (i : ScopeId) (other : String) :
    t'.find? i other = if i = s ∧ other = name then some symbol else t.find? i other := by
  by_cases own : i = s
  · rw [own, find?_insert inserted made]
    simp
  · rw [find?_congr (insert_other inserted own), if_neg fun both => own both.1]

/-- Along a chain that a new declaration is exposed on, it is what is found. -/
theorem findSome?_of_exposed (exposed : t.Exposed chain s name) :
    chain.findSome? (t'.find? · name) = some symbol := by
  induction chain with
  | nil =>
    obtain ⟨inner, outer, cut, -⟩ := exposed
    simp at cut
  | cons i chain ih =>
    rw [List.findSome?_cons, find?_of_inserted inserted made]
    by_cases own : i = s
    · simp [own]
    · obtain ⟨unnamed, rest⟩ := (exposed_cons.mp exposed).resolve_left own
      simp [own, unnamed, ih rest]

/-- Along any other chain, and for any other name, the same is found as before. -/
theorem findSome?_of_not_exposed (hidden : ¬(other = name ∧ t.Exposed chain s name)) :
    chain.findSome? (t'.find? · other) = chain.findSome? (t.find? · other) := by
  induction chain with
  | nil => rfl
  | cons i chain ih =>
    rw [exposed_cons] at hidden
    rw [List.findSome?_cons, List.findSome?_cons, find?_of_inserted inserted made,
      if_neg fun both => hidden ⟨both.2, .inl both.1⟩]
    cases found : t.find? i other with
    | some => rfl
    | none =>
      have further : ¬(other = name ∧ t.Exposed chain s name) := by
        rintro ⟨rfl, exposed⟩
        exact hidden ⟨rfl, .inr ⟨found, exposed⟩⟩
      exact ih further

end Insert

/-! ### Histories -/

/-- What is done to a table. -/
inductive Operation where
  | push (parent : Option ScopeId)
  | insert (scope : ScopeId) (name : String) (symbol : Symbol)

def Operation.scopes : Operation → List ScopeId
  | .push parent => parent.toList
  | .insert scope _ _ => [scope]

/-- The table after an operation. A declaration that is refused leaves it as it was. -/
def apply (t : ScopeTable) : Operation → ScopeTable
  | .push parent => t.push parent
  | .insert scope name symbol => (t.insert scope name symbol).toOption.getD t

/-- The table after a number of operations, the latest of which is the first in the list. -/
def after : List Operation → ScopeTable
  | [] => {}
  | op :: earlier => (after earlier).apply op

/-- The scopes that were made. -/
def issued : List Operation → List ScopeId
  | [] => []
  | .push _ :: earlier => (after earlier).size :: issued earlier
  | .insert .. :: earlier => issued earlier

/-- Every operation is given scopes that were made before it. -/
def Proper : List Operation → Prop
  | [] => True
  | op :: earlier => (∀ s ∈ op.scopes, s ∈ issued earlier) ∧ Proper earlier

/-- What a name was first declared as in a scope. -/
def first? (s : ScopeId) (name : String) : List Operation → Option Symbol
  | [] => none
  | .push _ :: earlier => first? s name earlier
  | .insert scope other symbol :: earlier =>
    (first? s name earlier).or (if s = scope ∧ name = other then some symbol else none)

/-- A declaration changes the table or, if the scope has the name, does not. -/
theorem insert_cases (t : ScopeTable) (s : ScopeId) (name : String) (symbol : Symbol) :
    (∃ existing, t.find? s name = some existing ∧ t.insert s name symbol = .error existing ∧
      t.apply (.insert s name symbol) = t) ∨
    ∃ t', t.find? s name = none ∧ t.insert s name symbol = .ok t' ∧
      t.apply (.insert s name symbol) = t' := by
  rw [apply, insert]
  cases t.find? s name with
  | some existing => exact .inl ⟨existing, rfl, rfl, rfl⟩
  | none => exact .inr ⟨_, rfl, rfl, rfl⟩

/-- The numbers that were issued are those of the scopes there are. -/
theorem mem_issued {ops : List Operation} : s ∈ issued ops ↔ s < (after ops).size := by
  induction ops with
  | nil => simp [issued, after, size]
  | cons op earlier ih =>
    cases op with
    | push parent =>
      rw [issued, after, apply, size_push, List.mem_cons, ih, Nat.lt_succ_iff_lt_or_eq]
      exact or_comm
    | insert scope name symbol =>
      rw [issued, after, ih]
      obtain ⟨_, -, -, same⟩ | ⟨_, -, inserted, changed⟩ :=
        insert_cases (after earlier) scope name symbol
      · rw [same]
      · rw [changed, size_insert inserted]

/-! ### What every operation keeps -/

theorem parent?_of_size_le (beyond : t.size ≤ s) : t.parent? s = none := by
  rw [parent?, Array.getElem?_eq_none beyond]
  rfl

theorem find?_of_size_le (beyond : t.size ≤ s) : t.find? s name = none := by
  rw [find?, Array.getElem?_eq_none beyond]
  rfl

theorem Ordered.push (ordered : t.Ordered) {parent : Option ScopeId}
    (made : ∀ p ∈ parent, p < t.size) : (t.push parent).Ordered := by
  intro s p around
  rcases Nat.lt_trichotomy s t.size with old | rfl | beyond
  · rw [parent?_congr (push_below t parent old)] at around
    exact ordered s p around
  · rw [parent?_push] at around
    exact made p around
  · have size : (t.push parent).size = t.size + 1 := size_push t parent
    rw [parent?_of_size_le (size ▸ beyond)] at around
    cases around

theorem find?_of_push (t : ScopeTable) (parent : Option ScopeId) (s : ScopeId) (name : String) :
    (t.push parent).find? s name = t.find? s name := by
  rcases Nat.lt_trichotomy s t.size with old | rfl | beyond
  · exact find?_congr (push_below t parent old) name
  · rw [find?_push, find?_of_size_le (Nat.le_refl _)]
  · have size : (t.push parent).size = t.size + 1 := size_push t parent
    rw [find?_of_size_le (size ▸ beyond), find?_of_size_le (Nat.le_of_lt beyond)]

/-- The step: an operation on scopes that were made keeps the order. -/
theorem Ordered.apply (ordered : t.Ordered) {op : Operation} (made : ∀ s ∈ op.scopes, s < t.size) :
    (t.apply op).Ordered := by
  cases op with
  | push parent => exact ordered.push fun p mem => made p (Option.mem_toList.mpr mem)
  | insert scope name symbol =>
    obtain ⟨_, -, -, same⟩ | ⟨t', -, inserted, changed⟩ := insert_cases t scope name symbol
    · rw [same]
      exact ordered
    · rw [changed]
      intro s p around
      rw [parent?_insert inserted] at around
      exact ordered s p around

/-- The run: behind any history each scope stands inside of one with a smaller number. -/
theorem ordered_after {ops : List Operation} (proper : Proper ops) : (after ops).Ordered := by
  induction ops with
  | nil =>
    intro s p around
    rw [parent?_of_size_le (Nat.zero_le s)] at around
    cases around
  | cons op earlier ih => exact (ih proper.2).apply fun s mem => mem_issued.mp (proper.1 s mem)

/-- A scope has a name as what it was first declared as. -/
theorem find?_after {ops : List Operation} (proper : Proper ops) (s : ScopeId) (name : String) :
    (after ops).find? s name = first? s name ops := by
  induction ops with
  | nil => exact find?_of_size_le (Nat.zero_le s)
  | cons op earlier ih =>
    have before := ih proper.2
    cases op with
    | push parent => rw [after, apply, find?_of_push, before, first?]
    | insert scope other symbol =>
      have made : scope < (after earlier).size :=
        mem_issued.mp (proper.1 scope List.mem_cons_self)
      rw [after, first?, ← before]
      obtain ⟨existing, found, -, same⟩ | ⟨_, free, inserted, changed⟩ :=
        insert_cases (after earlier) scope other symbol
      · rw [same]
        by_cases own : s = scope ∧ name = other
        · rw [own.1, own.2, found]
          rfl
        · rw [if_neg own, Option.or_none]
      · rw [changed, find?_of_inserted inserted made]
        by_cases own : s = scope ∧ name = other
        · rw [if_pos own, if_pos own, own.1, own.2, free]
          rfl
        · rw [if_neg own, if_neg own, Option.or_none]

/-- A new scope is around none of the others. -/
theorem Ordered.resolve?_push (ordered : t.Ordered) {parent : Option ScopeId}
    (known : ∀ p ∈ parent, p < t.size) (made : u < t.size) (name : String) :
    (t.push parent).resolve? u name = t.resolve? u name := by
  obtain ⟨chain, way⟩ := ordered.exists_chain u
  have old : ∀ i ∈ chain, (t.push parent).parent? i = t.parent? i := by
    intro i mem
    exact parent?_congr (push_below t parent (Nat.lt_of_le_of_lt (way.le ordered i mem) made))
  rw [(way.congr old).resolve?_eq (ordered.push known), way.resolve?_eq ordered]
  simp only [find?_of_push]

/-! ### The whole -/

/-- The declaration of `name` in `s` as `symbol` makes `t'` out of `t`: what `other` stands for in a
scope `u` with the given chain, before and after. -/
structure Reaches (t t' : ScopeTable) (s : ScopeId) (name : String) (symbol : Symbol) (u : ScopeId)
    (chain : List ScopeId) (other : String) : Prop where
  outward : Chain t' u chain
  new : other = name ∧ t.Exposed chain s name → t'.resolve? u other = some symbol
  old : ¬(other = name ∧ t.Exposed chain s name) → t'.resolve? u other = t.resolve? u other
  /-- The change can be seen unless the name stood for an equal symbol, declared further out. -/
  changed : t'.resolve? u other ≠ t.resolve? u other ↔
    (other = name ∧ t.Exposed chain s name) ∧ t.resolve? u other ≠ some symbol

/-- The scopes of a table and its names are as they should be after these operations. -/
structure Scoped (ops : List Operation) : Prop where
  parents : ∀ s p : Nat, (after ops).parent? s = some p → p < s
  /-- The way outward from any scope ends, and a name is looked up along it. -/
  lookup : ∀ u, ∃ chain, Chain (after ops) u chain ∧
    (∀ second, Chain (after ops) u second → second = chain) ∧
    ∀ name, (after ops).resolve? u name = chain.findSome? ((after ops).find? · name)
  /-- A declaration is refused if the scope has the name, and names the first one. -/
  refused : ∀ s name symbol existing, (after ops).insert s name symbol = .error existing ↔
    first? s name ops = some existing
  unchanged : ∀ s name symbol existing, (after ops).insert s name symbol = .error existing →
    after (.insert s name symbol :: ops) = after ops
  accepted : ∀ s ∈ issued ops, ∀ name symbol t', (after ops).insert s name symbol = .ok t' →
    after (.insert s name symbol :: ops) = t' ∧
    ∀ u chain, Chain (after ops) u chain → ∀ other,
      Reaches (after ops) t' s name symbol u chain other
  pushed : ∀ parent : Option ScopeId, (∀ p ∈ parent, p ∈ issued ops) → ∀ u ∈ issued ops, ∀ name,
    (after (.push parent :: ops)).resolve? u name = (after ops).resolve? u name

/-- What a declaration changes for a scope whose way out is known. -/
theorem Ordered.reaches (ordered : t.Ordered) (made : s < t.size)
    (inserted : t.insert s name symbol = .ok t') (way : Chain t u chain) :
    Reaches t t' s name symbol u chain other := by
  have ordered' : t'.Ordered := by
    intro i p around
    rw [parent?_insert inserted] at around
    exact ordered i p around
  have way' : Chain t' u chain := way.congr fun i _ => parent?_insert inserted i
  have new : other = name ∧ t.Exposed chain s name → t'.resolve? u other = some symbol := by
    rintro ⟨rfl, exposed⟩
    rw [way'.resolve?_eq ordered']
    exact findSome?_of_exposed inserted made exposed
  have old : ¬(other = name ∧ t.Exposed chain s name) →
      t'.resolve? u other = t.resolve? u other := by
    intro hidden
    rw [way'.resolve?_eq ordered', way.resolve?_eq ordered]
    exact findSome?_of_not_exposed inserted made hidden
  refine ⟨way', new, old, ?_⟩
  by_cases found : other = name ∧ t.Exposed chain s name
  · rw [new found]
    exact ⟨fun changed => ⟨found, changed.symm⟩, fun both => both.2.symm⟩
  · exact ⟨fun changed => absurd (old found) changed, fun both => absurd both.1 found⟩

/-- A declaration is refused for the one that is there. -/
theorem insert_eq_error_iff {existing : Symbol} :
    t.insert s name symbol = .error existing ↔ t.find? s name = some existing := by
  rw [insert]
  cases t.find? s name <;> simp

/-- **Scopes over time.** After any operations that are given scopes made before them, the scope
around another has the smaller number, so looking up ends, at the nearest declaration outward. A
name that is declared again in its scope is refused with its first declaration, and nothing changes.
A new declaration is what its name stands for in the scopes it is exposed to and changes nothing
else, and a new scope changes nothing for the others. -/
theorem scoped_of_proper {ops : List Operation} (proper : Proper ops) : Scoped ops := by
  have ordered := ordered_after proper
  constructor
  case parents => exact ordered
  case lookup =>
    intro u
    obtain ⟨chain, way⟩ := ordered.exists_chain u
    exact ⟨chain, way, way.unique, way.resolve?_eq ordered⟩
  case refused =>
    intro s name symbol existing
    rw [insert_eq_error_iff, find?_after proper]
  case unchanged =>
    intro s name symbol existing refused
    rw [after, apply, refused]
    rfl
  case accepted =>
    intro s made name symbol t' inserted
    refine ⟨?_, fun u chain way other => ordered.reaches (mem_issued.mp made) inserted way⟩
    rw [after, apply, inserted]
    rfl
  case pushed =>
    intro parent known u made name
    exact ordered.resolve?_push (fun p mem => mem_issued.mp (known p mem)) (mem_issued.mp made) name

/-- Two scopes in one, the second of which has a name of its own that both have from outside. -/
theorem scoped_of_proper_shadowed :
    Proper [.insert 2 "x" ⟨.const, 0⟩, .insert 0 "x" ⟨.var, 0⟩, .push (some 0), .push (some 0),
      .push none] ∧
    Scoped [.insert 2 "x" ⟨.const, 0⟩, .insert 0 "x" ⟨.var, 0⟩, .push (some 0), .push (some 0),
      .push none] := by
  have proper : Proper [.insert 2 "x" ⟨.const, 0⟩, .insert 0 "x" ⟨.var, 0⟩, .push (some 0),
      .push (some 0), .push none] := by
    simp only [Proper, Operation.scopes, mem_issued]
    decide
  exact ⟨proper, scoped_of_proper proper⟩

/-- An inner variable hides an outer one of the same name. It is what the name stands for from then
on, but nothing that can be looked up changes: the two symbols are equal. -/
theorem not_changed_of_equal_symbol :
    let before : List Operation := [.insert 0 "x" ⟨.var, 0⟩, .push (some 0), .push none]
    ∃ t', Proper (.insert 1 "x" ⟨.var, 0⟩ :: before) ∧
      (after before).insert 1 "x" ⟨.var, 0⟩ = .ok t' ∧ Chain (after before) 1 [1, 0] ∧
      ¬(t'.resolve? 1 "x" ≠ (after before).resolve? 1 "x" ↔
        "x" = "x" ∧ (after before).Exposed [1, 0] 1 "x") := by
  intro before
  have proper : Proper before := by
    simp only [before, Proper, Operation.scopes, mem_issued]
    decide
  have made : 1 ∈ issued before := by
    rw [mem_issued]
    decide
  have way : Chain (after before) 1 [1, 0] := .inside rfl (.root rfl)
  have exposed : (after before).Exposed [1, 0] 1 "x" := ⟨[], [0], rfl, List.forall_mem_nil _⟩
  have was : (after before).resolve? 1 "x" = some ⟨.var, 0⟩ := by
    rw [way.resolve?_eq (ordered_after proper)]
    rfl
  obtain ⟨t', inserted⟩ : ∃ t', (after before).insert 1 "x" ⟨.var, 0⟩ = .ok t' := ⟨_, rfl⟩
  have reaches : Reaches (after before) t' 1 "x" ⟨.var, 0⟩ 1 [1, 0] "x" :=
    (ordered_after proper).reaches (mem_issued.mp made) inserted way
  refine ⟨t', ⟨List.forall_mem_singleton.mpr made, proper⟩, inserted, way, fun changes => ?_⟩
  exact changes.mpr ⟨rfl, exposed⟩ ((reaches.new ⟨rfl, exposed⟩).trans was.symm)

end PlZero.ScopeTable
