import PlZero.Tree.Basic

/-!
Equality of trees is decidable. Trees hold lists of trees, so the comparison is written out: one
Boolean function per kind of node and per kind of list, and for each the statement that it answers
`true` exactly on equal trees.
-/

namespace PlZero

/-! ### Expressions -/

mutual

/-- Are two expressions equal, annotations included? -/
def Expr.same : Expr → Expr → Bool
  | .odd i a, .odd j b => i == j && a.same b
  | .binary i p a c, .binary j q b d => i == j && p == q && a.same b && c.same d
  | .call i f as, .call j g bs => i == j && f == g && Expr.sameAll as bs
  | .name i r, .name j s => i == j && r == s
  | .number i m, .number j n => i == j && m == n
  | _, _ => false

def Expr.sameAll : List Expr → List Expr → Bool
  | [], [] => true
  | a :: as, b :: bs => a.same b && Expr.sameAll as bs
  | _, _ => false

end

mutual

/-- Comparison of expressions decides equality, by induction on both. -/
theorem Expr.same_iff (a b : Expr) : a.same b = true ↔ a = b := by
  match a with
  | .odd i a => cases b <;> simp [Expr.same, Expr.same_iff a]
  | .binary i p a c =>
    cases b <;> simp [Expr.same, Expr.same_iff a, Expr.same_iff c, and_assoc]
  | .call i f as => cases b <;> simp [Expr.same, Expr.sameAll_iff as, and_assoc]
  | .name i r => cases b <;> simp [Expr.same]
  | .number i m => cases b <;> simp [Expr.same]

theorem Expr.sameAll_iff (as bs : List Expr) : Expr.sameAll as bs = true ↔ as = bs := by
  match as with
  | [] => cases bs <;> simp [Expr.sameAll]
  | a :: as => cases bs <;> simp [Expr.sameAll, Expr.same_iff a, Expr.sameAll_iff as]

end

instance : DecidableEq Expr := fun a b => decidable_of_iff _ (Expr.same_iff a b)

/-! ### Statements -/

mutual

def Stmt.same : Stmt → Stmt → Bool
  | .assign i r a, .assign j s b => i == j && r == s && a == b
  | .sequence i as, .sequence j bs => i == j && Stmt.sameAll as bs
  | .ifThen i a t e, .ifThen j b u f =>
    i == j && a == b && Stmt.sameOption t u && Stmt.sameOption e f
  | .whileDo i a t, .whileDo j b u => i == j && a == b && Stmt.sameOption t u
  | .asm i x, .asm j y => i == j && x == y
  | .control i x, .control j y => i == j && x == y
  | .call i f as, .call j g bs => i == j && f == g && as == bs
  | .name i r, .name j s => i == j && r == s
  | _, _ => false

def Stmt.sameAll : List Stmt → List Stmt → Bool
  | [], [] => true
  | a :: as, b :: bs => a.same b && Stmt.sameAll as bs
  | _, _ => false

def Stmt.sameOption : Option Stmt → Option Stmt → Bool
  | none, none => true
  | some a, some b => a.same b
  | _, _ => false

end

mutual

/-- Comparison of statements decides equality. -/
theorem Stmt.same_iff (a b : Stmt) : a.same b = true ↔ a = b := by
  match a with
  | .assign i r a => cases b <;> simp [Stmt.same, and_assoc]
  | .sequence i as => cases b <;> simp [Stmt.same, Stmt.sameAll_iff as]
  | .ifThen i a t e =>
    cases b <;> simp [Stmt.same, Stmt.sameOption_iff t, Stmt.sameOption_iff e, and_assoc]
  | .whileDo i a t => cases b <;> simp [Stmt.same, Stmt.sameOption_iff t, and_assoc]
  | .asm i x => cases b <;> simp [Stmt.same]
  | .control i x => cases b <;> simp [Stmt.same]
  | .call i f as => cases b <;> simp [Stmt.same, and_assoc]
  | .name i r => cases b <;> simp [Stmt.same]

theorem Stmt.sameAll_iff (as bs : List Stmt) : Stmt.sameAll as bs = true ↔ as = bs := by
  match as with
  | [] => cases bs <;> simp [Stmt.sameAll]
  | a :: as => cases bs <;> simp [Stmt.sameAll, Stmt.same_iff a, Stmt.sameAll_iff as]

theorem Stmt.sameOption_iff (a b : Option Stmt) : Stmt.sameOption a b = true ↔ a = b := by
  match a with
  | none => cases b <;> simp [Stmt.sameOption]
  | some a => cases b <;> simp [Stmt.sameOption, Stmt.same_iff a]

end

instance : DecidableEq Stmt := fun a b => decidable_of_iff _ (Stmt.same_iff a b)

/-! ### Blocks -/

deriving instance DecidableEq for Definition, Decls

mutual

/-- Are two blocks equal, annotations included? -/
def Block.same : Block → Block → Bool
  | ⟨i, c, v, rs, b, s⟩, ⟨j, d, w, qs, e, t⟩ =>
    i == j && c == d && v == w && Block.sameRoutines rs qs && b == e && s == t

def Routine.same : Routine → Routine → Bool
  | ⟨i, m, k, b, s⟩, ⟨j, n, l, c, t⟩ => i == j && m == n && k == l && b.same c && s == t

def Block.sameRoutines : List Routine → List Routine → Bool
  | [], [] => true
  | a :: as, b :: bs => a.same b && Block.sameRoutines as bs
  | _, _ => false

end

mutual

/-- Comparison of blocks decides equality, by induction over blocks and routines. -/
theorem Block.same_iff (a b : Block) : a.same b = true ↔ a = b := by
  match a, b with
  | ⟨i, c, v, rs, b, s⟩, ⟨j, d, w, qs, e, t⟩ =>
    simp [Block.same, Block.sameRoutines_iff rs, and_assoc]

theorem Routine.same_iff (a b : Routine) : a.same b = true ↔ a = b := by
  match a, b with
  | ⟨i, m, k, b, s⟩, ⟨j, n, l, c, t⟩ => simp [Routine.same, Block.same_iff b, and_assoc]

theorem Block.sameRoutines_iff (as bs : List Routine) :
    Block.sameRoutines as bs = true ↔ as = bs := by
  match as with
  | [] => cases bs <;> simp [Block.sameRoutines]
  | a :: as =>
    cases bs <;> simp [Block.sameRoutines, Routine.same_iff a, Block.sameRoutines_iff as]

end

instance : DecidableEq Block := fun a b => decidable_of_iff _ (Block.same_iff a b)

instance : DecidableEq Routine := fun a b => decidable_of_iff _ (Routine.same_iff a b)

end PlZero
