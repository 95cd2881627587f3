import PlZero.Proofs.Parser.Item

/-!
A parser on its way through one text while a derivation of another is read beside it.

The two texts have the tokens `shared` in common and go on as `actual` and as `imagined`. As long as
the parser stands on a shared token it can be `Together` with a place in the imagined text; behind
the last of them it is `Past`, and then nothing brings it back (`Shrinks`). `Keeps` says that a
reader goes along with a derivation of the imagined text: it finds the tree of the derivation,
unless it gets past the shared tokens first. It cannot fail before that.
-/

namespace PlZero.Parsing

variable {α β : Type}

/-! ### No token comes back -/

/-- Whatever the reader does, what is ahead then was ahead before. -/
class Shrinks (r : Parsing α) : Prop where
  runs (p : Parser) : p.Settled →
    Runs r p (fun _ q => q.Settled ∧ q.pending <:+ p.pending)
      (fun _ q => q.Settled ∧ q.pending <:+ p.pending)

section

variable {r : Parsing α} {f : α → Parsing β} {yes no : Parsing α} {condition : Prop}

instance shrinks_pure (a : α) : Shrinks (pure a : Parsing α) :=
  ⟨fun _ settled => ⟨settled, List.suffix_refl _⟩⟩

/-- Tokens are taken off the front, by one reader after the other. -/
theorem Shrinks.bind (first : Shrinks r) (next : ∀ a, Shrinks (f a)) : Shrinks (r >>= f) := by
  refine ⟨fun p settled => runs_bind.mpr ((first.runs p settled).mono ?_ fun _ _ h => h)⟩
  rintro a q ⟨settledHere, suffix⟩
  refine ((next a).runs q settledHere).mono ?_ ?_
  · rintro b s ⟨settledThen, suffix'⟩
    exact ⟨settledThen, suffix'.trans suffix⟩
  · rintro failure s ⟨settledThen, suffix'⟩
    exact ⟨settledThen, suffix'.trans suffix⟩

instance shrinks_bind [first : Shrinks r] [next : ∀ a, Shrinks (f a)] : Shrinks (r >>= f) :=
  first.bind next

instance shrinks_ite [Decidable condition] [Shrinks yes] [Shrinks no] :
    Shrinks (if condition then yes else no) := by
  split <;> infer_instance

instance shrinks_currentKind : Shrinks currentKind :=
  ⟨fun _ settled => ⟨settled, List.suffix_refl _⟩⟩

instance shrinks_currentLine : Shrinks currentLine :=
  ⟨fun _ settled => ⟨settled, List.suffix_refl _⟩⟩

instance shrinks_sees (kind : Token.Kind) : Shrinks (sees kind) :=
  ⟨fun _ settled => ⟨settled, List.suffix_refl _⟩⟩

instance shrinks_skip : Shrinks skip := by
  refine ⟨fun p settled => ⟨p.settled_advance, ?_⟩⟩
  by_cases atEnd : p.current.kind = .endOfText
  · rw [settled atEnd]
  · rw [Parser.pending_advance atEnd]
    exact List.suffix_cons _ _

/-- A rejected token is still ahead, and no other has come or gone. -/
theorem Rejects.pending_eq {p q : Parser} {failure : Failure} (h : Rejects p failure q) :
    q.pending = p.pending := by
  obtain ⟨fault, same⟩ := h
  unfold reject at same
  split at same <;> cases same <;> rfl

theorem Rejects.settled {p q : Parser} {failure : Failure} (h : Rejects p failure q)
    (settled : p.Settled) : q.Settled := by
  obtain ⟨fault, same⟩ := h
  unfold reject at same
  split at same
  · cases same
    exact settled
  · cases same
    intro atEnd
    have stays : Parser.mk p.scanner.next.2 p.scanner.next.1 p.diagnostics = p := settled atEnd
    rw [Parser.mk.injEq] at stays ⊢
    exact ⟨stays.1, stays.2.1, rfl⟩

instance shrinks_reject (fault : GrammarFault) : Shrinks (reject fault : Parsing α) := by
  refine ⟨fun p settled => runs_reject fun failure q rejects => ⟨rejects.settled settled, ?_⟩⟩
  rw [rejects.pending_eq]

instance shrinks_expect (kind : Token.Kind) (fault : GrammarFault) : Shrinks (expect kind fault) := by
  unfold expect
  infer_instance

instance shrinks_expectName (fault : GrammarFault) : Shrinks (expectName fault) := by
  refine shrinks_currentKind.bind fun kind => ?_
  split <;> infer_instance

instance shrinks_operator? (sort : BinaryOp → Bool) : Shrinks (operator? sort) := by
  refine shrinks_currentKind.bind fun kind => ?_
  split <;> infer_instance

end

/-- The readers of expressions, which call each other. -/
theorem shrinks_expressions (n : Nat) :
    Shrinks (expression n) ∧ (∀ line lhs, Shrinks (moreTerms n line lhs)) ∧ Shrinks (term n) ∧
      (∀ line lhs, Shrinks (moreFactors n line lhs)) ∧ Shrinks (factor n) ∧
      Shrinks (arguments n) := by
  induction n with
  | zero =>
    exact ⟨shrinks_reject _, fun _ _ => shrinks_reject _, shrinks_reject _,
      fun _ _ => shrinks_reject _, shrinks_reject _, shrinks_reject _⟩
  | succ n ih =>
    obtain ⟨_, _, _, _, _, _⟩ := ih
    simp only [expression, moreTerms, term, moreFactors, factor, arguments]
    refine ⟨inferInstance, fun line lhs => ?_, inferInstance, fun line lhs => ?_, ?_, inferInstance⟩
    · refine (shrinks_operator? _).bind fun op => ?_
      cases op <;> infer_instance
    · refine (shrinks_operator? _).bind fun op => ?_
      cases op <;> infer_instance
    · refine shrinks_currentLine.bind fun line => shrinks_currentKind.bind fun kind => ?_
      split <;> infer_instance

instance shrinks_expression (n : Nat) : Shrinks (expression n) := (shrinks_expressions n).1

instance shrinks_moreTerms (n line : Nat) (lhs : Expr) : Shrinks (moreTerms n line lhs) :=
  (shrinks_expressions n).2.1 line lhs

instance shrinks_term (n : Nat) : Shrinks (term n) := (shrinks_expressions n).2.2.1

instance shrinks_moreFactors (n line : Nat) (lhs : Expr) : Shrinks (moreFactors n line lhs) :=
  (shrinks_expressions n).2.2.2.1 line lhs

instance shrinks_factor (n : Nat) : Shrinks (factor n) := (shrinks_expressions n).2.2.2.2.1

instance shrinks_arguments (n : Nat) : Shrinks (arguments n) := (shrinks_expressions n).2.2.2.2.2

/-- What a condition has behind its left side. -/
theorem shrinks_comparison (n line : Nat) (lhs : Expr) : Shrinks (do
    match ← operator? BinaryOp.isRelational with
    | none => reject .comparisonRequired
    | some op =>
      let rhs ← expression n
      return Expr.binary { line } op lhs rhs) := by
  refine (shrinks_operator? _).bind fun op => ?_
  cases op <;> infer_instance

instance shrinks_condition (n : Nat) : Shrinks (condition n) := by
  have := shrinks_comparison n
  unfold condition
  infer_instance

instance shrinks_asmTokens (n : Nat) : Shrinks (asmTokens n) := by
  induction n with
  | zero => exact shrinks_reject _
  | succ n ih =>
    rw [asmTokens]
    refine shrinks_currentKind.bind fun kind => ?_
    split <;> infer_instance

/-- The readers of statements, which call each other. -/
theorem shrinks_allStatements (n : Nat) :
    Shrinks (statement n) ∧ Shrinks (elsePart n) ∧ Shrinks (statements n) := by
  induction n with
  | zero =>
    exact ⟨shrinks_reject _, shrinks_reject _, shrinks_reject _⟩
  | succ n ih =>
    obtain ⟨_, _, _⟩ := ih
    simp only [statement, elsePart, statements]
    refine ⟨?_, inferInstance, inferInstance⟩
    refine shrinks_currentLine.bind fun line => shrinks_currentKind.bind fun kind => ?_
    split <;> infer_instance

instance shrinks_statement (n : Nat) : Shrinks (statement n) := (shrinks_allStatements n).1

instance shrinks_elsePart (n : Nat) : Shrinks (elsePart n) := (shrinks_allStatements n).2.1

instance shrinks_statements (n : Nat) : Shrinks (statements n) := (shrinks_allStatements n).2.2

instance shrinks_initializer (n : Nat) (isConstant : Bool) : Shrinks (initializer n isConstant) := by
  unfold initializer
  infer_instance

instance shrinks_definitions (n : Nat) (isConstant : Bool) : Shrinks (definitions n isConstant) := by
  induction n with
  | zero => exact shrinks_reject _
  | succ n ih =>
    rw [definitions]
    infer_instance

instance shrinks_declarations? (n : Nat) (keyword : Keyword) (isConstant : Bool) :
    Shrinks (declarations? n keyword isConstant) := by
  unfold declarations?
  infer_instance

instance shrinks_parameters (n : Nat) : Shrinks (parameters n) := by
  induction n with
  | zero => exact shrinks_reject _
  | succ n ih =>
    rw [parameters]
    infer_instance

instance shrinks_signature (n : Nat) (keyword : Keyword) : Shrinks (signature n keyword) := by
  unfold signature
  split <;> infer_instance

/-- The readers of blocks, which call each other. -/
theorem shrinks_blocks (n : Nat) :
    Shrinks (block n) ∧ Shrinks (routines n) ∧ ∀ keyword, Shrinks (routine n keyword) := by
  induction n with
  | zero =>
    exact ⟨shrinks_reject _, shrinks_reject _, fun _ => shrinks_reject _⟩
  | succ n ih =>
    obtain ⟨_, _, _⟩ := ih
    simp only [block, routines, routine]
    refine ⟨inferInstance, ?_, inferInstance⟩
    refine shrinks_currentKind.bind fun kind => ?_
    split <;> infer_instance

instance shrinks_block (n : Nat) : Shrinks (block n) := (shrinks_blocks n).1

instance shrinks_routines (n : Nat) : Shrinks (routines n) := (shrinks_blocks n).2.1

instance shrinks_routine (n : Nat) (keyword : Keyword) : Shrinks (routine n keyword) :=
  (shrinks_blocks n).2.2 keyword

end PlZero.Parsing

namespace PlZero.Grammar

open Token (Kind)
open Parsing

/-! ### Two texts -/

section

variable {actual imagined : List Token} {p q : Parser} {t : Token}
  {tokens after mid rest : List Token} {α β : Type}

/-- The parser stands on a shared token, and `tokens` is what the imagined text has from there on.
-/
def Together (actual imagined : List Token) (p : Parser) (tokens : List Token) : Prop :=
  p.Settled ∧ ∃ shared ≠ [], p.pending = shared ++ actual ∧ tokens = shared ++ imagined

/-- The parser has left the shared tokens behind. -/
def Past (actual : List Token) (p : Parser) : Prop := p.Settled ∧ p.pending <:+ actual

theorem Together.tokens_eq (h : Together actual imagined p tokens) :
    ∃ later, tokens = p.current :: later := by
  obtain ⟨_, shared, nonempty, ahead, rfl⟩ := h
  obtain ⟨later, same⟩ := p.pending_eq_cons
  cases shared with
  | nil => exact absurd rfl nonempty
  | cons t shared =>
    rw [same] at ahead
    cases ahead
    exact ⟨shared ++ imagined, rfl⟩

theorem Together.current_eq (h : Together actual imagined p (t :: after)) : p.current = t := by
  obtain ⟨later, same⟩ := h.tokens_eq
  exact (List.cons.inj same).1.symm

theorem Together.line_eq (h : Together actual imagined p tokens) :
    lineOf tokens = p.current.line := by
  obtain ⟨later, rfl⟩ := h.tokens_eq
  rfl

/-- What is known of the next imagined token is known of the token the parser stands on. -/
theorem Together.current_of_ahead {property : Kind → Prop} (h : Together actual imagined p tokens)
    (ahead : Ahead property tokens) : property p.current.kind := by
  obtain ⟨later, rfl⟩ := h.tokens_eq
  exact ahead_cons.mp ahead

/-- What is ahead differs by what the two texts end with. -/
theorem Together.length_eq (h : Together actual imagined p tokens) :
    p.pending.length + imagined.length = tokens.length + actual.length := by
  obtain ⟨_, shared, _, ahead, rfl⟩ := h
  rw [ahead, List.length_append, List.length_append]
  omega

/-- One step keeps the parser together with the imagined text, or takes it past the shared tokens.
-/
theorem Together.advance (h : Together actual imagined p (t :: after))
    (proper : t.kind.isProper = true) :
    Together actual imagined p.advance after ∨ Past actual p.advance := by
  have here := h.current_eq
  obtain ⟨_, shared, nonempty, ahead, same⟩ := h
  rw [← here] at proper
  rw [pending_of_proper proper] at ahead
  cases shared with
  | nil => exact absurd rfl nonempty
  | cons u shared =>
    rw [List.cons_append] at ahead same
    obtain ⟨_, aheadThen⟩ := List.cons.inj ahead
    obtain ⟨_, rfl⟩ := List.cons.inj same
    by_cases last : shared = []
    · right
      refine ⟨p.settled_advance, ?_⟩
      rw [aheadThen, last]
      exact List.suffix_refl _
    · exact Or.inl ⟨p.settled_advance, shared, last, aheadThen, rfl⟩

/-! ### Going along with a derivation -/

/-- Started at `p`, the reader finds `a` and comes to where the imagined text has `rest`, unless it
gets past the shared tokens. -/
def Keeps (actual imagined : List Token) (r : Parsing α) (p : Parser) (a : α) (rest : List Token) :
    Prop :=
  Runs r p (fun found q => found = a ∧ Together actual imagined q rest ∨ Past actual q)
    (fun _ q => Past actual q)

variable {r : Parsing α} {f : α → Parsing β} {a : α} {b : β}

/-- Nothing is read. -/
theorem keeps_pure (h : Together actual imagined p rest) :
    Keeps actual imagined (pure a) p a rest :=
  Or.inl ⟨rfl, h⟩

/-- Past the shared tokens a reader stays past them. -/
theorem Past.runs [shrinks : Shrinks r] (h : Past actual p) :
    Runs r p (fun found q => found = a ∧ Together actual imagined q rest ∨ Past actual q)
      (fun _ q => Past actual q) := by
  obtain ⟨settled, suffix⟩ := h
  refine (shrinks.runs p settled).mono ?_ ?_
  · rintro _ q ⟨settledThen, suffix'⟩
    exact Or.inr ⟨settledThen, suffix'.trans suffix⟩
  · rintro _ q ⟨settledThen, suffix'⟩
    exact ⟨settledThen, suffix'.trans suffix⟩

/-- Reader after reader. If the first leaves the shared tokens behind, the second cannot bring them
back. -/
theorem Keeps.bind [∀ a, Shrinks (f a)] (first : Keeps actual imagined r p a mid)
    (next : ∀ q, Together actual imagined q mid → Keeps actual imagined (f a) q b rest) :
    Keeps actual imagined (r >>= f) p b rest := by
  refine runs_bind.mpr (first.mono ?_ fun _ _ past => past)
  rintro found q (⟨rfl, together⟩ | past)
  · exact next q together
  · exact past.runs

theorem keeps_currentLine {f : Nat → Parsing β} :
    Keeps actual imagined (currentLine >>= f) p b rest ↔
      Keeps actual imagined (f p.current.line) p b rest := Iff.rfl

theorem keeps_currentKind {f : Kind → Parsing β} :
    Keeps actual imagined (currentKind >>= f) p b rest ↔
      Keeps actual imagined (f p.current.kind) p b rest := Iff.rfl

/-- A branch is taken if its token is ahead. -/
theorem keeps_if_seen {kind : Kind} {yes no : Parsing α} (seen : p.current.kind = kind) :
    Keeps actual imagined (do if ← sees kind then yes else no) p a rest ↔
      Keeps actual imagined yes p a rest := by
  simp only [Keeps, runs_bind, runs_sees, seen, decide_true, if_true]

theorem keeps_if_unseen {kind : Kind} {yes no : Parsing α} (unseen : p.current.kind ≠ kind) :
    Keeps actual imagined (do if ← sees kind then yes else no) p a rest ↔
      Keeps actual imagined no p a rest := by
  simp only [Keeps, runs_bind, runs_sees, unseen, decide_false, Bool.false_eq_true, if_false]

/-- No operator of the sort is ahead, so none is taken. -/
theorem keeps_operator?_absent {sort : BinaryOp → Bool} {f : Option BinaryOp → Parsing β}
    (absent : ∀ op, p.current.kind = .operator (.binary op) → sort op = false)
    (next : Keeps actual imagined (f none) p b rest) :
    Keeps actual imagined (operator? sort >>= f) p b rest := by
  refine runs_bind.mpr (runs_operator? (fun op fits isSort => ?_) fun _ => next)
  rw [absent op fits] at isSort
  exact absurd isSort Bool.false_ne_true

/-! A reader that takes a token goes on from the next. -/

/-- A token is taken on both sides. -/
theorem keeps_skip (h : Together actual imagined p (t :: after))
    (proper : t.kind.isProper = true) : Keeps actual imagined skip p () after := by
  rcases h.advance proper with together | past
  · exact Or.inl ⟨rfl, together⟩
  · exact Or.inr past

/-- The expected token is there. -/
theorem keeps_expect {kind : Kind} {fault : GrammarFault}
    (h : Together actual imagined p (t :: after)) (fits : t.kind = kind)
    (proper : kind.isProper = true) : Keeps actual imagined (expect kind fault) p () after := by
  rw [← h.current_eq] at fits
  refine (keeps_if_seen fits).mpr (keeps_skip h ?_)
  rw [← h.current_eq, fits, proper]

theorem keeps_expectName {text : String} {fault : GrammarFault}
    (h : Together actual imagined p (t :: after)) (fits : t.kind = .name text) :
    Keeps actual imagined (expectName fault) p text after := by
  have here : p.current.kind = .name text := by rw [h.current_eq, fits]
  refine keeps_currentKind.mpr ?_
  rw [here]
  refine (keeps_skip h (isProper_of_eq fits rfl)).bind fun q together => keeps_pure together

/-- An operator of the sort is ahead and is taken. -/
theorem keeps_operator?_present {sort : BinaryOp → Bool} {f : Option BinaryOp → Parsing β}
    {op : BinaryOp} [Shrinks (f (some op))] (h : Together actual imagined p (t :: after))
    (fits : t.kind = .operator (.binary op)) (isSort : sort op = true)
    (next : ∀ q, Together actual imagined q after → Keeps actual imagined (f (some op)) q b rest) :
    Keeps actual imagined (operator? sort >>= f) p b rest := by
  have here : p.current.kind = .operator (.binary op) := by rw [h.current_eq, fits]
  refine runs_bind.mpr (runs_operator? (fun op' fits' _ => ?_) fun absent => ?_)
  · rw [here] at fits'
    cases fits'
    rcases h.advance (isProper_of_eq fits rfl) with together | past
    · exact next _ together
    · exact past.runs
  · rw [absent op here] at isSort
    exact absurd isSort Bool.false_ne_true

end

end PlZero.Grammar
