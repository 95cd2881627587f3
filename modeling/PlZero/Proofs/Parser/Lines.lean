import PlZero.Proofs.Parser.Lockstep
import PlZero.Proofs.Tree.Relabel

/-!
Two texts with the same tokens on different lines.

Two parsers are `Alike` if the same kinds of tokens are ahead of them. `Matches` sets two readers
side by side, each at its own parser: both find a value and are alike again, or both stop for the
same reason. What they find is compared through a view that leaves out the lines.

The bounds on nesting differ with the texts. A bound that is large enough for the tokens ahead
(`Suffice`) is never met, so it makes no difference how large it is. A reader of rank `k` may still
be in need of `k` steps less than eight for each token ahead: so far its callers have come on the
same token.

Main statement: `parse_alike`.
-/

namespace PlZero

def Failure.unlined : Failure → Failure
  | .grammar _ message => .grammar 0 message
  | .lexical _ message => .lexical 0 message
  | failure => failure

namespace Parsing

variable {α β γ δ : Type} {p p' q q' : Parser}

/-! ### Parsers with the same tokens ahead -/

/-- The same kinds of tokens are ahead of the two parsers. -/
structure Alike (p p' : Parser) : Prop where
  settled : p.Settled
  settled' : p'.Settled
  kinds : p.pending.map (·.kind) = p'.pending.map (·.kind)

theorem Alike.current_kind (alike : Alike p p') : p'.current.kind = p.current.kind := by
  obtain ⟨later, ahead⟩ := p.pending_eq_cons
  obtain ⟨later', ahead'⟩ := p'.pending_eq_cons
  have same := alike.kinds
  rw [ahead, ahead'] at same
  exact (List.cons.inj same).1.symm

/-- Parsers with the same tokens ahead go on with the same tokens ahead. -/
theorem Alike.advance (alike : Alike p p') : Alike p.advance p'.advance := by
  by_cases atEnd : p.current.kind = .endOfText
  · rw [alike.settled atEnd, alike.settled' (alike.current_kind.trans atEnd)]
    exact alike
  · have same := alike.kinds
    rw [Parser.pending_advance atEnd,
      Parser.pending_advance (alike.current_kind.trans_ne atEnd)] at same
    exact ⟨p.settled_advance, p'.settled_advance, (List.cons.inj same).2⟩

/-- A token is taken, so fewer are ahead. -/
theorem length_advance (more : p.current.kind ≠ .endOfText) :
    p.advance.pending.length < p.pending.length := by
  rw [Parser.pending_advance more, List.length_cons]
  exact Nat.lt_succ_self _

theorem length_advance_le (settled : p.Settled) :
    p.advance.pending.length ≤ p.pending.length := by
  by_cases atEnd : p.current.kind = .endOfText
  · rw [settled atEnd]
  · exact Nat.le_of_lt (length_advance atEnd)

/-! ### Two readers side by side -/

/-- Started at `p` and at `p'`, the readers find values of the same view and come to parsers that
are alike, with fewer than `limit` tokens ahead; or they stop for the same reason. -/
def Matches (view : α → γ) (limit : Nat) (r r' : Parsing α) (p p' : Parser) : Prop :=
  match r p, r' p' with
  | .ok a q, .ok a' q' => view a = view a' ∧ Alike q q' ∧ q.pending.length < limit
  | .error failure _, .error failure' _ => failure.unlined = failure'.unlined
  | _, _ => False

section

variable {view : α → γ} {view' : β → δ} {limit limit' : Nat} {r r' : Parsing α}
  {f f' : α → Parsing β} {kind : Token.Kind} {fault : GrammarFault}

/-- Reader after reader. The first may have taken tokens, which is what bounds the second. -/
theorem Matches.bind (first : Matches view limit r r' p p')
    (next : ∀ a a' q q', view a = view a' → Alike q q' → q.pending.length < limit →
      Matches view' limit' (f a) (f' a') q q') :
    Matches view' limit' (r >>= f) (r' >>= f') p p' := by
  unfold Matches at first ⊢
  change match EStateM.bind r f p, EStateM.bind r' f' p' with
    | .ok a q, .ok a' q' => view' a = view' a' ∧ Alike q q' ∧ q.pending.length < limit'
    | .error failure _, .error failure' _ => failure.unlined = failure'.unlined
    | _, _ => False
  unfold EStateM.bind
  cases run : r p with
  | ok a q =>
    cases run' : r' p' with
    | ok a' q' =>
      rw [run, run'] at first
      obtain ⟨same, alike, bound⟩ := first
      exact next a a' q q' same alike bound
    | error failure' q' =>
      rw [run, run'] at first
      exact first.elim
  | error failure q =>
    cases run' : r' p' with
    | ok a' q' =>
      rw [run, run'] at first
      exact first.elim
    | error failure' q' =>
      rw [run, run'] at first
      exact first

theorem matches_pure {a a' : α} (alike : Alike p p') (same : view a = view a')
    (bound : p.pending.length < limit) : Matches view limit (pure a) (pure a') p p' :=
  ⟨same, alike, bound⟩

/-- Both reject, with the same fault and on lines of their own. -/
theorem matches_reject (alike : Alike p p') :
    Matches view limit (reject fault) (reject fault) p p' := by
  unfold Matches reject
  rw [alike.current_kind]
  cases p.current.kind <;> rfl

theorem matches_get {f f' : Parser → Parsing β} (next : Matches view' limit' (f p) (f' p') p p') :
    Matches view' limit' (get >>= f) (get >>= f') p p' := next

/-- The line may be looked at, and goes into the tree. Nothing else may depend on it. -/
theorem matches_currentLine {f f' : Nat → Parsing β}
    (next : ∀ line line', Matches view' limit' (f line) (f' line') p p') :
    Matches view' limit' (currentLine >>= f) (currentLine >>= f') p p' := next _ _

/-- The kind of the current token is the same for both. -/
theorem matches_currentKind {f f' : Token.Kind → Parsing β} (alike : Alike p p')
    (next : Matches view' limit' (f p.current.kind) (f' p.current.kind) p p') :
    Matches view' limit' (currentKind >>= f) (currentKind >>= f') p p' := by
  change Matches view' limit' (f p.current.kind) (f' p'.current.kind) p p'
  rwa [alike.current_kind]

/-- Both take the same branch. -/
theorem matches_if_sees {yes no yes' no' : Parsing α} (alike : Alike p p')
    (seen : p.current.kind = kind → Matches view limit yes yes' p p')
    (unseen : Matches view limit no no' p p') :
    Matches view limit (do if ← sees kind then yes else no) (do if ← sees kind then yes' else no')
      p p' := by
  change Matches view limit (if decide (p.current.kind = kind) = true then yes else no)
    (if decide (p'.current.kind = kind) = true then yes' else no') p p'
  rw [alike.current_kind]
  by_cases fits : p.current.kind = kind
  · simpa only [fits, decide_true, if_true] using seen fits
  · simpa only [fits, decide_false, Bool.false_eq_true, if_false] using unseen

theorem matches_skip (alike : Alike p p') :
    Matches id (p.pending.length + 1) skip skip p p' :=
  ⟨rfl, alike.advance, Nat.lt_succ_of_le (length_advance_le alike.settled)⟩

/-- A token is taken by both. -/
theorem matches_take (alike : Alike p p') (more : p.current.kind ≠ .endOfText) :
    Matches id p.pending.length skip skip p p' :=
  ⟨rfl, alike.advance, length_advance more⟩

/-- Both find the expected token, or both reject. -/
theorem matches_expect (alike : Alike p p') (proper : kind ≠ .endOfText) :
    Matches id p.pending.length (expect kind fault) (expect kind fault) p p' := by
  refine matches_if_sees alike (fun fits => ?_) (matches_reject alike)
  exact matches_take alike (fits.trans_ne proper)

theorem matches_expectName (alike : Alike p p') :
    Matches id p.pending.length (expectName fault) (expectName fault) p p' := by
  refine matches_currentKind alike ?_
  cases atKind : p.current.kind with
  | name text =>
    refine (matches_take alike (by simp [atKind])).bind fun _ _ q q' _ alike bound => ?_
    exact matches_pure alike rfl bound
  | _ => exact matches_reject alike

/-- An operator that is there is taken. -/
theorem matches_operator? {sort : BinaryOp → Bool} {f f' : Option BinaryOp → Parsing β}
    (alike : Alike p p') (absent : Matches view' limit' (f none) (f' none) p p')
    (present : ∀ op q q', Alike q q' → q.pending.length < p.pending.length →
      Matches view' limit' (f (some op)) (f' (some op)) q q') :
    Matches view' limit' (operator? sort >>= f) (operator? sort >>= f') p p' := by
  rw [operator?, bind_assoc, bind_assoc]
  refine matches_currentKind alike ?_
  cases atKind : p.current.kind with
  | operator op =>
    cases op with
    | assign => exact absent
    | binary op =>
      by_cases isSort : sort op = true
      · simp only [isSort, if_true]
        exact present op _ _ alike.advance (length_advance (by simp [atKind]))
      · simp only [isSort, Bool.false_eq_true, if_false]
        exact absent
  | _ => exact absent

end

/-! ### Bounds that are large enough -/

/-- The bounds `n` and `n'` are large enough at `p` for a reader of the given rank. -/
structure Suffice (rank n n' : Nat) (p : Parser) : Prop where
  left : 8 * p.pending.length ≤ n + rank
  right : 8 * p.pending.length ≤ n' + rank

section

variable {rank n n' : Nat}

/-- A bound of zero is never large enough. -/
theorem Suffice.false_of_zero (suffice : Suffice rank n n' p) (low : rank < 8)
    (zero : n = 0 ∨ n' = 0) : False := by
  have nonempty := List.length_pos_iff.mpr p.pending_ne_nil
  obtain ⟨left, right⟩ := suffice
  omega

/-- One step down on the same token. -/
theorem Suffice.here (suffice : Suffice rank (n + 1) (n' + 1) p)
    (bound : q.pending.length < p.pending.length + 1) : Suffice (rank + 1) n n' q := by
  obtain ⟨left, right⟩ := suffice
  exact ⟨by omega, by omega⟩

/-- A bound that suffices for some tokens suffices for fewer. -/
theorem Suffice.shorter (suffice : Suffice rank n n' p)
    (shorter : q.pending.length < p.pending.length) : Suffice rank n n' q := by
  obtain ⟨left, right⟩ := suffice
  exact ⟨by omega, by omega⟩

/-- Behind a token it starts over. -/
theorem Suffice.behind (suffice : Suffice rank (n + 1) (n' + 1) p) (low : rank < 8)
    (bound : q.pending.length < p.pending.length) (other : Nat) : Suffice other n n' q := by
  obtain ⟨left, right⟩ := suffice
  exact ⟨by omega, by omega⟩

end

/-! ### Readers that go along with each other -/

section

variable {rank n n' limit : Nat} {view : α → γ} {r r' : Parsing α}

/-- Where two parsers are alike and the bounds suffice, the readers match. -/
def Follow (rank n n' : Nat) (view : α → γ) (r r' : Parsing α) : Prop :=
  ∀ p p', Alike p p' → Suffice rank n n' p → Matches view (p.pending.length + 1) r r' p p'

/-- The same of readers that start with taking a token. -/
def FollowTaking (rank n n' : Nat) (view : α → γ) (r r' : Parsing α) : Prop :=
  ∀ p p', Alike p p' → p.current.kind ≠ .endOfText → Suffice rank n n' p →
    Matches view p.pending.length r r' p p'

theorem Matches.mono {limit' : Nat} (h : Matches view limit r r' p p') (le : limit ≤ limit') :
    Matches view limit' r r' p p' := by
  unfold Matches at h ⊢
  split at h
  · exact ⟨h.1, h.2.1, h.2.2.trans_le le⟩
  · exact h
  · exact h

theorem Follow.run (follow : Follow rank n n' view r r') (alike : Alike p p')
    (suffice : Suffice rank n n' p) (bound : p.pending.length < limit) :
    Matches view limit r r' p p' :=
  (follow p p' alike suffice).mono bound

/-- Bounds of zero suffice nowhere. -/
theorem Follow.of_zero (zero : n = 0 ∨ n' = 0) (low : rank < 8) : Follow rank n n' view r r' :=
  fun _ _ _ suffice => (suffice.false_of_zero low zero).elim

theorem FollowTaking.of_zero (zero : n = 0 ∨ n' = 0) (low : rank < 8) :
    FollowTaking rank n n' view r r' :=
  fun _ _ _ _ suffice => (suffice.false_of_zero low zero).elim

/-- What holds of no bound at all and of the next two bounds holds of any two. -/
theorem forall_bounds {property : Nat → Nat → Prop}
    (zero : ∀ n n', n = 0 ∨ n' = 0 → property n n')
    (step : ∀ n n', property n n' → property (n + 1) (n' + 1)) : ∀ n n', property n n'
  | 0, n' => zero 0 n' (.inl rfl)
  | n + 1, 0 => zero (n + 1) 0 (.inr rfl)
  | n + 1, n' + 1 => step n n' (forall_bounds zero step n n')

end

/-! ### Expressions -/

/-- The readers of expressions, which call each other. -/
structure ExpressionsFollow (n n' : Nat) : Prop where
  expression : Follow 0 n n' (Expr.relabel .unlined) (expression n) (expression n')
  moreTerms (line line' : Nat) {lhs lhs' : Expr} :
    lhs.relabel .unlined = lhs'.relabel .unlined →
    Follow 1 n n' (Expr.relabel .unlined) (moreTerms n line lhs) (moreTerms n' line' lhs')
  term : Follow 1 n n' (Expr.relabel .unlined) (term n) (term n')
  moreFactors (line line' : Nat) {lhs lhs' : Expr} :
    lhs.relabel .unlined = lhs'.relabel .unlined →
    Follow 2 n n' (Expr.relabel .unlined) (moreFactors n line lhs) (moreFactors n' line' lhs')
  factor : Follow 2 n n' (Expr.relabel .unlined) (factor n) (factor n')
  arguments : FollowTaking 0 n n' (Expr.relabelAll .unlined) (arguments n) (arguments n')

section Expressions

variable {n n' : Nat} {lhs lhs' rhs rhs' : Expr}

theorem relabel_binary (line line' : Nat) (op : BinaryOp)
    (left : lhs.relabel .unlined = lhs'.relabel .unlined)
    (right : rhs.relabel .unlined = rhs'.relabel .unlined) :
    Expr.relabel .unlined (.binary { line } op lhs rhs) =
      Expr.relabel .unlined (.binary { line := line' } op lhs' rhs') := by
  rw [Expr.relabel, Expr.relabel, left, right]
  rfl

theorem relabel_signed (line line' : Nat) (sign : Option BinaryOp)
    (same : lhs.relabel .unlined = lhs'.relabel .unlined) :
    (signed line sign lhs).relabel .unlined = (signed line' sign lhs').relabel .unlined := by
  cases sign with
  | none => exact same
  | some op => exact relabel_binary line line' op rfl same

/-- The step for expressions. -/
theorem follow_expression (ih : ExpressionsFollow n n') :
    Follow 0 (n + 1) (n' + 1) (Expr.relabel .unlined) (expression (n + 1))
      (expression (n' + 1)) := by
  intro p p' alike suffice
  rw [expression, expression]
  refine matches_currentLine fun line line' => ?_
  have behindSign (sign : Option BinaryOp) {q q' : Parser} (alike : Alike q q')
      (bound : q.pending.length < p.pending.length + 1) :
      Matches (Expr.relabel .unlined) (p.pending.length + 1)
        (term n >>= fun first => moreTerms n line (signed line sign first))
        (term n' >>= fun first => moreTerms n' line' (signed line' sign first)) q q' := by
    refine (ih.term.run alike (suffice.here bound) bound).bind ?_
    intro first first' s s' same alike bound
    exact (ih.moreTerms line line' (relabel_signed line line' sign same)).run alike
      (suffice.here bound) bound
  refine matches_operator? alike (behindSign none alike (Nat.lt_succ_self _)) ?_
  exact fun op q q' alike shorter => behindSign (some op) alike (Nat.lt_succ_of_lt shorter)

theorem follow_moreTerms (ih : ExpressionsFollow n n') (line line' : Nat)
    (same : lhs.relabel .unlined = lhs'.relabel .unlined) :
    Follow 1 (n + 1) (n' + 1) (Expr.relabel .unlined) (moreTerms (n + 1) line lhs)
      (moreTerms (n' + 1) line' lhs') := by
  intro p p' alike suffice
  rw [moreTerms, moreTerms]
  refine matches_operator? alike (matches_pure alike same (Nat.lt_succ_self _)) ?_
  intro op q q' alike shorter
  refine (ih.term.run alike (suffice.behind (by decide) shorter 1) shorter).bind ?_
  intro rhs rhs' s s' same' alike shorter
  exact (ih.moreTerms line line' (relabel_binary line line' op same same')).run alike
    (suffice.behind (by decide) shorter 1) (Nat.lt_succ_of_lt shorter)

theorem follow_term (ih : ExpressionsFollow n n') :
    Follow 1 (n + 1) (n' + 1) (Expr.relabel .unlined) (term (n + 1)) (term (n' + 1)) := by
  intro p p' alike suffice
  rw [term, term]
  refine matches_currentLine fun line line' => ?_
  refine (ih.factor p p' alike (suffice.here (Nat.lt_succ_self _))).bind ?_
  intro first first' q q' same alike bound
  exact (ih.moreFactors line line' same).run alike (suffice.here bound) bound

theorem follow_moreFactors (ih : ExpressionsFollow n n') (line line' : Nat)
    (same : lhs.relabel .unlined = lhs'.relabel .unlined) :
    Follow 2 (n + 1) (n' + 1) (Expr.relabel .unlined) (moreFactors (n + 1) line lhs)
      (moreFactors (n' + 1) line' lhs') := by
  intro p p' alike suffice
  rw [moreFactors, moreFactors]
  refine matches_operator? alike (matches_pure alike same (Nat.lt_succ_self _)) ?_
  intro op q q' alike shorter
  refine (ih.factor.run alike (suffice.behind (by decide) shorter 2) shorter).bind ?_
  intro rhs rhs' s s' same' alike shorter
  exact (ih.moreFactors line line' (relabel_binary line line' op same same')).run alike
    (suffice.behind (by decide) shorter 2) (Nat.lt_succ_of_lt shorter)

theorem follow_factor (ih : ExpressionsFollow n n') :
    Follow 2 (n + 1) (n' + 1) (Expr.relabel .unlined) (factor (n + 1)) (factor (n' + 1)) := by
  intro p p' alike suffice
  rw [factor, factor]
  refine matches_currentLine fun line line' => matches_currentKind alike ?_
  cases atKind : p.current.kind with
  | name text =>
    refine (matches_take alike (by simp [atKind])).bind fun _ _ q q' _ alike shorter => ?_
    refine matches_if_sees alike (fun opening => ?_)
      (matches_pure alike rfl (Nat.lt_succ_of_lt shorter))
    have more : q.current.kind ≠ .endOfText := by simp [opening]
    refine (ih.arguments q q' alike more (suffice.behind (by decide) shorter 0)).bind ?_
    intro args args' s s' same alike bound
    refine matches_pure alike ?_ (by omega)
    rw [Expr.relabel, Expr.relabel, same]
    rfl
  | integer value =>
    refine (matches_take alike (by simp [atKind])).bind fun _ _ q q' _ alike shorter => ?_
    exact matches_pure alike rfl (Nat.lt_succ_of_lt shorter)
  | _ =>
    refine matches_if_sees alike (fun opening => ?_) (matches_reject alike)
    refine (matches_take alike (by simp [opening])).bind fun _ _ q q' _ alike shorter => ?_
    refine (ih.expression.run alike (suffice.behind (by decide) shorter 0) shorter).bind ?_
    intro inner inner' s s' same alike shorter
    refine (matches_expect alike (by simp)).bind fun _ _ t t' _ alike bound => ?_
    exact matches_pure alike same (by omega)

theorem follow_arguments (ih : ExpressionsFollow n n') :
    FollowTaking 0 (n + 1) (n' + 1) (Expr.relabelAll .unlined) (arguments (n + 1))
      (arguments (n' + 1)) := by
  intro p p' alike more suffice
  rw [arguments, arguments]
  refine (matches_take alike more).bind fun _ _ q q' _ alike shorter => ?_
  refine (ih.expression.run alike (suffice.behind (by decide) shorter 0) shorter).bind ?_
  intro first first' s s' same alike shorter
  refine matches_if_sees alike (fun comma => ?_) ?_
  · have more : s.current.kind ≠ .endOfText := by simp [comma]
    refine (ih.arguments s s' alike more (suffice.behind (by decide) shorter 0)).bind ?_
    intro rest rest' t t' same' alike bound
    refine matches_pure alike ?_ (by omega)
    simp only [Expr.relabelAll, same, same']
  · refine (matches_expect alike (by simp)).bind fun _ _ t t' _ alike bound => ?_
    refine matches_pure alike ?_ (by omega)
    simp only [Expr.relabelAll, same]

/-- The induction over the mutual readers of expressions, on both bounds. -/
theorem expressionsFollow : ∀ n n', ExpressionsFollow n n' := by
  refine forall_bounds (fun n n' zero => ?_) fun n n' ih => ?_
  · exact ⟨.of_zero zero (by decide), fun _ _ _ _ _ => .of_zero zero (by decide),
      .of_zero zero (by decide), fun _ _ _ _ _ => .of_zero zero (by decide),
      .of_zero zero (by decide), .of_zero zero (by decide)⟩
  · exact ⟨follow_expression ih, fun line line' _ _ => follow_moreTerms ih line line',
      follow_term ih, fun line line' _ _ => follow_moreFactors ih line line', follow_factor ih,
      follow_arguments ih⟩

theorem follow_condition (n n' : Nat) :
    Follow 0 n n' (Expr.relabel .unlined) (condition n) (condition n') := by
  intro p p' alike suffice
  have ih := expressionsFollow n n'
  rw [condition, condition]
  refine matches_currentLine fun line line' => matches_if_sees alike (fun odd => ?_) ?_
  · refine (matches_take alike (by simp [odd])).bind fun _ _ q q' _ alike shorter => ?_
    refine (ih.expression.run alike (suffice.shorter shorter) shorter).bind ?_
    intro operand operand' s s' same alike shorter
    refine matches_pure alike ?_ (Nat.lt_succ_of_lt shorter)
    rw [Expr.relabel, Expr.relabel, same]
    rfl
  · refine (ih.expression p p' alike suffice).bind fun lhs lhs' q q' same alike bound => ?_
    refine matches_operator? alike (matches_reject alike) fun op s s' alike shorter => ?_
    have shorter : s.pending.length < p.pending.length := by omega
    refine (ih.expression.run alike (suffice.shorter shorter) shorter).bind ?_
    intro rhs rhs' t t' same' alike shorter
    exact matches_pure alike (relabel_binary line line' op same same') (Nat.lt_succ_of_lt shorter)

end Expressions

/-! ### Statements -/

/-- The readers of statements, which call each other. -/
structure StatementsFollow (n n' : Nat) : Prop where
  statement : Follow 1 n n' (Stmt.relabelOption .unlined) (statement n) (statement n')
  elsePart : Follow 0 n n' (Stmt.relabelOption .unlined) (elsePart n) (elsePart n')
  statements : FollowTaking 2 n n' (Stmt.relabelAll .unlined) (statements n) (statements n')

section Statements

variable {n n' : Nat}

/-- An empty statement in a sequence leaves no trace in the tree. -/
theorem relabelAll_toList_append (f : Relabeling) (first : Option Stmt) (rest : List Stmt) :
    Stmt.relabelAll f (first.toList ++ rest) =
      (Stmt.relabelOption f first).toList ++ Stmt.relabelAll f rest := by
  cases first with
  | none => rfl
  | some stmt => rfl

theorem follow_asmTokens : ∀ n n', Follow 0 n n' id (asmTokens n) (asmTokens n') := by
  refine forall_bounds (fun n n' zero => .of_zero zero (by decide)) fun n n' ih => ?_
  intro p p' alike suffice
  have taken (kind : Token.Kind) (more : p.current.kind ≠ .endOfText) :
      Matches id (p.pending.length + 1) (do skip; return kind :: (← asmTokens n))
        (do skip; return kind :: (← asmTokens n')) p p' := by
    refine (matches_take alike more).bind fun _ _ q q' _ alike shorter => ?_
    refine (ih.run alike (suffice.behind (by decide) shorter 0) shorter).bind ?_
    intro rest rest' s s' same alike shorter
    exact matches_pure alike (congrArg (kind :: ·) same) (Nat.lt_succ_of_lt shorter)
  rw [asmTokens, asmTokens]
  refine matches_currentKind alike ?_
  cases atKind : p.current.kind with
  | endOfText | invalid => exact matches_reject alike
  | keyword word =>
    cases word with
    | endKw => exact matches_pure alike rfl (Nat.lt_succ_self _)
    | _ => exact taken _ (by simp [atKind])
  | _ => exact taken _ (by simp [atKind])

theorem follow_elsePart (ih : StatementsFollow n n') :
    Follow 0 (n + 1) (n' + 1) (Stmt.relabelOption .unlined) (elsePart (n + 1))
      (elsePart (n' + 1)) := by
  intro p p' alike suffice
  rw [elsePart, elsePart]
  refine matches_if_sees alike (fun seen => ?_) (matches_pure alike rfl (Nat.lt_succ_self _))
  refine (matches_take alike (by simp [seen])).bind fun _ _ q q' _ alike shorter => ?_
  exact ih.statement.run alike (suffice.behind (by decide) shorter 1) (Nat.lt_succ_of_lt shorter)

theorem follow_statements (ih : StatementsFollow n n') :
    FollowTaking 2 (n + 1) (n' + 1) (Stmt.relabelAll .unlined) (statements (n + 1))
      (statements (n' + 1)) := by
  intro p p' alike more suffice
  rw [statements, statements]
  refine (matches_take alike more).bind fun _ _ q q' _ alike shorter => ?_
  refine (ih.statement.run alike (suffice.behind (by decide) shorter 1) shorter).bind ?_
  intro first first' s s' same alike shorter
  refine matches_if_sees alike (fun semicolon => ?_) ?_
  · have more : s.current.kind ≠ .endOfText := by simp [semicolon]
    refine (ih.statements s s' alike more (suffice.behind (by decide) shorter 2)).bind ?_
    intro rest rest' t t' same' alike bound
    refine matches_pure alike ?_ (bound.trans shorter)
    rw [relabelAll_toList_append, relabelAll_toList_append, same, same']
  · refine (matches_expect alike (by simp)).bind fun _ _ t t' _ alike bound => ?_
    refine matches_pure alike ?_ (bound.trans shorter)
    rw [← List.append_nil first.toList, ← List.append_nil first'.toList, relabelAll_toList_append,
      relabelAll_toList_append, same]

/-- The step for statements, by the token they begin with. -/
theorem follow_statement (ih : StatementsFollow n n') :
    Follow 1 (n + 1) (n' + 1) (Stmt.relabelOption .unlined) (statement (n + 1))
      (statement (n' + 1)) := by
  intro p p' alike suffice
  have inner := expressionsFollow n n'
  rw [statement, statement]
  refine matches_currentLine fun line line' => matches_currentKind alike ?_
  cases atKind : p.current.kind with
  | name text =>
    refine (matches_take alike (by simp [atKind])).bind fun _ _ q q' _ alike shorter => ?_
    refine matches_if_sees alike (fun assign => ?_) (matches_if_sees alike (fun opening => ?_)
      (matches_pure alike rfl (Nat.lt_succ_of_lt shorter)))
    · refine (matches_take alike (by simp [assign])).bind fun _ _ s s' _ alike bound => ?_
      have shorter := bound.trans shorter
      refine (inner.expression.run alike (suffice.behind (by decide) shorter 0) shorter).bind ?_
      intro value value' t t' same alike shorter
      refine matches_pure alike ?_ (Nat.lt_succ_of_lt shorter)
      simp only [Stmt.relabelOption, Stmt.relabel, same]
      rfl
    · have more : q.current.kind ≠ .endOfText := by simp [opening]
      refine (inner.arguments q q' alike more (suffice.behind (by decide) shorter 0)).bind ?_
      intro args args' s s' same alike bound
      refine matches_pure alike ?_ (Nat.lt_succ_of_lt (bound.trans shorter))
      simp only [Stmt.relabelOption, Stmt.relabel, same]
      rfl
  | keyword word =>
    have more : p.current.kind ≠ .endOfText := by simp [atKind]
    cases word with
    | beginKw =>
      refine (ih.statements p p' alike more (suffice.here (Nat.lt_succ_self _))).bind ?_
      intro body body' q q' same alike shorter
      refine matches_pure alike ?_ (Nat.lt_succ_of_lt shorter)
      simp only [Stmt.relabelOption, Stmt.relabel, same]
      rfl
    | ifKw =>
      refine (matches_take alike more).bind fun _ _ q q' _ alike shorter => ?_
      refine ((follow_condition n n').run alike (suffice.behind (by decide) shorter 0)
        shorter).bind ?_
      intro cond cond' q q' sameCond alike shorter
      refine (matches_expect alike (by simp)).bind fun _ _ q q' _ alike bound => ?_
      have shorter := bound.trans shorter
      refine (ih.statement.run alike (suffice.behind (by decide) shorter 1) shorter).bind ?_
      intro thenBranch thenBranch' q q' sameThen alike shorter
      refine (ih.elsePart.run alike (suffice.behind (by decide) shorter 0) shorter).bind ?_
      intro elseBranch elseBranch' q q' sameElse alike shorter
      refine matches_pure alike ?_ (Nat.lt_succ_of_lt shorter)
      simp only [Stmt.relabelOption, Stmt.relabel, sameCond, sameThen, sameElse]
      rfl
    | whileKw =>
      refine (matches_take alike more).bind fun _ _ q q' _ alike shorter => ?_
      refine ((follow_condition n n').run alike (suffice.behind (by decide) shorter 0)
        shorter).bind ?_
      intro cond cond' q q' sameCond alike shorter
      refine (matches_expect alike (by simp)).bind fun _ _ q q' _ alike bound => ?_
      have shorter := bound.trans shorter
      refine (ih.statement.run alike (suffice.behind (by decide) shorter 1) shorter).bind ?_
      intro body body' q q' sameBody alike shorter
      refine matches_pure alike ?_ (Nat.lt_succ_of_lt shorter)
      simp only [Stmt.relabelOption, Stmt.relabel, sameCond, sameBody]
      rfl
    | asmKw =>
      refine (matches_take alike more).bind fun _ _ q q' _ alike shorter => ?_
      refine (matches_expect alike (by simp)).bind fun _ _ q q' _ alike bound => ?_
      have shorter := bound.trans shorter
      refine ((follow_asmTokens n n').run alike (suffice.behind (by decide) shorter 0)
        shorter).bind ?_
      rintro tokens _ q q' rfl alike shorter
      refine (matches_skip alike).bind fun _ _ q q' _ alike bound => ?_
      exact matches_pure alike rfl (by omega)
    | breakKw | continueKw =>
      refine (matches_take alike more).bind fun _ _ q q' _ alike shorter => ?_
      exact matches_pure alike rfl (Nat.lt_succ_of_lt shorter)
    | _ => exact matches_pure alike rfl (Nat.lt_succ_self _)
  | _ => exact matches_pure alike rfl (Nat.lt_succ_self _)

/-- The induction over the mutual readers of statements, on both bounds. -/
theorem statementsFollow : ∀ n n', StatementsFollow n n' := by
  refine forall_bounds (fun n n' zero => ?_) fun n n' ih => ?_
  · exact ⟨.of_zero zero (by decide), .of_zero zero (by decide), .of_zero zero (by decide)⟩
  · exact ⟨follow_statement ih, follow_elsePart ih, follow_statements ih⟩

end Statements

/-! ### Declarations -/

section Declarations

variable {n n' : Nat}

theorem follow_initializer (n n' : Nat) (isConstant : Bool) :
    Follow 0 n n' (Option.map (Expr.relabel .unlined)) (initializer n isConstant)
      (initializer n' isConstant) := by
  intro p p' alike suffice
  rw [initializer, initializer]
  refine matches_if_sees alike (fun equals => ?_) ?_
  · refine (matches_take alike (by simp [equals])).bind fun _ _ q q' _ alike shorter => ?_
    refine ((expressionsFollow n n').expression.run alike (suffice.shorter shorter) shorter).bind ?_
    intro init init' s s' same alike shorter
    exact matches_pure alike (congrArg some same) (Nat.lt_succ_of_lt shorter)
  · cases isConstant with
    | true => exact matches_reject alike
    | false => exact matches_pure alike rfl (Nat.lt_succ_self _)

/-- By induction on both bounds. Each definition takes its name at least. -/
theorem follow_definitions (isConstant : Bool) :
    ∀ n n', FollowTaking 1 n n' (List.map (Definition.relabel .unlined)) (definitions n isConstant)
      (definitions n' isConstant) := by
  refine forall_bounds (fun n n' zero => .of_zero zero (by decide)) fun n n' ih => ?_
  intro p p' alike more suffice
  rw [definitions, definitions]
  refine (matches_take alike more).bind fun _ _ q q' _ alike shorter => ?_
  refine matches_currentLine fun line line' => ?_
  refine (matches_expectName alike).bind ?_
  rintro name _ q q' rfl alike bound
  have shorter := bound.trans shorter
  refine ((follow_initializer n n' isConstant).run alike (suffice.behind (by decide) shorter 0)
    shorter).bind ?_
  intro init init' q q' same alike shorter
  have first : Definition.relabel .unlined ⟨line, name, init⟩ =
      Definition.relabel .unlined ⟨line', name, init'⟩ := by
    simp only [Definition.relabel, same]
    rfl
  refine matches_if_sees alike (fun comma => ?_) ?_
  · have more : q.current.kind ≠ .endOfText := by simp [comma]
    refine (ih q q' alike more (suffice.behind (by decide) shorter 1)).bind ?_
    intro rest rest' s s' same' alike bound
    refine matches_pure alike ?_ (bound.trans shorter)
    exact congrArg₂ List.cons first same'
  · refine (matches_expect alike (by simp)).bind fun _ _ s s' _ alike bound => ?_
    exact matches_pure alike (congrArg (fun d => [d]) first) (bound.trans shorter)

theorem follow_declarations? (n n' : Nat) (keyword : Keyword) (isConstant : Bool) :
    Follow 1 n n' (Option.map (Decls.relabel .unlined)) (declarations? n keyword isConstant)
      (declarations? n' keyword isConstant) := by
  intro p p' alike suffice
  rw [declarations?, declarations?]
  refine matches_currentLine fun line line' => matches_if_sees alike (fun seen => ?_)
    (matches_pure alike rfl (Nat.lt_succ_self _))
  have more : p.current.kind ≠ .endOfText := by simp [seen]
  refine (follow_definitions isConstant n n' p p' alike more suffice).bind ?_
  intro defs defs' q q' same alike shorter
  refine matches_pure alike ?_ (Nat.lt_succ_of_lt shorter)
  simp only [Option.map_some, Decls.relabel, same]
  rfl

theorem follow_parameters :
    ∀ n n', FollowTaking 0 n n' id (parameters n) (parameters n') := by
  refine forall_bounds (fun n n' zero => .of_zero zero (by decide)) fun n n' ih => ?_
  intro p p' alike more suffice
  rw [parameters, parameters]
  refine (matches_take alike more).bind fun _ _ q q' _ alike shorter => ?_
  refine (matches_expectName alike).bind ?_
  rintro first _ q q' rfl alike bound
  have shorter := bound.trans shorter
  refine matches_if_sees alike (fun comma => ?_) ?_
  · have more : q.current.kind ≠ .endOfText := by simp [comma]
    refine (ih q q' alike more (suffice.behind (by decide) shorter 0)).bind ?_
    rintro rest _ s s' rfl alike bound
    exact matches_pure alike rfl (bound.trans shorter)
  · refine (matches_expect alike (by simp)).bind fun _ _ s s' _ alike bound => ?_
    exact matches_pure alike rfl (bound.trans shorter)

theorem follow_signature (n n' : Nat) (keyword : Keyword) :
    Follow 0 n n' id (signature n keyword) (signature n' keyword) := by
  intro p p' alike suffice
  cases keyword with
  | functionKw =>
    refine matches_if_sees alike (fun opening => ?_)
      (matches_pure alike rfl (Nat.lt_succ_self _))
    have more : p.current.kind ≠ .endOfText := by simp [opening]
    refine (follow_parameters n n' p p' alike more suffice).bind ?_
    rintro params _ q q' rfl alike shorter
    exact matches_pure alike rfl (Nat.lt_succ_of_lt shorter)
  | _ => exact matches_pure alike rfl (Nat.lt_succ_self _)

end Declarations

/-! ### Blocks -/

/-- The readers of blocks, which call each other. -/
structure BlocksFollow (n n' : Nat) : Prop where
  block : Follow 0 n n' (Block.relabel .unlined) (block n) (block n')
  routines : Follow 1 n n' (Routine.relabelAll .unlined) (routines n) (routines n')
  routine (keyword : Keyword) :
    FollowTaking 2 n n' (Routine.relabel .unlined) (routine n keyword) (routine n' keyword)

section Blocks

variable {n n' : Nat}

/-- The step for blocks. -/
theorem follow_block (ih : BlocksFollow n n') :
    Follow 0 (n + 1) (n' + 1) (Block.relabel .unlined) (block (n + 1)) (block (n' + 1)) := by
  intro p p' alike suffice
  rw [block, block]
  refine matches_currentLine fun line line' => ?_
  refine (follow_declarations? n n' .constKw true p p' alike
    (suffice.here (Nat.lt_succ_self _))).bind ?_
  intro consts consts' q q' sameConsts alike bound
  refine ((follow_declarations? n n' .varKw false).run alike (suffice.here bound) bound).bind ?_
  intro vars vars' q q' sameVars alike bound
  refine (ih.routines.run alike (suffice.here bound) bound).bind ?_
  intro routines routines' q q' sameRoutines alike bound
  refine ((statementsFollow n n').statement.run alike (suffice.here bound) bound).bind ?_
  intro body body' q q' sameBody alike bound
  refine matches_pure alike ?_ bound
  simp only [Block.relabel, sameConsts, sameVars, sameRoutines, sameBody]
  rfl

theorem follow_routines (ih : BlocksFollow n n') :
    Follow 1 (n + 1) (n' + 1) (Routine.relabelAll .unlined) (routines (n + 1))
      (routines (n' + 1)) := by
  intro p p' alike suffice
  have taken (keyword : Keyword) (more : p.current.kind ≠ .endOfText) :
      Matches (Routine.relabelAll .unlined) (p.pending.length + 1)
        (do let first ← routine n keyword; let rest ← routines n; return first :: rest)
        (do let first ← routine n' keyword; let rest ← routines n'; return first :: rest) p p' := by
    refine (ih.routine keyword p p' alike more (suffice.here (Nat.lt_succ_self _))).bind ?_
    intro first first' q q' same alike shorter
    refine (ih.routines.run alike (suffice.behind (by decide) shorter 1) shorter).bind ?_
    intro rest rest' s s' same' alike shorter
    refine matches_pure alike ?_ (Nat.lt_succ_of_lt shorter)
    simp only [Routine.relabelAll, same, same']
  rw [routines, routines]
  refine matches_currentKind alike ?_
  cases atKind : p.current.kind with
  | keyword word =>
    cases word with
    | procedureKw | functionKw => exact taken _ (by simp [atKind])
    | _ => exact matches_pure alike rfl (Nat.lt_succ_self _)
  | _ => exact matches_pure alike rfl (Nat.lt_succ_self _)

theorem follow_routine (ih : BlocksFollow n n') (keyword : Keyword) :
    FollowTaking 2 (n + 1) (n' + 1) (Routine.relabel .unlined) (routine (n + 1) keyword)
      (routine (n' + 1) keyword) := by
  intro p p' alike more suffice
  rw [routine, routine]
  refine matches_currentLine fun line line' => ?_
  refine (matches_take alike more).bind fun _ _ q q' _ alike shorter => ?_
  refine (matches_expectName alike).bind ?_
  rintro name _ q q' rfl alike bound
  have shorter := bound.trans shorter
  refine ((follow_signature n n' keyword).run alike (suffice.behind (by decide) shorter 0)
    shorter).bind ?_
  rintro kind _ q q' rfl alike shorter
  refine (matches_expect alike (by simp)).bind fun _ _ q q' _ alike bound => ?_
  have shorter := bound.trans shorter
  refine (ih.block.run alike (suffice.behind (by decide) shorter 0) shorter).bind ?_
  intro block block' q q' same alike shorter
  refine (matches_expect alike (by simp)).bind fun _ _ q q' _ alike bound => ?_
  refine matches_pure alike ?_ (bound.trans shorter)
  simp only [Routine.relabel, same]
  rfl

/-- The induction over the mutual readers of blocks and routines, on both bounds. -/
theorem blocksFollow : ∀ n n', BlocksFollow n n' := by
  refine forall_bounds (fun n n' zero => ?_) fun n n' ih => ?_
  · exact ⟨.of_zero zero (by decide), .of_zero zero (by decide),
      fun _ => .of_zero zero (by decide)⟩
  · exact ⟨follow_block ih, follow_routines ih, follow_routine ih⟩

/-- Two texts with the same kinds of tokens are read alike. -/
theorem matches_program (alike : Alike p p') :
    Matches (Block.relabel .unlined) (p.pending.length + 1) program program p p' := by
  have length : p'.pending.length = p.pending.length := by
    simpa using congrArg List.length alike.kinds.symm
  have suffice : Suffice 0 p.fuel p'.fuel p :=
    ⟨p.pending_length_le_fuel, length ▸ p'.pending_length_le_fuel⟩
  unfold program
  refine matches_get (((blocksFollow _ _).block p p' alike suffice).bind ?_)
  intro tree tree' q q' same alike bound
  refine (matches_expect alike (by simp)).bind fun _ _ s s' _ alike bound' => ?_
  refine matches_if_sees alike (fun _ => ?_) (matches_reject alike)
  exact matches_pure alike same (by omega)

end Blocks

/-- Texts with the same tokens are read alike from the start. -/
theorem alike_ofString {source source' : String}
    (kinds : (tokenize source).map (·.kind) = (tokenize source').map (·.kind)) :
    Alike (.ofString source) (.ofString source') := by
  refine ⟨Parser.settled_ofString source, Parser.settled_ofString source', ?_⟩
  rw [Parser.pending_ofString, Parser.pending_ofString, kinds]

end Parsing

/-- Two texts with the same kinds of tokens have the same tree but for its lines, or none of them is
a program and both stop for the same reason. -/
theorem parse_alike {source source' : String}
    (kinds : (tokenize source).map (·.kind) = (tokenize source').map (·.kind)) :
    (∃ tree tree', parse source = .ok tree ∧ parse source' = .ok tree' ∧
        tree.relabel .unlined = tree'.relabel .unlined) ∨
      ∃ failure failure', parse source = .error failure ∧ parse source' = .error failure' ∧
        failure.unlined = failure'.unlined := by
  have matched := Parsing.matches_program (Parsing.alike_ofString kinds)
  unfold Parsing.Matches at matched
  unfold parse Parser.parse
  split at matched
  · next tree _ tree' _ run run' =>
    rw [run, run']
    exact .inl ⟨tree, tree', rfl, rfl, matched.1⟩
  · next failure _ failure' _ run run' =>
    rw [run, run']
    exact .inr ⟨failure, failure', rfl, rfl, matched⟩
  · exact matched.elim

end PlZero
