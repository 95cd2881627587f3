import PlZero.Proofs.Parser.Derivation

/-!
What a reader of a phrase promises, and the bookkeeping by which the readers are seen to keep it.

A reader that ends in a tree has read a derivation of that tree (`Accepted`). A reader that fails
has rejected a token, and the tokens it had taken by then could still have become a word of the
phrase (`Stopped`). An `Item` is a place in the middle of a phrase: what has been taken, followed by
any word of the parts still to come, is a word of the phrase.
-/

namespace PlZero.Grammar

open Computability
open Token (Kind)
open Parsing (Runs Rejects)

/-- The reader of a phrase. -/
def Phrase.read : (x : Phrase) → Nat → Parsing x.Tree
  | .expression, n => Parsing.expression n
  | .moreTerms line lhs, n => Parsing.moreTerms n line lhs
  | .term, n => Parsing.term n
  | .moreFactors line lhs, n => Parsing.moreFactors n line lhs
  | .factor, n => Parsing.factor n
  | .arguments, n => Parsing.arguments n
  | .condition, n => Parsing.condition n
  | .statement, n => Parsing.statement n
  | .elsePart, n => Parsing.elsePart n
  | .statements, n => Parsing.statements n
  | .initializer isConstant, n => Parsing.initializer n isConstant
  | .definitions isConstant, n => Parsing.definitions n isConstant
  | .section isConstant, n => Parsing.declarations? n (sectionKeyword isConstant) isConstant
  | .parameters, n => Parsing.parameters n
  | .signature isFunction, n => Parsing.signature n (routineKeyword isFunction)
  | .block, n => Parsing.block n
  | .routines, n => Parsing.routines n
  | .routine isFunction, n => Parsing.routine n (routineKeyword isFunction)

/-- The tokens on which a phrase is entered. Those that start with a given token are entered only
where it has been seen. -/
def Phrase.Entry : Phrase → Kind → Prop
  | .arguments | .statements | .definitions _ | .parameters => fun k => k.isProper = true
  | .routine isFunction => fun k => k = .keyword (routineKeyword isFunction)
  | _ => fun _ => True

@[simp] theorem hasWord_phrase (x : Phrase) : HasWord x.language := by
  have definition (isConstant : Bool) : HasWord (definition isConstant) := by
    cases isConstant <;> simp [Grammar.definition]
  have anyToken : HasWord anyToken := hasWord_one.mpr ⟨.endOfText, trivial⟩
  cases x with
  | initializer isConstant => cases isConstant <;> simp [Phrase.language]
  | «section» isConstant => cases isConstant <;> simp [Phrase.language]
  | signature isFunction => cases isFunction <;> simp [Phrase.language]
  | routine isFunction => cases isFunction <;> simp [Phrase.language]
  | _ => simp [Phrase.language, anyToken, definition]

/-! ### What a reader promises -/

/-- The tokens from `p` to `q` are those of `tree`. -/
def Accepted (x : Phrase) (p : Parser) (tree : x.Tree) (q : Parser) : Prop :=
  (∃ taken, p.Reaches taken q) ∧ Derives x p.pending tree q.pending

/-- From `p` on tokens were taken that can start the phrase `x`, and the next one was rejected. -/
def Stopped (x : Phrase) (p : Parser) (failure : Failure) (q : Parser) : Prop :=
  ∃ taken place, p.Reaches taken place ∧ Viable x.language (kinds taken) ∧ Rejects place failure q

/-- With the bound `n`, the reader of `x` keeps its promise. -/
def Sound (x : Phrase) (n : Nat) : Prop :=
  ∀ p : Parser, x.Entry p.current.kind → Runs (x.read n) p (Accepted x p) (Stopped x p)

/-! ### Items -/

/-- A reader of `x` that started at `p` has got to `q`, with the parts `Ls` of the phrase still to
come. -/
structure Item (x : Phrase) (p : Parser) (Ls : List (Language Kind)) (q : Parser) : Prop where
  taken : ∃ taken, p.Reaches taken q ∧ ∀ w ∈ Ls.prod, kinds taken ++ w ∈ x.language
  hasWord : HasWord Ls.prod

section

variable {x y : Phrase} {p q r : Parser} {L : Language Kind} {Ls Ms : List (Language Kind)}
  {n : Nat} {α : Type}

/-- The start of a phrase, on one of the ways it can go. -/
theorem Item.start (Ls : List (Language Kind)) (le : ∀ w ∈ Ls.prod, w ∈ x.language)
    (hasWord : HasWord Ls.prod) : Item x p Ls p :=
  ⟨⟨[], .refl, le⟩, hasWord⟩

/-- One way for a phrase to go on. -/
theorem Item.choose (item : Item x p Ls q) (le : ∀ w ∈ Ms.prod, w ∈ Ls.prod)
    (hasWord : HasWord Ms.prod) : Item x p Ms q := by
  obtain ⟨taken, reaches, mem⟩ := item.taken
  exact ⟨⟨taken, reaches, fun w h => mem w (le w h)⟩, hasWord⟩

theorem Item.hasWord_tail (item : Item x p (L :: Ls) q) : HasWord Ls.prod := by
  have both := item.hasWord
  rw [List.prod_cons, hasWord_mul] at both
  exact both.2

/-- The optional part is there. -/
theorem Item.present (item : Item x p (optional L :: Ls) q) (h : HasWord L) :
    Item x p (L :: Ls) q := by
  refine item.choose (fun w mem => ?_) (by simpa using ⟨h, item.hasWord_tail⟩)
  obtain ⟨u, uMem, v, vMem, rfl⟩ := mem_prod_cons.mp mem
  exact append_mem_optional_prod uMem vMem

/-- The optional part is not there. -/
theorem Item.absent (item : Item x p (optional L :: Ls) q) : Item x p Ls q :=
  item.choose (fun _ mem => mem_optional_prod mem) item.hasWord_tail

/-- The repeated part is there once more. -/
theorem Item.again (item : Item x p (L∗ :: Ls) q) (h : HasWord L) :
    Item x p (L :: L∗ :: Ls) q := by
  refine item.choose (fun w mem => ?_) (by simpa using ⟨h, item.hasWord_tail⟩)
  obtain ⟨u, uMem, _, laterMem, rfl⟩ := mem_prod_cons.mp mem
  obtain ⟨v, vMem, z, zMem, rfl⟩ := mem_prod_cons.mp laterMem
  rw [← List.append_assoc]
  exact append_mem_prod (append_mem_star uMem vMem) zMem

/-- The repeated part is not there any more. -/
theorem Item.over (item : Item x p (L∗ :: Ls) q) : Item x p Ls q :=
  item.choose (fun _ mem => append_mem_prod (Language.nil_mem_kstar L) mem) item.hasWord_tail

/-- A part that is made of parts. -/
theorem Item.parts (item : Item x p (Ms.prod :: Ls) q) : Item x p (Ms ++ Ls) q := by
  obtain ⟨taken, has⟩ := item
  rw [List.prod_cons, ← List.prod_append] at taken has
  exact ⟨taken, has⟩

/-- Behind an item the parser has taken tokens, and reported nothing. -/
theorem Item.reaches (item : Item x p Ls q) : ∃ taken, p.Reaches taken q := by
  obtain ⟨taken, reaches, _⟩ := item.taken
  exact ⟨taken, reaches⟩

/-- The next part has been read. -/
theorem Item.read (item : Item x p (L :: Ls) q) {u : List Token} (reaches : q.Reaches u r)
    (mem : kinds u ∈ L) : Item x p Ls r := by
  obtain ⟨taken, reached, start⟩ := item.taken
  refine ⟨⟨taken ++ u, reached.trans reaches, fun w h => ?_⟩, ?_⟩
  · rw [kinds_append, List.append_assoc]
    exact start _ (append_mem_prod mem h)
  · exact item.hasWord_tail

/-- The next token has been taken. -/
theorem Item.take {sort : Kind → Prop} (item : Item x p (one sort :: Ls) q)
    (proper : q.current.kind.isProper = true) (fits : sort q.current.kind) :
    Item x p Ls q.advance :=
  item.read (.single proper) (singleton_mem_one.mpr fits)

/-- A token rejected in the middle of a phrase. -/
theorem Item.stop (item : Item x p Ls q) {failure : Failure} (rejects : Rejects q failure r) :
    Stopped x p failure r := by
  obtain ⟨taken, reached, start⟩ := item.taken
  obtain ⟨w, mem⟩ := item.hasWord
  exact ⟨taken, q, reached, ⟨w, start w mem⟩, rejects⟩

/-- A token rejected in the next part. -/
theorem Item.stop_inside (item : Item x p (y.language :: Ls) q) {failure : Failure}
    (stopped : Stopped y q failure r) : Stopped x p failure r := by
  obtain ⟨u, place, reaches, ⟨v, more⟩, rejects⟩ := stopped
  obtain ⟨taken, reached, start⟩ := item.taken
  obtain ⟨w, mem⟩ := item.hasWord_tail
  refine ⟨taken ++ u, place, reached.trans reaches, ⟨v ++ w, ?_⟩, rejects⟩
  rw [kinds_append, List.append_assoc, ← List.append_assoc (kinds u)]
  exact start _ (append_mem_prod more mem)

/-- A token rejected in a last part that starts with the current token. -/
theorem Item.stop_last (item : Item x p Ls q) {failure : Failure}
    (fits : ∀ w, q.current.kind :: w ∈ y.language → q.current.kind :: w ∈ Ls.prod)
    (stopped : Stopped y q failure r) : Stopped x p failure r := by
  obtain ⟨u, place, reaches, ⟨v, more⟩, rejects⟩ := stopped
  obtain ⟨taken, reached, start⟩ := item.taken
  cases reaches with
  | refl => exact item.stop rejects
  | @step _ _ u proper reaches =>
    refine ⟨taken ++ q.current :: u, place, reached.trans (.step proper reaches), ⟨v, ?_⟩, rejects⟩
    rw [kinds_append, List.append_assoc]
    exact start _ (fits _ more)

/-! ### Reading on from an item -/

variable {ok : y.Tree → Parser → Prop}

/-- The tokens between two places, one of which a derivation starts at and the other it ends at. -/
theorem Accepted.mem {tree : y.Tree} (h : Accepted y q tree r) :
    ∃ u, q.Reaches u r ∧ kinds u ∈ y.language := by
  obtain ⟨⟨u, reaches⟩, derives⟩ := h
  obtain ⟨v, same, mem⟩ := derives.mem_language
  have equal : u = v := List.append_cancel_right (reaches.pending_eq.symm.trans same)
  exact ⟨u, reaches, equal ▸ mem⟩

/-- Reads the next part. -/
theorem Sound.runs (sound : Sound y n) (item : Item x p (y.language :: Ls) q)
    (entry : y.Entry q.current.kind)
    (next : ∀ tree r, Item x p Ls r → Derives y q.pending tree r.pending → ok tree r) :
    Runs (y.read n) q ok (Stopped x p) := by
  refine (sound q entry).mono (fun tree r accepted => ?_) fun failure r => item.stop_inside
  obtain ⟨u, reaches, mem⟩ := accepted.mem
  exact next tree r (item.read reaches mem) accepted.2

/-- Reads a last part that starts with the current token. -/
theorem Sound.runs_last (sound : Sound y n) (item : Item x p Ls q)
    (entry : y.Entry q.current.kind)
    (fits : ∀ w, q.current.kind :: w ∈ y.language → q.current.kind :: w ∈ Ls.prod)
    (next : ∀ tree r, (∃ taken, p.Reaches taken r) → Derives y q.pending tree r.pending →
      ok tree r) :
    Runs (y.read n) q ok (Stopped x p) := by
  refine (sound q entry).mono (fun tree r accepted => ?_) fun failure r => item.stop_last fits
  obtain ⟨⟨u, reaches⟩, derives⟩ := accepted
  obtain ⟨taken, reached⟩ := item.reaches
  exact next tree r ⟨taken ++ u, reached.trans reaches⟩ derives

theorem isProper_of_eq {k kind : Kind} (same : k = kind) (proper : kind.isProper = true) :
    k.isProper = true := by
  rw [same, proper]

/-- The tokens ahead, when the first of them is one that a program can hold. -/
theorem pending_of_proper {p : Parser} (proper : p.current.kind.isProper = true) :
    p.pending = p.current :: p.advance.pending :=
  Parser.pending_advance (Token.Kind.ne_endOfText proper)

/-- Takes a given token. -/
theorem Item.expect {kind : Kind} (item : Item x p (just kind :: Ls) q)
    (proper : kind.isProper = true) {fault : GrammarFault} {ok : Unit → Parser → Prop}
    (next : q.current.kind = kind → q.pending = q.current :: q.advance.pending →
      Item x p Ls q.advance → ok () q.advance) :
    Runs (Parsing.expect kind fault) q ok (Stopped x p) := by
  refine Parsing.runs_expect (fun fits => ?_) fun _ failure r => item.stop
  have properHere : q.current.kind.isProper = true := by rwa [fits]
  exact next fits (pending_of_proper properHere) (item.take properHere fits)

/-- Takes a name. -/
theorem Item.expectName (item : Item x p (id :: Ls) q) {fault : GrammarFault}
    {ok : String → Parser → Prop}
    (next : ∀ text, q.current.kind = .name text → q.pending = q.current :: q.advance.pending →
      Item x p Ls q.advance → ok text q.advance) :
    Runs (Parsing.expectName fault) q ok (Stopped x p) := by
  refine Parsing.runs_expectName (fun text fits => ?_) fun _ failure r => item.stop
  have proper : q.current.kind.isProper = true := by
    rw [fits]
    rfl
  exact next text fits (pending_of_proper proper) (item.take proper ⟨text, fits⟩)

/-- A part that starts with any token, where the token before it is known. -/
theorem entered {sort : Kind → Prop} {k : Kind} {w : List Kind} (fits : sort k)
    (h : k :: w ∈ (anyToken :: Ls).prod) : k :: w ∈ (one sort :: Ls).prod :=
  cons_mem_prod.mpr ⟨fits, (cons_mem_prod.mp h).2⟩

/-- The rest of a series, from the separator on. -/
theorem separated {sep : Char} {close k : Kind} {w : List Kind} (fits : k = .char sep)
    (h : k :: w ∈ [anyToken, series sep L, just close].prod) :
    k :: w ∈ [([symbol sep, L].prod)∗, just close].prod := by
  obtain ⟨others, othersMem, closing, closingMem, rfl⟩ := mem_prod_cons.mp (cons_mem_prod.mp h).2
  obtain ⟨first, firstMem, more, moreMem, rfl⟩ := mem_prod_cons.mp othersMem
  rw [← List.cons_append, ← List.cons_append]
  refine append_mem_prod (append_mem_star ?_ (mem_prod_singleton.mp moreMem)) closingMem
  exact cons_mem_prod.mpr ⟨fits, mem_prod_singleton.mpr firstMem⟩

/-- Reads on behind a member of a series: the rest of the series, or the token that closes it. -/
theorem Item.runs_series {sep : Char} {close : Kind} {fault : GrammarFault} {f : x.Tree → x.Tree}
    {single : x.Tree} (item : Item x p [([symbol sep, L].prod)∗, just close] q)
    (language : x.language = [anyToken, series sep L, just close].prod)
    (entry : x.Entry (.char sep)) (proper : close.isProper = true) (sound : Sound x n)
    (more : ∀ tree (r : Parser), q.current.kind = .char sep →
      q.pending = q.current :: q.advance.pending → Derives x q.pending tree r.pending →
      Derives x p.pending (f tree) r.pending)
    (last : q.current.kind = close → q.pending = q.current :: q.advance.pending →
      Derives x p.pending single q.advance.pending) :
    Runs (do
      if ← Parsing.sees (.char sep) then
        let rest ← x.read n
        return f rest
      else
        Parsing.expect close fault
        return single) q (Accepted x p) (Stopped x p) := by
  refine Parsing.runs_if_sees (fun isSep => ?_) fun _ => ?_
  · rw [Parsing.runs_bind]
    have properHere : q.current.kind.isProper = true := by
      rw [isSep]
      rfl
    refine sound.runs_last item (by rwa [isSep]) (fun w mem => ?_) fun tree r reached derives => ?_
    · rw [language] at mem
      exact separated isSep mem
    · exact ⟨reached, more tree r isSep (pending_of_proper properHere) derives⟩
  · rw [Parsing.runs_bind]
    refine item.over.expect proper fun isClose ahead item => ?_
    exact ⟨item.reaches, last isClose ahead⟩

end

end PlZero.Grammar
