import PlZero.Parser.Grammar

/-!
A parser seen through the tokens ahead of it.

`Parser.pending` lists them, the token the parser stands on first and the end of the text last; one
step of the parser takes one token off the front. `Parser.Reaches` is a run of such steps over
tokens that a program can hold. `Runs` says how a piece of parsing ends, in a value or in a failure,
and opens along the steps a reader is made of; `Shrinks` is the part of it that every reader keeps:
no token ever comes back.
-/

namespace PlZero

/-- Is it a token that a program can hold: neither the end of the text nor a run that is none? -/
def Token.Kind.isProper : Token.Kind → Bool
  | .endOfText | .invalid _ => false
  | _ => true

theorem Token.Kind.ne_endOfText {k : Token.Kind} (h : k.isProper = true) :
    k ≠ .endOfText := by
  rintro rfl
  simp [isProper] at h

theorem Token.Kind.fault?_eq_none {k : Token.Kind} (h : k.isProper = true) :
    k.fault? = none := by
  cases k with
  | invalid fault => simp [isProper] at h
  | _ => rfl

namespace Parser

/-! ### The tokens ahead -/

/-- The tokens ahead of a parser: the one it stands on first, the end of the text last. -/
def pending (p : Parser) : List Token :=
  if p.current.kind = .endOfText then [p.current] else p.current :: p.scanner.drain.1

theorem pending_eq_cons (p : Parser) : ∃ later, p.pending = p.current :: later := by
  unfold pending
  split
  · exact ⟨_, rfl⟩
  · exact ⟨_, rfl⟩

theorem pending_ne_nil (p : Parser) : p.pending ≠ [] := by
  obtain ⟨later, h⟩ := p.pending_eq_cons
  simp [h]

theorem pending_of_end {p : Parser} (h : p.current.kind = .endOfText) : p.pending = [p.current] :=
  if_pos h

/-- One step takes one token off the front. -/
theorem pending_advance {p : Parser} (h : p.current.kind ≠ .endOfText) :
    p.pending = p.current :: p.advance.pending := by
  rw [pending, if_neg h, Scanner.drain, pending, advance]
  split <;> rfl

/-- A new parser has all tokens of its text ahead. -/
theorem pending_ofString (source : String) : (ofString source).pending = tokenize source := by
  rw [tokenize, Scanner.drain, pending]
  change (if (Scanner.ofString source).next.1.kind = .endOfText then _ else _) = _
  split <;> rfl

/-- There are no more tokens ahead than the bound on nesting allows for. -/
theorem drain_length_le (s : Scanner) : s.drain.1.length ≤ s.rest.length + 1 := by
  fun_induction Scanner.drain s with
  | case1 s step atEnd => simp
  | case2 s step more later ih =>
    have shorter := Scanner.next_length_lt more
    simp only [List.length_cons]
    exact Nat.succ_le_succ (Nat.le_trans ih shorter)

/-- The fuel is enough for any phrase: eight rounds for each token ahead, and no phrase makes more
without taking one. -/
theorem pending_length_le_fuel (p : Parser) : 8 * p.pending.length ≤ p.fuel := by
  have bound := drain_length_le p.scanner
  unfold pending fuel
  split
  · simp only [List.length_singleton]
    omega
  · simp only [List.length_cons]
    omega

/-! ### Runs over tokens -/

/-- `p.Reaches taken q`: from `p` the parser gets to `q` by taking `taken`, each a token that a
program can hold. -/
inductive Reaches : Parser → List Token → Parser → Prop where
  | refl {p : Parser} : Reaches p [] p
  | step {p q : Parser} {taken : List Token} :
      p.current.kind.isProper = true → Reaches p.advance taken q →
      Reaches p (p.current :: taken) q

theorem Reaches.single {p : Parser} (h : p.current.kind.isProper = true) :
    Reaches p [p.current] p.advance :=
  .step h .refl

/-- Tokens taken behind tokens taken. -/
theorem Reaches.trans {p q r : Parser} {u v : List Token} (first : Reaches p u q)
    (second : Reaches q v r) : Reaches p (u ++ v) r := by
  induction first with
  | refl => exact second
  | step proper _ ih => exact .step proper (ih second)

/-- What was taken stood ahead. -/
theorem Reaches.pending_eq {p q : Parser} {taken : List Token} (h : Reaches p taken q) :
    p.pending = taken ++ q.pending := by
  induction h with
  | refl => rfl
  | step proper _ ih => rw [pending_advance (Token.Kind.ne_endOfText proper), ih, List.cons_append]

/-- Taking tokens adds no grammar fault. -/
theorem Reaches.diagnostics_eq {p q : Parser} {taken : List Token} (h : Reaches p taken q) :
    q.diagnostics = p.diagnostics := by
  induction h with
  | refl => rfl
  | step _ _ ih => exact ih

/-- The scanner has recorded the fault of the current token and no other. -/
def Tidy (p : Parser) : Prop := p.scanner.diagnostics = p.current.diagnostic?.toList

/-- The scanner reports the token it makes, if that is faulty. -/
theorem diagnostics_next (s : Scanner) :
    s.next.2.diagnostics = s.diagnostics ++ s.next.1.diagnostic?.toList := by
  unfold Scanner.next
  split
  · simp [Token.diagnostic?, Token.Kind.fault?]
  · rfl

theorem tidy_ofString (source : String) : (ofString source).Tidy := by
  rw [Tidy, ofString, diagnostics_next]
  rfl

/-- Past a proper token, the fault of the next one is recorded and no other. -/
theorem Tidy.advance {p : Parser} (tidy : p.Tidy) (proper : p.current.kind.isProper = true) :
    p.advance.Tidy := by
  have silent : p.scanner.diagnostics = [] := by
    rw [tidy, Token.diagnostic?, Token.Kind.fault?_eq_none proper]
    rfl
  rw [Tidy, Parser.advance, diagnostics_next, silent]
  rfl

/-- The same along a run over proper tokens. -/
theorem Reaches.tidy {p q : Parser} {taken : List Token} (h : Reaches p taken q)
    (tidy : p.Tidy) : q.Tidy := by
  induction h with
  | refl => exact tidy
  | step proper _ ih => exact ih (tidy.advance proper)

theorem Reaches.proper {p q : Parser} {taken : List Token} (h : Reaches p taken q) :
    ∀ t ∈ taken, t.kind.isProper = true := by
  induction h with
  | refl => simp
  | step proper _ ih => simpa using ⟨proper, ih⟩

end Parser

/-! ### The end of the text -/

theorem readLexeme_ne_endOfText (c : Char) (rest : List Char) :
    (readLexeme c rest).1 ≠ .endOfText := by
  have word (run : List Char) : wordKind run ≠ .endOfText := by
    simp only [wordKind]
    split <;> simp
  have number (value : Option Int32) : numberKind value ≠ .endOfText := by
    cases value <;> simp [numberKind]
  have operator (run : List Char) : operatorKind run ≠ .endOfText := by
    unfold operatorKind
    split <;> simp
  unfold readLexeme
  repeat' split
  · exact word _
  · exact number _
  · exact number _
  · exact operator _
  · simp

/-- Behind the end of the text the scanner finds the same end again. -/
theorem Scanner.next_of_end {s : Scanner} (h : s.next.1.kind = .endOfText) :
    s.next.2.next = s.next := by
  unfold Scanner.next at h ⊢
  split at h
  · simp [skipSeparators]
  · exact absurd h (readLexeme_ne_endOfText _ _)

/-- A parser at the end of the text stays there. -/
def Parser.Settled (p : Parser) : Prop := p.current.kind = .endOfText → p.advance = p

/-- A parser that was advanced to the end of the text stays there. -/
theorem Parser.settled_advance (p : Parser) : p.advance.Settled := by
  intro atEnd
  change { p with scanner := p.scanner.next.2.next.2, current := p.scanner.next.2.next.1 } =
    { p with scanner := p.scanner.next.2, current := p.scanner.next.1 }
  rw [Scanner.next_of_end atEnd]

theorem Parser.settled_ofString (source : String) : (Parser.ofString source).Settled := by
  intro atEnd
  change Parser.mk (Scanner.ofString source).next.2.next.2 (Scanner.ofString source).next.2.next.1 [] =
    Parser.mk (Scanner.ofString source).next.2 (Scanner.ofString source).next.1 []
  rw [Scanner.next_of_end atEnd]

namespace Parsing

variable {α β : Type}

/-! ### How a piece of parsing ends -/

/-- Started at `p`, the reader `r` ends in a value as `ok` says or in a failure as `err` says. -/
def Runs (r : Parsing α) (p : Parser) (ok : α → Parser → Prop) (err : Failure → Parser → Prop) :
    Prop :=
  match r p with
  | .ok a q => ok a q
  | .error failure q => err failure q

section

variable {r : Parsing α} {p : Parser} {ok ok' : α → Parser → Prop}
  {err err' : Failure → Parser → Prop}

/-- What is known of the ends may be weakened. -/
theorem Runs.mono (h : Runs r p ok err) (okImp : ∀ a q, ok a q → ok' a q)
    (errImp : ∀ failure q, err failure q → err' failure q) : Runs r p ok' err' := by
  unfold Runs at h ⊢
  split at h
  · exact okImp _ _ h
  · exact errImp _ _ h

/-- Reader after reader: the second begins where the first ended. -/
theorem runs_bind {f : α → Parsing β} {ok : β → Parser → Prop} :
    Runs (r >>= f) p ok err ↔ Runs r p (fun a q => Runs (f a) q ok err) err := by
  unfold Runs
  change (match EStateM.bind r f p with
    | .ok a q => ok a q
    | .error failure q => err failure q) ↔ _
  unfold EStateM.bind
  cases r p <;> rfl

theorem runs_pure {a : α} : Runs (pure a) p ok err ↔ ok a p := Iff.rfl

theorem runs_get {ok : Parser → Parser → Prop} : Runs get p ok err ↔ ok p p := Iff.rfl

theorem runs_currentKind {ok : Token.Kind → Parser → Prop} :
    Runs currentKind p ok err ↔ ok p.current.kind p := Iff.rfl

theorem runs_currentLine {ok : Nat → Parser → Prop} :
    Runs currentLine p ok err ↔ ok p.current.line p := Iff.rfl

theorem runs_sees {kind : Token.Kind} {ok : Bool → Parser → Prop} :
    Runs (sees kind) p ok err ↔ ok (decide (p.current.kind = kind)) p := Iff.rfl

theorem runs_skip {ok : Unit → Parser → Prop} : Runs skip p ok err ↔ ok () p.advance := Iff.rfl

/-- `q` is `p` stopped by a token that did not fit, with `failure` to show for it. -/
def Rejects (p : Parser) (failure : Failure) (q : Parser) : Prop :=
  ∃ fault, reject (α := Unit) fault p = .error failure q

/-- A rejection is an end, with the fault reported for the current token. -/
theorem runs_reject {fault : GrammarFault} (h : ∀ failure q, Rejects p failure q → err failure q) :
    Runs (reject fault) p ok err := by
  have stopped : ∃ failure q, reject (α := α) fault p = .error failure q ∧ Rejects p failure q := by
    unfold Rejects reject
    cases hk : p.current.kind with
    | invalid lexicalFault => exact ⟨_, _, rfl, fault, rfl⟩
    | _ => exact ⟨_, _, rfl, fault, rfl⟩
  obtain ⟨failure, q, same, rejects⟩ := stopped
  unfold Runs
  rw [same]
  exact h _ _ rejects

/-- A branch on the current token. -/
theorem runs_if_sees {kind : Token.Kind} {yes no : Parsing α}
    (seen : p.current.kind = kind → Runs yes p ok err)
    (unseen : p.current.kind ≠ kind → Runs no p ok err) :
    Runs (do if ← sees kind then yes else no) p ok err := by
  simp only [runs_bind, runs_sees]
  by_cases fits : p.current.kind = kind
  · simpa [fits] using seen fits
  · simpa [fits] using unseen fits

/-- The expected token is taken, or the parser rejects. -/
theorem runs_expect {kind : Token.Kind} {fault : GrammarFault} {ok : Unit → Parser → Prop}
    (taken : p.current.kind = kind → ok () p.advance)
    (stopped : p.current.kind ≠ kind → ∀ failure q, Rejects p failure q → err failure q) :
    Runs (expect kind fault) p ok err := by
  refine runs_if_sees taken fun other => ?_
  exact runs_reject (stopped other)

theorem runs_expectName {fault : GrammarFault} {ok : String → Parser → Prop}
    (taken : ∀ text, p.current.kind = .name text → ok text p.advance)
    (stopped : (∀ text, p.current.kind ≠ .name text) →
      ∀ failure q, Rejects p failure q → err failure q) :
    Runs (expectName fault) p ok err := by
  simp only [expectName, runs_bind, runs_currentKind]
  split
  · next text fits => exact taken text fits
  · next other => exact runs_reject (stopped other)

/-- An operator of the sort is taken, or nothing is. -/
theorem runs_operator? {sort : BinaryOp → Bool} {ok : Option BinaryOp → Parser → Prop}
    (taken : ∀ op, p.current.kind = .operator (.binary op) → sort op = true →
      ok (some op) p.advance)
    (absent : (∀ op, p.current.kind = .operator (.binary op) → sort op = false) → ok none p) :
    Runs (operator? sort) p ok err := by
  simp only [operator?, runs_bind, runs_currentKind]
  split
  · next op fits =>
    by_cases isSort : sort op = true
    · simp only [isSort, if_true, runs_bind, runs_skip, runs_pure]
      exact taken op fits isSort
    · simp only [isSort, Bool.false_eq_true, if_false, runs_pure]
      refine absent fun op' fits' => ?_
      rw [fits] at fits'
      cases fits'
      simpa using isSort
  · next other => exact absent fun op fits => absurd fits (other op)

end

end Parsing

end PlZero
