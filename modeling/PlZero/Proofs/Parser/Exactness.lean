import PlZero.Proofs.Parser.Complete
import PlZero.Proofs.Parser.Derivable
import PlZero.Proofs.Parser.Sound

/-!
What `parse` accepts, which tree it gives, and where it stops.

`parse_eq_ok_iff`: a text is accepted exactly if its tokens are a sentence of the grammar, and the
tree is then the one of its derivation. `parse_stops_on_first_misfit`: a text that is not accepted
is rejected on the first token with which it can no longer become a sentence, and the failure and
the diagnostics are those of that token.
-/

namespace PlZero.Grammar

open Token (Kind)
open Parsing (Runs Rejects runs_bind runs_get runs_if_sees runs_reject runs_pure)

/-- `w` is the beginning of a sentence with the end of its text. -/
def Begins (w : List Kind) : Prop := ∃ v, Sentence (w ++ v)

theorem Begins.of_prefix {u w : List Kind} (h : Begins w) (isPrefix : u <+: w) : Begins u := by
  obtain ⟨v, sentence⟩ := h
  obtain ⟨middle, rfl⟩ := isPrefix
  exact ⟨middle ++ v, by rwa [← List.append_assoc]⟩

/-- A text is the beginning of a sentence as far as `u` and no further. -/
theorem begins_take_iff {u v : List Kind} {k : Kind} (begins : Begins u)
    (misfit : ¬ Begins (u ++ [k])) (j : Nat) : Begins ((u ++ k :: v).take j) ↔ j ≤ u.length := by
  constructor
  · intro longer
    by_contra! beyond
    refine misfit (longer.of_prefix (List.prefix_take_iff.mpr ⟨⟨v, by simp⟩, ?_⟩))
    rw [List.length_append, List.length_singleton]
    exact beyond
  · intro le
    rw [List.take_append_of_le_length le]
    exact begins.of_prefix (List.take_prefix j u)

/-! ### Programs -/

/-- What can be continued to a block can be continued to a program. -/
theorem begins_of_block {w : List Kind} (h : Viable (language .block) w) : Begins w := by
  obtain ⟨v, mem⟩ := h
  refine ⟨v ++ [.char '.', .endOfText], w ++ v ++ [.char '.'], ?_, by simp⟩
  exact mem_language (append_mem_prod mem (mem_prod_singleton.mpr (singleton_mem_one.mpr rfl)))

/-- A program ends on the end of the text, or on a token up to which it could have become one. -/
theorem program_runs (p : Parser) :
    Runs Parsing.program p
      (fun tree q => (∃ taken, p.Reaches taken q) ∧ q.current.kind = .endOfText ∧
        DerivesProgram p.pending tree)
      (fun failure q => ∃ taken place, p.Reaches taken place ∧ Begins (kinds taken) ∧
        Rejects place failure q) := by
  unfold Parsing.program
  rw [runs_bind, runs_get, runs_bind]
  refine (block_sound p.fuel p trivial).mono ?_ ?_
  · rintro tree q accepted
    obtain ⟨taken, reaches, mem⟩ := accepted.mem
    have begins : Begins (kinds taken) := begins_of_block ⟨[], by rwa [List.append_nil]⟩
    rw [runs_bind]
    refine Parsing.runs_expect (fun isPeriod => ?_) fun _ failure r rejects => ?_
    · have proper := isProper_of_eq isPeriod rfl
      have reached := reaches.trans (.single proper)
      refine runs_if_sees (fun isFinal => ?_) fun _ => ?_
      · refine ⟨⟨_, reached⟩, isFinal, q.current, q.advance.current, ?_, isPeriod, isFinal⟩
        have derives := accepted.2
        rwa [pending_of_proper proper, Parser.pending_of_end isFinal] at derives
      · refine runs_reject fun failure r rejects => ⟨_, _, reached, ?_, rejects⟩
        refine ⟨[.endOfText], kinds taken ++ [.char '.'], ?_, by simp [isPeriod]⟩
        exact mem_language (append_mem_prod mem
          (mem_prod_singleton.mpr (singleton_mem_one.mpr rfl)))
    · exact ⟨taken, q, reaches, begins, rejects⟩
  · rintro failure q ⟨taken, place, reaches, viable, rejects⟩
    exact ⟨taken, place, reaches, begins_of_block viable, rejects⟩

/-- Reading a program goes along with every derivation of one. -/
theorem DerivesProgram.keeps {actual imagined tokens : List Token} {p : Parser} {tree : Block}
    (h : DerivesProgram tokens tree) (together : Together actual imagined p tokens) :
    ∃ rest, Keeps actual imagined Parsing.program p tree rest := by
  obtain ⟨period, final, derives, isPeriod, isFinal⟩ := h
  have stops : Ahead Phrase.block.Follow [period, final] := ahead_cons.mpr (Or.inr isPeriod)
  have enough : Enough actual imagined p.fuel .block tokens := by
    have bound := p.pending_length_le_fuel
    have length := together.length_eq
    unfold Enough
    omega
  refine ⟨[final], runs_bind.mpr (runs_get.mpr ?_)⟩
  refine (derives.follows (fun _ _ => trivial) p.fuel p together enough stops).bind
    fun q together => ?_
  refine (keeps_expect together isPeriod rfl).bind fun r together => ?_
  refine (keeps_if_seen ?_).mpr (keeps_pure together)
  rw [together.current_eq, isFinal]

/-! ### Acceptance -/

/-- Completeness: a tree that the grammar gives to the tokens of a text is returned. -/
theorem parse_eq_ok_of_derivesProgram {source : String} {tree : Block}
    (h : DerivesProgram (tokenize source) tree) : parse source = .ok tree := by
  have together : Together [] [] (Parser.ofString source) (tokenize source) := by
    refine ⟨Parser.settled_ofString source, tokenize source, ?_, ?_, by simp⟩
    · rw [← Parser.pending_ofString]
      exact Parser.pending_ne_nil _
    · rw [Parser.pending_ofString, List.append_nil]
  have never (q : Parser) : ¬ Past [] q := fun past =>
    q.pending_ne_nil (List.suffix_nil.mp past.2)
  obtain ⟨rest, keeps⟩ := h.keeps together
  unfold Keeps Runs at keeps
  unfold parse Parser.parse
  split at keeps
  · next found q ended =>
    rcases keeps with ⟨rfl, _⟩ | past
    · rw [ended]
    · exact absurd past (never q)
  · next q ended => exact absurd keeps (never q)

/-- Soundness: a tree that is returned is the one the grammar gives to the tokens of the text. -/
theorem derivesProgram_of_parse {source : String} {tree : Block} (h : parse source = .ok tree) :
    DerivesProgram (tokenize source) tree := by
  have runs := program_runs (Parser.ofString source)
  unfold Runs at runs
  unfold parse Parser.parse at h
  split at runs
  · next found q ended =>
    rw [ended] at h
    cases h
    rw [← Parser.pending_ofString]
    exact runs.2.2
  · next failure q ended =>
    rw [ended] at h
    cases h

/-- A text is accepted exactly if the kinds of its tokens are a sentence of the grammar with the end
of the text behind it, and the tree is then the one that the derivation determines. -/
theorem parse_eq_ok_iff (source : String) :
    ((∃ tree, parse source = .ok tree) ↔ Sentence (kinds (tokenize source))) ∧
      ∀ tree, parse source = .ok tree ↔ DerivesProgram (tokenize source) tree := by
  constructor
  · constructor
    · rintro ⟨tree, accepted⟩
      exact (derivesProgram_of_parse accepted).sentence
    · intro sentence
      obtain ⟨tree, derives⟩ := derivesProgram_of_sentence sentence
      exact ⟨tree, parse_eq_ok_of_derivesProgram derives⟩
  · intro tree
    exact ⟨derivesProgram_of_parse, parse_eq_ok_of_derivesProgram⟩

/-! ### Rejection -/

/-- A failure and the diagnostics beside it, for the token the parser was left on. A token that is
none was already reported when it was scanned. -/
def Reported (failure : Failure) (p : Parser) : Prop :=
  match p.current.kind with
  | .invalid _ => ∃ last, p.scanner.diagnostics.getLast? = some last ∧
      failure = .lexical p.current.line last.message ∧ p.diagnostics = []
  | _ => ∃ message, failure = .grammar p.current.line message ∧
      p.diagnostics = [{ stage := .parser, line := p.current.line, message }] ∧
      p.scanner.diagnostics = []

/-- Where the parser rejects, it does not go on. -/
theorem rejects_current {place q : Parser} {failure : Failure} (h : Rejects place failure q) :
    q.current = place.current := by
  obtain ⟨fault, same⟩ := h
  unfold Parsing.reject at same
  split at same <;> cases same <;> rfl

/-- The report is about the current token. -/
theorem rejects_reported {place q : Parser} {failure : Failure} (h : Rejects place failure q)
    (tidy : place.Tidy) (silent : place.diagnostics = []) : Reported failure q := by
  have current := rejects_current h
  obtain ⟨fault, same⟩ := h
  unfold Reported
  rw [current]
  unfold Parsing.reject at same
  unfold Parser.Tidy Token.diagnostic? at tidy
  cases kind : place.current.kind with
  | invalid lexicalFault =>
    rw [kind] at same tidy
    cases same
    refine ⟨lexicalFault.diagnostic place.current.line, ?_, rfl, silent⟩
    rw [tidy]
    rfl
  | _ =>
    rw [kind] at same tidy
    cases same
    refine ⟨fault.message, rfl, ?_, tidy⟩
    rw [silent]
    rfl

/-- The token that was rejected cannot come next in any sentence. -/
theorem not_begins_of_rejects {source : String} {failure : Failure} {taken : List Token}
    {place q : Parser} (reaches : (Parser.ofString source).Reaches taken place)
    (rejects : Rejects place failure q)
    (ended : Parsing.program (Parser.ofString source) = .error failure q) :
    ¬ Begins (kinds (taken ++ [place.current])) := by
  rintro ⟨v, sentence⟩
  obtain ⟨later, ahead⟩ := place.pending_eq_cons
  -- The text as it would have to go on; the parser is with it up to the rejected token.
  obtain ⟨imagined, spells⟩ : ∃ imagined, kinds imagined = v :=
    ⟨v.map fun kind => { kind, line := 0 }, by simp [kinds, Function.comp_def]⟩
  rw [← spells, ← kinds_append] at sentence
  have together : Together later imagined (Parser.ofString source)
      (taken ++ [place.current] ++ imagined) := by
    refine ⟨Parser.settled_ofString source, taken ++ [place.current], by simp, ?_, rfl⟩
    rw [reaches.pending_eq, ahead]
    simp
  obtain ⟨tree, derives⟩ := derivesProgram_of_sentence sentence
  obtain ⟨rest, keeps⟩ := derives.keeps together
  unfold Keeps Runs at keeps
  rw [ended] at keeps
  have short := keeps.2.length_le
  rw [rejects.pending_eq, ahead, List.length_cons] at short
  omega

/-- Where parsing a text ends. If it fails, the parser is left on the first token with which the
text stops being the beginning of a sentence, and that token is what is reported. If it succeeds,
the parser is at the end of the text, nothing was reported, and every token is one. -/
theorem parse_stops_on_first_misfit (source : String) :
    match (Parser.ofString source).parse with
    | (.ok _, p) => p.errorCount = 0 ∧ p.current.kind = .endOfText ∧
        ∀ t ∈ tokenize source, ∀ fault, t.kind ≠ .invalid fault
    | (.error failure, p) =>
        (∃ k, (tokenize source)[k]? = some p.current ∧
          ∀ j, Begins ((kinds (tokenize source)).take j) ↔ j ≤ k) ∧ Reported failure p := by
  have runs := program_runs (Parser.ofString source)
  unfold Runs at runs
  unfold Parser.parse
  split at runs
  · next tree p ended =>
    rw [ended]
    obtain ⟨⟨taken, reaches⟩, atEnd, _⟩ := runs
    have silent : p.scanner.diagnostics = [] := by
      rw [reaches.tidy (Parser.tidy_ofString source), Token.diagnostic?, atEnd]
      rfl
    refine ⟨?_, atEnd, fun t mem fault invalid => ?_⟩
    · rw [Parser.errorCount, silent, reaches.diagnostics_eq]
      rfl
    · rw [← Parser.pending_ofString, reaches.pending_eq, Parser.pending_of_end atEnd] at mem
      rcases List.mem_append.mp mem with inside | last
      · have proper := reaches.proper t inside
        rw [invalid] at proper
        cases proper
      · rw [List.mem_singleton.mp last, atEnd] at invalid
        cases invalid
  · next failure q ended =>
    rw [ended]
    obtain ⟨taken, place, reaches, begins, rejects⟩ := runs
    have misfit := not_begins_of_rejects reaches rejects ended
    obtain ⟨later, ahead⟩ := place.pending_eq_cons
    have tokens : tokenize source = taken ++ place.current :: later := by
      rw [← Parser.pending_ofString, reaches.pending_eq, ahead]
    rw [kinds_append] at misfit
    refine ⟨⟨taken.length, ?_, fun j => ?_⟩, ?_⟩
    · rw [tokens, rejects_current rejects]
      simp
    · rw [tokens, kinds_append, kinds_cons, begins_take_iff begins misfit, kinds, List.length_map]
    · refine rejects_reported rejects (reaches.tidy (Parser.tidy_ofString source)) ?_
      exact reaches.diagnostics_eq

end PlZero.Grammar
