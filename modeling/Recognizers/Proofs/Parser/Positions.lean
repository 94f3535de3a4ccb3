import Recognizers.Proofs.Parser.Ledger
import Recognizers.Proofs.Table.Listed

/-!
Where a missing action is reported. The cursor moves both ways and symbols may be put in front of
the whole input, yet the books say at every turn where the cursor stands in the input as it was
given (`Balanced.position_eq`). With nothing written back the place is that of the symbol itself.
-/
namespace Recognizers
namespace Parser

variable {p : Parser} {goal : Symbol} {input : List Symbol} {limit : Nat} {l : Ledger}
  {overruns position state : Nat} {symbol : Symbol} {c : Config}

theorem parse_eq_noAction
    (missed : p.parse limit input = some (.error (.noAction position symbol state))) :
    ∃ goal past last, p.startSymbol = .ok goal ∧ p.books goal limit input = p.ledger past ∧
      p.Leads (.start input) past last ∧ position = last.tape.position ∧
      symbol = last.tape.look := by
  obtain ⟨goal, past, last, started, ended, missing, place, look, _⟩ := parse_missing missed
  exact ⟨goal, past, last, started, ended.books_eq (choice_of_missing missing), ended.leads, place,
    look⟩

/-- A missing action with nothing written back is reported at the next symbol of the input, or
beyond it at an end of input. Otherwise it is missing on the symbol that was written back last and
not yet passed, and the place is that many symbols further back, but at least the first one. So a
terminal is always reported at a place of the input that holds it, or beyond the input. -/
theorem missing_action_place
    (missed : p.parse limit input = some (.error (.noAction position symbol state))) :
    ∃ goal books, p.startSymbol = .ok goal ∧ p.books goal limit input = books ∧
      (books.written = [] →
        position = books.read + 1 ∧ symbol = input[books.read]?.getD .eof) ∧
      (∀ latest earlier, books.written = latest :: earlier →
        symbol = latest ∧ symbol.kind = .nonterminal ∧
          position = max 1 (books.read + 1 - books.written.length)) ∧
      (symbol.kind = .terminal → ∃ place, position = place + 1 ∧
        (input[place]? = some symbol ∨ (input.length ≤ place ∧ symbol = .eof))) := by
  obtain ⟨goal, past, last, started, books, leads, rfl, rfl⟩ := parse_eq_noAction missed
  have balanced := leads_balanced leads
  refine ⟨goal, p.ledger past, started, books, ?_, ?_, ?_⟩
  · intro none
    refine ⟨balanced.position none, ?_⟩
    rw [balanced.look_of_nil none, List.headD_eq_head?_getD, List.head?_drop]
  · intro latest earlier written
    have look := balanced.look_of_cons written
    refine ⟨look, ?_, balanced.position_eq⟩
    rw [look]
    exact balanced.nonterminals latest (by simp [written])
  · intro terminal
    have none := balanced.written_of_terminal terminal
    refine ⟨(p.ledger past).read, balanced.position none, ?_⟩
    rcases balanced.look_cases none with inside | ⟨beyond, passed⟩
    · exact .inl inside
    · exact .inr ⟨by omega, beyond⟩

/-- The rules `E ->`, `F ->` and `S -> a`, with `S`, `E`, `F` the non-terminals 0 to 2. The table
passes over the terminal 3 and has no action on `F`. -/
def stalled : Parser where
  grammar := { productions := #[⟨1, []⟩, ⟨2, []⟩, ⟨0, [.terminal 2]⟩] }
  table := .ofLists [(⟨0, .terminal 3⟩, 0)]
    [(⟨0, .terminal 2⟩, 0), (⟨0, .nonterminal 1⟩, 1), (⟨1, .eof⟩, 2)] [1]

theorem stalled_start : stalled.startSymbol = .ok (.nonterminal 0) :=
  startSymbol_of_final (Table.min?_finals_ofLists _ _ _) rfl rfl rfl

/-- Two symbols are written back: after three symbols of the input the error is reported at the
second one, and at its start, where both were put in front, at the first one. -/
theorem stalled_places :
    (∃ books : Ledger, books.read = 3 ∧ books.written = [.nonterminal 2, .nonterminal 1] ∧
      stalled.parse 20 [.terminal 3, .terminal 3, .terminal 3, .terminal 2] = some (.error
        (.noAction (max 1 (books.read + 1 - books.written.length)) (.nonterminal 2) 0))) ∧
    ∃ books : Ledger, books.read = 0 ∧ books.written = [.nonterminal 2, .nonterminal 1] ∧
      stalled.parse 20 [.terminal 2] = some (.error
        (.noAction (max 1 (books.read + 1 - books.written.length)) (.nonterminal 2) 0)) := by
  have later : stalled.parse 20 [.terminal 3, .terminal 3, .terminal 3, .terminal 2] =
      some (.error (.noAction 2 (.nonterminal 2) 0)) := parse_of_start stalled_start 20 _
  have first : stalled.parse 20 [.terminal 2] =
      some (.error (.noAction 1 (.nonterminal 2) 0)) := parse_of_start stalled_start 20 _
  constructor
  · obtain ⟨goal, books, started, same, _, place, _⟩ := missing_action_place later
    cases started.symm.trans stalled_start
    have written : books.written = [.nonterminal 2, .nonterminal 1] := by
      rw [← same]
      rfl
    refine ⟨books, ?_, written, ?_⟩
    · rw [← same]
      rfl
    · rw [← (place _ _ written).2.2]
      exact later
  · obtain ⟨goal, books, started, same, _, place, _⟩ := missing_action_place first
    cases started.symm.trans stalled_start
    have written : books.written = [.nonterminal 2, .nonterminal 1] := by
      rw [← same]
      rfl
    refine ⟨books, ?_, written, ?_⟩
    · rw [← same]
      rfl
    · rw [← (place _ _ written).2.2]
      exact first

end Parser
end Recognizers
