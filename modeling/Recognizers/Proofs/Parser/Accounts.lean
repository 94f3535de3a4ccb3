import Recognizers.Proofs.Parser.Ledger
import Recognizers.Proofs.Table.Listed

/-!
How the cursor, the stacks and the front of the tape keep pace. The stacks differ by what was written
back and by the non-terminals of the input that were passed (`Level`). If the input has none, what was
written back is passed before the next reduction, which finds the stacks equally high.
-/
namespace Recognizers

/-- Whether a reduction is made where there is nothing behind the cursor to write over. -/
def Turn.prepends (t : Turn Config) : Bool :=
  match t.action with
  | some (.reduce _) => t.config.tape.cursor = 0
  | _ => false

namespace Parser

variable {p : Parser} {input : List Symbol} {past : List (Turn Config)} {overruns : Nat}
  {c d : Config}

/-- How many non-terminals of the input were passed: by those gotos that found nothing written
back. -/
def givenGotos (p : Parser) : List (Turn Config) → Nat
  | [] => 0
  | t :: past =>
    match t.action with
    | some (.goto _) =>
      if (p.ledger past).written = [] then p.givenGotos past + 1 else p.givenGotos past
    | _ => p.givenGotos past

structure Level (p : Parser) (past : List (Turn Config)) (c : Config) : Prop where
  heights : c.forest.roots.length + p.givenGotos past =
    (c.states.length - 1) + (p.ledger past).written.length
  bottom : c.states.getLast? = some 0
  prepended : c.tape.prepended = past.countP Turn.prepends

namespace Level

theorem start (p : Parser) (input : List Symbol) : p.Level [] (.start input) := ⟨rfl, rfl, rfl⟩

theorem states_pos (level : p.Level past c) : 0 < c.states.length := by
  apply List.length_pos_iff.mpr
  intro none
  have bottom := level.bottom
  rw [none] at bottom
  cases bottom

theorem bottom_push (level : p.Level past c) (target : Nat) :
    (target :: c.states).getLast? = some 0 := by
  rw [List.getLast?_cons, level.bottom, Option.getD_some]

theorem shift (level : p.Level past c) (balanced : Balanced input (p.ledger past) overruns c)
    {target : Nat} (chosen : p.action? c = some (.shift target)) :
    p.Level (⟨c, some (.shift target)⟩ :: past)
      ⟨target :: c.states, c.forest.grow c.tape.look, c.tape.advance⟩ := by
  have none := balanced.written_of_terminal (shift_terminal chosen)
  refine ⟨?_, level.bottom_push target, ?_⟩
  · have heights := level.heights
    have states := level.states_pos
    simp only [none, List.length_nil] at heights
    simp only [ledger, record, givenGotos, Ledger.pass_of_nil none, Forest.grow, List.length_cons,
      List.length_nil]
    omega
  · simpa [Turn.prepends, Tape.advance] using level.prepended

theorem goto (level : p.Level past c) (target : Nat) :
    p.Level (⟨c, some (.goto target)⟩ :: past)
      ⟨target :: c.states, c.forest, c.tape.advance⟩ := by
  refine ⟨?_, level.bottom_push target, ?_⟩
  · have heights := level.heights
    have states := level.states_pos
    cases written : (p.ledger past).written with
    | nil =>
      simp only [written, List.length_nil] at heights
      simp only [ledger, record, givenGotos, written, Ledger.pass_of_nil written, if_true,
        List.length_cons, List.length_nil]
      omega
    | cons symbol later =>
      simp only [written, List.length_cons] at heights
      simp only [ledger, record, givenGotos, written, Ledger.pass_of_cons written, List.length_cons,
        reduceCtorEq, if_false]
      omega
  · simpa [Turn.prepends, Tape.advance] using level.prepended

theorem reduce (level : p.Level past c) {id : Nat} {rule : Production}
    (known : p.grammar.production? id = some rule) (enough : rule.arity ≤ c.available) :
    p.Level (⟨c, some (.reduce id)⟩ :: past)
      ⟨c.states.drop rule.arity, c.forest.join rule.left id rule.arity,
        c.tape.writeBack rule.left⟩ := by
  have states := level.states_pos
  have trees : rule.arity ≤ c.forest.roots.length := Nat.le_trans enough (Nat.min_le_left _ _)
  have above : rule.arity ≤ c.states.length - 1 := Nat.le_trans enough (Nat.min_le_right _ _)
  refine ⟨?_, ?_, ?_⟩
  · have heights := level.heights
    simp only [ledger, record, known, givenGotos, Ledger.write, Forest.join, List.length_cons,
      List.length_drop]
    omega
  · rw [List.getLast?_drop, if_neg (by omega), level.bottom]
  · rw [List.countP_cons, ← level.prepended]
    cases cursor : c.tape.cursor <;> simp [Tape.writeBack, Turn.prepends, cursor]

end Level

theorem leads_level (leads : p.Leads (.start input) past d) : p.Level past d := by
  induction leads with
  | start => exact Level.start p input
  | @turn past d action e before chosen taken ih =>
    cases act_effect taken with
    | shift target => exact ih.shift (leads_balanced before) chosen
    | goto target => exact ih.goto target
    | reduce id rule known enough => exact ih.reduce known enough

theorem givenGotos_eq_zero (terminals : ∀ s ∈ input, s.kind = .terminal)
    (leads : p.Leads (.start input) past d) : p.givenGotos past = 0 := by
  induction leads with
  | start => rfl
  | @turn past d action e before chosen taken ih =>
    cases action with
    | shift target => exact ih
    | reduce id => exact ih
    | goto target =>
      obtain ⟨later, written⟩ := (leads_balanced before).written_of_nonterminal terminals
        (goto_nonterminal chosen)
      simp only [givenGotos, written, reduceCtorEq, if_false]
      exact ih

section ReducesOnTerminals

variable (reduces : p.table.ReducesOnTerminals)
include reduces

theorem written_at_reduction (leads : p.Leads (.start input) past d) {id : Nat}
    (chosen : p.action? d = some (.reduce id)) : (p.ledger past).written = [] :=
  (leads_balanced leads).written_of_terminal (reduces _ _ _ chosen)

theorem few_written (leads : p.Leads (.start input) past d) :
    (p.ledger past).written.length ≤ 1 := by
  induction leads with
  | start => exact Nat.zero_le 1
  | @turn past d action e before chosen taken ih =>
    cases act_effect taken with
    | shift target => simp [ledger, record, Ledger.pass_of_few ih]
    | goto target => simp [ledger, record, Ledger.pass_of_few ih]
    | reduce id rule known enough =>
      simp [ledger, record, known, Ledger.write, written_at_reduction reduces before chosen]

theorem heights_at_reduction (terminals : ∀ s ∈ input, s.kind = .terminal)
    (leads : p.Leads (.start input) past d) {id : Nat}
    (chosen : p.action? d = some (.reduce id)) :
    d.forest.roots.length = d.states.length - 1 := by
  have heights := (leads_level leads).heights
  rw [written_at_reduction reduces leads chosen, givenGotos_eq_zero terminals leads] at heights
  exact heights

theorem first_of_cursor_zero (leads : p.Leads (.start input) past d) {id : Nat}
    (chosen : p.action? d = some (.reduce id)) (front : d.tape.cursor = 0) : past = [] := by
  have none := written_at_reduction reduces leads chosen
  cases leads with
  | start => rfl
  | turn before earlier taken =>
    cases act_effect taken with
    | shift target => cases front
    | goto target => cases front
    | reduce id rule known enough => simp [ledger, record, known, Ledger.write] at none

theorem first_of_prepends {later earlier : List (Turn Config)} {t : Turn Config}
    (leads : p.Leads (.start input) (later ++ t :: earlier) d) (prepends : t.prepends = true) :
    earlier = [] ∧ ∃ id rule, t.action = some (.reduce id) ∧
      p.grammar.production? id = some rule ∧ rule.right = [] := by
  obtain ⟨action, e, same, before, chosen, taken, _⟩ := leads.cut
  cases act_effect taken with
  | shift target => simp [Turn.prepends, same] at prepends
  | goto target => simp [Turn.prepends, same] at prepends
  | reduce id rule known enough =>
    have front : t.config.tape.cursor = 0 := by simpa [Turn.prepends, same] using prepends
    have first := first_of_cursor_zero reduces before chosen front
    subst first
    refine ⟨rfl, id, rule, same, known, ?_⟩
    -- Nothing was built yet, so nothing can be popped.
    rw [before.eq_of_nil] at enough
    exact List.length_eq_zero_iff.mp (Nat.le_zero.mp enough)

theorem prepends_at_most_once (leads : p.Leads (.start input) past d) :
    past.countP Turn.prepends ≤ 1 := by
  induction leads with
  | start => exact Nat.zero_le 1
  | @turn past d action e before chosen taken ih =>
    rw [List.countP_cons]
    split
    · rename_i prepends
      have leads : p.Leads (.start input) ([] ++ ⟨d, some action⟩ :: past) e :=
        .turn before chosen taken
      rw [(first_of_prepends reduces leads prepends).1]
      exact Nat.le_refl 1
    · exact ih

end ReducesOnTerminals

/-- At every turn the cursor and what was written back make up what was read and put in front, and
the trees and the non-terminals passed in the input make up the states above the bottom and what
was written back; the bottom state is 0. If all symbols of the input are terminals and the table
reduces on terminals only, then at most one symbol waits to be passed, the stacks are equally high
at each reduction, also at one that a parse refuses for want of entries, and a symbol is put in
front of the input at most once, by the first turn, as the left side of an empty production. -/
theorem stacks_and_cursor (p : Parser) (input : List Symbol) :
    (∀ past d, p.Leads (.start input) past d →
      d.tape.cursor + (p.ledger past).written.length =
        (p.ledger past).read + d.tape.prepended ∧
      d.forest.roots.length + p.givenGotos past =
        (d.states.length - 1) + (p.ledger past).written.length ∧
      d.states.getLast? = some 0 ∧ d.tape.prepended = past.countP Turn.prepends) ∧
    ((∀ s ∈ input, s.kind = .terminal) → p.table.ReducesOnTerminals →
      (∀ past d, p.Leads (.start input) past d →
        (p.ledger past).written.length ≤ 1 ∧
        (∀ id, p.action? d = some (.reduce id) →
          d.forest.roots.length = d.states.length - 1) ∧
        past.countP Turn.prepends ≤ 1 ∧
        ∀ later t earlier, past = later ++ t :: earlier → t.prepends = true →
          earlier = [] ∧ ∃ id rule, t.action = some (.reduce id) ∧
            p.grammar.production? id = some rule ∧ rule.right = []) ∧
      ∀ limit id needed available,
        p.parse limit input = some (.error (.stackUnderflow id needed available)) →
        ∃ past last, p.Leads (.start input) past last ∧
          p.step last = .error (.stackUnderflow id needed available) ∧
          available = last.forest.roots.length ∧ available = last.states.length - 1) := by
  refine ⟨fun past d leads => ?_, fun terminals reduces => ⟨fun past d leads => ?_, ?_⟩⟩
  · have level := leads_level leads
    exact ⟨(leads_balanced leads).cursor, level.heights, level.bottom, level.prepended⟩
  · refine ⟨few_written reduces leads, fun id chosen => ?_, prepends_at_most_once reduces leads, ?_⟩
    · exact heights_at_reduction reduces terminals leads chosen
    · rintro later t earlier rfl prepends
      exact first_of_prepends reduces leads prepends
  · intro limit id needed available failed
    obtain ⟨past, last, leads, stopped, chosen, same⟩ := parse_eq_stackUnderflow failed
    have heights := heights_at_reduction reduces terminals leads chosen
    refine ⟨past, last, leads, stopped, ?_, ?_⟩
    · rw [same, Config.available, ← heights, Nat.min_self]
    · rw [same, Config.available, heights, Nat.min_self]

/-- The rules `S -> E a a` and `E ->`, with `a` the terminal 2 and `S`, `E` the non-terminals 0 and
1. The table reduces to `S` one `a` too early. -/
def shallow : Parser where
  grammar := { productions := #[⟨0, [.nonterminal 1, .terminal 2, .terminal 2]⟩, ⟨1, []⟩] }
  table := .ofLists [(⟨0, .nonterminal 1⟩, 1), (⟨1, .terminal 2⟩, 2)]
    [(⟨0, .terminal 2⟩, 1), (⟨2, .eof⟩, 0)] [2]

theorem shallow_start : shallow.startSymbol = .ok (.nonterminal 0) :=
  startSymbol_of_final (Table.min?_finals_ofLists _ _ _) rfl rfl rfl

/-- Over `E a` the stacks are not equally high, for the `E` came without a tree. Over `a` they are:
the `E` is put in front of the input, and both hold two entries where three are needed. -/
theorem shallow_heights :
    (∃ past d, shallow.Leads (.start [.nonterminal 1, .terminal 2]) past d ∧
      d.states = [2, 1, 0] ∧ shallow.givenGotos past = 1 ∧
      d.forest.roots.length + shallow.givenGotos past = (d.states.length - 1) + 0) ∧
    shallow.parse 20 [.terminal 2] = some (.error (.stackUnderflow 0 3 2)) ∧
    ∃ past last, shallow.Leads (.start [.terminal 2]) past last ∧
      last.forest.roots.length = 2 ∧ last.states.length - 1 = 2 ∧
      past.countP Turn.prepends ≤ 1 := by
  have parsed : shallow.parse 20 [.terminal 2] = some (.error (.stackUnderflow 0 3 2)) :=
    parse_of_start shallow_start 20 _
  refine ⟨?_, parsed, ?_⟩
  · have leads : shallow.Leads (.start [.nonterminal 1, .terminal 2]) _ _ :=
      Leads.start.turn rfl rfl |>.turn rfl rfl
    have heights := ((stacks_and_cursor shallow _).1 _ _ leads).2.1
    exact ⟨_, _, leads, rfl, rfl, heights⟩
  · have reduces : shallow.table.ReducesOnTerminals :=
      Table.reducesOnTerminals_ofLists (by decide)
    obtain ⟨turns, underflow⟩ := (stacks_and_cursor shallow [.terminal 2]).2 (by decide) reduces
    obtain ⟨past, last, leads, _, trees, states⟩ := underflow 20 0 3 2 parsed
    exact ⟨past, last, leads, trees.symm, states.symm, (turns past last leads).2.2.1⟩

end Parser
end Recognizers
