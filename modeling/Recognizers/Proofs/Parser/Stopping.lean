import Recognizers.Proofs.Parser.Ledger
import Recognizers.Proofs.Table.Listed

/-!
Where a parse stops: the first time that nothing but the goal is left to read, however many trees
there are. A run that would come there again with a single tree is cut off when there were more trees
the first time (`accepting_run_cut_off`).
-/
namespace Recognizers
namespace Parser

variable {p : Parser} {goal : Symbol} {input : List Symbol} {past : List (Turn Config)}
  {c d : Config}

theorem Leads.unfinished_or (leads : p.Leads c past d) (goal : Symbol) :
    (∀ t ∈ past, t.config.tape.endsWith goal = false) ∨
      ∃ first e later, p.Leads c first e ∧
        (∀ t ∈ first, t.config.tape.endsWith goal = false) ∧
        e.tape.endsWith goal = true ∧ p.Leads e later d := by
  induction leads with
  | start => exact .inl (by simp)
  | @turn past d action next before chosen taken ih =>
    rcases ih with unfinished | ⟨first, e, later, here, unfinished, finished, rest⟩
    · cases finished : d.tape.endsWith goal with
      | true => exact .inr ⟨past, d, _, before, unfinished, finished, Leads.single chosen taken⟩
      | false =>
        refine .inl fun t member => ?_
        rcases List.mem_cons.mp member with latest | earlier
        · rw [latest]
          exact finished
        · exact unfinished t earlier
    · exact .inr ⟨first, e, _, here, unfinished, finished, .turn rest chosen taken⟩

theorem Leads.first_over (leads : p.Leads c past d) (finished : d.tape.endsWith goal = true) :
    ∃ first e later, p.Leads c first e ∧
      (∀ t ∈ first, t.config.tape.endsWith goal = false) ∧
      e.tape.endsWith goal = true ∧ p.Leads e later d := by
  rcases leads.unfinished_or goal with unfinished | earlier
  · exact ⟨past, d, [], leads, unfinished, finished, .start⟩
  · exact earlier

theorem Leads.eq_of_idle (leads : p.Leads c past d) (idle : p.action? c = none) : d = c := by
  induction leads with
  | start => rfl
  | turn before chosen taken ih =>
    rw [ih, idle] at chosen
    cases chosen

theorem trees_of_written (leads : p.Leads (.start input) past d)
    (written : (p.ledger past).written ≠ []) : d.forest.trees ≠ [] := by
  induction leads with
  | start => exact absurd rfl written
  | @turn past d action next before chosen taken ih =>
    cases act_effect taken with
    | shift target =>
      rw [Forest.trees_grow]
      exact nofun
    | goto target =>
      apply ih
      intro none
      have passed : (p.ledger past).pass.written = [] := by rw [Ledger.pass_of_nil none]
      exact written passed
    | reduce id rule known enough =>
      rw [Forest.trees_join]
      exact nofun

theorem parse_of_first_over (started : p.startSymbol = .ok goal)
    (leads : p.Leads (.start input) past d)
    (unfinished : ∀ t ∈ past, t.config.tape.endsWith goal = false)
    (finished : d.tape.endsWith goal = true) :
    p.parse (past.length + 1) input = some (finish d.forest) := by
  simp only [parse, started]
  rw [run_of_leads leads unfinished, run_of_over finished]

/-- A run that ignores the stopping test and comes to an accepting configuration has a first
configuration in which only the goal is left. The parse ends there, with a tree if that is the
only one; otherwise it is incomplete, with more than one. A table without actions on the goal
lets the run come no further than that, so the parse returns the tree of the accepting
configuration. -/
theorem parse_ends_at_first_goal (started : p.startSymbol = .ok goal)
    (terminals : ∀ s ∈ input, s.kind = .terminal) (leads : p.Leads (.start input) past c)
    (accepting : c.tape.ahead = [goal]) {t : ParseTree} (only : c.forest.single? = some t) :
    ∃ first d later, p.Leads (.start input) first d ∧
      (∀ turn ∈ first, turn.config.tape.ahead ≠ [goal]) ∧ d.tape.ahead = [goal] ∧
      p.Leads d later c ∧
      ((∃ limit u, p.parse limit input = some (.ok u)) ↔ d.forest.trees.length = 1) ∧
      (d.forest.trees.length ≠ 1 → 1 < d.forest.trees.length ∧
        ∃ limit, p.parse limit input = some (.error (.incomplete d.forest.symbols))) ∧
      ((∀ state, p.table.action? state goal = none) →
        ∃ limit, p.parse limit input = some (.ok t)) := by
  have finished := (Tape.endsWith_iff c.tape goal).mpr accepting
  obtain ⟨first, d, later, here, unfinished, stops, rest⟩ := leads.first_over finished
  have ended := parse_of_first_over started here unfinished stops
  have left := (Tape.endsWith_iff d.tape goal).mp stops
  refine ⟨first, d, later, here, ?_, left, rest, ?_, ?_, ?_⟩
  · intro turn member ahead
    have again := (Tape.endsWith_iff turn.config.tape goal).mpr ahead
    rw [unfinished turn member] at again
    cases again
  · rw [← finish_isOk_iff]
    constructor
    · rintro ⟨limit, u, parsed⟩
      exact ⟨u, parse_unique ended parsed⟩
    · rintro ⟨u, done⟩
      exact ⟨_, u, ended.trans (congrArg some done)⟩
  · intro many
    have written := (leads_balanced here).written_of_over terminals
      (startSymbol_nonterminal started) stops
    have some_tree := trees_of_written here (by rw [written.1]; exact nofun)
    have count := List.length_pos_iff.mpr some_tree
    exact ⟨by omega, _, ended.trans (congrArg some (finish_of_many many))⟩
  · intro idle
    have missing : p.action? d = none := by
      rw [action?, Tape.look_eq, left, List.headD_cons, idle]
    have last := rest.eq_of_idle missing
    subst last
    exact ⟨_, ended.trans (congrArg some (finish_of_single only))⟩

/-- The rules `S -> a S` and `S -> a`, with `a` the terminal 2 and `S` the non-terminal 0. -/
def rightRecursive : Parser where
  grammar := { productions := #[⟨0, [.terminal 2, .nonterminal 0]⟩, ⟨0, [.terminal 2]⟩] }
  table := .ofLists [(⟨0, .terminal 2⟩, 1), (⟨1, .terminal 2⟩, 1), (⟨1, .nonterminal 0⟩, 2)]
    [(⟨1, .eof⟩, 1), (⟨2, .eof⟩, 0)] [2]

theorem rightRecursive_start : rightRecursive.startSymbol = .ok (.nonterminal 0) :=
  startSymbol_of_final (Table.min?_finals_ofLists _ _ _) rfl rfl rfl

theorem rightRecursive_accepts : ∃ past c t,
    rightRecursive.Leads (.start [.terminal 2, .terminal 2]) past c ∧
      c.tape.ahead = [.nonterminal 0] ∧ c.forest.single? = some t ∧
      t.unfold.symbol = .nonterminal 0 :=
  ⟨_, _, _, Leads.start.turn rfl rfl |>.turn rfl rfl |>.turn rfl rfl |>.turn rfl rfl
    |>.turn rfl rfl, rfl, rfl, (ParseTree.symbol_unfold rfl).trans rfl⟩

theorem rightRecursive_incomplete : rightRecursive.parse 20 [.terminal 2, .terminal 2] =
    some (.error (.incomplete [.terminal 2, .nonterminal 0])) :=
  parse_of_start rightRecursive_start 20 _

theorem first_goal_cuts_off_or_accepts :
    (∃ (d : Config) (limit : Nat), d.tape.ahead = [.nonterminal 0] ∧ 1 < d.forest.trees.length ∧
      rightRecursive.parse limit [.terminal 2, .terminal 2] =
        some (.error (.incomplete d.forest.symbols))) ∧
    ∃ limit t, endmarked.parse limit [.terminal 2] = some (.ok t) := by
  constructor
  · obtain ⟨_, _, _, leads, ahead, only, _⟩ := rightRecursive_accepts
    obtain ⟨first, d, later, _, _, left, _, accepts, cut, _⟩ :=
      parse_ends_at_first_goal rightRecursive_start (by decide) leads ahead only
    have many : d.forest.trees.length ≠ 1 := by
      intro one
      obtain ⟨limit, t, parsed⟩ := accepts.mpr one
      cases parse_unique parsed rightRecursive_incomplete
    obtain ⟨more, limit, parsed⟩ := cut many
    exact ⟨d, limit, left, more, parsed⟩
  · have leads : endmarked.Leads (.start [.terminal 2]) _ _ :=
      Leads.start.turn rfl rfl |>.turn rfl rfl |>.turn rfl rfl |>.turn rfl rfl |>.turn rfl rfl
        |>.turn rfl rfl |>.turn rfl rfl
    obtain ⟨_, _, _, _, _, _, _, _, _, ends⟩ :=
      parse_ends_at_first_goal endmarked_start (by decide) leads rfl rfl
    obtain ⟨limit, parsed⟩ := ends (Table.action?_ofLists_eq_none (by decide) (by decide))
    exact ⟨limit, _, parsed⟩

theorem accepting_run_cut_off : ¬ ∀ (p : Parser) (goal : Symbol) (input : List Symbol)
    (past : List (Turn Config)) (c : Config) (t : ParseTree), p.startSymbol = .ok goal →
    (∀ s ∈ input, s.kind = .terminal) → p.Leads (.start input) past c →
    c.tape.ahead = [goal] → c.forest.single? = some t → t.unfold.symbol = goal →
    ∃ limit u, p.parse limit input = some (.ok u) := by
  intro accepts
  obtain ⟨past, c, t, leads, ahead, only, symbol⟩ := rightRecursive_accepts
  obtain ⟨limit, u, parsed⟩ := accepts rightRecursive (.nonterminal 0) _ past c t
    rightRecursive_start (by decide) leads ahead only symbol
  cases parse_unique parsed rightRecursive_incomplete

end Parser
end Recognizers
