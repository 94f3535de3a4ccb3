import Recognizers.Proofs.Parser.Ledger
import Recognizers.Proofs.Table.Listed

/-!
What an error depends on. Two runs whose inputs agree on what was read take the same actions, for
they look at the same symbols (`leads_of_agree`), and over terminals neither is over before its input
was read to the end.
-/
namespace Recognizers
namespace Parser

variable {p : Parser} {goal : Symbol} {u v : List Symbol} {limit place overruns overruns' : Nat}
  {l : Ledger} {past other : List (Turn Config)} {c d : Config}

structure Alike (c d : Config) : Prop where
  states : d.states = c.states
  forest : d.forest = c.forest
  look : d.tape.look = c.tape.look

namespace Alike

theorem state (alike : Alike c d) : d.state = c.state := by
  rw [Config.state, Config.state, alike.states]

theorem action? (alike : Alike c d) : p.action? d = p.action? c := by
  rw [Parser.action?, Parser.action?, alike.state, alike.look]

theorem act (alike : Alike c d) {action : Action} {e : Config} (taken : p.act c action = .ok e) :
    ∃ e', p.act d action = .ok e' ∧ e'.states = e.states ∧ e'.forest = e.forest := by
  obtain ⟨states, forest, look⟩ := alike
  cases act_effect taken with
  | shift target => exact ⟨_, rfl, by rw [states], by rw [forest, look]⟩
  | goto target => exact ⟨_, rfl, by rw [states], forest⟩
  | reduce id rule known enough =>
    have enough' : rule.arity ≤ d.available := by
      rw [Config.available, states, forest]
      exact enough
    refine ⟨⟨d.states.drop rule.arity, d.forest.join rule.left id rule.arity,
      d.tape.writeBack rule.left⟩, ?_, ?_, ?_⟩
    · simp only [Parser.act, reduce, known, enough', if_true]
    · rw [states]
    · rw [forest]

theorem step_of_missing (alike : Alike c d) (balanced : Balanced u l overruns c)
    (balanced' : Balanced v l overruns' d) (missing : p.action? c = none) :
    p.step d = p.step c := by
  have place : d.tape.position = c.tape.position := by
    rw [balanced'.position_eq, balanced.position_eq]
  simp only [step, alike.action?, missing, place, alike.look, alike.state]

end Alike

theorem le_length_of_take (agree : v.take place = u.take place) (inside : place ≤ u.length) :
    place ≤ v.length := by
  have count := congrArg List.length agree
  rw [List.length_take_of_le inside, List.length_take] at count
  omega

theorem look_of_agree (agree : v.take place = u.take place) (leads : p.Leads (.start u) past c)
    (follows : p.Leads (.start v) other d)
    (same : other.map Turn.action = past.map Turn.action)
    (within : (p.ledger past).read < place) : d.tape.look = c.tape.look := by
  have balanced := leads_balanced leads
  have balanced' := leads_balanced follows
  rw [ledger_congr same] at balanced'
  cases written : (p.ledger past).written with
  | cons symbol later => rw [balanced.look_of_cons written, balanced'.look_of_cons written]
  | nil =>
    have next : v[(p.ledger past).read]? = u[(p.ledger past).read]? := by
      rw [← List.getElem?_take_of_lt within, agree, List.getElem?_take_of_lt within]
    rw [balanced.look_of_nil written, balanced'.look_of_nil written, List.headD_eq_head?_getD,
      List.headD_eq_head?_getD, List.head?_drop, List.head?_drop, next]

theorem leads_of_agree (agree : v.take place = u.take place)
    (leads : p.Leads (.start u) past c) (within : (p.ledger past).read < place) :
    ∃ other d, p.Leads (.start v) other d ∧ other.map Turn.action = past.map Turn.action ∧
      Alike c d := by
  induction leads with
  | start =>
    exact ⟨[], .start v, .start, rfl, rfl, rfl, look_of_agree agree .start .start rfl within⟩
  | @turn past c action e before chosen taken ih =>
    obtain ⟨other, d, follows, same, alike⟩ :=
      ih (Nat.lt_of_le_of_lt (read_le_record p _ _) within)
    obtain ⟨e', taken', states, forest⟩ := alike.act taken
    have follows' := follows.turn (alike.action?.trans chosen) taken'
    have same' : (Turn.mk d (some action) :: other).map Turn.action =
        (Turn.mk c (some action) :: past).map Turn.action := congrArg (some action :: ·) same
    exact ⟨_, e', follows', same', states, forest,
      look_of_agree agree (before.turn chosen taken) follows' same' within⟩

theorem Balanced.unfinished (b : Balanced v l overruns c)
    (terminals : ∀ s ∈ v, s.kind = .terminal) (nonterminal : goal.kind = .nonterminal)
    (inside : l.read < v.length) : c.tape.endsWith goal = false := by
  apply Bool.eq_false_iff.mpr
  intro finished
  have all := (b.written_of_over terminals nonterminal finished).2
  have beyond := List.drop_eq_nil_iff.mp all
  omega

theorem Leads.unfinished (terminals : ∀ s ∈ v, s.kind = .terminal)
    (nonterminal : goal.kind = .nonterminal) (leads : p.Leads (.start v) past d)
    (inside : (p.ledger past).read < v.length) :
    ∀ t ∈ past, t.config.tape.endsWith goal = false := by
  induction leads with
  | start => exact nofun
  | @turn past d action e before chosen taken ih =>
    have earlier : (p.ledger past).read < v.length :=
      Nat.lt_of_le_of_lt (read_le_record p _ _) inside
    intro t member
    rcases List.mem_cons.mp member with latest | older
    · rw [latest]
      exact (leads_balanced before).unfinished terminals nonterminal earlier
    · exact ih earlier t older

/-- An error on a terminal of the input is the error of every input of terminals that begins with
the symbols up to that one. -/
theorem error_of_prefix {position state : Nat} {symbol : Symbol}
    (missed : p.parse limit u = some (.error (.noAction position symbol state)))
    (terminal : symbol.kind = .terminal) (inside : position ≤ u.length)
    (terminals : ∀ s ∈ v, s.kind = .terminal) (agree : v.take position = u.take position) :
    p.parse limit v = some (.error (.noAction position symbol state)) := by
  obtain ⟨goal, past, last, started, ended, missing, rfl, rfl, rfl⟩ := parse_missing missed
  have nonterminal := startSymbol_nonterminal started
  have balanced := leads_balanced ended.leads
  have written := balanced.written_of_terminal terminal
  have place := balanced.position written
  obtain ⟨other, d, follows, same, alike⟩ := leads_of_agree agree ended.leads (by omega)
  have balanced' := leads_balanced follows
  rw [ledger_congr same] at balanced'
  have long := le_length_of_take agree inside
  have unread : (p.ledger past).read < v.length := by omega
  have failed : p.step d =
      .error (.noAction last.tape.position last.tape.look last.state) := by
    rw [alike.step_of_missing balanced balanced' missing, step, missing]
  have turns : other.length = past.length := by
    have count := congrArg List.length same
    rwa [List.length_map, List.length_map] at count
  have within := ended.length_lt
  rw [parse_of_start started]
  have enough : other.length + 1 ≤ limit := by omega
  apply run_of_le enough
  rw [run_of_leads follows (follows.unfinished terminals nonterminal (ledger_congr same ▸ unread))]
  exact run_of_failure (balanced'.unfinished terminals nonterminal unread) failed

theorem endmarked_errors_alike :
    endmarked.parse 20 [.terminal 2, .terminal 2] = some (.error (.noAction 2 (.terminal 2) 2)) ∧
    endmarked.parse 20 [.terminal 2, .terminal 2, .eof, .terminal 3] =
      some (.error (.noAction 2 (.terminal 2) 2)) := by
  have missed : endmarked.parse 20 [.terminal 2, .terminal 2] =
      some (.error (.noAction 2 (.terminal 2) 2)) := parse_of_start endmarked_start 20 _
  exact ⟨missed, error_of_prefix missed rfl (by decide) (by decide) rfl⟩

end Parser
end Recognizers
