import Recognizers.Proofs.Parser.Accepted
import Recognizers.Proofs.Tree.Isomorphism

/-!
Parsing the leaves of a tree again. They are the input and the ends of input that were shifted
beyond it, and the second parse finds on its tape what the first one read beyond its own, so both
take the same actions.
-/
namespace Recognizers
namespace Parser

variable {p : Parser} {goal : Symbol} {input : List Symbol} {limit count : Nat} {t : ParseTree}
  {past : List (Turn Config)} {c d e : Config}

/-- `d` differs from `c` in the tape alone, which holds `count` more ends of input. -/
structure Padded (count : Nat) (d c : Config) : Prop where
  states : d.states = c.states
  forest : d.forest = c.forest
  ahead : d.tape.ahead = c.tape.ahead ++ List.replicate count .eof

namespace Padded

theorem look (padded : Padded count d c) : d.tape.look = c.tape.look := by
  rw [Tape.look_eq, Tape.look_eq, padded.ahead]
  cases c.tape.ahead with
  | cons s rest => rfl
  | nil => cases count <;> rfl

theorem action? (padded : Padded count d c) : p.action? d = p.action? c := by
  rw [Parser.action?, Parser.action?, Config.state, Config.state, padded.states, padded.look]

theorem available (padded : Padded count d c) : d.available = c.available := by
  rw [Config.available, Config.available, padded.states, padded.forest]

/-- A turn uses up one end of input exactly when it reads beyond the shorter tape. -/
theorem act {action : Action} (chosen : p.action? c = some action)
    (padded : Padded ((if Turn.overruns ⟨c, some action⟩ then 1 else 0) + count) d c)
    (taken : p.act c action = .ok e) : ∃ e', p.act d action = .ok e' ∧ Padded count e' e := by
  cases act_effect taken with
  | shift target =>
    refine ⟨_, rfl, by rw [padded.states], by rw [padded.forest, padded.look], ?_⟩
    rw [Tape.ahead_advance, Tape.ahead_advance, padded.ahead]
    cases rest : c.tape.ahead with
    | nil => simp [Turn.overruns, rest, Nat.add_comm 1 count, List.replicate_succ]
    | cons s rest' => simp [Turn.overruns, rest]
  | goto target =>
    refine ⟨_, rfl, by rw [padded.states], padded.forest, ?_⟩
    rw [Tape.ahead_advance, Tape.ahead_advance, padded.ahead]
    cases rest : c.tape.ahead with
    | nil =>
      have next := goto_nonterminal chosen
      rw [Tape.look_eq, rest] at next
      cases next
    | cons s rest' => simp [Turn.overruns]
  | reduce id rule known enough =>
    refine ⟨⟨d.states.drop rule.arity, d.forest.join rule.left id rule.arity,
      d.tape.writeBack rule.left⟩, ?_, by rw [padded.states], by rw [padded.forest], ?_⟩
    · simp only [Parser.act, reduce, known, padded.available, enough, if_true]
    · rw [Tape.ahead_writeBack, Tape.ahead_writeBack, padded.ahead]
      simp [Turn.overruns]

theorem unfinished (padded : Padded count d c) (nonterminal : goal.kind = .nonterminal)
    (unfinished : c.tape.endsWith goal = false) : d.tape.endsWith goal = false := by
  apply Bool.eq_false_iff.mpr
  intro finished
  rw [Tape.endsWith_iff, padded.ahead, List.append_eq_singleton_iff] at finished
  rcases finished with ⟨_, ends⟩ | ⟨here, _⟩
  · have member : goal ∈ List.replicate count Symbol.eof := ends ▸ List.mem_singleton_self goal
    rw [List.eq_of_mem_replicate member] at nonterminal
    cases nonterminal
  · rw [(Tape.endsWith_iff c.tape goal).mpr here] at unfinished
    cases unfinished

theorem finished (padded : Padded 0 d c) (finished : c.tape.endsWith goal = true) :
    d.tape.endsWith goal = true := by
  rw [Tape.endsWith_iff] at finished ⊢
  rw [padded.ahead, finished, List.replicate_zero, List.append_nil]

end Padded

theorem leads_padded (nonterminal : goal.kind = .nonterminal) (leads : p.Leads c past e)
    (unfinished : ∀ t ∈ past, t.config.tape.endsWith goal = false)
    (padded : Padded (past.countP Turn.overruns + count) d c) :
    ∃ other e', p.Leads d other e' ∧ other.length = past.length ∧
      (∀ t ∈ other, t.config.tape.endsWith goal = false) ∧ Padded count e' e := by
  induction leads generalizing count with
  | start => exact ⟨[], d, .start, rfl, unfinished, by simpa using padded⟩
  | @turn past c' action e before chosen taken ih =>
    rw [List.countP_cons, Nat.add_assoc] at padded
    obtain ⟨other, d', follows, same, open', padded'⟩ :=
      ih (fun t member => unfinished t (List.mem_cons_of_mem _ member)) padded
    obtain ⟨e', taken', rest⟩ := padded'.act chosen taken
    refine ⟨_, e', follows.turn (padded'.action?.trans chosen) taken', congrArg (· + 1) same, ?_,
      rest⟩
    intro t member
    rcases List.mem_cons.mp member with latest | older
    · rw [latest]
      exact padded'.unfinished nonterminal (unfinished _ List.mem_cons_self)
    · exact open' t older

theorem start_padded (input : List Symbol) (count : Nat) :
    Padded count (.start (input ++ List.replicate count .eof)) (.start input) :=
  ⟨rfl, rfl, rfl⟩

/-- If a list of terminals is parsed into a tree, then the leaves of the tree, which may be more
than were given, are parsed within the same limit into the same tree, down to its arena; so the
two trees are isomorphic. -/
theorem reparsed_yield (terminals : ∀ s ∈ input, s.kind = .terminal)
    (parsed : p.parse limit input = some (.ok t)) :
    p.parse limit t.leaves = some (.ok t) ∧ t.isomorphic t = true := by
  obtain ⟨goal, past, last, accepted⟩ := parse_accepted parsed
  have nonterminal := startSymbol_nonterminal accepted.started
  have padded := start_padded input (past.countP Turn.overruns)
  rw [← accepted.leaves_of_terminals terminals] at padded
  obtain ⟨other, last', leads, same, unfinished, similar⟩ :
      ∃ other last', p.Leads (.start t.leaves) other last' ∧ other.length = past.length ∧
        (∀ t ∈ other, t.config.tape.endsWith goal = false) ∧ Padded 0 last' last :=
    leads_padded nonterminal accepted.ended.leads accepted.ended.unfinished padded
  have enough : other.length + 1 ≤ limit := by
    have bound := accepted.ended.length_lt
    omega
  refine ⟨?_, (t.isomorphic_iff t).mpr rfl⟩
  rw [parse_of_start accepted.started]
  apply run_of_le enough
  rw [run_of_leads leads unfinished, run_of_over (similar.finished accepted.finished),
    similar.forest, accepted.result]

theorem padded_reparsed : ∃ t, padded.parse 20 [.terminal 2] = some (.ok t) ∧
    t.leaves = [.terminal 2, .eof] ∧ padded.parse 20 [.terminal 2, .eof] = some (.ok t) ∧
    t.isomorphic t = true := by
  obtain ⟨t, parsed⟩ : ∃ t, padded.parse 20 [.terminal 2] = some (.ok t) :=
    ⟨_, parse_of_start padded_start 20 _⟩
  have terminals : ∀ s ∈ [Symbol.terminal 2], s.kind = .terminal := by decide
  have leaves : t.leaves = [.terminal 2, .eof] := by
    obtain ⟨goal, past, last, accepted⟩ := parse_accepted parsed
    cases accepted.started.symm.trans padded_start
    rw [accepted.leaves_of_terminals terminals, ← accepted.countP_trace Turn.overruns rfl]
    rfl
  have again := reparsed_yield terminals parsed
  rw [leaves] at again
  exact ⟨t, parsed, leaves, again⟩

end Parser
end Recognizers
