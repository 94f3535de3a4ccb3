import Recognizers.Parser.Basic
import Recognizers.Proofs.Tree.Unfolding

/-!
What a parse does, turn by turn. `Leads` follows the actions from one configuration to another and
does not ask whether the parse is over on the way; `trace` lists the turns of the loop, and
`run_ended` says how the end of a run hangs on where its turns lead.
-/
namespace Recognizers

/-- A configuration and what is done there; where nothing is done, a run ends. -/
structure Turn (C : Type) where
  config : C
  action : Option Action

namespace Parser

variable {p : Parser} {goal : Symbol} {limit : Nat} {c d : Config} {past : List (Turn Config)}

inductive Effect (p : Parser) (c : Config) : Action → Config → Prop where
  | shift (target : Nat) : Effect p c (.shift target)
      { states := target :: c.states, forest := c.forest.grow c.tape.look, tape := c.tape.advance }
  | goto (target : Nat) : Effect p c (.goto target)
      { states := target :: c.states, forest := c.forest, tape := c.tape.advance }
  | reduce (id : Nat) (rule : Production) (known : p.grammar.production? id = some rule)
      (enough : rule.arity ≤ c.available) : Effect p c (.reduce id)
      { states := c.states.drop rule.arity
        forest := c.forest.join rule.left id rule.arity
        tape := c.tape.writeBack rule.left }

theorem act_effect {action : Action} (taken : p.act c action = .ok d) : p.Effect c action d := by
  cases action with
  | shift target =>
    cases taken
    exact .shift target
  | goto target =>
    cases taken
    exact .goto target
  | reduce id =>
    simp only [act, reduce] at taken
    split at taken
    · cases taken
    · rename_i rule known
      split at taken
      · rename_i enough
        cases taken
        exact .reduce id rule known enough
      · cases taken

inductive Failure (p : Parser) (c : Config) : ParseError → Prop where
  | missing (none : p.action? c = none) :
      Failure p c (.noAction c.tape.position c.tape.look c.state)
  | unknown (id : Nat) (chosen : p.action? c = some (.reduce id))
      (none : p.grammar.production? id = none) : Failure p c (.unknownProduction id)
  | underflow (id : Nat) (rule : Production) (chosen : p.action? c = some (.reduce id))
      (known : p.grammar.production? id = some rule) (short : ¬ rule.arity ≤ c.available) :
      Failure p c (.stackUnderflow id rule.arity c.available)

theorem step_failure {e : ParseError} (failed : p.step c = .error e) : p.Failure c e := by
  unfold step at failed
  split at failed
  · rename_i action chosen
    cases action with
    | shift target => cases failed
    | goto target => cases failed
    | reduce id =>
      simp only [act, reduce] at failed
      split at failed
      · rename_i none
        cases failed
        exact .unknown id chosen none
      · rename_i rule known
        split at failed
        · cases failed
        · rename_i short
          cases failed
          exact .underflow id rule chosen known short
  · rename_i none
    cases failed
    exact .missing none

theorem startSymbol_eq_error {e : ParseError} (failed : p.startSymbol = .error e) :
    e = .noFinalState ∨ (∃ state, e = .noStartSymbol state) ∨
      ∃ state id, p.table.action? state .eof = some (.reduce id) ∧
        p.grammar.production? id = none ∧ e = .unknownProduction id := by
  unfold startSymbol at failed
  split at failed
  · cases failed
    exact .inl rfl
  · rename_i state _
    split at failed
    · rename_i id reduces
      split at failed
      · cases failed
      · rename_i none
        cases failed
        exact .inr (.inr ⟨state, id, reduces, none, rfl⟩)
    · cases failed
      exact .inr (.inl ⟨state, rfl⟩)

/-- The turns, the latest one first, that lead from one configuration to another. -/
inductive Leads (p : Parser) (c : Config) : List (Turn Config) → Config → Prop where
  | start : Leads p c [] c
  | turn {past d action e} (before : Leads p c past d) (chosen : p.action? d = some action)
      (taken : p.act d action = .ok e) : Leads p c (⟨d, some action⟩ :: past) e

def choice (p : Parser) (goal : Symbol) (c : Config) : Option Action :=
  if c.tape.endsWith goal then none else p.action? c

def trace (p : Parser) (goal : Symbol) : Nat → Config → List (Turn Config)
  | 0, _ => []
  | limit + 1, c =>
    ⟨c, p.choice goal c⟩ ::
      match p.choice goal c with
      | none => []
      | some action =>
        match p.act c action with
        | .ok next => p.trace goal limit next
        | .error _ => []

def outcome? (p : Parser) (goal : Symbol) (c : Config) : Option (Except ParseError ParseTree) :=
  if c.tape.endsWith goal then some (finish c.forest)
  else
    match p.step c with
    | .ok _ => none
    | .error e => some (.error e)

/-- A run with result `r` took the turns `past`, the latest one first, and ended in `last`. -/
structure Ended (p : Parser) (goal : Symbol) (limit : Nat) (c : Config)
    (r : Except ParseError ParseTree) (past : List (Turn Config)) (last : Config) : Prop where
  leads : p.Leads c past last
  unfinished : ∀ t ∈ past, t.config.tape.endsWith goal = false
  trace_eq : p.trace goal limit c = past.reverse ++ [⟨last, p.choice goal last⟩]
  result : p.outcome? goal last = some r

theorem step_eq_ok (stepped : p.step c = .ok d) :
    ∃ action, p.action? c = some action ∧ p.act c action = .ok d := by
  unfold step at stepped
  split at stepped
  · rename_i action chosen
    exact ⟨action, chosen, stepped⟩
  · cases stepped

theorem step_of_action {action : Action} (chosen : p.action? c = some action) :
    p.step c = p.act c action := by simp only [step, chosen]

theorem Leads.trans {e : Config} {later : List (Turn Config)} (before : p.Leads c past d)
    (after : p.Leads d later e) : p.Leads c (later ++ past) e := by
  induction after with
  | start => exact before
  | turn _ chosen taken ih => exact .turn ih chosen taken

theorem Leads.cut {later earlier : List (Turn Config)} {t : Turn Config}
    (leads : p.Leads c (later ++ t :: earlier) d) :
    ∃ action e, t.action = some action ∧ p.Leads c earlier t.config ∧
      p.action? t.config = some action ∧ p.act t.config action = .ok e ∧ p.Leads e later d := by
  induction later generalizing d with
  | nil =>
    cases leads with
    | turn before chosen taken => exact ⟨_, d, rfl, before, chosen, taken, .start⟩
  | cons latest later ih =>
    cases leads with
    | turn before chosen taken =>
      obtain ⟨action, e, same, first, here, next, rest⟩ := ih before
      exact ⟨action, e, same, first, here, next, .turn rest chosen taken⟩

theorem Leads.eq_of_nil (leads : p.Leads c [] d) : d = c := by
  cases leads
  rfl

theorem Leads.single {action : Action} (chosen : p.action? c = some action)
    (taken : p.act c action = .ok d) : p.Leads c [⟨c, some action⟩] d :=
  .turn .start chosen taken

theorem run_ended {r : Except ParseError ParseTree} (ended : p.run goal limit c = some r) :
    ∃ past last, p.Ended goal limit c r past last := by
  induction limit generalizing c with
  | zero => cases ended
  | succ limit ih =>
    by_cases finished : c.tape.endsWith goal = true
    · simp only [run, finished, if_true] at ended
      refine ⟨[], c, .start, by simp, by simp [trace, choice, finished], ?_⟩
      simpa only [outcome?, finished, if_true] using ended
    · simp only [run, finished] at ended
      cases stepped : p.step c with
      | error e =>
        rw [stepped] at ended
        refine ⟨[], c, .start, by simp, ?_, by simpa only [outcome?, finished, stepped] using ended⟩
        cases chosen : p.action? c with
        | none => simp [trace, choice, finished, chosen]
        | some action =>
          have failed : p.act c action = .error e := (step_of_action chosen).symm.trans stepped
          simp [trace, choice, finished, chosen, failed]
      | ok next =>
        rw [stepped] at ended
        obtain ⟨action, chosen, taken⟩ := step_eq_ok stepped
        obtain ⟨past, last, rest⟩ := ih ended
        refine ⟨past ++ [⟨c, some action⟩], last, (Leads.single chosen taken).trans rest.leads,
          ?_, ?_, rest.result⟩
        · intro t member
          rcases List.mem_append.mp member with later | first
          · exact rest.unfinished t later
          · rw [List.mem_singleton.mp first]
            simpa using finished
        · simp [trace, choice, finished, chosen, taken, rest.trace_eq]

theorem leads_of_run_none (unended : p.run goal limit c = none) :
    ∃ past d, p.Leads c past d ∧ past.length = limit := by
  induction limit generalizing c with
  | zero => exact ⟨[], c, .start, rfl⟩
  | succ limit ih =>
    simp only [run] at unended
    split at unended
    · cases unended
    · split at unended
      · rename_i next stepped
        obtain ⟨action, chosen, taken⟩ := step_eq_ok stepped
        obtain ⟨past, d, leads, count⟩ := ih unended
        exact ⟨past ++ [⟨c, some action⟩], d, (Leads.single chosen taken).trans leads, by simp [count]⟩
      · cases unended

theorem Ended.cases {r : Except ParseError ParseTree} {last : Config}
    (ended : p.Ended goal limit c r past last) :
    (last.tape.endsWith goal = true ∧ r = finish last.forest) ∨
      (last.tape.endsWith goal = false ∧ ∃ e, p.step last = .error e ∧ r = .error e) := by
  have result := ended.result
  unfold outcome? at result
  split at result
  · rename_i finished
    exact .inl ⟨finished, (Option.some.inj result).symm⟩
  · rename_i unfinished
    split at result
    · cases result
    · rename_i e failed
      exact .inr ⟨Bool.eq_false_iff.mpr unfinished, e, failed, (Option.some.inj result).symm⟩

theorem length_trace_le (p : Parser) (goal : Symbol) (limit : Nat) (c : Config) :
    (p.trace goal limit c).length ≤ limit := by
  induction limit generalizing c with
  | zero => exact Nat.le_refl 0
  | succ limit ih =>
    simp only [trace, List.length_cons]
    apply Nat.succ_le_succ
    split
    · exact Nat.zero_le limit
    · split
      · exact ih _
      · exact Nat.zero_le limit

theorem Ended.length_lt {r : Except ParseError ParseTree} {last : Config}
    (ended : p.Ended goal limit c r past last) : past.length < limit := by
  have bound := length_trace_le p goal limit c
  rw [ended.trace_eq, List.length_append, List.length_reverse, List.length_singleton] at bound
  exact bound

theorem Ended.countP_trace {r : Except ParseError ParseTree} {last : Config}
    (ended : p.Ended goal limit c r past last) {counted : Turn Config → Bool}
    (uncounted : counted ⟨last, p.choice goal last⟩ = false) :
    (p.trace goal limit c).countP counted = past.countP counted := by
  rw [ended.trace_eq, List.countP_append, List.countP_reverse, List.countP_singleton, uncounted]
  rfl

theorem startSymbol_of_final {state id : Nat} {rule : Production}
    (least : p.table.finals.min? = some state)
    (reduces : p.table.action? state .eof = some (.reduce id))
    (known : p.grammar.production? id = some rule) (left : rule.left = goal) :
    p.startSymbol = .ok goal := by
  simp only [startSymbol, least, reduces, known, left]

theorem parse_of_start (started : p.startSymbol = .ok goal)
    (limit : Nat) (input : List Symbol) :
    p.parse limit input = p.run goal limit (.start input) := by
  simp only [parse, started]

theorem parse_ended {input : List Symbol} {r : Except ParseError ParseTree}
    (ended : p.parse limit input = some r) :
    (∃ e, p.startSymbol = .error e ∧ r = .error e) ∨
      ∃ goal past last, p.startSymbol = .ok goal ∧
        p.Ended goal limit (.start input) r past last := by
  unfold parse at ended
  split at ended
  · rename_i goal started
    obtain ⟨past, last, rest⟩ := run_ended ended
    exact .inr ⟨goal, past, last, started, rest⟩
  · rename_i e failed
    exact .inl ⟨e, failed, (Option.some.inj ended).symm⟩

theorem run_of_leads (leads : p.Leads c past d)
    (unfinished : ∀ t ∈ past, t.config.tape.endsWith goal = false) :
    p.run goal (past.length + limit) c = p.run goal limit d := by
  induction leads generalizing limit with
  | start => rw [List.length_nil, Nat.zero_add]
  | @turn past d action e before chosen taken ih =>
    have later : past.length + 1 + limit = past.length + (limit + 1) := by omega
    have here : d.tape.endsWith goal = false := unfinished _ List.mem_cons_self
    rw [List.length_cons, later, ih fun t member => unfinished t (List.mem_cons_of_mem _ member)]
    simp only [run, here, step_of_action chosen, taken, Bool.false_eq_true, if_false]

theorem run_of_over (finished : d.tape.endsWith goal = true) :
    p.run goal (limit + 1) d = some (finish d.forest) := by
  simp only [run, finished, if_true]

theorem run_of_failure {e : ParseError} (unfinished : d.tape.endsWith goal = false)
    (failed : p.step d = .error e) : p.run goal (limit + 1) d = some (.error e) := by
  simp only [run, unfinished, failed, Bool.false_eq_true, if_false]

theorem run_of_le {more : Nat} {r : Except ParseError ParseTree} (le : limit ≤ more)
    (ended : p.run goal limit c = some r) : p.run goal more c = some r := by
  induction limit generalizing c more with
  | zero => cases ended
  | succ limit ih =>
    cases more with
    | zero => omega
    | succ more =>
      simp only [run] at ended ⊢
      split
      · rename_i finished
        simpa only [finished, if_true] using ended
      · rename_i unfinished
        rw [if_neg unfinished] at ended
        cases stepped : p.step c with
        | error e => simpa only [stepped] using ended
        | ok next =>
          simp only [stepped] at ended
          exact ih (Nat.le_of_succ_le_succ le) ended

theorem parse_unique {more : Nat} {input : List Symbol} {r s : Except ParseError ParseTree}
    (ended : p.parse limit input = some r) (again : p.parse more input = some s) : r = s := by
  unfold parse at ended again
  cases started : p.startSymbol with
  | error e =>
    rw [started] at ended again
    exact Option.some.inj (ended.symm.trans again)
  | ok goal =>
    rw [started] at ended again
    have longer := run_of_le (Nat.le_max_left limit more) ended
    exact Option.some.inj (longer.symm.trans (run_of_le (Nat.le_max_right limit more) again))

theorem single?_of_finish {f : Forest} {t : ParseTree} (done : finish f = .ok t) :
    f.single? = some t := by
  unfold finish at done
  split at done
  · rename_i tree only
    cases done
    exact only
  · cases done

theorem finish_eq_ok {f : Forest} {t : ParseTree} (done : finish f = .ok t) :
    f.trees = [t.unfold] := Forest.single?_eq_some (single?_of_finish done)

theorem finish_of_single {f : Forest} {t : ParseTree} (only : f.single? = some t) :
    finish f = .ok t := by simp only [finish, only]

theorem finish_of_many {f : Forest} (many : f.trees.length ≠ 1) :
    finish f = .error (.incomplete f.symbols) := by
  have none : f.single? = none := by
    rw [← Option.not_isSome_iff_eq_none, Forest.single?_isSome]
    simpa using many
  simp only [finish, none]

theorem finish_isOk_iff {f : Forest} : (∃ t, finish f = .ok t) ↔ f.trees.length = 1 := by
  constructor
  · rintro ⟨t, done⟩
    rw [finish_eq_ok done]
    rfl
  · intro one
    have only : f.single?.isSome = true := by
      rw [Forest.single?_isSome]
      exact decide_eq_true one
    obtain ⟨t, found⟩ := Option.isSome_iff_exists.mp only
    exact ⟨t, finish_of_single found⟩

theorem finish_eq_error {f : Forest} {e : ParseError} (failed : finish f = .error e) :
    e = .incomplete f.symbols := by
  unfold finish at failed
  split at failed <;> cases failed
  rfl

theorem parse_eq_error {input : List Symbol} {e : ParseError}
    (failed : p.parse limit input = some (.error e)) :
    p.startSymbol = .error e ∨ ∃ goal past last, p.startSymbol = .ok goal ∧
      p.Ended goal limit (.start input) (.error e) past last ∧
      (e = .incomplete last.forest.symbols ∨ p.step last = .error e) := by
  rcases parse_ended failed with ⟨e, unstarted, same⟩ | ⟨goal, past, last, started, ended⟩
  · cases same
    exact .inl unstarted
  · refine .inr ⟨goal, past, last, started, ended, ?_⟩
    rcases ended.cases with ⟨_, done⟩ | ⟨_, e, stopped, same⟩
    · exact .inl (finish_eq_error done.symm)
    · cases same
      exact .inr stopped

theorem parse_missing {input : List Symbol} {position state : Nat} {symbol : Symbol}
    (missed : p.parse limit input = some (.error (.noAction position symbol state))) :
    ∃ goal past last, p.startSymbol = .ok goal ∧
      p.Ended goal limit (.start input) (.error (.noAction position symbol state)) past last ∧
      p.action? last = none ∧ position = last.tape.position ∧ symbol = last.tape.look ∧
      state = last.state := by
  rcases parse_eq_error missed with unstarted | ⟨goal, past, last, started, ended, residual | stopped⟩
  · rcases startSymbol_eq_error unstarted with same | ⟨_, same⟩ | ⟨_, _, _, _, same⟩ <;> cases same
  · cases residual
  · cases step_failure stopped with
    | missing none => exact ⟨goal, past, last, started, ended, none, rfl, rfl, rfl⟩

theorem parse_eq_stackUnderflow {input : List Symbol} {id needed available : Nat}
    (failed : p.parse limit input = some (.error (.stackUnderflow id needed available))) :
    ∃ past last, p.Leads (.start input) past last ∧
      p.step last = .error (.stackUnderflow id needed available) ∧
      p.action? last = some (.reduce id) ∧ available = last.available := by
  rcases parse_eq_error failed with unstarted | ⟨_, past, last, _, ended, residual | stopped⟩
  · rcases startSymbol_eq_error unstarted with same | ⟨_, same⟩ | ⟨_, _, _, _, same⟩ <;> cases same
  · cases residual
  · cases step_failure stopped with
    | underflow id rule chosen known short =>
      exact ⟨past, last, ended.leads, stopped, chosen, rfl⟩

end Parser
end Recognizers
