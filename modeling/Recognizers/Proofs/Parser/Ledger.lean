import Recognizers.Proofs.Parser.History
import Recognizers.Proofs.Tree.Unfolding

/-!
The books of a parse: how much of the input was read, and which symbols that reductions wrote back
are still to be passed. What lies ahead on the tape is what was written back and then the rest of the
input, and the leaves of the forest are the terminals that were read (`leads_balanced`).
-/
namespace Recognizers

def upTo (input : List Symbol) (count : Nat) : List Symbol :=
  input.take count ++ List.replicate (count - input.length) .eof

theorem upTo_succ (input : List Symbol) (count : Nat) :
    upTo input (count + 1) = upTo input count ++ [(input.drop count).headD .eof] := by
  by_cases inside : count < input.length
  · have none : count + 1 - input.length = 0 := by omega
    have before : count - input.length = 0 := by omega
    simp only [upTo, none, before, List.replicate_zero, List.append_nil]
    rw [List.drop_eq_getElem_cons inside, List.headD_cons, List.take_succ_eq_append_getElem inside]
  · have more : count + 1 - input.length = (count - input.length) + 1 := by omega
    have beyond : input.length ≤ count := by omega
    simp only [upTo, more, List.replicate_succ', List.take_of_length_le beyond,
      List.take_of_length_le (Nat.le_succ_of_le beyond), List.drop_eq_nil_of_le beyond,
      List.headD_nil, List.append_assoc]

structure Ledger where
  /-- How many symbols of the input were passed; an end of input beyond it counts as one. -/
  read : Nat := 0
  /-- The symbols that were written back and not yet passed, the next one first. -/
  written : List Symbol := []

namespace Ledger

def ahead (l : Ledger) (input : List Symbol) : List Symbol := l.written ++ input.drop l.read

def pass : Ledger → Ledger
  | ⟨read, []⟩ => ⟨read + 1, []⟩
  | ⟨read, _ :: later⟩ => ⟨read, later⟩

def write (l : Ledger) (symbol : Symbol) : Ledger := { l with written := symbol :: l.written }

theorem pass_of_nil {l : Ledger} (none : l.written = []) : l.pass = ⟨l.read + 1, []⟩ := by
  rcases l with ⟨read, written⟩
  cases none
  rfl

theorem pass_of_cons {l : Ledger} {symbol : Symbol} {later : List Symbol}
    (next : l.written = symbol :: later) : l.pass = ⟨l.read, later⟩ := by
  rcases l with ⟨read, written⟩
  cases next
  rfl

theorem ahead_pass (l : Ledger) (input : List Symbol) :
    l.pass.ahead input = (l.ahead input).tail := by
  rcases l with ⟨read, written⟩
  cases written with
  | nil => simp [pass, ahead, List.tail_drop]
  | cons s later => rfl

theorem read_le_pass (l : Ledger) : l.read ≤ l.pass.read := by
  rcases l with ⟨read, written⟩
  cases written with
  | nil => exact Nat.le_succ read
  | cons s later => exact Nat.le_refl read

theorem pass_balance (l : Ledger) : l.pass.read + l.written.length =
    l.read + l.pass.written.length + 1 := by
  rcases l with ⟨read, written⟩
  cases written with
  | nil => rfl
  | cons s later =>
    simp only [pass, List.length_cons]
    omega

theorem later_of_few {l : Ledger} {symbol : Symbol} {later : List Symbol}
    (few : l.written.length ≤ 1) (next : l.written = symbol :: later) : later = [] := by
  rw [next, List.length_cons] at few
  exact List.length_eq_zero_iff.mp (by omega)

theorem pass_of_few {l : Ledger} (few : l.written.length ≤ 1) : l.pass.written = [] := by
  cases written : l.written with
  | nil => rw [pass_of_nil written]
  | cons symbol later => rw [pass_of_cons written, later_of_few few written]

theorem mem_written_pass {l : Ledger} {symbol : Symbol} (member : symbol ∈ l.pass.written) :
    symbol ∈ l.written := by
  rcases l with ⟨read, written⟩
  cases written with
  | nil => cases member
  | cons s later => exact List.mem_cons_of_mem _ member

end Ledger

theorem Tape.writeBack_balance (t : Tape) (symbol : Symbol) :
    (t.writeBack symbol).cursor + 1 + t.prepended = t.cursor + (t.writeBack symbol).prepended := by
  rcases t with ⟨symbols, cursor, prepended⟩
  cases cursor with
  | zero =>
    simp only [writeBack]
    omega
  | succ place => rfl

/-- Whether an end of input is shifted that the input does not have. -/
def Turn.overruns (t : Turn Config) : Bool :=
  match t.action with
  | some (.shift _) => t.config.tape.ahead.isEmpty
  | _ => false

namespace Parser

variable {p : Parser} {goal : Symbol} {input : List Symbol} {past : List (Turn Config)}
  {l : Ledger} {c d : Config}

def record (p : Parser) (l : Ledger) : Option Action → Ledger
  | none => l
  | some (.reduce id) =>
    match p.grammar.production? id with
    | some rule => l.write rule.left
    | none => l
  | some _ => l.pass

def ledger (p : Parser) : List (Turn Config) → Ledger
  | [] => {}
  | t :: past => p.record (p.ledger past) t.action

theorem read_le_record (p : Parser) (l : Ledger) (action : Option Action) :
    l.read ≤ (p.record l action).read := by
  cases action with
  | none => exact Nat.le_refl l.read
  | some action =>
    cases action with
    | shift target => exact l.read_le_pass
    | goto target => exact l.read_le_pass
    | reduce id =>
      simp only [record]
      split <;> exact Nat.le_refl l.read

theorem ledger_congr {other : List (Turn Config)}
    (same : other.map Turn.action = past.map Turn.action) :
    p.ledger other = p.ledger past := by
  induction past generalizing other with
  | nil => rw [List.map_eq_nil_iff.mp same]
  | cons t past ih =>
    obtain ⟨s, rest, rfl, action, later⟩ := List.map_eq_cons_iff.mp same
    rw [ledger, ledger, ih later, action]

theorem shift_terminal {target : Nat} (chosen : p.action? c = some (.shift target)) :
    c.tape.look.kind = .terminal := by
  have found : p.table.entries[Cell.mk c.state c.tape.look]? = some (.shift target) := chosen
  exact p.table.fits found

theorem goto_nonterminal {target : Nat} (chosen : p.action? c = some (.goto target)) :
    c.tape.look.kind = .nonterminal := by
  have found : p.table.entries[Cell.mk c.state c.tape.look]? = some (.goto target) := chosen
  exact p.table.fits found

/-- The books agree with a configuration and with the shifts beyond the end of the input. -/
structure Balanced (input : List Symbol) (l : Ledger) (overruns : Nat) (c : Config) : Prop where
  ahead : c.tape.ahead = l.ahead input
  cursor : c.tape.cursor + l.written.length = l.read + c.tape.prepended
  nonterminals : ∀ s ∈ l.written, s.kind = .nonterminal
  yield : c.forest.yield = (upTo input l.read).filter (·.kind = .terminal)
  overrun : overruns = l.read - input.length

namespace Balanced

variable {overruns : Nat}

theorem start (input : List Symbol) : Balanced input {} 0 (.start input) := by
  refine ⟨rfl, rfl, by simp, ?_, (Nat.zero_sub _).symm⟩
  simp [upTo, Config.start, Forest.yield_empty]

theorem look (b : Balanced input l overruns c) : c.tape.look = (l.ahead input).headD .eof := by
  rw [Tape.look_eq, b.ahead]

theorem look_of_nil (b : Balanced input l overruns c) (none : l.written = []) :
    c.tape.look = (input.drop l.read).headD .eof := by
  rw [b.look, Ledger.ahead, none, List.nil_append]

theorem look_of_cons (b : Balanced input l overruns c) {symbol : Symbol} {later : List Symbol}
    (next : l.written = symbol :: later) : c.tape.look = symbol := by
  rw [b.look, Ledger.ahead, next, List.cons_append, List.headD_cons]

theorem written_of_terminal (b : Balanced input l overruns c)
    (next : c.tape.look.kind = .terminal) : l.written = [] := by
  cases written : l.written with
  | nil => rfl
  | cons s later =>
    rw [b.look_of_cons written, b.nonterminals s (by simp [written])] at next
    cases next

theorem shift (b : Balanced input l overruns c) (next : c.tape.look.kind = .terminal)
    (states : List Nat) :
    Balanced input l.pass (overruns + if c.tape.ahead.isEmpty then 1 else 0)
      ⟨states, c.forest.grow c.tape.look, c.tape.advance⟩ := by
  have none := b.written_of_terminal next
  have passed := Ledger.pass_of_nil none
  have here := b.look_of_nil none
  refine ⟨?_, ?_, ?_, ?_, ?_⟩
  · rw [Tape.ahead_advance, b.ahead, Ledger.ahead_pass]
  · have counts := b.cursor
    simp only [none, passed, Tape.advance, List.length_nil] at counts ⊢
    omega
  · simp [passed]
  · rw [Forest.yield_grow, b.yield, passed, upTo_succ, List.filter_append, ← here]
    simp [next]
  · rw [b.ahead, Ledger.ahead, none, List.nil_append, passed, b.overrun]
    simp only [List.isEmpty_iff, List.drop_eq_nil_iff]
    split <;> omega

theorem goto (b : Balanced input l overruns c) (next : c.tape.look.kind = .nonterminal)
    (states : List Nat) : Balanced input l.pass overruns ⟨states, c.forest, c.tape.advance⟩ := by
  refine ⟨?_, ?_, fun s member => b.nonterminals s (Ledger.mem_written_pass member), ?_, ?_⟩
  · rw [Tape.ahead_advance, b.ahead, Ledger.ahead_pass]
  · have counts := b.cursor
    have moved := l.pass_balance
    simp only [Tape.advance]
    omega
  · rcases l with ⟨read, written⟩
    cases written with
    | cons s later => exact b.yield
    | nil =>
      have here : c.tape.look = (input.drop read).headD .eof := b.look
      simp only [Ledger.pass]
      rw [upTo_succ, List.filter_append, ← here, b.yield]
      simp [next]
  · rcases l with ⟨read, written⟩
    cases written with
    | cons s later => exact b.overrun
    | nil =>
      have inside : input.drop read ≠ [] := by
        intro done
        rw [b.look, Ledger.ahead, List.nil_append, done] at next
        cases next
      have bound := b.overrun
      have few : ¬ input.length ≤ read := fun all => inside (List.drop_eq_nil_iff.mpr all)
      simp only [Ledger.pass] at bound ⊢
      omega

theorem reduce (b : Balanced input l overruns c) (id : Nat) (rule : Production)
    (states : List Nat) (count : Nat) : Balanced input (l.write rule.left) overruns
      ⟨states, c.forest.join rule.left id count, c.tape.writeBack rule.left⟩ := by
  refine ⟨?_, ?_, ?_, ?_, b.overrun⟩
  · rw [Tape.ahead_writeBack, b.ahead]
    rfl
  · have counts := b.cursor
    have moved := c.tape.writeBack_balance rule.left
    simp only [Ledger.write, List.length_cons]
    omega
  · intro s member
    rcases List.mem_cons.mp member with latest | earlier
    · rw [latest]
      rfl
    · exact b.nonterminals s earlier
  · rw [Forest.yield_join, b.yield]
    rfl

/-- Each symbol that was written back and not yet passed sets the cursor back by one. -/
theorem position_eq (b : Balanced input l overruns c) :
    c.tape.position = max 1 (l.read + 1 - l.written.length) := by
  have counts := b.cursor
  simp only [Tape.position]
  omega

theorem position (b : Balanced input l overruns c) (none : l.written = []) :
    c.tape.position = l.read + 1 := by
  rw [b.position_eq, none, List.length_nil]
  omega

theorem look_cases (b : Balanced input l overruns c) (none : l.written = []) :
    input[l.read]? = some c.tape.look ∨
      (c.tape.look = .eof ∧ l.read = input.length + overruns) := by
  have look := b.look_of_nil none
  rw [List.headD_eq_head?_getD, List.head?_drop] at look
  cases here : input[l.read]? with
  | some s =>
    rw [here] at look
    exact .inl (congrArg some look.symm)
  | none =>
    rw [here] at look
    have beyond := List.getElem?_eq_none_iff.mp here
    have counted := b.overrun
    exact .inr ⟨look, by omega⟩

theorem drop_nil_of_eof (b : Balanced input l overruns c) (none : l.written = [])
    (plain : .eof ∉ input) (next : c.tape.look = .eof) : input.drop l.read = [] := by
  rw [b.look_of_nil none] at next
  cases rest : input.drop l.read with
  | nil => rfl
  | cons s later =>
    rw [rest, List.headD_cons] at next
    subst next
    have held : Symbol.eof ∈ input.drop l.read := by
      rw [rest]
      exact List.mem_cons_self
    exact absurd (List.mem_of_mem_drop held) plain

theorem written_of_nonterminal (b : Balanced input l overruns c)
    (terminals : ∀ s ∈ input, s.kind = .terminal) (next : c.tape.look.kind = .nonterminal) :
    ∃ later, l.written = c.tape.look :: later := by
  rw [b.look, Ledger.ahead] at next ⊢
  cases written : l.written with
  | cons s later => exact ⟨later, by simp⟩
  | nil =>
    rw [written, List.nil_append] at next
    cases rest : input.drop l.read with
    | nil =>
      rw [rest] at next
      cases next
    | cons s later =>
      have known : s ∈ input := List.mem_of_mem_drop (rest ▸ List.mem_cons_self)
      rw [rest, List.headD_cons, terminals s known] at next
      cases next

theorem over_cases (b : Balanced input l overruns c) (finished : c.tape.endsWith goal = true) :
    (l.written = [goal] ∧ input.drop l.read = []) ∨
      (l.written = [] ∧ input.drop l.read = [goal]) := by
  have ahead := (Tape.endsWith_iff c.tape goal).mp finished
  rw [b.ahead, Ledger.ahead] at ahead
  exact (List.append_eq_singleton_iff.mp ahead).symm

theorem written_of_over (b : Balanced input l overruns c)
    (terminals : ∀ s ∈ input, s.kind = .terminal) (nonterminal : goal.kind = .nonterminal)
    (finished : c.tape.endsWith goal = true) : l.written = [goal] ∧ input.drop l.read = [] := by
  rcases b.over_cases finished with last | ⟨_, given⟩
  · exact last
  · have member : goal ∈ input := List.mem_of_mem_drop (given ▸ List.mem_singleton_self goal)
    rw [terminals goal member] at nonterminal
    cases nonterminal

theorem yield_of_rest (b : Balanced input l overruns c)
    (rest : ∀ s ∈ input.drop l.read, s.kind = .nonterminal) :
    c.forest.yield = input.filter (·.kind = .terminal) ++ List.replicate overruns .eof := by
  have none : (input.drop l.read).filter (·.kind = .terminal) = [] := by
    rw [List.filter_eq_nil_iff]
    intro s member
    simp [rest s member]
  have whole : (input.take l.read).filter (·.kind = .terminal) =
      input.filter (·.kind = .terminal) := by
    conv => rhs; rw [← List.take_append_drop l.read input, List.filter_append, none,
      List.append_nil]
  rw [b.yield, upTo, List.filter_append, whole, List.filter_replicate_of_pos rfl, b.overrun]

theorem yield_of_drop_nil (b : Balanced input l overruns c)
    (terminals : ∀ s ∈ input, s.kind = .terminal) (all : input.drop l.read = []) :
    c.forest.yield = input ++ List.replicate overruns .eof := by
  have kept : input.filter (·.kind = .terminal) = input :=
    List.filter_eq_self.mpr fun s member => decide_eq_true (terminals s member)
  rw [b.yield_of_rest (by rw [all]; nofun), kept]

end Balanced

theorem leads_balanced (leads : p.Leads (.start input) past d) :
    Balanced input (p.ledger past) (past.countP Turn.overruns) d := by
  induction leads with
  | start => exact Balanced.start input
  | @turn past d action e before chosen taken ih =>
    cases act_effect taken with
    | shift target =>
      rw [List.countP_cons]
      exact ih.shift (shift_terminal chosen) (target :: d.states)
    | goto target =>
      rw [List.countP_cons]
      exact ih.goto (goto_nonterminal chosen) (target :: d.states)
    | reduce id rule known enough =>
      rw [List.countP_cons, ledger, record, known]
      exact ih.reduce id rule (d.states.drop rule.arity) rule.arity

theorem overruns_of_unshifted (leads : p.Leads c past d)
    (unshifted : ∀ state target, p.table.action? state .eof ≠ some (.shift target)) :
    past.countP Turn.overruns = 0 := by
  induction leads with
  | start => rfl
  | @turn past d action e before chosen taken ih =>
    rw [List.countP_cons, ih]
    cases action with
    | goto target => rfl
    | reduce id => rfl
    | shift target =>
      cases ahead : d.tape.ahead with
      | cons s rest => simp [Turn.overruns, ahead]
      | nil =>
        rw [action?, Tape.look_eq, ahead, List.headD_nil] at chosen
        exact absurd chosen (unshifted d.state target)

theorem Ended.overruns {limit : Nat} {r : Except ParseError ParseTree}
    (ended : p.Ended goal limit c r past d) :
    (p.trace goal limit c).countP Turn.overruns = past.countP Turn.overruns := by
  apply ended.countP_trace
  have result := ended.result
  cases chosen : p.choice goal d with
  | none => rfl
  | some action =>
    cases action with
    | goto target => rfl
    | reduce id => rfl
    | shift target =>
      unfold choice at chosen
      split at chosen
      · cases chosen
      · rename_i unfinished
        simp [outcome?, unfinished, step, chosen, act] at result

def books (p : Parser) (goal : Symbol) (limit : Nat) (input : List Symbol) : Ledger :=
  p.ledger (p.trace goal limit (.start input)).reverse

theorem Ended.books_eq {limit : Nat} {r : Except ParseError ParseTree}
    (ended : p.Ended goal limit (.start input) r past d) (idle : p.choice goal d = none) :
    p.books goal limit input = p.ledger past := by
  rw [books, ended.trace_eq, idle, List.reverse_append, List.reverse_reverse]
  rfl

theorem choice_of_over (finished : c.tape.endsWith goal = true) : p.choice goal c = none := by
  rw [choice, if_pos finished]

theorem choice_of_missing (missing : p.action? c = none) : p.choice goal c = none := by
  rw [choice, missing, ite_self]

theorem startSymbol_nonterminal (started : p.startSymbol = .ok goal) :
    goal.kind = .nonterminal := by
  unfold startSymbol at started
  split at started
  · cases started
  · split at started
    · split at started <;> cases started
      rfl
    · cases started

end Parser
end Recognizers
