import Recognizers.Proofs.Parser.Items

/-!
Errors of augmented tables. After every reduction either the left side was awaited by an item and
there is a goto, or the goal was written over an empty stack at the end of the input and the parse is
over. So a parse can only miss an action on a terminal.
-/
namespace Recognizers
namespace Parser

/-- Consistent item sets that start from the goal, which stands in no right side. -/
structure Augmented (p : Parser) (goal : Symbol) (items : Nat → Item → Prop) : Prop
    extends p.Consistent items where
  apart : ∀ state symbol target, p.table.Moves state symbol target → target ≠ 0
  closed : ∀ state id rule, items state ⟨id, 0⟩ → p.grammar.production? id = some rule →
    (state = 0 ∧ rule.left = goal) ∨
      ∃ item, items state item ∧ p.grammar.next? item = some rule.left
  gotos : ∀ state item symbol, items state item → p.grammar.next? item = some symbol →
    symbol.kind = .nonterminal → ∃ target, p.table.action? state symbol = some (.goto target)
  fresh : ∀ id rule, p.grammar.production? id = some rule → goal ∉ rule.right
  last : ∀ state symbol id rule, p.table.action? state symbol = some (.reduce id) →
    p.grammar.production? id = some rule → rule.left = goal → symbol = .eof

variable {p : Parser} {items : Nat → Item → Prop} {goal : Symbol} {input : List Symbol}
  {past : List (Turn Config)} {l : Ledger} {overruns : Nat} {c d : Config}
  {crossed : List Symbol}

theorem Augmented.next?_ne_goal (augmented : p.Augmented goal items) {item : Item}
    {symbol : Symbol} (next : p.grammar.next? item = some symbol) : symbol ≠ goal := by
  intro same
  obtain ⟨rule, known, found⟩ := Option.bind_eq_some_iff.mp next
  exact augmented.fresh _ rule known (same ▸ List.mem_of_getElem? found)

theorem Augmented.path_at_bottom (augmented : p.Augmented goal items) {states : List Nat}
    (path : p.table.Path states crossed) (bottom : states.headD 0 = 0) : crossed = [] := by
  cases path with
  | bottom => rfl
  | move below moved => exact absurd bottom (augmented.apart _ _ _ moved)

/-- What was written back is the goal at the very end, or there is a goto for it. -/
def Awaited (p : Parser) (goal : Symbol) (input : List Symbol) (l : Ledger) (c : Config)
    (crossed : List Symbol) : Prop :=
  ∀ symbol later, l.written = symbol :: later →
    (symbol = goal ∧ crossed = [] ∧ input.drop l.read = []) ∨
      (symbol ≠ goal ∧ ∃ target, p.table.action? c.state symbol = some (.goto target))

theorem Awaited.of_pass (few : l.written.length ≤ 1) : p.Awaited goal input l.pass c crossed := by
  intro symbol later written
  rw [Ledger.pass_of_few few] at written
  cases written

theorem Viable.awaited {id : Nat} {rule : Production} (viable : p.Viable l c crossed)
    (augmented : p.Augmented goal items) (balanced : Balanced input l overruns c)
    (plain : .eof ∉ input) (chosen : p.action? c = some (.reduce id))
    (known : p.grammar.production? id = some rule) :
    p.Awaited goal input (l.write rule.left)
      ⟨c.states.drop rule.arity, c.forest.join rule.left id rule.arity,
        c.tape.writeBack rule.left⟩ (crossed.drop rule.arity) := by
  obtain ⟨found, same, none, _, _, path, start⟩ :=
    viable.reduction augmented.toConsistent balanced chosen
  have agree : found = rule := Option.some.inj (same.symm.trans known)
  subst agree
  intro symbol later written
  obtain ⟨rfl, _⟩ := List.cons.inj written
  rcases augmented.closed _ id found start known with ⟨bottom, left⟩ | ⟨item, held, next⟩
  · have end_of_input := augmented.last _ _ id found chosen known left
    exact .inl ⟨left, augmented.path_at_bottom path bottom,
      balanced.drop_nil_of_eof none plain end_of_input⟩
  · exact .inr ⟨augmented.next?_ne_goal next, augmented.gotos _ item _ held next rfl⟩

theorem leads_awaited (augmented : p.Augmented goal items)
    (terminals : ∀ s ∈ input, s.kind = .terminal) (plain : .eof ∉ input)
    (leads : p.Leads (.start input) past d) :
    ∃ crossed, p.Viable (p.ledger past) d crossed ∧
      p.Awaited goal input (p.ledger past) d crossed := by
  cases leads with
  | start => exact ⟨[], Viable.start p input, nofun⟩
  | @turn past c action d before chosen taken =>
    obtain ⟨crossed, viable⟩ := leads_viable augmented.toConsistent terminals before
    have balanced := leads_balanced before
    cases act_effect taken with
    | shift target => exact ⟨_, viable.shift balanced chosen, Awaited.of_pass viable.few⟩
    | goto target => exact ⟨_, viable.goto balanced terminals chosen, Awaited.of_pass viable.few⟩
    | reduce id rule known enough =>
      simp only [ledger, record, known]
      exact ⟨_, viable.reduce augmented.toConsistent.tracked balanced chosen known,
        viable.awaited augmented balanced plain chosen known⟩

theorem Viable.single (viable : p.Viable l c crossed)
    (awaited : p.Awaited goal input l c crossed) (written : l.written = [goal]) :
    ∃ t, finish c.forest = .ok t := by
  rcases awaited goal [] written with ⟨_, bottom, _⟩ | ⟨other, _⟩
  · have heights := congrArg List.length viable.symbols
    rw [List.length_map, written, bottom] at heights
    exact finish_isOk_iff.mpr heights
  · exact absurd rfl other

theorem Viable.written_of_missing (viable : p.Viable l c crossed)
    (awaited : p.Awaited goal input l c crossed) (balanced : Balanced input l overruns c)
    (unfinished : c.tape.endsWith goal = false) (missing : p.action? c = none) :
    l.written = [] := by
  cases written : l.written with
  | nil => rfl
  | cons symbol later =>
    have none := Ledger.later_of_few viable.few written
    subst none
    have look := balanced.look_of_cons written
    rcases awaited symbol [] written with ⟨rfl, _, all⟩ | ⟨_, target, goto⟩
    · have finished : c.tape.endsWith symbol = true := by
        rw [Tape.endsWith_iff, balanced.ahead, Ledger.ahead, written, all]
        rfl
      rw [unfinished] at finished
      cases finished
    · rw [action?, look, goto] at missing
      cases missing

/-- A parse with an augmented table ends with a tree or misses an action on a terminal. The place
it reports is that of the terminal in the input, or the next one after the input and the ends of
input that were shifted. -/
theorem augmented_parse_errors (started : p.startSymbol = .ok goal)
    (augmented : p.Augmented goal items) (terminals : ∀ s ∈ input, s.kind = .terminal)
    (plain : .eof ∉ input) {limit : Nat} {r : Except ParseError ParseTree}
    (ended : p.parse limit input = some r) :
    (∃ t, r = .ok t) ∨ ∃ place symbol state, r = .error (.noAction (place + 1) symbol state) ∧
      symbol.kind = .terminal ∧
      (input[place]? = some symbol ∨ (symbol = .eof ∧ place = input.length +
        (p.trace goal limit (.start input)).countP Turn.overruns)) := by
  rcases parse_ended ended with ⟨e, failed, _⟩ | ⟨found, past, last, again, run⟩
  · rw [started] at failed
    cases failed
  · have same : found = goal := Except.ok.inj (again.symm.trans started)
    subst same
    have balanced := leads_balanced run.leads
    obtain ⟨crossed, viable, awaited⟩ := leads_awaited augmented terminals plain run.leads
    rcases run.cases with ⟨finished, rfl⟩ | ⟨unfinished, e, failed, rfl⟩
    · obtain ⟨written, _⟩ := balanced.written_of_over terminals
        (startSymbol_nonterminal started) finished
      exact .inl (viable.single awaited written)
    · obtain ⟨missing, named⟩ := viable.step_error augmented.toConsistent balanced failed
      have none := viable.written_of_missing awaited balanced unfinished missing
      have here := balanced.look_cases none
      rw [balanced.position none] at named
      refine .inr ⟨(p.ledger past).read, last.tape.look, last.state, congrArg Except.error named,
        ?_, ?_⟩
      · rcases here with inside | ⟨beyond, _⟩
        · exact terminals _ (List.mem_of_getElem? inside)
        · rw [beyond]
          rfl
      · rw [run.overruns]
        exact here

theorem endmarkedItems_lt {state : Nat} {item : Item} (held : item ∈ endmarkedItems state) :
    state < 8 := by
  apply Nat.lt_of_not_le
  intro beyond
  rw [endmarkedItems, List.getD_eq_getElem?_getD, List.getElem?_eq_none beyond] at held
  cases held

theorem endmarked_augmented :
    endmarked.Augmented (.nonterminal 0) fun state item => item ∈ endmarkedItems state := by
  refine ⟨endmarked_consistent, ?_, ?_, ?_, ?_, ?_⟩
  · intro state symbol target moved
    have all : ∀ m ∈ endmarkedMoves, m.2 ≠ 0 := by decide
    exact all _ (Table.mem_of_moves_ofLists moved)
  · intro state id rule held known
    have all : ∀ state < 8, ∀ item ∈ endmarkedItems state, item.dot = 0 →
        (endmarked.grammar.production? item.production).all fun rule =>
          (state = 0 ∧ rule.left = .nonterminal 0) ∨
            ∃ other ∈ endmarkedItems state, endmarked.grammar.next? other = some rule.left := by
      decide
    have checked := all state (endmarkedItems_lt held) _ held rfl
    rw [known] at checked
    exact of_decide_eq_true checked
  · intro state item symbol held next nonterminal
    have all : ∀ state < 8, ∀ item ∈ endmarkedItems state,
        (endmarked.grammar.next? item).all fun symbol => symbol.kind = .nonterminal →
          ∃ target < 8, endmarked.table.action? state symbol = some (.goto target) := by
      decide +kernel
    have checked := all state (endmarkedItems_lt held) item held
    rw [next] at checked
    obtain ⟨target, _, found⟩ := of_decide_eq_true checked nonterminal
    exact ⟨target, found⟩
  · intro id rule known
    have all : ∀ rule ∈ endmarked.grammar.productions, .nonterminal 0 ∉ rule.right := by decide
    exact all rule (Array.mem_of_getElem? known)
  · intro state symbol id rule found known left
    have all : ∀ r ∈ endmarkedReductions,
        (endmarked.grammar.production? r.2).all fun rule =>
          rule.left = .nonterminal 0 → r.1.symbol = .eof := by decide
    have checked := all _ (Table.mem_of_reduce_ofLists found)
    rw [known] at checked
    exact of_decide_eq_true checked left

theorem endmarked_missing_after_shifted_end :
    ∃ place state,
      endmarked.parse 20 [.terminal 3] = some (.error (.noAction (place + 1) .eof state)) ∧
      place = 1 + (endmarked.trace (.nonterminal 0) 20 (.start [.terminal 3])).countP
        Turn.overruns := by
  have parsed : endmarked.parse 20 [.terminal 3] = some (.error (.noAction 3 .eof 6)) :=
    parse_of_start endmarked_start 20 _
  rcases augmented_parse_errors endmarked_start endmarked_augmented (by decide) (by decide)
    parsed with ⟨t, done⟩ | ⟨place, symbol, state, same, _, here | ⟨rfl, counted⟩⟩
  · cases done
  · cases same
    cases here
  · cases same
    exact ⟨2, 6, parsed, counted⟩

/-- With an end of input shifted, the place of an error need not be the one after the input. -/
theorem missing_beyond_next_place : ¬ ∀ (p : Parser) (goal : Symbol) (items : Nat → Item → Prop)
    (input : List Symbol), p.startSymbol = .ok goal → p.Augmented goal items →
    (∀ s ∈ input, s.kind = .terminal) → .eof ∉ input →
    ∀ limit position symbol state,
      p.parse limit input = some (.error (.noAction position symbol state)) →
      position ≤ input.length + 1 := by
  intro bounded
  have place := bounded endmarked (.nonterminal 0) _ [.terminal 3] endmarked_start
    endmarked_augmented (by decide) (by decide) 20 3 .eof 6 (parse_of_start endmarked_start 20 _)
  exact absurd place (by decide)

end Parser
end Recognizers
