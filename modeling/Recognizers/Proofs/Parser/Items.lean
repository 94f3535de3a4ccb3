import Recognizers.Proofs.Parser.Ledger
import Recognizers.Proofs.Table.Listed

/-!
Soundness for tables that carry item sets. The states on the stack form a path whose moves spell
the symbols of the forest; where a state holds an item, the symbols below it are the part of the
right side before the dot (`path_pop`), so each reduction finds its right side on the forest.
-/
namespace Recognizers

structure Item where
  production : Nat
  dot : Nat
deriving DecidableEq

def Grammar.next? (g : Grammar) (item : Item) : Option Symbol :=
  (g.production? item.production).bind fun rule => rule.right[item.dot]?

theorem Grammar.next?_of_production {g : Grammar} {id dot : Nat} {rule : Production}
    (known : g.production? id = some rule) : g.next? ⟨id, dot⟩ = rule.right[dot]? := by
  simp only [next?, known, Option.bind_some]

/-- Trees of a grammar: the children of an inner node are the right side of its production. -/
inductive OrderedTree.Derivation (g : Grammar) : OrderedTree → Prop where
  | leaf (number : Nat) : Derivation g (.leaf (.terminal number))
  | inner {id : Nat} {rule : Production} {children : List OrderedTree}
      (known : g.production? id = some rule) (right : children.map symbol = rule.right)
      (below : ∀ t ∈ children, Derivation g t) : Derivation g (.inner rule.left id children)

namespace Table

/-- The states of a stack, the current one first, and the symbols crossed between them. -/
inductive Path (t : Table) : List Nat → List Symbol → Prop where
  | bottom : Path t [0] []
  | move {state : Nat} {states : List Nat} {crossed : List Symbol} {symbol : Symbol} {target : Nat}
      (below : Path t (state :: states) crossed) (moved : t.Moves state symbol target) :
      Path t (target :: state :: states) (symbol :: crossed)

theorem Path.states_length {t : Table} {states : List Nat} {crossed : List Symbol}
    (path : t.Path states crossed) : states.length = crossed.length + 1 := by
  induction path with
  | bottom => rfl
  | move below moved ih => rw [List.length_cons, ih, List.length_cons]

theorem Path.push {t : Table} {states : List Nat} {crossed : List Symbol} {symbol : Symbol}
    {target : Nat} (path : t.Path states crossed)
    (moved : t.Moves (states.headD 0) symbol target) :
    t.Path (target :: states) (symbol :: crossed) := by
  cases path with
  | bottom => exact .move .bottom moved
  | move below earlier => exact .move (.move below earlier) moved

end Table

namespace Parser

/-- Item sets that the table respects: a move only advances dots over its symbol, and a reduction
needs a complete item and a terminal. -/
structure Consistent (p : Parser) (items : Nat → Item → Prop) : Prop where
  back : ∀ state symbol target id dot, p.table.Moves state symbol target →
    items target ⟨id, dot + 1⟩ →
    items state ⟨id, dot⟩ ∧ p.grammar.next? ⟨id, dot⟩ = some symbol
  complete : ∀ state symbol id, p.table.action? state symbol = some (.reduce id) →
    symbol.kind = .terminal ∧
      ∃ rule, p.grammar.production? id = some rule ∧ items state ⟨id, rule.arity⟩
  initial : ∀ item, items 0 item → item.dot = 0

/-- Item sets of a table that may name productions which do not exist. -/
structure Tracked (p : Parser) (items : Nat → Item → Prop) : Prop where
  back : ∀ state symbol target id dot, p.table.Moves state symbol target →
    items target ⟨id, dot + 1⟩ →
    items state ⟨id, dot⟩ ∧ p.grammar.next? ⟨id, dot⟩ = some symbol
  reduces : p.table.ReducesOnTerminals
  complete : ∀ state symbol id rule, p.table.action? state symbol = some (.reduce id) →
    p.grammar.production? id = some rule → items state ⟨id, rule.arity⟩
  initial : ∀ item, items 0 item → item.dot = 0

theorem Consistent.tracked {p : Parser} {items : Nat → Item → Prop}
    (consistent : p.Consistent items) : p.Tracked items where
  back := consistent.back
  reduces state symbol id reduction := (consistent.complete state symbol id reduction).1
  complete state symbol id rule reduction known := by
    obtain ⟨_, found, same, item⟩ := consistent.complete state symbol id reduction
    cases same.symm.trans known
    exact item
  initial := consistent.initial

variable {p : Parser} {items : Nat → Item → Prop} {goal : Symbol} {input : List Symbol}
  {past : List (Turn Config)} {l : Ledger} {overruns : Nat} {c d : Config}
  {crossed : List Symbol}

theorem path_pop (tracked : p.Tracked items) {states : List Nat} {id dot : Nat}
    {rule : Production} (path : p.table.Path states crossed)
    (item : items (states.headD 0) ⟨id, dot⟩) (known : p.grammar.production? id = some rule) :
    dot ≤ crossed.length ∧ (crossed.take dot).reverse = rule.right.take dot ∧
      p.table.Path (states.drop dot) (crossed.drop dot) ∧
      items ((states.drop dot).headD 0) ⟨id, 0⟩ := by
  induction path generalizing dot with
  | bottom =>
    have first : dot = 0 := tracked.initial _ item
    subst dot
    exact ⟨Nat.le_refl _, rfl, .bottom, item⟩
  | @move state states crossed symbol target below moved ih =>
    cases dot with
    | zero => exact ⟨Nat.zero_le _, rfl, .move below moved, item⟩
    | succ dot =>
      obtain ⟨earlier, next⟩ := tracked.back state symbol target id dot moved item
      obtain ⟨enough, spelled, path, start⟩ := ih earlier
      rw [Grammar.next?_of_production known] at next
      refine ⟨Nat.succ_le_succ enough, ?_, path, start⟩
      rw [List.take_succ_cons, List.reverse_cons, spelled, List.take_add_one, next,
        Option.toList_some]

structure Viable (p : Parser) (l : Ledger) (c : Config) (crossed : List Symbol) : Prop where
  path : p.table.Path c.states crossed
  symbols : c.forest.trees.map OrderedTree.symbol = l.written ++ crossed
  few : l.written.length ≤ 1
  derived : ∀ t ∈ c.forest.trees, t.Derivation p.grammar

theorem Viable.popped (viable : p.Viable l c crossed) (tracked : p.Tracked items)
    (balanced : Balanced input l overruns c) {id : Nat} {rule : Production}
    (chosen : p.action? c = some (.reduce id)) (known : p.grammar.production? id = some rule) :
    l.written = [] ∧ rule.arity ≤ c.available ∧ (crossed.take rule.arity).reverse = rule.right ∧
      p.table.Path (c.states.drop rule.arity) (crossed.drop rule.arity) ∧
      items ((c.states.drop rule.arity).headD 0) ⟨id, 0⟩ := by
  have item := tracked.complete _ _ _ _ chosen known
  have none := balanced.written_of_terminal (tracked.reduces _ _ _ chosen)
  obtain ⟨enough, spelled, path, start⟩ := path_pop tracked viable.path item known
  have heights : c.forest.trees.length = crossed.length := by
    have all := congrArg List.length viable.symbols
    simpa only [List.length_map, none, List.nil_append] using all
  have states := viable.path.states_length
  refine ⟨none, ?_, ?_, path, start⟩
  · rw [Config.available, ← Forest.length_trees, heights, states]
    omega
  · rw [spelled, Production.arity, List.take_length]

theorem Viable.reduction (viable : p.Viable l c crossed) (consistent : p.Consistent items)
    (balanced : Balanced input l overruns c) {id : Nat}
    (chosen : p.action? c = some (.reduce id)) :
    ∃ rule, p.grammar.production? id = some rule ∧ l.written = [] ∧ rule.arity ≤ c.available ∧
      (crossed.take rule.arity).reverse = rule.right ∧
      p.table.Path (c.states.drop rule.arity) (crossed.drop rule.arity) ∧
      items ((c.states.drop rule.arity).headD 0) ⟨id, 0⟩ := by
  obtain ⟨_, rule, known, _⟩ := consistent.complete _ _ _ chosen
  exact ⟨rule, known, viable.popped consistent.tracked balanced chosen known⟩

theorem Viable.start (p : Parser) (input : List Symbol) : p.Viable {} (.start input) [] :=
  ⟨.bottom, rfl, Nat.zero_le 1, by simp [Config.start, Forest.trees_empty]⟩

theorem Viable.shift {target : Nat} (viable : p.Viable l c crossed)
    (balanced : Balanced input l overruns c) (chosen : p.action? c = some (.shift target)) :
    p.Viable l.pass ⟨target :: c.states, c.forest.grow c.tape.look, c.tape.advance⟩
      (c.tape.look :: crossed) := by
  have terminal := shift_terminal chosen
  have none := balanced.written_of_terminal terminal
  have passed := Ledger.pass_of_nil none
  refine ⟨viable.path.push (.inl chosen), ?_, by simp [passed], ?_⟩
  · rw [Forest.trees_grow, List.map_cons, viable.symbols, none, passed]
    rfl
  · intro t member
    rw [Forest.trees_grow] at member
    rcases List.mem_cons.mp member with latest | earlier
    · rw [latest]
      cases look : c.tape.look with
      | terminal number => exact .leaf number
      | nonterminal number =>
        rw [look] at terminal
        cases terminal
    · exact viable.derived t earlier

theorem Viable.goto {target : Nat} (viable : p.Viable l c crossed)
    (balanced : Balanced input l overruns c) (terminals : ∀ s ∈ input, s.kind = .terminal)
    (chosen : p.action? c = some (.goto target)) :
    p.Viable l.pass ⟨target :: c.states, c.forest, c.tape.advance⟩ (c.tape.look :: crossed) := by
  obtain ⟨later, written⟩ :=
    balanced.written_of_nonterminal terminals (goto_nonterminal chosen)
  have last := Ledger.later_of_few viable.few written
  have passed := Ledger.pass_of_cons written
  refine ⟨viable.path.push (.inr chosen), ?_, by simp [passed, last], viable.derived⟩
  rw [viable.symbols, written, passed, last]
  rfl

theorem Viable.symbols_popped (viable : p.Viable l c crossed) (tracked : p.Tracked items)
    (balanced : Balanced input l overruns c) {id : Nat} {rule : Production}
    (chosen : p.action? c = some (.reduce id)) (known : p.grammar.production? id = some rule) :
    (c.forest.trees.take rule.arity).reverse.map OrderedTree.symbol = rule.right := by
  obtain ⟨none, _, right, _, _⟩ := viable.popped tracked balanced chosen known
  rw [List.map_reverse, List.map_take, viable.symbols, none, List.nil_append, right]

theorem Viable.reduce {id : Nat} {rule : Production} (viable : p.Viable l c crossed)
    (tracked : p.Tracked items) (balanced : Balanced input l overruns c)
    (chosen : p.action? c = some (.reduce id)) (known : p.grammar.production? id = some rule) :
    p.Viable (l.write rule.left)
      ⟨c.states.drop rule.arity, c.forest.join rule.left id rule.arity,
        c.tape.writeBack rule.left⟩ (crossed.drop rule.arity) := by
  obtain ⟨none, _, _, path, _⟩ := viable.popped tracked balanced chosen known
  have symbols := viable.symbols
  rw [none, List.nil_append] at symbols
  refine ⟨path, ?_, ?_, ?_⟩
  · rw [Forest.trees_join, List.map_cons, List.map_drop, symbols, Ledger.write, none]
    rfl
  · simp [Ledger.write, none]
  · intro t member
    rw [Forest.trees_join] at member
    rcases List.mem_cons.mp member with latest | earlier
    · rw [latest]
      refine .inner known (viable.symbols_popped tracked balanced chosen known) ?_
      · intro child below
        exact viable.derived child (List.mem_of_mem_take (List.mem_reverse.mp below))
    · exact viable.derived t (List.mem_of_mem_drop earlier)

theorem Tracked.leads_viable (tracked : p.Tracked items)
    (terminals : ∀ s ∈ input, s.kind = .terminal) (leads : p.Leads (.start input) past d) :
    ∃ crossed, p.Viable (p.ledger past) d crossed := by
  induction leads with
  | start => exact ⟨[], Viable.start p input⟩
  | @turn past d action e before chosen taken ih =>
    obtain ⟨crossed, viable⟩ := ih
    have balanced := leads_balanced before
    cases act_effect taken with
    | shift target => exact ⟨_, viable.shift balanced chosen⟩
    | goto target => exact ⟨_, viable.goto balanced terminals chosen⟩
    | reduce id rule known enough =>
      simp only [ledger, record, known]
      exact ⟨_, viable.reduce tracked balanced chosen known⟩

theorem leads_viable (consistent : p.Consistent items)
    (terminals : ∀ s ∈ input, s.kind = .terminal) (leads : p.Leads (.start input) past d) :
    ∃ crossed, p.Viable (p.ledger past) d crossed :=
  consistent.tracked.leads_viable terminals leads

theorem Viable.step_error {e : ParseError} (viable : p.Viable l c crossed)
    (consistent : p.Consistent items) (balanced : Balanced input l overruns c)
    (failed : p.step c = .error e) :
    p.action? c = none ∧ e = .noAction c.tape.position c.tape.look c.state := by
  cases step_failure failed with
  | missing none => exact ⟨none, rfl⟩
  | unknown id chosen none =>
    obtain ⟨rule, known, _⟩ := viable.reduction consistent balanced chosen
    rw [none] at known
    cases known
  | underflow id rule chosen known short =>
    obtain ⟨found, same, _, enough, _⟩ := viable.reduction consistent balanced chosen
    cases same.symm.trans known
    exact absurd enough short

theorem Consistent.ofLists {g : Grammar} {moves reductions : List (Cell × Nat)}
    {finals : List Nat} {items : Nat → List Item}
    (back : ∀ m ∈ moves, ∀ item ∈ items m.2, item.dot ≠ 0 →
      ⟨item.production, item.dot - 1⟩ ∈ items m.1.state ∧
        g.next? ⟨item.production, item.dot - 1⟩ = some m.1.symbol)
    (complete : ∀ r ∈ reductions, r.1.symbol.kind = .terminal ∧
      (g.production? r.2).any fun rule => ⟨r.2, rule.arity⟩ ∈ items r.1.state)
    (initial : ∀ item ∈ items 0, item.dot = 0) :
    Consistent ⟨g, .ofLists moves reductions finals⟩ fun state item => item ∈ items state := by
  refine ⟨?_, ?_, initial⟩
  · intro state symbol target id dot moved item
    exact back _ (Table.mem_of_moves_ofLists moved) _ item (Nat.succ_ne_zero dot)
  · intro state symbol id found
    obtain ⟨terminal, held⟩ := complete _ (Table.mem_of_reduce_ofLists found)
    obtain ⟨rule, known, item⟩ := (Option.any_eq_true _ _).mp held
    exact ⟨terminal, rule, known, of_decide_eq_true item⟩

def endmarkedItems (state : Nat) : List Item :=
  [[⟨0, 0⟩, ⟨1, 0⟩, ⟨3, 0⟩], [⟨0, 1⟩], [⟨0, 2⟩], [⟨0, 3⟩, ⟨2, 0⟩], [⟨0, 4⟩], [⟨3, 1⟩], [⟨3, 2⟩],
    [⟨3, 3⟩]].getD state []

theorem endmarked_consistent :
    endmarked.Consistent fun state item => item ∈ endmarkedItems state :=
  Consistent.ofLists (by decide) (by decide) (by decide)

end Parser
end Recognizers
