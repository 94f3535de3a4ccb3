import Mathlib.Algebra.GroupWithZero.Nat
import Recognizers.Proofs.Parser.Items

/-!
Parses that end. In a grammar without empty productions, in which a rank rises along every
production with a single symbol on the right, each tree is worth some reductions (`Ranked.worth_left`).
What is read pays for the turns, so their number is linear in the input (`leads_paid`).
-/
namespace Recognizers

/-- No production is empty, and a bounded rank rises along those with a single symbol on the
right, so these make no cycle. -/
structure Grammar.Ranked (g : Grammar) (rank : Symbol → Nat) (bound : Nat) : Prop where
  bounded : ∀ symbol, rank symbol ≤ bound
  nonempty : ∀ id rule, g.production? id = some rule → rule.right ≠ []
  rises : ∀ id rule symbol, g.production? id = some rule → rule.right = [symbol] →
    rank symbol < rank rule.left

/-- The turns that a tree with this symbol pays for: two for each reduction, which is followed by
a goto. -/
def Symbol.worth (rank : Symbol → Nat) (bound : Nat) (symbol : Symbol) : Nat :=
  2 * (2 * bound + 1 - rank symbol)

variable {rank : Symbol → Nat} {bound : Nat}

theorem Grammar.Ranked.worth_left {g : Grammar} (ranked : g.Ranked rank bound) {id : Nat}
    {rule : Production} (known : g.production? id = some rule) :
    Symbol.worth rank bound rule.left + 2 ≤ (rule.right.map (Symbol.worth rank bound)).sum := by
  have rises := ranked.rises id rule
  have left := ranked.bounded rule.left
  cases right : rule.right with
  | nil => exact absurd right (ranked.nonempty id rule known)
  | cons first others =>
    have low := ranked.bounded first
    cases others with
    | nil =>
      have higher := rises first known right
      simp only [Symbol.worth, List.map_cons, List.map_nil, List.sum_cons, List.sum_nil]
      omega
    | cons second rest =>
      have low' := ranked.bounded second
      simp only [Symbol.worth, List.map_cons, List.sum_cons]
      omega

namespace Forest

variable (rank bound)

def worth (rank : Symbol → Nat) (bound : Nat) (f : Forest) : Nat :=
  ((f.trees.map OrderedTree.symbol).map (Symbol.worth rank bound)).sum

theorem worth_grow (f : Forest) (symbol : Symbol) :
    (f.grow symbol).worth rank bound =
      Symbol.worth rank bound symbol + f.worth rank bound := by
  rw [worth, trees_grow, List.map_cons, List.map_cons, List.sum_cons]
  rfl

theorem worth_join (f : Forest) (symbol : Symbol) (production count : Nat) :
    (f.join symbol production count).worth rank bound +
        (((f.trees.take count).reverse.map OrderedTree.symbol).map
          (Symbol.worth rank bound)).sum =
      Symbol.worth rank bound symbol + f.worth rank bound := by
  have joined : (f.join symbol production count).worth rank bound =
      Symbol.worth rank bound symbol +
        (((f.trees.drop count).map OrderedTree.symbol).map (Symbol.worth rank bound)).sum := by
    rw [worth, trees_join, List.map_cons, List.map_cons, List.sum_cons]
    rfl
  have whole : f.worth rank bound =
      (((f.trees.take count).map OrderedTree.symbol).map (Symbol.worth rank bound)).sum +
        (((f.trees.drop count).map OrderedTree.symbol).map (Symbol.worth rank bound)).sum := by
    rw [worth, ← List.sum_append, ← List.map_append, ← List.map_append, List.take_append_drop]
  rw [joined, whole, List.map_reverse, List.map_reverse, List.sum_reverse]
  omega

end Forest

namespace Parser

variable {p : Parser} {items : Nat → Item → Prop} {input : List Symbol}
  {past : List (Turn Config)} {d : Config}

/-- What was read pays for the turns so far, for the goto that is due, and for what the trees are
worth. -/
theorem leads_paid (tracked : p.Tracked items) (ranked : p.grammar.Ranked rank bound)
    (terminals : ∀ s ∈ input, s.kind = .terminal) (leads : p.Leads (.start input) past d) :
    past.length + (p.ledger past).written.length + d.forest.worth rank bound ≤
      (4 * bound + 3) * (p.ledger past).read := by
  induction leads with
  | start => exact Nat.le_refl 0
  | @turn past d action e before chosen taken ih =>
    have balanced := leads_balanced before
    obtain ⟨crossed, viable⟩ := tracked.leads_viable terminals before
    cases act_effect taken with
    | shift target =>
      have none := balanced.written_of_terminal (shift_terminal chosen)
      have cost : Symbol.worth rank bound d.tape.look ≤ 4 * bound + 2 := by
        simp only [Symbol.worth]
        omega
      simp only [none, List.length_nil] at ih
      simp only [ledger, record, Ledger.pass_of_nil none, List.length_cons, List.length_nil,
        Forest.worth_grow, Nat.mul_add]
      omega
    | goto target =>
      obtain ⟨later, written⟩ :=
        balanced.written_of_nonterminal terminals (goto_nonterminal chosen)
      simp only [written, List.length_cons] at ih
      simp only [ledger, record, Ledger.pass_of_cons written, List.length_cons]
      omega
    | reduce id rule known enough =>
      have right := viable.symbols_popped tracked balanced chosen known
      have spent := Forest.worth_join rank bound d.forest rule.left id rule.arity
      have gained := ranked.worth_left known
      rw [right] at spent
      simp only [ledger, record, known, Ledger.write, List.length_cons]
      omega

/-- A table that tracks the items of a ranked grammar, and shifts no end of input, makes every
parse of terminals end, after a number of turns that is linear in the length of the input. -/
theorem ranked_parse_ends (tracked : p.Tracked items) (ranked : p.grammar.Ranked rank bound)
    (unshifted : ∀ state target, p.table.action? state .eof ≠ some (.shift target))
    (terminals : ∀ s ∈ input, s.kind = .terminal) :
    ∃ r, p.parse ((4 * bound + 3) * input.length + 1) input = some r := by
  cases started : p.startSymbol with
  | error e => exact ⟨.error e, by simp only [parse, started]⟩
  | ok goal =>
    rw [parse_of_start started, ← Option.isSome_iff_exists, ← Option.ne_none_iff_isSome]
    intro unended
    obtain ⟨past, d, leads, count⟩ := leads_of_run_none unended
    have paid := leads_paid tracked ranked terminals leads
    have inside : (p.ledger past).read ≤ input.length := by
      have overrun := (leads_balanced leads).overrun
      rw [overruns_of_unshifted leads unshifted] at overrun
      omega
    have most := Nat.mul_le_mul_left (4 * bound + 3) inside
    omega

/-- The rules `S -> S a`, `S -> A` and `A -> a`, with `a` the terminal 2 and `S`, `A` the
non-terminals 0 and 1. -/
def chained : Parser where
  grammar :=
    { productions := #[⟨0, [.nonterminal 0, .terminal 2]⟩, ⟨0, [.nonterminal 1]⟩,
        ⟨1, [.terminal 2]⟩] }
  table := .ofLists
    [(⟨0, .terminal 2⟩, 1), (⟨0, .nonterminal 1⟩, 2), (⟨0, .nonterminal 0⟩, 3),
      (⟨3, .terminal 2⟩, 4)]
    [(⟨1, .terminal 2⟩, 2), (⟨1, .eof⟩, 2), (⟨2, .terminal 2⟩, 1), (⟨2, .eof⟩, 1),
      (⟨4, .terminal 2⟩, 0), (⟨4, .eof⟩, 0)]
    [4]

def chainedItems (state : Nat) : List Item :=
  [[⟨0, 0⟩, ⟨1, 0⟩, ⟨2, 0⟩], [⟨2, 1⟩], [⟨1, 1⟩], [⟨0, 1⟩], [⟨0, 2⟩]].getD state []

def chainedRank : Symbol → Nat
  | .nonterminal 0 => 2
  | .nonterminal 1 => 1
  | _ => 0

theorem chained_start : chained.startSymbol = .ok (.nonterminal 0) :=
  startSymbol_of_final (Table.min?_finals_ofLists _ _ _) rfl rfl rfl

theorem chained_consistent : chained.Consistent fun state item => item ∈ chainedItems state :=
  Consistent.ofLists (by decide) (by decide) (by decide)

theorem chained_ranked : chained.grammar.Ranked chainedRank 2 := by
  have all : ∀ rule ∈ chained.grammar.productions, rule.right ≠ [] ∧
      ∀ symbol ∈ rule.right, rule.right = [symbol] → chainedRank symbol < chainedRank rule.left := by
    decide
  refine ⟨?_, ?_, ?_⟩
  · intro symbol
    unfold chainedRank
    split <;> decide
  · intro id rule known
    exact (all rule (Array.mem_of_getElem? known)).1
  · intro id rule symbol known right
    refine (all rule (Array.mem_of_getElem? known)).2 symbol ?_ right
    rw [right]
    exact List.mem_singleton_self symbol

theorem chained_ends : ∃ t, chained.parse ((4 * 2 + 3) * 3 + 1)
    [.terminal 2, .terminal 2, .terminal 2] = some (.ok t) := by
  have unshifted : ∀ state target, chained.table.action? state .eof ≠ some (.shift target) :=
    Table.unshifted_ofLists (by decide)
  have parsed := parse_of_start chained_start 20 [.terminal 2, .terminal 2, .terminal 2]
  have ends : ∃ r, chained.parse ((4 * 2 + 3) * 3 + 1)
      [.terminal 2, .terminal 2, .terminal 2] = some r :=
    ranked_parse_ends chained_consistent.tracked chained_ranked unshifted (by decide)
  obtain ⟨r, ended⟩ := ends
  obtain rfl := parse_unique ended parsed
  exact ⟨_, ended⟩

end Parser
end Recognizers
