import Recognizers.Proofs.Parser.Stopping
import Recognizers.Proofs.Tree.Postorder

/-!
The trees that parses return, for every table and every input, also one that holds non-terminals:
their leaves (`parsed_leaves`), how they lie in the arena (`parsed_postorder`) and their roots
(`parsed_root`). The stopping test does not ask where the goal came from.
-/
namespace Recognizers

def Turn.shifts (t : Turn Config) : Bool :=
  match t.action with
  | some (.shift _) => true
  | _ => false

def Turn.reduces (t : Turn Config) : Bool :=
  match t.action with
  | some (.reduce _) => true
  | _ => false

namespace Parser

variable {p : Parser} {goal : Symbol} {input : List Symbol} {limit : Nat} {t : ParseTree}
  {past : List (Turn Config)} {c d : Config}

theorem leads_built (leads : p.Leads (.start input) past d) :
    d.forest.Built p.grammar (past.countP Turn.shifts) (past.countP Turn.reduces) := by
  induction leads with
  | start => exact .empty
  | @turn past d action e before chosen taken ih =>
    rw [List.countP_cons, List.countP_cons]
    cases act_effect taken with
    | shift target => exact ih.grow (shift_terminal chosen)
    | goto target => exact ih
    | reduce id rule known enough =>
      exact ih.join known (Nat.le_trans enough (Nat.min_le_left _ _))

structure Accepted (p : Parser) (goal : Symbol) (limit : Nat) (input : List Symbol)
    (t : ParseTree) (past : List (Turn Config)) (last : Config) : Prop where
  started : p.startSymbol = .ok goal
  ended : p.Ended goal limit (.start input) (.ok t) past last
  finished : last.tape.endsWith goal = true
  arena : t.arena = last.forest.arena
  roots : last.forest.roots = [t.root]
  trees : last.forest.trees = [t.unfold]

theorem parse_accepted (parsed : p.parse limit input = some (.ok t)) :
    ∃ goal past last, p.Accepted goal limit input t past last := by
  rcases parse_ended parsed with ⟨e, _, failed⟩ | ⟨goal, past, last, started, ended⟩
  · cases failed
  · rcases ended.cases with ⟨finished, done⟩ | ⟨_, e, _, failed⟩
    · obtain ⟨arena, roots⟩ := Forest.single?_parts (single?_of_finish done.symm)
      exact ⟨goal, past, last, started, ended, finished, arena, roots, finish_eq_ok done.symm⟩
    · cases failed

namespace Accepted

theorem idle (accepted : p.Accepted goal limit input t past d) : p.choice goal d = none :=
  choice_of_over accepted.finished

theorem countP_trace (accepted : p.Accepted goal limit input t past d)
    (counted : Turn Config → Bool) (uncounted : counted ⟨d, none⟩ = false) :
    (p.trace goal limit (.start input)).countP counted = past.countP counted := by
  apply accepted.ended.countP_trace
  rw [accepted.idle, uncounted]

theorem rest_nonterminal (accepted : p.Accepted goal limit input t past d) :
    ∀ s ∈ input.drop (p.ledger past).read, s.kind = .nonterminal := by
  intro s member
  rcases (leads_balanced accepted.ended.leads).over_cases accepted.finished with
    ⟨_, none⟩ | ⟨_, given⟩
  · rw [none] at member
    cases member
  · rw [given] at member
    rw [List.mem_singleton.mp member]
    exact startSymbol_nonterminal accepted.started

theorem result (accepted : p.Accepted goal limit input t past d) : finish d.forest = .ok t := by
  rcases accepted.ended.cases with ⟨_, done⟩ | ⟨unfinished, _⟩
  · exact done.symm
  · rw [accepted.finished] at unfinished
    cases unfinished

theorem leaves (accepted : p.Accepted goal limit input t past d) : t.leaves = d.forest.yield := by
  rw [t.leaves_eq_unfold, Forest.yield, accepted.trees]
  simp

theorem leaves_of_terminals (accepted : p.Accepted goal limit input t past d)
    (terminals : ∀ s ∈ input, s.kind = .terminal) :
    t.leaves = input ++ List.replicate (past.countP Turn.overruns) .eof := by
  have balanced := leads_balanced accepted.ended.leads
  have all := (balanced.written_of_over terminals (startSymbol_nonterminal accepted.started)
    accepted.finished).2
  rw [accepted.leaves, balanced.yield_of_drop_nil terminals all]

end Accepted

/-- The leaves of a tree are the terminals of the input, in their order, and then the ends of input
that were shifted beyond it. -/
theorem parsed_leaves (parsed : p.parse limit input = some (.ok t)) :
    ∃ goal, p.startSymbol = .ok goal ∧
      t.leaves = input.filter (·.kind = .terminal) ++
        List.replicate ((p.trace goal limit (.start input)).countP Turn.overruns) .eof ∧
      ((∀ s ∈ input, s.kind = .terminal) →
        (∀ state target, p.table.action? state .eof ≠ some (.shift target)) →
        t.leaves = input) := by
  obtain ⟨goal, past, last, accepted⟩ := parse_accepted parsed
  have yield := (leads_balanced accepted.ended.leads).yield_of_rest accepted.rest_nonterminal
  refine ⟨goal, accepted.started, ?_, fun terminals unshifted => ?_⟩
  · rw [accepted.leaves, yield, accepted.countP_trace Turn.overruns rfl]
  · rw [accepted.leaves_of_terminals terminals,
      overruns_of_unshifted accepted.ended.leads unshifted, List.replicate_zero, List.append_nil]

/-- The rule `S -> a eof`, with `a` the terminal 2 and `S` the non-terminal 0. The table passes over
the non-terminal 1 wherever the input has it. -/
def padded : Parser where
  grammar := { productions := #[⟨0, [.terminal 2, .eof]⟩] }
  table := .ofLists [(⟨0, .nonterminal 1⟩, 0), (⟨0, .terminal 2⟩, 1), (⟨1, .nonterminal 1⟩, 1),
    (⟨1, .eof⟩, 2)] [(⟨2, .eof⟩, 0)] [2]

theorem padded_start : padded.startSymbol = .ok (.nonterminal 0) :=
  startSymbol_of_final (Table.min?_finals_ofLists _ _ _) rfl rfl rfl

theorem rightRecursive_shifts_no_eof (state target : Nat) :
    rightRecursive.table.action? state .eof ≠ some (.shift target) :=
  Table.unshifted_ofLists (by decide) state target

theorem padded_and_rightRecursive_leaves :
    (∃ t, padded.parse 20 [.nonterminal 1, .terminal 2, .nonterminal 1] = some (.ok t) ∧
      t.leaves = [.terminal 2, .eof]) ∧
    ∃ t, rightRecursive.parse 20 [.terminal 2] = some (.ok t) ∧ t.leaves = [.terminal 2] := by
  constructor
  · obtain ⟨t, parsed⟩ : ∃ t, padded.parse 20 [.nonterminal 1, .terminal 2, .nonterminal 1] =
        some (.ok t) := ⟨_, parse_of_start padded_start 20 _⟩
    obtain ⟨goal, started, leaves, _⟩ := parsed_leaves parsed
    cases started.symm.trans padded_start
    exact ⟨t, parsed, leaves⟩
  · obtain ⟨t, parsed⟩ : ∃ t, rightRecursive.parse 20 [.terminal 2] = some (.ok t) :=
      ⟨_, parse_of_start rightRecursive_start 20 _⟩
    obtain ⟨goal, _, _, plain⟩ := parsed_leaves parsed
    exact ⟨t, parsed, plain (by decide) rightRecursive_shifts_no_eof⟩

/-- If a goal that was written back comes last and the parse was not over before, then nothing is
written in front of it and the latest turn was its reduction. -/
theorem goal_written_latest (leads : p.Leads (.start input) past d)
    (unfinished : ∀ t ∈ past, t.config.tape.endsWith goal = false) (front : List Symbol)
    (written : (p.ledger past).written = front ++ [goal])
    (all : input.drop (p.ledger past).read = []) :
    front = [] ∧ ∃ (f : Forest) (id : Nat) (rule : Production),
      p.grammar.production? id = some rule ∧ rule.left = goal ∧
        d.forest = f.join rule.left id rule.arity := by
  induction leads generalizing front with
  | start => simp [ledger] at written
  | @turn past d action e before chosen taken ih =>
    have balanced := leads_balanced before
    have earlier : ∀ t ∈ past, t.config.tape.endsWith goal = false :=
      fun t member => unfinished t (List.mem_cons_of_mem _ member)
    cases act_effect taken with
    | shift target =>
      have none := balanced.written_of_terminal (shift_terminal chosen)
      simp [ledger, record, Ledger.pass_of_nil none] at written
    | goto target =>
      cases held : (p.ledger past).written with
      | nil => simp [ledger, record, Ledger.pass_of_nil held] at written
      | cons s later =>
        simp only [ledger, record, Ledger.pass_of_cons held] at written all
        have more : (p.ledger past).written = (s :: front) ++ [goal] := by rw [held, written]; rfl
        cases (ih earlier (s :: front) more all).1
    | reduce id rule known enough =>
      simp only [ledger, record, known, Ledger.write] at written all
      cases front with
      | nil =>
        obtain ⟨left, _⟩ := List.cons.inj written
        exact ⟨rfl, d.forest, id, rule, known, left, rfl⟩
      | cons s front =>
        -- The goal was there before, so the parse was over before this reduction.
        obtain ⟨_, held⟩ := List.cons.inj written
        have alone := (ih earlier front held all).1
        have finished : d.tape.endsWith goal = true := by
          rw [Tape.endsWith_iff, balanced.ahead, Ledger.ahead, held, all, alone]
          rfl
        rw [unfinished _ List.mem_cons_self] at finished
        cases finished

theorem Accepted.root_of_written (accepted : p.Accepted goal limit input t past d)
    (written : (p.ledger past).written = [goal]) (all : input.drop (p.ledger past).read = []) :
    ∃ id rule children, p.grammar.production? id = some rule ∧ rule.left = goal ∧
      t.arena.node? t.root = some { symbol := goal, content := .inner id children } := by
  obtain ⟨_, f, id, rule, known, left, joined⟩ :=
    goal_written_latest accepted.ended.leads accepted.ended.unfinished [] written all
  have roots := accepted.roots
  rw [joined] at roots
  have root : t.root = f.arena.size := (List.cons.inj roots).1.symm
  refine ⟨id, rule, (f.roots.take rule.arity).reverse, known, left, ?_⟩
  rw [accepted.arena, joined, root, Forest.node_join, left]

theorem Accepted.given_of_read (accepted : p.Accepted goal limit input t past d)
    (written : (p.ledger past).written = []) (given : input.drop (p.ledger past).read = [goal]) :
    ∃ front, input = front ++ [goal] ∧
      p.books goal limit input = { read := front.length, written := [] } := by
  have bound : (p.ledger past).read ≤ input.length := by
    have count := congrArg List.length given
    simp only [List.length_drop, List.length_singleton] at count
    omega
  refine ⟨input.take (p.ledger past).read, ?_, ?_⟩
  · rw [← given, List.take_append_drop]
  · rw [accepted.ended.books_eq accepted.idle, List.length_take_of_le bound, ← written]

/-- The root is an inner node for the goal and a production of it, or the parse came to a goal
that ends the input with nothing written back; what root there is then is a node like any other. -/
theorem parsed_root (parsed : p.parse limit input = some (.ok t)) :
    ∃ goal n, p.startSymbol = .ok goal ∧ t.arena.node? t.root = some n ∧ n.Formed p.grammar ∧
      ((n.isLeaf = false ∧ n.symbol = goal ∧ ∃ id rule, n.production? = some id ∧
          p.grammar.production? id = some rule ∧ rule.left = goal) ∨
        ∃ front, input = front ++ [goal] ∧
          p.books goal limit input = { read := front.length, written := [] }) := by
  obtain ⟨goal, past, last, accepted⟩ := parse_accepted parsed
  have leads := accepted.ended.leads
  obtain ⟨n, found⟩ : ∃ n, t.arena.node? t.root = some n := ⟨_, Arena.node_of_lt t.known⟩
  have formed : n.Formed p.grammar := (leads_built leads).formed (accepted.arena ▸ found)
  refine ⟨goal, n, accepted.started, found, formed, ?_⟩
  rcases (leads_balanced leads).over_cases accepted.finished with ⟨written, all⟩ | ⟨written, given⟩
  · obtain ⟨id, rule, children, known, left, node⟩ := accepted.root_of_written written all
    cases found.symm.trans node
    exact .inl ⟨rfl, rfl, id, rule, rfl, known, left⟩
  · exact .inr (accepted.given_of_read written given)

theorem padded_root : ∃ t n,
    padded.parse 20 [.nonterminal 1, .terminal 2, .nonterminal 1] = some (.ok t) ∧
      t.arena.node? t.root = some n ∧ n.isLeaf = false ∧ n.symbol = .nonterminal 0 := by
  obtain ⟨t, parsed⟩ : ∃ t, padded.parse 20 [.nonterminal 1, .terminal 2, .nonterminal 1] =
      some (.ok t) := ⟨_, parse_of_start padded_start 20 _⟩
  obtain ⟨goal, n, started, found, _, ⟨shape, symbol, _⟩ | ⟨front, same, _⟩⟩ := parsed_root parsed
  · cases started.symm.trans padded_start
    exact ⟨t, n, parsed, found, shape, symbol⟩
  · cases started.symm.trans padded_start
    have last := congrArg List.getLast? same
    simp at last

/-- A single leaf before a goal that the input gives is returned as a tree. -/
theorem leaf_before_given_goal : ¬ ∀ (p : Parser) (goal : Symbol) (input : List Symbol)
    (limit : Nat) (t : ParseTree), p.startSymbol = .ok goal →
    p.parse limit input = some (.ok t) → ∃ n, t.arena.node? t.root = some n ∧
      n.isLeaf = false ∧ n.symbol = goal ∧ ∃ id rule, n.production? = some id ∧
        p.grammar.production? id = some rule ∧ rule.left = goal := by
  intro rooted
  obtain ⟨n, found, shape, _⟩ := rooted padded (.nonterminal 0) [.terminal 2, .nonterminal 0] 20 _
    padded_start (parse_of_start padded_start 20 _)
  cases found
  cases shape

/-- The nodes of a tree, in postorder, are the indices of its arena from 0 on. There is one for
each shift and each reduction; all but the root have exactly one parent; leaves are terminals and
inner nodes productions. -/
theorem parsed_postorder (parsed : p.parse limit input = some (.ok t)) :
    ∃ goal, p.startSymbol = .ok goal ∧
      t.arena.postorder t.root = List.range t.size ∧ t.root + 1 = t.size ∧
      t.size = (p.trace goal limit (.start input)).countP Turn.shifts +
        (p.trace goal limit (.start input)).countP Turn.reduces ∧
      t.arena.parent? t.root = none ∧
      (∀ i < t.size, i ≠ t.root →
        ∃ j, t.arena.parent? i = some j ∧ ∀ k, i ∈ t.arena.children k ↔ k = j) ∧
      ∀ i n, t.arena.node? i = some n → n.Formed p.grammar := by
  obtain ⟨goal, past, last, accepted⟩ := parse_accepted parsed
  have built := leads_built accepted.ended.leads
  have orderly := built.orderly
  have roots := accepted.roots
  refine ⟨goal, accepted.started, ?_⟩
  rw [accepted.countP_trace Turn.shifts rfl, accepted.countP_trace Turn.reduces rfl,
    ParseTree.size, accepted.arena]
  refine ⟨orderly.postorder_root roots, orderly.root_last roots, built.size, ?_, ?_, ?_⟩
  · exact orderly.orphans t.root (by simp [roots])
  · intro i known below
    exact orderly.parent_of_nonroot roots known below
  · intro i n found
    exact built.formed found

theorem endmarked_postorder : ∃ t, endmarked.parse 20 [.terminal 2] = some (.ok t) ∧
    t.size = 5 ∧ t.arena.postorder 4 = [0, 1, 2, 3, 4] ∧ t.arena.children 4 = [0, 1, 2, 3] ∧
    t.arena.parent? 4 = none := by
  obtain ⟨t, parsed, size, children⟩ : ∃ t, endmarked.parse 20 [.terminal 2] = some (.ok t) ∧
      t.size = 5 ∧ t.arena.children 4 = [0, 1, 2, 3] :=
    ⟨_, parse_of_start endmarked_start 20 _, rfl, rfl⟩
  obtain ⟨goal, _, postorder, last, _, orphan, _⟩ := parsed_postorder parsed
  have root : t.root = 4 := by omega
  rw [root, size] at postorder
  rw [root] at orphan
  exact ⟨t, parsed, size, postorder, children, orphan⟩

end Parser
end Recognizers
