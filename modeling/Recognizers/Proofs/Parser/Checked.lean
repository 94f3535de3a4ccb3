import Recognizers.Parser.Checked
import Recognizers.Proofs.Parser.Accepted
import Recognizers.Proofs.Tree.Checked

/-!
The parser never comes to a fault. What carries this is that its stack of states is never empty:
then the checks before a reduction let pass all that follows.
-/
namespace Recognizers

def Config.memory (c : Config) : Memory where
  states := c.states.reverse
  roots := c.forest.roots.reverse
  nodes := c.forest.arena.nodes
  tape := c.tape

namespace Checked

theorem top_reverse {α : Type} {stack : List α} {x : α} {below : List α}
    (shape : stack = x :: below) : top stack.reverse = .ok x := by
  simp [top, shape]

theorem adopt_eq_ok {nodes : Array Node} {parent : Nat} {children : List Nat}
    (known : ∀ c ∈ children, c < nodes.size) :
    adopt nodes parent children = .ok (Arena.adopt nodes parent children) := by
  induction children generalizing nodes with
  | nil => rfl
  | cons c cs ih =>
    obtain ⟨inside, later⟩ := List.forall_mem_cons.mp known
    have set : nodes.setIfInBounds c { nodes[c] with parent := some parent } =
        nodes.modify c fun n => { n with parent := some parent } := by
      apply Array.ext_getElem?
      intro i
      rw [Array.getElem?_setIfInBounds, Array.getElem?_modify]
      split
      · rename_i here
        subst here
        simp [inside]
      · rfl
    simp only [adopt, read_eq_ok (Array.getElem?_eq_getElem inside), write_of_lt inside, ok_bind,
      set]
    rw [ih (by simpa using later)]
    rfl

theorem endsWith_eq_ok (t : Tape) (symbol : Symbol) :
    endsWith t symbol = .ok (t.endsWith symbol) := by
  unfold endsWith Tape.endsWith
  by_cases last : t.cursor + 1 = t.symbols.size
  · have inside : t.cursor < t.symbols.size := by omega
    have found := Array.getElem?_eq_getElem inside
    rw [if_pos last, read_eq_ok found, ok_bind, found]
    simp [last]
    rfl
  · rw [if_neg last]
    simp [last]
    rfl

theorem writeBack_eq_ok (t : Tape) (symbol : Symbol) :
    writeBack t symbol = .ok (t.writeBack symbol) := by
  rcases t with ⟨symbols, cursor, prepended⟩
  cases cursor with
  | zero => rfl
  | succ place =>
    have filled : (if symbols.size ≤ place then
        symbols ++ Array.replicate (place + 1 - symbols.size) Symbol.eof else symbols) =
        symbols ++ Array.replicate (place + 1 - symbols.size) .eof := by
      split
      · rfl
      · have none : place + 1 - symbols.size = 0 := by omega
        simp [none]
    have inside :
        place < (symbols ++ Array.replicate (place + 1 - symbols.size) Symbol.eof).size := by
      simp only [Array.size_append, Array.size_replicate]
      omega
    simp only [writeBack, Nat.add_one_ne_zero, if_false, minus_of_le (Nat.le_add_left 1 place),
      Nat.add_sub_cancel, filled, write_of_lt inside, ok_bind]
    rfl

theorem mapM_read_eq_ok {a : Arena} {roots : List Nat} (known : ∀ r ∈ roots, r < a.size) :
    roots.mapM (read a.nodes) = .ok (roots.filterMap a.node?) := by
  induction roots with
  | nil => rfl
  | cons r rs ih =>
    obtain ⟨inside, later⟩ := List.forall_mem_cons.mp known
    have found := Arena.node_of_lt inside
    rw [List.mapM_cons, read_eq_ok found, ih later, List.filterMap_cons_some found]
    rfl

end Checked

namespace Parser
open Checked

variable {p : Parser} {c d : Config} {limit : Nat} {input : List Symbol} {t : ParseTree}

theorem states_ne_nil_of_act {action : Action} (taken : p.act c action = .ok d)
    (nonempty : c.states ≠ []) : d.states ≠ [] := by
  cases act_effect taken with
  | shift target => exact List.cons_ne_nil _ _
  | goto target => exact List.cons_ne_nil _ _
  | reduce id rule known enough =>
    have above : rule.arity ≤ c.states.length - 1 := Nat.le_trans enough (Nat.min_le_right _ _)
    have bottom : 0 < c.states.length := List.length_pos_iff.mpr nonempty
    intro none
    have emptied := List.drop_eq_nil_iff.mp none
    omega

theorem reduce_memory (nonempty : c.states ≠ []) (id : Nat) :
    p.reduceChecked c.memory id = .ok ((p.reduce c id).map Config.memory) := by
  unfold reduceChecked reduce
  cases p.grammar.production? id with
  | none => rfl
  | some rule =>
    have bottom : 1 ≤ c.memory.states.length := by
      rw [Config.memory, List.length_reverse]
      exact List.length_pos_iff.mpr nonempty
    have available : min c.memory.roots.length (c.memory.states.length - 1) = c.available := by
      simp only [Config.memory, List.length_reverse, Config.available]
    simp only [minus_of_le bottom, ok_bind, available]
    by_cases enough : rule.arity ≤ c.available
    · have trees : rule.arity ≤ c.memory.roots.length := by
        rw [Config.memory, List.length_reverse]
        exact Nat.le_trans enough (Nat.min_le_left _ _)
      have states : rule.arity ≤ c.memory.states.length := by
        rw [Config.memory, List.length_reverse]
        exact Nat.le_trans (Nat.le_trans enough (Nat.min_le_right _ _)) (Nat.sub_le _ _)
      -- In memory the stacks stand the other way round, so what is popped comes last.
      have children : c.memory.roots.drop (c.memory.roots.length - rule.arity) =
          (c.forest.roots.take rule.arity).reverse := by
        rw [Config.memory, List.length_reverse, List.reverse_take]
      have kept : c.memory.roots.take (c.memory.roots.length - rule.arity) =
          (c.forest.roots.drop rule.arity).reverse := by
        rw [Config.memory, List.length_reverse, List.reverse_drop]
      have below : c.memory.states.take (c.memory.states.length - rule.arity) =
          (c.states.drop rule.arity).reverse := by
        rw [Config.memory, List.length_reverse, List.reverse_drop]
      have known : ∀ r ∈ (c.forest.roots.take rule.arity).reverse, r < c.memory.nodes.size :=
        fun r member => c.forest.known r (Forest.mem_of_taken member)
      rw [if_neg (Nat.not_lt.mpr enough), if_pos enough, minus_of_le states, ok_bind,
        minus_of_le trees, ok_bind, children, kept, below, adopt_eq_ok known, ok_bind,
        writeBack_eq_ok, ok_bind]
      simp only [Except.map, Config.memory, Forest.join, List.reverse_cons]
      rfl
    · rw [if_pos (Nat.lt_of_not_le enough), if_neg enough]
      rfl

theorem step_memory (nonempty : c.states ≠ []) :
    p.stepChecked c.memory = .ok ((p.step c).map Config.memory) := by
  obtain ⟨state, below, shape⟩ := List.exists_cons_of_ne_nil nonempty
  have top : top c.memory.states = .ok c.state := by
    rw [Config.memory, top_reverse shape, Config.state, shape, List.headD_cons]
  have tape : c.memory.tape = c.tape := rfl
  simp only [stepChecked, top, ok_bind, tape, step, action?]
  rcases p.table.action? c.state c.tape.look with _ | ⟨target⟩ | ⟨target⟩ | ⟨id⟩
  · rfl
  · simp only [act, Except.map, Config.memory, Forest.grow, List.reverse_cons]
    rfl
  · simp only [act, Except.map, Config.memory, List.reverse_cons]
    rfl
  · exact reduce_memory nonempty id

/-- Without a bottom there would be no state to act in. -/
example (p : Parser) :
    p.stepChecked { states := [], tape := .ofList [] } = .error .emptyStack := rfl

theorem finish_memory (c : Config) :
    finishChecked c.memory = .ok ((finish c.forest).map ParseTree.bare) := by
  have count : c.memory.roots.length = c.forest.trees.length := by
    rw [Config.memory, List.length_reverse, Forest.length_trees]
  by_cases one : c.forest.trees.length = 1
  · obtain ⟨t, done⟩ := finish_isOk_iff.mpr one
    obtain ⟨arena, roots⟩ := Forest.single?_parts (single?_of_finish done)
    have only : c.memory.roots.toArray[0]? = some t.root := by
      rw [Config.memory, roots]
      rfl
    rw [finishChecked, if_pos (count.trans one), read_eq_ok only, done, Except.map, ParseTree.bare,
      arena]
    rfl
  · have known : ∀ r ∈ c.memory.roots, r < c.forest.arena.size := fun r member =>
      c.forest.known r (List.mem_reverse.mp member)
    have residual : c.memory.roots.mapM (read c.memory.nodes) =
        .ok (c.memory.roots.filterMap c.forest.arena.node?) := mapM_read_eq_ok known
    rw [finishChecked, if_neg (fun same => one (count.symm.trans same)), residual,
      finish_of_many one]
    rfl

theorem run_memory (p : Parser) (goal : Symbol) (limit : Nat) (nonempty : c.states ≠ []) :
    p.runChecked goal limit c.memory =
      .ok ((p.run goal limit c).map (Except.map ParseTree.bare)) := by
  induction limit generalizing c with
  | zero => rfl
  | succ limit ih =>
    have ends : endsWith c.memory.tape goal = .ok (c.tape.endsWith goal) :=
      endsWith_eq_ok c.tape goal
    rw [runChecked, ends, ok_bind, run]
    cases c.tape.endsWith goal with
    | true =>
      simp only [if_true, finish_memory, ok_bind]
      rfl
    | false =>
      simp only [Bool.false_eq_true, if_false, step_memory nonempty, ok_bind]
      cases taken : p.step c with
      | error e => rfl
      | ok next =>
        obtain ⟨action, _, acted⟩ := step_eq_ok taken
        exact ih (states_ne_nil_of_act acted nonempty)

theorem length_preorder_root (parsed : p.parse limit input = some (.ok t)) :
    (t.arena.preorder t.root).length = t.size := by
  obtain ⟨goal, past, last, accepted⟩ := parse_accepted parsed
  have orderly := (leads_built accepted.ended.leads).orderly
  rw [Arena.length_preorder, accepted.arena, orderly.postorder_root accepted.roots,
    List.length_range, ParseTree.size, accepted.arena]

/-- Every access of every run is checked to be within its bounds and no check fails: the parser on
its memory never comes to a fault, within any number of steps, and does what the parser does. On the
trees it returns, no traversal comes to a fault either, and each one ends: those that look at nodes
after as many rounds as there are nodes, a walk after twice as many. -/
theorem parses_without_faults (p : Parser) (input : List Symbol) :
    (∀ limit, p.parseChecked limit input =
      .ok ((p.parse limit input).map (Except.map ParseTree.bare))) ∧
    ∀ limit t, p.parse limit input = some (.ok t) → ∀ rounds,
      (t.size ≤ rounds → t.bare.leaves rounds = .ok (some t.leaves) ∧
        (∀ v, t.bare.drawing v rounds = .ok (some (t.drawing v))) ∧
        ∀ u : ParseTree, t.bare.isomorphic u.bare rounds = .ok (some (t.isomorphic u))) ∧
      (2 * t.size ≤ rounds → ∀ {M : Type → Type u} [Monad M] [LawfulMonad M] (v : Visitor M),
        t.bare.walk v rounds =
          (do
            t.walk v
            pure (.ok true))) := by
  refine ⟨fun limit => ?_, fun limit t parsed rounds => ?_⟩
  · unfold parseChecked parse
    cases p.startSymbol with
    | ok goal =>
      have bottom : (Config.start input).states ≠ [] := List.cons_ne_nil 0 []
      exact run_memory p goal limit bottom
    | error e => rfl
  · have all := length_preorder_root parsed
    constructor
    · intro enough
      rw [← all] at enough
      exact ⟨ParseTree.bare_leaves enough, ParseTree.bare_drawing enough,
        ParseTree.bare_isomorphic enough⟩
    · intro enough M _ _ v
      rw [← all] at enough
      exact ParseTree.bare_walk enough v

theorem endmarked_without_faults : ∃ t, endmarked.parse 20 [.terminal 2] = some (.ok t) ∧
    endmarked.parseChecked 20 [.terminal 2] = .ok (some (.ok t.bare)) ∧
    t.leaves = [.terminal 2, .eof] ∧ t.bare.isomorphic t.bare 5 = .ok (some (t.isomorphic t)) ∧
    ∀ v : Visitor Option, t.bare.walk v 10 =
      (do
        t.walk v
        pure (.ok true)) := by
  obtain ⟨t, parsed, size, leaves⟩ : ∃ t, endmarked.parse 20 [.terminal 2] = some (.ok t) ∧
      t.size = 5 ∧ t.bare.leaves 5 = .ok (some [.terminal 2, .eof]) :=
    ⟨_, parse_of_start endmarked_start 20 _, rfl, rfl⟩
  obtain ⟨faultless, traversed⟩ := parses_without_faults endmarked [.terminal 2]
  obtain ⟨found, _, compared⟩ := (traversed 20 t parsed 5).1 (by omega)
  have checked := faultless 20
  rw [parsed] at checked
  rw [leaves] at found
  refine ⟨t, parsed, checked, ?_, compared t, (traversed 20 t parsed 10).2 (by omega)⟩
  exact (Option.some.inj (Except.ok.inj found)).symm

end Parser
end Recognizers
