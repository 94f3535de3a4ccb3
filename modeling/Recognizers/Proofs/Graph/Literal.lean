import Recognizers.Graph.Literal
import Recognizers.Proofs.Graph.Chains
import Recognizers.Proofs.Graph.Requests

/-!
Adding a literal state by state comes to adding its chain at once (`spellAll_eq`): each state could have
had its edge before the next one was there (`spell_addState`). The chain stands behind all states of the
graph, and no edge leads out of it, so its text is all it accepts (`literal_adds_isolated_chain`).
-/
namespace Recognizers

theorem Graph.update_append (g : Graph) (s : State) (more : List State) (f : State → State) :
    ({ states := g.states ++ s :: more } : Graph).update g.size f =
      { states := g.states ++ f s :: more } := by
  have modified : (g.states.toList ++ s :: more).modify g.states.toList.length f =
      g.states.toList ++ f s :: more := by
    rw [List.modify_eq_take_cons_drop (by simp), List.take_left, List.drop_append]
    simp
  apply congrArg Graph.mk
  apply Array.toList_inj.mp
  rw [Array.toList_modify, Array.toList_appendList, Array.toList_appendList]
  exact modified

namespace Draft

variable (d : Draft)

theorem append_append (states more : List State) :
    (d.append states).append more = d.append (states ++ more) := by
  have joined : d.graph.states ++ states ++ more = d.graph.states ++ (states ++ more) := by
    apply Array.toList_inj.mp
    simp
  simp only [append, joined, Supply.advance, List.length_append, Nat.add_assoc]

theorem update_append (s : State) (more : List State) (f : State → State) :
    ({ d.append (s :: more) with
      graph := (d.append (s :: more)).graph.update d.graph.size f } : Draft) =
      d.append (f s :: more) :=
  congrArg (Draft.mk · (d.names.advance (more.length + 1))) (d.graph.update_append s more f)

def linked (c : Char) : State :=
  { serial := d.names.next, edges := {{ label := String.singleton c, target := d.graph.size + 1 }} }

theorem size_append (s : State) : (d.append [s]).graph.size = d.graph.size + 1 :=
  Graph.size_append [s]

/-- A state that gets its edge after the next one is there could have had it before. -/
theorem spell_addState (c : Char) : spell (d.addState, d.graph.size) c =
    ((d.append [d.linked c]).addState, (d.append [d.linked c]).graph.size) := by
  have both : d.addState.addState =
      d.append [{ serial := d.names.next }, { serial := (d.names.advance 1).next }] :=
    append_append _ _ _
  have after : (d.append [d.linked c]).addState =
      d.append [d.linked c, { serial := (d.names.advance 1).next }] :=
    append_append _ _ _
  rw [spell, addEdge, Graph.addEdge, both, update_append, after, size_append, addState, size_append]
  rfl

theorem append_chain (c : Char) (text : List Char) :
    (d.append [d.linked c]).append
      (chain (d.append [d.linked c]).names (d.append [d.linked c]).graph.size text) =
      d.append (chain d.names d.graph.size (c :: text)) := by
  rw [append_append, size_append]
  rfl

theorem foldl_spell (text : List Char) :
    ∃ spelt, text.foldl spell (d.addState, d.graph.size) = (spelt, d.graph.size + text.length) ∧
      spelt.accept (d.graph.size + text.length) true = d.append (chain d.names d.graph.size text) := by
  induction text generalizing d with
  | nil => exact ⟨_, rfl, update_append _ _ [] _⟩
  | cons c text ih =>
    obtain ⟨spelt, found, accepted⟩ := ih (d.append [d.linked c])
    have last : (d.append [d.linked c]).graph.size + text.length =
        d.graph.size + (c :: text).length := by
      rw [size_append, List.length_cons]
      omega
    rw [last] at found accepted
    rw [append_chain] at accepted
    refine ⟨spelt, ?_, accepted⟩
    rw [List.foldl_cons, spell_addState, found]

theorem spellAll_eq (text : String) :
    d.spellAll text = (d.addLiteral text, d.graph.nextLiteral text) := by
  obtain ⟨spelt, found, accepted⟩ := foldl_spell d text.toList
  have place : { first := d.graph.size, last := d.graph.size + text.toList.length } =
      d.graph.nextLiteral text := by
    rw [Graph.nextLiteral, String.length_toList]
  rw [spellAll, found]
  exact Prod.ext accepted place

/-- A literal puts one state more than it has characters behind those of a graph, and changes none of
these, whatever edges they have. From the first of the new states just the new ones can be reached, only
the last of them accepts, and what spells a path from the first one to an accepting state is the text,
one character to a label. -/
theorem literal_adds_isolated_chain (text : String) :
    ∃ next f, d.spellAll text = (next, f) ∧ next = d.addLiteral text ∧
      next.graph.size = d.graph.size + (text.length + 1) ∧
      (∀ q < d.graph.size, next.graph.state? q = d.graph.state? q) ∧
      (∀ q, next.graph.Reaches f.first q ↔ d.graph.size ≤ q ∧ q < next.graph.size) ∧
      next.graph.reachable? f.first = some (List.range' d.graph.size (text.length + 1)) ∧
      (∀ q s, next.graph.Reaches f.first q → next.graph.state? q = some s →
        (s.accepting = true ↔ q = f.last)) ∧
      ∀ labels, next.graph.Accepts f.first labels ↔ labels = text.toList.map String.singleton := by
  have chained : (d.addLiteral text).graph.Chained d.graph.size text.toList :=
    Graph.chained_append d.names text.toList
  have size : (d.addLiteral text).graph.size = d.graph.size + (text.length + 1) := by
    rw [addLiteral, append, Graph.size_append, length_chain, String.length_toList]
  have reaches : ∀ q, (d.addLiteral text).graph.Reaches d.graph.size q ↔
      d.graph.size ≤ q ∧ q < (d.addLiteral text).graph.size := by
    intro q
    rw [chained.reaches_iff, size, String.length_toList]
    omega
  refine ⟨_, _, d.spellAll_eq text, rfl, size, ?_, reaches, ?_, ?_, fun labels => chained.accepts_iff⟩
  · intro q inside
    exact Graph.state?_append_left inside
  · apply Graph.reachable?_of_mem_iff
    · exact Graph.not_dangles_of_lt fun q reached => ((reaches q).mp reached).2
    · exact List.pairwise_lt_range'
    · intro q
      rw [Graph.nextLiteral, reaches, size, List.mem_range'_1]
  · intro q s reached found
    have inside := chained.reaches_iff.mp reached
    rw [chained.accepting_iff found inside.1 inside.2, String.length_toList]
    rfl

end Draft
end Recognizers
