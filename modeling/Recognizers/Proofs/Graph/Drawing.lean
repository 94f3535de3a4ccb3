import Mathlib.Data.List.Sort
import Recognizers.Proofs.Graph.Traversal

/-!
What is collected and drawn of a graph: the states that can be reached, the lines of their edges, and
the drawing with a node line for each of these states before all edge lines (`traversal_exact`).
-/
namespace Recognizers
namespace Graph

variable {g : Graph} {start q : Nat} {e : Edge} {states : List Nat} {calls : List (Nat × Edge)}
  {met : Std.ExtTreeSet Nat}

def lineOf (g : Graph) (call : Nat × Edge) : String :=
  edgeLine (g.serial call.1) call.2.label (g.serial call.2.target)

theorem edgeLines?_eq (found : g.reachable? start = some states) : g.edgeLines? start =
    some (Std.ExtTreeSet.ofList ((states.flatMap g.edgesFrom).map g.lineOf)).toList := by
  rw [edgeLines?, edges?, found]
  rfl

theorem edgeLines?_eq_none_iff : g.edgeLines? start = none ↔ g.reachable? start = none := by
  rw [edgeLines?, edges?, Option.map_map, Option.map_eq_none_iff]

theorem dot?_eq_none_iff : g.dot? start = none ↔ g.reachable? start = none := by
  cases found : g.reachable? start with
  | none => simp [dot?, found]
  | some states => simp [dot?, found, edgeLines?_eq found]

theorem dot?_eq {lines : List String} (found : g.reachable? start = some states)
    (listed : g.edgeLines? start = some lines) : g.dot? start =
      some (digraph ("rankdir=LR" :: ((states.filterMap g.state?).map nodeLine ++ lines))) := by
  rw [dot?, found, listed]
  rfl

theorem lineOf_eq {s t : State} (source : g.state? q = some s) (target : g.state? e.target = some t) :
    g.lineOf (q, e) = s.serial ++ " -> " ++ t.serial ++ "[label=\"" ++ e.label ++ "\"]" := by
  simp only [lineOf, edgeLine, serial, source, target]

theorem mem_map_lineOf_iff (inside : ∀ call ∈ calls, call.1 < g.size ∧ call.2.target < g.size)
    {line : String} : line ∈ calls.map g.lineOf ↔ ∃ q e s t, (q, e) ∈ calls ∧
      g.state? q = some s ∧ g.state? e.target = some t ∧
      line = s.serial ++ " -> " ++ t.serial ++ "[label=\"" ++ e.label ++ "\"]" := by
  rw [List.mem_map]
  constructor
  · rintro ⟨⟨q, e⟩, member, rfl⟩
    obtain ⟨source, target⟩ := inside (q, e) member
    have first : g.state? q = some g.states[q] := Array.getElem?_eq_getElem source
    have second : g.state? e.target = some g.states[e.target] := Array.getElem?_eq_getElem target
    exact ⟨q, e, _, _, member, first, second, lineOf_eq first second⟩
  · rintro ⟨q, e, s, t, member, source, target, rfl⟩
    exact ⟨(q, e), member, lineOf_eq source target⟩

theorem digraph_eq (states : List State) (lines : List String) :
    digraph ("rankdir=LR" :: (states.map nodeLine ++ lines)) =
      r"digraph nfa {" ++ "\n" ++ "    rankdir=LR;\n" ++
      String.join (states.map fun s => "    " ++ s.serial ++ " [shape=" ++
        (if s.accepting then "doublecircle" else "circle") ++ "];\n") ++
      String.join (lines.map fun line => "    " ++ line ++ ";\n") ++ r"}" ++ "\n" := by
  have nodes : indented ∘ nodeLine = fun s => "    " ++ s.serial ++ " [shape=" ++
      (if s.accepting then "doublecircle" else "circle") ++ "];\n" := by
    funext s
    simp [indented, nodeLine, shape, String.append_assoc]
  have direction : indented "rankdir=LR" = "    rankdir=LR;\n" := by decide
  unfold digraph
  rw [List.map_cons, List.map_append, List.map_map, nodes, direction, String.join_cons,
    String.join_append]
  simp only [String.append_assoc]
  rfl

theorem addLine_eq (lines : Std.ExtTreeSet String) (source : q < g.size)
    (target : e.target < g.size) :
    g.addLine lines q e = some (lines.insert (g.lineOf (q, e))) := by
  have from' : g.state? q = some g.states[q] := Array.getElem?_eq_getElem source
  have to' : g.state? e.target = some g.states[e.target] := Array.getElem?_eq_getElem target
  simp [addLine, lineOf, serial, from', to']

theorem showAll_addLine (lines : Std.ExtTreeSet String)
    (inside : ∀ call ∈ calls, call.1 < g.size ∧ call.2.target < g.size) :
    ∃ out, showAll g.addLine calls lines = some out ∧
      ∀ line, line ∈ out ↔ line ∈ lines ∨ line ∈ calls.map g.lineOf := by
  induction calls generalizing lines with
  | nil => exact ⟨lines, rfl, by simp⟩
  | cons call calls ih =>
    obtain ⟨here, later⟩ := List.forall_mem_cons.mp inside
    obtain ⟨out, shown, mem_iff⟩ := ih (lines.insert (g.lineOf call)) later
    refine ⟨out, ?_, fun line => ?_⟩
    · rw [showAll, List.foldlM_cons, addLine_eq lines here.1 here.2]
      exact shown
    · rw [mem_iff, Std.ExtTreeSet.mem_insert, Std.LawfulEqCmp.compare_eq_iff_eq, List.map_cons,
        List.mem_cons, eq_comm, or_assoc, or_left_comm]

theorem showAll_nothing (calls : List (Nat × Edge)) :
    showAll (fun _ _ _ => some ()) calls () = some () := by
  induction calls with
  | nil => rfl
  | cons call calls ih => exact ih

theorem forall₂_states (inside : ∀ q ∈ states, q < g.size) :
    List.Forall₂ (fun q s => g.state? q = some s) states (states.filterMap g.state?) := by
  induction states with
  | nil => exact .nil
  | cons q states ih =>
    obtain ⟨here, later⟩ := List.forall_mem_cons.mp inside
    have found : g.state? q = some g.states[q] := Array.getElem?_eq_getElem here
    rw [List.filterMap_cons, found]
    exact .cons found (ih later)

theorem filterMap_getElem? {α : Type} (l : List α) :
    (List.range l.length).filterMap (l[·]?) = l := by
  induction l with
  | nil => rfl
  | cons a l ih =>
    rw [List.length_cons, List.range_succ_eq_map, List.filterMap_cons, List.filterMap_map]
    simpa [Function.comp_def] using ih

theorem filterMap_state? (g : Graph) : (List.range g.size).filterMap g.state? = g.states.toList := by
  have same : g.state? = (g.states.toList[·]?) := by
    funext q
    rw [Array.getElem?_toList]
    rfl
  rw [same]
  exact filterMap_getElem? g.states.toList

theorem pairwise_toList (met : Std.ExtTreeSet Nat) : met.toList.Pairwise (· < ·) :=
  met.ordered_toList.imp Nat.compare_eq_lt.mp

namespace Tour

theorem reachable?_eq (tour : g.Tour start met calls) (sound : ¬ g.Dangles start) :
    g.reachable? start = some met.toList := by
  rcases reachable?_spec g start with ⟨_, dangles⟩ | ⟨states, found, ascending, mem_iff, _⟩
  · exact absurd dangles sound
  · have same : states = met.toList := by
      apply ascending.eq_of_mem_iff (pairwise_toList met)
      intro q
      rw [mem_iff, Std.ExtTreeSet.mem_toList, tour.mem_met]
    rw [found, same]

theorem mem_calls_iff (tour : g.Tour start met calls) :
    (q, e) ∈ calls ↔ (q, e) ∈ met.toList.flatMap g.edgesFrom := by
  rw [tour.mem_calls, mem_flatMap_edgesFrom, Std.ExtTreeSet.mem_toList, tour.mem_met]

theorem inside (tour : g.Tour start met calls) (sound : ¬ g.Dangles start) :
    ∀ call ∈ calls, call.1 < g.size ∧ call.2.target < g.size := by
  rintro ⟨q, e⟩ member
  obtain ⟨reaches, s, found, edge⟩ := (tour.mem_calls q e).mp member
  have target : e.target ∈ s.targets := List.mem_map_of_mem (Std.ExtTreeSet.mem_toList.mpr edge)
  refine ⟨lt_size found, Nat.lt_of_not_ge fun outside => sound ⟨e.target, ?_, outside⟩⟩
  exact reaches.tail ⟨s, found, target⟩

theorem mem_lineOf_iff (tour : g.Tour start met calls) {line : String} :
    line ∈ (met.toList.flatMap g.edgesFrom).map g.lineOf ↔ line ∈ calls.map g.lineOf := by
  rw [List.mem_map, List.mem_map]
  exact exists_congr fun call => and_congr_left' tour.mem_calls_iff.symm

theorem collected (tour : g.Tour start met calls) (sound : ¬ g.Dangles start) :
    (showAll g.addLine calls ∅).map (·.toList) = g.edgeLines? start := by
  obtain ⟨out, shown, mem_iff⟩ := showAll_addLine ∅ (tour.inside sound)
  have same : out = .ofList ((met.toList.flatMap g.edgesFrom).map g.lineOf) := by
    apply Std.ExtTreeSet.ext_mem
    intro line
    rw [mem_iff, Std.ExtTreeSet.mem_ofList, List.contains_iff_mem, tour.mem_lineOf_iff]
    simp
  rw [edgeLines?_eq (tour.reachable?_eq sound), shown, same, Option.map_some]

theorem known_states (tour : g.Tour start met calls) (sound : ¬ g.Dangles start) :
    List.Forall₂ (fun q s => g.state? q = some s) met.toList (met.toList.filterMap g.state?) := by
  apply forall₂_states
  intro q member
  rw [Std.ExtTreeSet.mem_toList, tour.mem_met] at member
  exact Nat.lt_of_not_ge fun outside => sound ⟨q, member, outside⟩

end Tour

/-- The walk with a stack, with any function that is shown the edges, has no result just if a state
can be reached that does not exist, and so have the states, the edge lines and the drawing. Else it
comes to what can be reached and shows every edge of it once. The edge lines are those of these
edges, and the text of the drawing declares these states, ascending, before it has the edge lines. -/
theorem traversal_exact (g : Graph) (start : Nat) :
    (g.reachable? start = none ↔ g.Dangles start) ∧
    (g.edgeLines? start = none ↔ g.Dangles start) ∧
    (g.dot? start = none ↔ g.Dangles start) ∧
    (g.Dangles start → ∀ (σ : Type) (onEdge : σ → Nat → Edge → Option σ) seen,
      visit onEdge g start seen = none) ∧
    (visit (fun _ _ _ => some ()) g start ()).map (·.1.toList) = g.reachable? start ∧
    (visit g.addLine g start ∅).map (·.2.toList) = g.edgeLines? start ∧
    (¬ g.Dangles start → ∃ met calls lines states, g.Tour start met calls ∧
      (∀ (σ : Type) (onEdge : σ → Nat → Edge → Option σ) seen,
        visit onEdge g start seen = (showAll onEdge calls seen).map (met, ·)) ∧
      g.reachable? start = some met.toList ∧ met.toList.Pairwise (· < ·) ∧
      g.edgeLines? start = some lines ∧ lines.Pairwise (compare · · = .lt) ∧
      (∀ line, line ∈ lines ↔ ∃ q e s t, (q, e) ∈ calls ∧ g.state? q = some s ∧
        g.state? e.target = some t ∧
        line = s.serial ++ " -> " ++ t.serial ++ "[label=\"" ++ e.label ++ "\"]") ∧
      List.Forall₂ (fun q s => g.state? q = some s) met.toList states ∧
      g.dot? start = some (r"digraph nfa {" ++ "\n" ++ "    rankdir=LR;\n" ++
        String.join (states.map fun s => "    " ++ s.serial ++ " [shape=" ++
          (if s.accepting then "doublecircle" else "circle") ++ "];\n") ++
        String.join (lines.map fun line => "    " ++ line ++ ";\n") ++ r"}" ++ "\n")) := by
  rcases visit_settled g start with ⟨dangles, none⟩ | ⟨sound, met, calls, tour, goes⟩
  · have states : g.reachable? start = Option.none := by
      rcases reachable?_spec g start with ⟨states, _⟩ | ⟨_, _, _, _, sound⟩
      · exact states
      · exact absurd dangles sound
    have lines := edgeLines?_eq_none_iff.mpr states
    refine ⟨iff_of_true states dangles, iff_of_true lines dangles,
      iff_of_true (dot?_eq_none_iff.mpr states) dangles, fun _ => none, ?_, ?_, absurd dangles⟩
    · rw [none, states]
      rfl
    · rw [none, lines]
      rfl
  · have states := tour.reachable?_eq sound
    have lines := edgeLines?_eq states
    have given : ∀ {α : Type} {a : α} {x : Option α}, x = some a → (x = none ↔ g.Dangles start) := by
      rintro α a x rfl
      exact iff_of_false nofun sound
    have drawing := dot?_eq states lines
    rw [digraph_eq] at drawing
    refine ⟨given states, given lines, given drawing, fun dangles => absurd dangles sound, ?_, ?_,
      fun _ => ⟨met, calls, _, _, tour, goes, states, pairwise_toList met, lines,
        Std.ExtTreeSet.ordered_toList, ?_, tour.known_states sound, drawing⟩⟩
    · rw [goes, showAll_nothing, states]
      rfl
    · rw [goes, Option.map_map]
      exact tour.collected sound
    · intro line
      rw [Std.ExtTreeSet.mem_toList, Std.ExtTreeSet.mem_ofList, List.contains_iff_mem,
        tour.mem_lineOf_iff]
      exact mem_map_lineOf_iff (tour.inside sound)

end Graph
end Recognizers
