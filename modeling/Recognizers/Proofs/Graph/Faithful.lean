import Recognizers.Proofs.Graph.Legibility

/-!
What a drawing tells of a graph with serial codes: in any case its reachable states, and its reachable
edges too if no label holds the border between two edge lines (`drawing_determines`). A label that
does is drawn like two edges (`two_edges_drawn_as_one`).
-/
namespace Recognizers
namespace Graph

variable {g h : Graph} {start begin q : Nat} {asked asked' : List Workspace.Request}
  {source label target serial : String} {accepting : Bool}

def Shows (g : Graph) (start : Nat) (serial : String) (accepting : Bool) : Prop :=
  ∃ q s, g.Reaches start q ∧ g.state? q = some s ∧ s.serial = serial ∧ s.accepting = accepting

def Draws (g : Graph) (start : Nat) (source label target : String) : Prop :=
  ∃ q e, (g.Reaches start q ∧ ∃ s, g.state? q = some s ∧ e ∈ s.edges) ∧
    g.serial q = source ∧ e.label = label ∧ g.serial e.target = target

def Names (g : Graph) (start : Nat) (serial : String) : Prop :=
  ∃ accepting, g.Shows start serial accepting

/-- No label that can be reached feigns an edge between states that can be reached. -/
def Readable (g : Graph) (start : Nat) : Prop :=
  ∀ source label target, g.Draws start source label target → Plain (g.Names start) label

theorem names_serial (sound : ¬ g.Dangles start) (reaches : g.Reaches start q) :
    g.Names start (g.serial q) := by
  have inside : q < g.size := Nat.lt_of_not_ge fun outside => sound ⟨q, reaches, outside⟩
  have found : g.state? q = some g.states[q] := Array.getElem?_eq_getElem inside
  exact ⟨_, q, _, reaches, found, by rw [Graph.serial, found], rfl⟩

theorem isWord_of_names (coded : Workspace.Coded asked g) (named : g.Names start serial) :
    Serial.IsWord serial := by
  obtain ⟨_, q, s, _, found, rfl, _⟩ := named
  have word := coded.isWord_serial (lt_size found)
  rwa [Graph.serial, found] at word

theorem Draws.names (drawn : g.Draws start source label target) (sound : ¬ g.Dangles start) :
    g.Names start source ∧ g.Names start target := by
  obtain ⟨q, e, ⟨reaches, s, found, edge⟩, rfl, rfl, rfl⟩ := drawn
  have step : g.Step q e.target := (step_iff found).mpr ⟨e, edge, rfl⟩
  exact ⟨names_serial sound reaches, names_serial sound (reaches.tail step)⟩

theorem Draws.exists_edge (drawn : g.Draws start source label target) :
    ∃ s ∈ g.states.toList, ∃ e ∈ s.edges.toList, e.label = label := by
  obtain ⟨q, e, ⟨_, s, found, edge⟩, _, same, _⟩ := drawn
  exact ⟨s, Array.mem_toList_iff.mpr (Array.mem_of_getElem? found), e,
    Std.ExtTreeSet.mem_toList.mpr edge, same⟩

theorem readable_of_edges (plain : ∀ s ∈ g.states.toList, ∀ e ∈ s.edges.toList,
    ∀ one ∈ g.serials, ∀ other ∈ g.serials, ¬ Feigns one other e.label) : g.Readable start := by
  have known : ∀ {serial}, g.Names start serial → serial ∈ g.serials := by
    rintro serial ⟨_, q, s, _, found, rfl, _⟩
    exact List.mem_map_of_mem (Array.mem_toList_iff.mpr (Array.mem_of_getElem? found))
  intro source label target drawn one other first second
  obtain ⟨s, state, e, edge, rfl⟩ := drawn.exists_edge
  exact plain s state e edge one (known first) other (known second)

structure Drawing (g : Graph) (start : Nat) (states : List State) (lines : List String) : Prop where
  text : g.dot? start = some (digraph ("rankdir=LR" :: (states.map nodeLine ++ lines)))
  shows : ∀ serial accepting, g.Shows start serial accepting ↔
    (serial, accepting) ∈ states.map fun s => (s.serial, s.accepting)
  draws : ∀ line, line ∈ lines ↔
    ∃ source label target, line = edgeLine source label target ∧ g.Draws start source label target

namespace Drawing

variable {states states' : List State} {lines lines' : List String}

theorem exists_of_sound (sound : ¬ g.Dangles start) : ∃ states lines, g.Drawing start states lines := by
  rcases visit_settled g start with ⟨dangles, _⟩ | ⟨_, met, calls, tour, _⟩
  · exact absurd dangles sound
  · obtain ⟨lines, listed, mem_iff⟩ := tour.edgeLines?_spec sound
    refine ⟨_, lines, dot?_eq (tour.reachable?_eq sound) listed, fun serial accepting => ?_,
      fun line => ?_⟩
    · simp only [Shows, List.mem_map, List.mem_filterMap, Std.ExtTreeSet.mem_toList, tour.mem_met,
        Prod.mk.injEq]
      constructor
      · rintro ⟨q, s, reaches, found, same⟩
        exact ⟨s, ⟨q, reaches, found⟩, same⟩
      · rintro ⟨s, ⟨q, reaches, found⟩, same⟩
        exact ⟨q, s, reaches, found, same⟩
    · rw [mem_iff, List.mem_map]
      constructor
      · rintro ⟨⟨q, e⟩, member, rfl⟩
        exact ⟨_, _, _, rfl, q, e, (tour.mem_calls q e).mp member, rfl, rfl, rfl⟩
      · rintro ⟨_, _, _, rfl, q, e, member, rfl, rfl, rfl⟩
        exact ⟨(q, e), (tour.mem_calls q e).mpr member, rfl⟩

theorem isWord_serial (drawing : g.Drawing start states lines) (coded : Workspace.Coded asked g) :
    ∀ s ∈ states, Serial.IsWord s.serial := by
  intro s member
  have shown := (drawing.shows s.serial s.accepting).mpr (List.mem_map.mpr ⟨s, member, rfl⟩)
  exact isWord_of_names coded ⟨_, shown⟩

theorem joins (drawing : g.Drawing start states lines) (sound : ¬ g.Dangles start) :
    ∀ line ∈ lines, Joins (g.Names start) line := by
  intro line member
  obtain ⟨source, label, target, rfl, drawn⟩ := (drawing.draws line).mp member
  exact ⟨source, label, target, rfl, drawn.names sound⟩

theorem joins_words (drawing : g.Drawing start states lines) (coded : Workspace.Coded asked g)
    (sound : ¬ g.Dangles start) : ∀ line ∈ lines, Joins Serial.IsWord line := by
  intro line member
  obtain ⟨source, label, target, same, first, second⟩ := drawing.joins sound line member
  exact ⟨source, label, target, same, isWord_of_names coded first, isWord_of_names coded second⟩

theorem legible (drawing : g.Drawing start states lines) (sound : ¬ g.Dangles start)
    (readable : g.Readable start) : ∀ line ∈ lines, Recognizers.Legible (g.Names start) line := by
  intro line member
  obtain ⟨source, label, target, rfl, drawn⟩ := (drawing.draws line).mp member
  obtain ⟨first, second⟩ := drawn.names sound
  exact ⟨source, label, target, rfl, first, second, readable _ _ _ drawn⟩

theorem draws_iff (drawing : g.Drawing start states lines) (coded : Workspace.Coded asked g)
    (sound : ¬ g.Dangles start) (word : Serial.IsWord source) (other : Serial.IsWord target) :
    g.Draws start source label target ↔ edgeLine source label target ∈ lines := by
  rw [drawing.draws]
  constructor
  · exact fun drawn => ⟨source, label, target, rfl, drawn⟩
  · rintro ⟨source', label', target', same, drawn⟩
    obtain ⟨first, second⟩ := drawn.names sound
    have read := congrArg readEdgeLine same
    rw [readEdgeLine_edgeLine _ word other, readEdgeLine_edgeLine _ (isWord_of_names coded first)
      (isWord_of_names coded second)] at read
    cases read
    exact drawn

theorem parts_eq (drawing : g.Drawing start states lines) (redrawing : h.Drawing begin states' lines')
    (same : g.dot? start = h.dot? begin) :
    statements (states.map nodeLine) ++ (statements lines ++ closing) =
      statements (states'.map nodeLine) ++ (statements lines' ++ closing) := by
  rw [drawing.text, redrawing.text] at same
  have texts := congrArg String.toList (Option.some.inj same)
  rw [toList_drawing, toList_drawing] at texts
  exact List.append_cancel_left texts

end Drawing

/-- Two graphs with serial codes and the same drawing show the same states, with the same flags. If no
label of theirs holds, together with the quotation mark that closes it, the end of an edge line and the
beginning of another one between states that are shown, they have the same edges as well. -/
theorem drawing_determines (coded : Workspace.Coded asked g) (recoded : Workspace.Coded asked' h)
    (sound : ¬ g.Dangles start) (resound : ¬ h.Dangles begin)
    (same : g.dot? start = h.dot? begin) :
    (∀ serial accepting, g.Shows start serial accepting ↔ h.Shows begin serial accepting) ∧
    (g.Readable start → h.Readable begin → ∀ source label target,
      g.Draws start source label target ↔ h.Draws begin source label target) := by
  obtain ⟨states, lines, drawing⟩ := Drawing.exists_of_sound sound
  obtain ⟨states', lines', redrawing⟩ := Drawing.exists_of_sound resound
  obtain ⟨nodes, edges⟩ := nodeLines_unique (fun _ word => word) (drawing.isWord_serial coded)
    (redrawing.isWord_serial recoded) (follows_statements (drawing.joins_words coded sound))
    (follows_statements (redrawing.joins_words recoded resound)) (drawing.parts_eq redrawing same)
  have shows : ∀ serial accepting, g.Shows start serial accepting ↔ h.Shows begin serial accepting := by
    intro serial accepting
    rw [drawing.shows, redrawing.shows, nodes]
  refine ⟨shows, fun readable rereadable source label target => ?_⟩
  have names : g.Names start = h.Names begin := by
    funext serial
    exact propext (exists_congr (shows serial))
  have relegible := redrawing.legible resound rereadable
  rw [← names] at relegible
  have same_lines : lines = lines' := edgeLines_unique (fun _ => isWord_of_names coded)
    (drawing.legible sound readable) relegible edges
  constructor
  · intro drawn
    obtain ⟨first, second⟩ := drawn.names sound
    have word := isWord_of_names coded first
    have other := isWord_of_names coded second
    rw [drawing.draws_iff coded sound word other, same_lines] at drawn
    exact (redrawing.draws_iff recoded resound word other).mpr drawn
  · intro drawn
    obtain ⟨first, second⟩ := drawn.names resound
    have word := isWord_of_names recoded first
    have other := isWord_of_names recoded second
    rw [redrawing.draws_iff recoded resound word other, ← same_lines] at drawn
    exact (drawing.draws_iff coded sound word other).mpr drawn

def built (asked : List Workspace.Request) : Graph := ((Workspace.after asked).graph? 0).getD {}

/-- Labels that hold much of an edge line, and a state between the two that cannot be reached. -/
def detached : List Workspace.Request :=
  [.supply Serial.code, .graph 0, .state 0, .state 0, .state 0, .accept 0 2 true,
    .edge 0 0 "\"];\n    a -> " 2, .edge 0 2 "[label=\"" 0, .edge 0 1 "x" 0]

/-- The same without that state, whose code was drawn by itself. -/
def attached : List Workspace.Request :=
  [.supply Serial.code, .graph 0, .state 0, .name 0, .state 0, .edge 0 1 "[label=\"" 0,
    .edge 0 0 "\"];\n    a -> " 1, .accept 0 1 true]

theorem detached_state_undrawn :
    Workspace.Coded detached (built detached) ∧ Workspace.Coded attached (built attached) ∧
    ¬ (built detached).Dangles 0 ∧ ¬ (built attached).Dangles 0 ∧
    (built detached).dot? 0 = (built attached).dot? 0 ∧
    (built detached).Readable 0 ∧ (built attached).Readable 0 ∧
    (∀ serial accepting,
      (built detached).Shows 0 serial accepting ↔ (built attached).Shows 0 serial accepting) ∧
    ∀ source label target,
      (built detached).Draws 0 source label target ↔ (built attached).Draws 0 source label target := by
  have coded : Workspace.Coded detached (built detached) := ⟨0, 0, _, rfl, rfl, rfl⟩
  have recoded : Workspace.Coded attached (built attached) := ⟨0, 0, _, rfl, rfl, rfl⟩
  have sound : ¬ (built detached).Dangles 0 :=
    not_dangles_of_targets (by decide +kernel) (by decide +kernel)
  have resound : ¬ (built attached).Dangles 0 :=
    not_dangles_of_targets (by decide +kernel) (by decide +kernel)
  have found : (built detached).reachable? 0 = some [0, 2] := by
    apply reachable?_of_closed sound (by decide) (by decide) (by decide +kernel)
    rw [List.forall_mem_cons, List.forall_mem_singleton]
    exact ⟨.refl, .single ⟨_, rfl, by decide +kernel⟩⟩
  have refound : (built attached).reachable? 0 = some [0, 1] := by
    apply reachable?_of_closed resound (by decide) (by decide) (by decide +kernel)
    rw [List.forall_mem_cons, List.forall_mem_singleton]
    exact ⟨.refl, .single ⟨_, rfl, by decide +kernel⟩⟩
  have same : (built detached).dot? 0 = (built attached).dot? 0 := by
    rw [dot?_eq found (edgeLines?_eq found), dot?_eq refound (edgeLines?_eq refound)]
    decide +kernel
  have readable : (built detached).Readable 0 := readable_of_edges (by decide +kernel)
  have rereadable : (built attached).Readable 0 := readable_of_edges (by decide +kernel)
  obtain ⟨shows, draws⟩ := drawing_determines coded recoded sound resound same
  exact ⟨coded, recoded, sound, resound, same, readable, rereadable, shows, draws readable rereadable⟩

def honest : List Workspace.Request :=
  [.supply Serial.code, .graph 0, .state 0, .edge 0 0 "x" 0, .edge 0 0 "y" 0]

/-- One label that reads like the two edges of `honest`. -/
def feigned : List Workspace.Request :=
  [.supply Serial.code, .graph 0, .state 0, .edge 0 0 "x\"];\n    a -> a[label=\"y" 0]

theorem two_edges_drawn_as_one :
    Workspace.Coded honest (built honest) ∧ Workspace.Coded feigned (built feigned) ∧
    ¬ (built honest).Dangles 0 ∧ ¬ (built feigned).Dangles 0 ∧
    (built honest).dot? 0 = (built feigned).dot? 0 ∧
    (built honest).Draws 0 "a" "y" "a" ∧ ¬ (built feigned).Draws 0 "a" "y" "a" := by
  have coded : Workspace.Coded honest (built honest) := ⟨0, 0, _, rfl, rfl, rfl⟩
  have recoded : Workspace.Coded feigned (built feigned) := ⟨0, 0, _, rfl, rfl, rfl⟩
  have sound : ¬ (built honest).Dangles 0 :=
    not_dangles_of_targets (by decide +kernel) (by decide +kernel)
  have resound : ¬ (built feigned).Dangles 0 :=
    not_dangles_of_targets (by decide +kernel) (by decide +kernel)
  have one : ∀ {q}, q < 1 → q = 0 := Nat.lt_one_iff.mp
  have found := reachable?_of_all sound fun q inside => one inside ▸ .refl
  have refound := reachable?_of_all resound fun q inside => one inside ▸ .refl
  have same : (built honest).dot? 0 = (built feigned).dot? 0 := by
    rw [dot?_eq found (edgeLines?_eq found), dot?_eq refound (edgeLines?_eq refound)]
    decide +kernel
  refine ⟨coded, recoded, sound, resound, same, ?_, fun drawn => ?_⟩
  · exact ⟨0, ⟨"y", 0⟩, ⟨.refl, _, rfl, by decide +kernel⟩, by decide +kernel, rfl, by decide +kernel⟩
  · have other : ∀ s ∈ (built feigned).states.toList, ∀ e ∈ s.edges.toList, e.label ≠ "y" := by
      decide +kernel
    obtain ⟨s, state, e, edge, label⟩ := drawn.exists_edge
    exact other s state e edge label

end Graph
end Recognizers
