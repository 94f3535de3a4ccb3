import Mathlib.Data.List.TakeDrop
import Recognizers.Proofs.Graph.Drawing
import Recognizers.Proofs.Graph.Serials

/-!
An edge line can be read back whatever its label holds, since serials are words of small letters and
the label is all that stands between the marks around it (`readEdgeLine_edgeLine`). So no two edges
of a graph with serial codes share a line (`one_line_per_edge`).
-/
namespace Recognizers

variable {source target label : String}

def readEdgeLine (line : String) : String × String × String :=
  let (source, behind) := line.toList.span Char.isLower
  let (target, quoted) := (behind.drop " -> ".length).span Char.isLower
  let label := (quoted.drop "[label=\"".length).dropLast.dropLast
  (.ofList source, .ofList label, .ofList target)

theorem toList_edgeLine (source label target : String) : (edgeLine source label target).toList =
    source.toList ++ (" -> ".toList ++ (target.toList ++ ("[label=\"".toList ++
      (label.toList ++ "\"]".toList)))) := by
  simp only [edgeLine, String.toList_append, List.append_assoc]

theorem span_word {word rest : List Char} {c : Char} (small : ∀ x ∈ word, x.isLower = true)
    (stop : c.isLower = false) : (word ++ c :: rest).span Char.isLower = (word, c :: rest) := by
  have ends : ¬ c.isLower = true := by simp [stop]
  rw [List.span_eq_takeWhile_dropWhile, List.takeWhile_append_of_pos small,
    List.dropWhile_append_of_pos small, List.takeWhile_cons_of_neg ends,
    List.dropWhile_cons_of_neg ends, List.append_nil]

theorem readEdgeLine_edgeLine (label : String) (word : Serial.IsWord source)
    (other : Serial.IsWord target) :
    readEdgeLine (edgeLine source label target) = (source, label, target) := by
  have first : (edgeLine source label target).toList.span Char.isLower =
      (source.toList, " -> ".toList ++ (target.toList ++ ("[label=\"".toList ++
        (label.toList ++ "\"]".toList)))) := by
    rw [toList_edgeLine]
    exact span_word word (by decide)
  have second : (target.toList ++ ("[label=\"".toList ++ (label.toList ++ "\"]".toList))).span
      Char.isLower = (target.toList, "[label=\"".toList ++ (label.toList ++ "\"]".toList)) :=
    span_word other (by decide)
  have third : (label.toList ++ "\"]".toList).dropLast.dropLast = label.toList := by simp
  unfold readEdgeLine
  rw [first]
  simp only [List.drop_left', String.length_toList, second, third, String.ofList_toList]

namespace Graph

variable {g : Graph} {q : Nat}

theorem serial_eq (g : Graph) (q : Nat) : g.serial q = g.serials[q]?.getD "" := by
  rw [serial, getElem?_serials]
  cases g.state? q <;> rfl

theorem serial_mem (inside : q < g.size) : g.serial q ∈ g.serials := by
  have known : q < g.serials.length := by rw [length_serials]; exact inside
  rw [serial_eq, List.getElem?_eq_getElem known]
  exact List.getElem_mem known

def Within (g : Graph) (call : Nat × Edge) : Prop := call.1 < g.size ∧ call.2.target < g.size

end Graph

namespace Workspace.Coded

variable {asked : List Request} {g : Graph} {p q : Nat} {one other : Nat × Edge}

theorem isWord_serial (coded : Coded asked g) (inside : q < g.size) :
    Serial.IsWord (g.serial q) := by
  obtain ⟨n, same⟩ := coded.exists_code (Graph.serial_mem inside)
  rw [same]
  exact Serial.isWord_code n

theorem serial_inj (coded : Coded asked g) (first : p < g.size) (second : q < g.size)
    (same : g.serial p = g.serial q) : p = q := by
  rw [← Graph.length_serials] at first second
  rw [Graph.serial_eq, Graph.serial_eq, List.getElem?_eq_getElem first,
    List.getElem?_eq_getElem second] at same
  exact (coded.nodup_serials.getElem_inj_iff).mp same

theorem readEdgeLine_lineOf (coded : Coded asked g) (within : g.Within one) :
    readEdgeLine (g.lineOf one) = (g.serial one.1, one.2.label, g.serial one.2.target) :=
  readEdgeLine_edgeLine _ (coded.isWord_serial within.1) (coded.isWord_serial within.2)

theorem lineOf_inj (coded : Coded asked g) (within : g.Within one) (within' : g.Within other)
    (same : g.lineOf one = g.lineOf other) : one = other := by
  have read := congrArg readEdgeLine same
  rw [coded.readEdgeLine_lineOf within, coded.readEdgeLine_lineOf within'] at read
  obtain ⟨sources, rest⟩ := Prod.mk.inj read
  obtain ⟨labels, targets⟩ := Prod.mk.inj rest
  obtain ⟨p, label, target⟩ := one
  obtain ⟨q, label', target'⟩ := other
  cases coded.serial_inj within.1 within'.1 sources
  cases coded.serial_inj within.2 within'.2 targets
  cases labels
  rfl

end Workspace.Coded

namespace Graph

variable {g : Graph} {start : Nat} {asked : List Workspace.Request}

theorem nodup_edgeLines? {lines : List String} (listed : g.edgeLines? start = some lines) :
    lines.Nodup := by
  obtain ⟨edges, _, rfl⟩ := Option.map_eq_some_iff.mp listed
  refine Std.ExtTreeSet.distinct_toList.imp ?_
  rintro a b apart rfl
  exact apart Std.ReflCmp.compare_self

theorem Tour.edgeLines?_spec {met : Std.ExtTreeSet Nat} {calls : List (Nat × Edge)}
    (tour : g.Tour start met calls) (sound : ¬ g.Dangles start) :
    ∃ lines, g.edgeLines? start = some lines ∧ ∀ line, line ∈ lines ↔ line ∈ calls.map g.lineOf := by
  refine ⟨_, edgeLines?_eq (tour.reachable?_eq sound), fun line => ?_⟩
  rw [Std.ExtTreeSet.mem_toList, Std.ExtTreeSet.mem_ofList, List.contains_iff_mem,
    tour.mem_lineOf_iff]

theorem edge_of_mem_edgeLines? {lines : List String} {line : String} (sound : ¬ g.Dangles start)
    (listed : g.edgeLines? start = some lines) (member : line ∈ lines) :
    ∃ s ∈ g.states.toList, ∃ e ∈ s.edges, ∃ t ∈ g.states.toList,
      line = edgeLine s.serial e.label t.serial := by
  rcases visit_settled g start with ⟨dangles, _⟩ | ⟨_, met, calls, tour, _⟩
  · exact absurd dangles sound
  · obtain ⟨others, again, mem_iff⟩ := tour.edgeLines?_spec sound
    cases Option.some.inj (listed.symm.trans again)
    obtain ⟨q, e, s, t, call, source, target, rfl⟩ :=
      (mem_map_lineOf_iff (tour.inside sound)).mp ((mem_iff line).mp member)
    obtain ⟨_, u, known, edge⟩ := (tour.mem_calls q e).mp call
    cases Option.some.inj (source.symm.trans known)
    exact ⟨s, Array.mem_toList_iff.mpr (Array.mem_of_getElem? source), e, edge, t,
      Array.mem_toList_iff.mpr (Array.mem_of_getElem? target), rfl⟩

/-- In a graph with serial codes, the edges that can be reached and their lines go together one by
one, whatever the labels hold, and each line gives its source, label and target back. -/
theorem one_line_per_edge (coded : Workspace.Coded asked g) (sound : ¬ g.Dangles start) :
    ∃ (edges : List (Nat × Edge)) (lines : List String), edges.Nodup ∧
      (∀ q e, (q, e) ∈ edges ↔ g.Reaches start q ∧ ∃ s, g.state? q = some s ∧ e ∈ s.edges) ∧
      g.edgeLines? start = some lines ∧ lines.Nodup ∧ lines.length = edges.length ∧
      lines.Perm (edges.map g.lineOf) ∧
      (∀ one ∈ edges, ∀ other ∈ edges, g.lineOf one = g.lineOf other → one = other) ∧
      ∀ q e, (q, e) ∈ edges →
        readEdgeLine (g.lineOf (q, e)) = (g.serial q, e.label, g.serial e.target) := by
  rcases visit_settled g start with ⟨dangles, _⟩ | ⟨_, met, edges, tour, _⟩
  · exact absurd dangles sound
  · have within := tour.inside sound
    have apart : ∀ one ∈ edges, ∀ other ∈ edges, g.lineOf one = g.lineOf other → one = other :=
      fun one here other there => coded.lineOf_inj (within one here) (within other there)
    obtain ⟨lines, listed, mem_iff⟩ := tour.edgeLines?_spec sound
    have once := nodup_edgeLines? listed
    have same : lines.Perm (edges.map g.lineOf) :=
      (List.perm_ext_iff_of_nodup once (tour.once.map_on apart)).mpr mem_iff
    refine ⟨edges, lines, tour.once, tour.mem_calls, listed, once, ?_, same, apart, ?_⟩
    · rw [same.length_eq, List.length_map]
    · intro q e member
      exact coded.readEdgeLine_lineOf (within _ member)

/-- Labels that look like the ends and beginnings of lines. -/
def tangled : List Workspace.Request :=
  [.supply Serial.code, .graph 0, .graph 0, .state 1, .state 0, .name 0, .state 0,
    .edge 0 0 "x" 1, .edge 0 0 "x\"];\n    d -> b[label=\"" 1, .edge 0 0 "] -> " 0,
    .edge 0 1 "" 0]

def tangledGraph : Graph := ((Workspace.after tangled).graph? 0).getD {}

theorem tangled_lines : Workspace.Coded tangled tangledGraph ∧ ¬ tangledGraph.Dangles 0 ∧
    ∃ (edges : List (Nat × Edge)) (lines : List String), edges.Nodup ∧
      tangledGraph.edgeLines? 0 = some lines ∧ lines.length = edges.length ∧
      lines = ["b -> b[label=\"] -> \"]", "b -> d[label=\"x\"]",
        "b -> d[label=\"x\"];\n    d -> b[label=\"\"]", "d -> b[label=\"\"]"] := by
  have coded : Workspace.Coded tangled tangledGraph := ⟨0, 0, _, rfl, rfl, rfl⟩
  have sound : ¬ tangledGraph.Dangles 0 :=
    not_dangles_of_targets (by decide +kernel) (by decide +kernel)
  have all : ∀ q, q < tangledGraph.size → tangledGraph.Reaches 0 q := by
    intro q inside
    match q with
    | 0 => exact .refl
    | 1 => exact .single ⟨_, rfl, by decide +kernel⟩
    | q + 2 => exact absurd inside (Nat.not_lt.mpr (Nat.le_add_left 2 q))
  obtain ⟨edges, lines, once, _, listed, _, many, _⟩ := one_line_per_edge coded sound
  refine ⟨coded, sound, edges, lines, once, listed, many, ?_⟩
  rw [edgeLines?_eq (reachable?_of_all sound all)] at listed
  rw [← Option.some.inj listed]
  decide +kernel

end Graph
end Recognizers
