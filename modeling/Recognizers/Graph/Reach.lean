import Recognizers.Graph.Basic

/-!
What can be reached from a state. There is no answer if a state is reached that does not exist.
-/
namespace Recognizers
namespace Graph

theorem size_erase_lt {states : Std.ExtTreeSet Nat} {q : Nat} (here : q ∈ states) :
    (states.erase q).size < states.size := by
  have some_left : states.size ≠ 0 :=
    mt Std.ExtTreeSet.eq_empty_iff_size_eq_zero.mpr (Std.ExtTreeSet.ne_empty_of_mem here)
  rw [Std.ExtTreeSet.size_erase, if_pos (Std.ExtTreeSet.contains_iff_mem.mpr here)]
  omega

/-- Goes through all that is reachable from `todo`, and gives back those states of `fresh` that
were not met. -/
def explore (g : Graph) (fresh : Std.ExtTreeSet Nat) (todo : List Nat) :
    Option (Std.ExtTreeSet Nat) :=
  match todo with
  | [] => some fresh
  | q :: rest =>
    match g.state? q with
    | none => none
    | some s =>
      if q ∈ fresh then explore g (fresh.erase q) (s.targets ++ rest) else explore g fresh rest
termination_by (fresh.size, todo.length)
decreasing_by
  · exact Prod.Lex.left _ _ (size_erase_lt ‹_›)
  · exact Prod.Lex.right _ (by simp)

def indices (g : Graph) : List Nat := List.range g.size

def reachable? (g : Graph) (start : Nat) : Option (List Nat) :=
  (g.explore (.ofList g.indices) [start]).map fun rest => g.indices.filter (· ∉ rest)

def edgesFrom (g : Graph) (q : Nat) : List (Nat × Edge) :=
  match g.state? q with
  | some s => s.edges.toList.map (q, ·)
  | none => []

def edges? (g : Graph) (start : Nat) : Option (List (Nat × Edge)) :=
  (g.reachable? start).map fun states => states.flatMap g.edgesFrom

end Graph
end Recognizers
