import Recognizers.Graph.Reach

/-!
Graphs as drawings for Graphviz: a node line for each reachable state, then the edge lines in
their order. Serials serve as node names and labels are written as they are.
-/
namespace Recognizers

def edgeLine (source label target : String) : String :=
  source ++ " -> " ++ target ++ "[label=\"" ++ label ++ "\"]"

namespace Graph

def serial (g : Graph) (q : Nat) : String :=
  match g.state? q with
  | some s => s.serial
  | none => ""

/-- The different edge lines, in the order of their characters. -/
def edgeLines? (g : Graph) (start : Nat) : Option (List String) :=
  (g.edges? start).map fun edges =>
    (Std.ExtTreeSet.ofList (edges.map fun (q, e) =>
      edgeLine (g.serial q) e.label (g.serial e.target))).toList

def shape (s : State) : String := if s.accepting then "doublecircle" else "circle"

def nodeLine (s : State) : String := s.serial ++ " [shape=" ++ shape s ++ "]"

def indented (statement : String) : String := "    " ++ statement ++ ";\n"

def digraph (statements : List String) : String :=
  r"digraph nfa {" ++ "\n" ++ String.join (statements.map indented) ++ r"}" ++ "\n"

def dot? (g : Graph) (start : Nat) : Option String := do
  let states ← g.reachable? start
  let edges ← g.edgeLines? start
  let nodes := (states.filterMap g.state?).map nodeLine
  some (digraph ("rankdir=LR" :: (nodes ++ edges)))

end Graph
end Recognizers
