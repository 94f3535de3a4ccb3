import Recognizers.Graph.Basic

/-!
A literal added state by state: one state to begin with, then for each character a state with an edge to
it from the one before. The last one accepts.
-/
namespace Recognizers
namespace Draft

def addEdge (d : Draft) (source : Nat) (label : String) (target : Nat) : Draft :=
  { d with graph := d.graph.addEdge source label target }

def accept (d : Draft) (q : Nat) (accepting : Bool) : Draft :=
  { d with graph := d.graph.accept q accepting }

def spell : Draft × Nat → Char → Draft × Nat
  | (d, last), c => (d.addState.addEdge last (String.singleton c) d.graph.size, d.graph.size)

def spellAll (d : Draft) (text : String) : Draft × Fragment :=
  let (spelt, last) := text.toList.foldl spell (d.addState, d.graph.size)
  (spelt.accept last true, { first := d.graph.size, last })

end Draft
end Recognizers
