import Recognizers.Graph.Basic

/-!
Several graphs and the supplies they take their serials from. Graphs on one supply share its
count, so no two of their states get the same name of it. An operation on a graph, a supply or a
state that is not there has no result.
-/
namespace Recognizers

structure Workspace where
  supplies : Array Supply := #[]
  /-- The graphs, each with the number of its supply. -/
  graphs : Array (Nat × Graph) := #[]

namespace Workspace

def addSupply (w : Workspace) (s : Supply) : Workspace := { w with supplies := w.supplies.push s }

def addGraph (w : Workspace) (supply : Nat) : Workspace :=
  { w with graphs := w.graphs.push (supply, {}) }

def supply? (w : Workspace) (k : Nat) : Option Supply := w.supplies[k]?

def graph? (w : Workspace) (k : Nat) : Option Graph := (w.graphs[k]?).map Prod.snd

def draw (w : Workspace) (k : Nat) : Option (String × Workspace) :=
  (w.supply? k).map fun s =>
    (s.next, { w with supplies := w.supplies.setIfInBounds k (s.advance 1) })

def extend (w : Workspace) (k : Nat) (f : Draft → Draft) : Option Workspace := do
  let (number, graph) ← w.graphs[k]?
  let names ← w.supply? number
  let d := f { graph, names }
  some
    { supplies := w.supplies.setIfInBounds number d.names
      graphs := w.graphs.setIfInBounds k (number, d.graph) }

def change (w : Workspace) (k q : Nat) (f : Graph → Graph) : Option Workspace := do
  let (number, graph) ← w.graphs[k]?
  if q < graph.size then
    some { w with graphs := w.graphs.setIfInBounds k (number, f graph) }
  else none

def addState (w : Workspace) (k : Nat) : Option Workspace := w.extend k Draft.addState

def addLiteral (w : Workspace) (k : Nat) (text : String) : Option Workspace :=
  w.extend k (·.addLiteral text)

def addEdge (w : Workspace) (k source : Nat) (label : String) (target : Nat) : Option Workspace :=
  w.change k source (·.addEdge source label target)

def accept (w : Workspace) (k q : Nat) (accepting : Bool) : Option Workspace :=
  w.change k q (·.accept q accepting)

end Workspace
end Recognizers
