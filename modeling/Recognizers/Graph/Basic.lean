import Std.Data.ExtTreeSet
import Recognizers.Serial

/-!
Graphs of automaton states. A state is known by its index and shown by its serial, which never
changes. Its edges form a set ordered by label and then by target; a target need not exist.
A `Draft` is a graph with the supply that names its new states.
-/
namespace Recognizers

structure Edge where
  label : String
  target : Nat
deriving DecidableEq

namespace Edge

instance : Ord Edge := ⟨compareLex (compareOn label) (compareOn target)⟩

instance : Std.TransOrd Edge :=
  inferInstanceAs (Std.TransCmp (compareLex (compareOn label) (compareOn target)))

theorem eq_of_compare {a b : Edge} (h : compare a b = .eq) : a = b := by
  have tie : compareLex (compareOn label) (compareOn target) a b = .eq := h
  simp only [compareLex, compareOn, Ordering.then_eq_eq,
    Std.LawfulEqCmp.compare_eq_iff_eq] at tie
  cases a
  cases b
  simp_all

instance : Std.LawfulEqOrd Edge where
  eq_of_compare := eq_of_compare

end Edge

structure State where
  serial : String
  accepting : Bool := false
  edges : Std.ExtTreeSet Edge := ∅

namespace State

def targets (s : State) : List Nat := s.edges.toList.map Edge.target

def group : List Edge → List (String × List Nat)
  | [] => []
  | e :: es =>
    match group es with
    | [] => [(e.label, [e.target])]
    | (label, targets) :: later =>
      if label = e.label then (label, e.target :: targets) :: later
      else (e.label, [e.target]) :: (label, targets) :: later

def transitions (s : State) : List (String × List Nat) := group s.edges.toList

end State

structure Graph where
  states : Array State := #[]

namespace Graph

def size (g : Graph) : Nat := g.states.size

def state? (g : Graph) (q : Nat) : Option State := g.states[q]?

/-- A change to one state; an unknown index changes nothing. -/
def update (g : Graph) (q : Nat) (f : State → State) : Graph := { states := g.states.modify q f }

def addEdge (g : Graph) (source : Nat) (label : String) (target : Nat) : Graph :=
  g.update source fun s => { s with edges := s.edges.insert { label, target } }

def accept (g : Graph) (q : Nat) (accepting : Bool) : Graph :=
  g.update q fun s => { s with accepting }

end Graph

structure Fragment where
  first : Nat
  last : Nat
deriving DecidableEq

def Graph.nextLiteral (g : Graph) (text : String) : Fragment :=
  { first := g.size, last := g.size + text.length }

structure Draft where
  graph : Graph := {}
  names : Supply

namespace Draft

/-- The states that spell `text` one character an edge, the first of them at index `first`. -/
def chain (names : Supply) (first : Nat) : List Char → List State
  | [] => [{ serial := names.next, accepting := true }]
  | c :: cs =>
    { serial := names.next, edges := {{ label := String.singleton c, target := first + 1 }} } ::
      chain (names.advance 1) (first + 1) cs

def append (d : Draft) (states : List State) : Draft :=
  { graph := { states := d.graph.states ++ states }, names := d.names.advance states.length }

def addState (d : Draft) : Draft := d.append [{ serial := d.names.next }]

def addLiteral (d : Draft) (text : String) : Draft :=
  d.append (chain d.names d.graph.size text.toList)

end Draft
end Recognizers
