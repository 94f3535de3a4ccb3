import Recognizers.Graph.Dot
import Recognizers.Vocabulary

/-!
The automaton of a list of keywords: a start state, from which an edge labelled with the name
of the empty word leads to a chain for each of them.
-/
namespace Recognizers
namespace Draft

def addKeyword (start : Nat) (d : Draft) (word : String) : Draft :=
  let longer := d.addLiteral word
  { longer with
    graph := longer.graph.addEdge start (Vocabulary.initial.name .null)
      (d.graph.nextLiteral word).first }

def addKeywords (start : Nat) (d : Draft) (words : List String) : Draft :=
  words.foldl (addKeyword start) d

end Draft

/-- The start state is the one at index 0. -/
def Graph.keywords (words : List String) : Graph :=
  ((Draft.addState { names := .serial }).addKeywords 0 words).graph

end Recognizers
