import Recognizers.Vocabulary

/-!
Grammars: a vocabulary and productions numbered in the order of their addition. The left side
of a production is a non-terminal by construction; its right side may hold any symbols, named
or not.
-/
namespace Recognizers

structure Production where
  /-- The number of the non-terminal on the left. -/
  head : Nat
  right : List Symbol
deriving DecidableEq

namespace Production

def left (p : Production) : Symbol := .nonterminal p.head

def arity (p : Production) : Nat := p.right.length

end Production

structure Grammar where
  vocabulary : Vocabulary := .initial
  productions : Array Production := #[]

namespace Grammar

def production? (g : Grammar) (id : Nat) : Option Production := g.productions[id]?

def add (g : Grammar) (left : Symbol) (right : List Symbol) :
    Except GrammarError (Nat × Grammar) :=
  match left with
  | .nonterminal head =>
    .ok (g.productions.size, { g with productions := g.productions.push { head, right } })
  | .terminal _ => .error (.terminalLeft (g.vocabulary.name left))

/-- Adds a production given by names: the left side is looked up first, then the right side
from left to right, and only then the kind of the left side matters. -/
def addByName (g : Grammar) (left : String) (right : List String) :
    Except GrammarError (Nat × Grammar) := do
  let left ← g.vocabulary.lookUp left
  let right ← right.mapM g.vocabulary.lookUp
  g.add left right

def names (g : Grammar) (symbols : List Symbol) : String :=
  " ".intercalate (symbols.map g.vocabulary.name)

def productionText (g : Grammar) (id : Nat) : String :=
  match g.production? id with
  | some p => g.vocabulary.name p.left ++ " -> " ++ g.names p.right
  | none => "<production " ++ toString id ++ ">"

end Grammar
end Recognizers
