import Recognizers.Grammar

/-!
Grammars as they are kept and changed in place: the names of each kind listed, an index from the
names back to their symbols, and the productions. What is asked of a grammar is answered, and a
grammar is left behind, also by what is refused.
-/
namespace Recognizers

structure IndexedVocabulary where
  terminals : Array String := #[]
  nonterminals : Array String := #[]
  index : Std.ExtTreeMap String Symbol := ∅

namespace IndexedVocabulary

def find? (v : IndexedVocabulary) (name : String) : Option Symbol := v.index[name]?

def name (v : IndexedVocabulary) : Symbol → String
  | .terminal k => v.terminals[k]?.getD "?"
  | .nonterminal k => v.nonterminals[k]?.getD "?"

def lookUp (v : IndexedVocabulary) (name : String) : Except GrammarError Symbol :=
  match v.find? name with
  | some s => .ok s
  | none => .error (.unknownSymbol name)

def add (v : IndexedVocabulary) (name : String) : SymbolKind → Symbol × IndexedVocabulary
  | .terminal =>
    let s := .terminal v.terminals.size
    (s, { v with terminals := v.terminals.push name, index := v.index.insert name s })
  | .nonterminal =>
    let s := .nonterminal v.nonterminals.size
    (s, { v with nonterminals := v.nonterminals.push name, index := v.index.insert name s })

def declare (v : IndexedVocabulary) (kind : SymbolKind) (name : String) :
    Except GrammarError Symbol × IndexedVocabulary :=
  match v.find? name with
  | some s => (if s.kind = kind then .ok s else .error (.kindClash name), v)
  | none =>
    let (s, added) := v.add name kind
    (.ok s, added)

/-- The reserved names are the first ones to be declared. -/
def initial : IndexedVocabulary :=
  let (_, first) := declare {} .terminal "eof"
  (first.declare .terminal "null").2

end IndexedVocabulary

structure Rule where
  left : Symbol
  right : List Symbol
deriving DecidableEq

structure IndexedGrammar where
  vocabulary : IndexedVocabulary := .initial
  rules : Array Rule := #[]

namespace IndexedGrammar

def declare (g : IndexedGrammar) (kind : SymbolKind) (name : String) :
    Except GrammarError Symbol × IndexedGrammar :=
  let (answer, vocabulary) := g.vocabulary.declare kind name
  (answer, { g with vocabulary })

def add (g : IndexedGrammar) (left : Symbol) (right : List Symbol) :
    Except GrammarError Nat × IndexedGrammar :=
  match left.kind with
  | .terminal => (.error (.terminalLeft (g.vocabulary.name left)), g)
  | .nonterminal => (.ok g.rules.size, { g with rules := g.rules.push { left, right } })

def addByName (g : IndexedGrammar) (left : String) (right : List String) :
    Except GrammarError Nat × IndexedGrammar :=
  match g.vocabulary.lookUp left with
  | .error e => (.error e, g)
  | .ok left =>
    match right.mapM g.vocabulary.lookUp with
    | .error e => (.error e, g)
    | .ok right => g.add left right

end IndexedGrammar
end Recognizers
