import Recognizers.Description.Directive
import Recognizers.Parser.Basic
import Recognizers.Text.Numeral

/-!
The parser that a description stands for. Its lines are obeyed in their order, each knowing what
the lines before it said, and the first one that fails ends it all. Within a line symbols are
looked up before numbers are read.
-/
namespace Recognizers

inductive LineError where
  | malformed (why : Malformed)
  | grammar (why : GrammarError)
  | conflict (name : String) (why : Conflict)
deriving DecidableEq

def LineError.message : LineError → String
  | malformed why => why.message
  | grammar why => why.message
  | conflict name why => why.message ++ " on \"" ++ name ++ "\""

/-- Lines are counted from 1. -/
structure DescriptionError where
  line : Nat
  cause : LineError
deriving DecidableEq

def DescriptionError.message (e : DescriptionError) : String :=
  "line " ++ toString e.line ++ ": " ++ e.cause.message

namespace Directive

def number (word : String) : Except LineError Nat :=
  match Text.number? word with
  | some n => .ok n
  | none => .error (.malformed (.notNumber word))

def declare (p : Parser) (kind : SymbolKind) (names : List String) : Except LineError Parser := do
  let add (v : Vocabulary) (name : String) := (v.declare kind name).map Prod.snd
  let vocabulary ← (names.foldlM add p.grammar.vocabulary).mapError .grammar
  pure { p with grammar := { p.grammar with vocabulary } }

def apply (p : Parser) : Directive → Except LineError Parser
  | .terminals names => declare p .terminal names
  | .nonterminals names => declare p .nonterminal names
  | .production left right => do
    let (_, grammar) ← (p.grammar.addByName left right).mapError .grammar
    pure { p with grammar }
  | .move state name target => do
    let symbol ← (p.grammar.vocabulary.lookUp name).mapError .grammar
    let state ← number state
    let target ← number target
    let table ← (p.table.enterMove state symbol target).mapError
      (.conflict (p.grammar.vocabulary.name symbol))
    pure { p with table }
  | .reduce state name id => do
    let symbol ← (p.grammar.vocabulary.lookUp name).mapError .grammar
    let id ← number id
    if (p.grammar.production? id).isNone then throw (.malformed (.unknownProduction id))
    let state ← number state
    let table ← (p.table.enterReduction state symbol id).mapError
      (.conflict (p.grammar.vocabulary.name symbol))
    pure { p with table }
  | .final states => do
    let states ← states.mapM number
    pure { p with table := states.foldl Table.addFinal p.table }

end Directive

namespace Parser

def obeyLine (p : Parser) (line : List Char) : Except LineError Parser :=
  match Directive.lineWords line with
  | [] => .ok p
  | keyword :: args => do
    let directive ← (Directive.read keyword args).mapError .malformed
    directive.apply p

def obeyLines (p : Parser) (line : Nat) : List (List Char) → Except DescriptionError Parser
  | [] => .ok p
  | text :: rest =>
    match p.obeyLine text with
    | .ok next => next.obeyLines (line + 1) rest
    | .error cause => .error { line, cause }

def ofDescription (source : String) : Except DescriptionError Parser :=
  obeyLines {} 1 (Text.lines source)

/-- What is reported, at the level `debug`, of a description that was obeyed. -/
def declarations (p : Parser) : List String :=
  (List.range p.grammar.productions.size).map fun id =>
    "production " ++ toString id ++ ": " ++ p.grammar.productionText id

end Parser
end Recognizers
