import Recognizers.Command.Failure
import Recognizers.Graph.Keywords
import Recognizers.Table.Matrix

/-!
The command line: drawing the automaton of some keywords, showing a table description, and
parsing tokens with one. Flags that only make the program more talkative are dropped, but what
comes after `--` is never a flag.
-/
namespace Recognizers

inductive Command where
  | nfa (words : List String)
  | table (file : String)
  | parse (file : String) (tokens : List String)
deriving DecidableEq

namespace Command

def isVerbosity (arg : String) : Bool :=
  arg = "--verbose" ||
    match arg.toList with
    | '-' :: 'v' :: more => more.all (· = 'v')
    | _ => false

def positional (args : List String) : List String :=
  let flagged := args.takeWhile (· ≠ "--")
  flagged.filter (!isVerbosity ·) ++ args.drop (flagged.length + 1)

def read (args : List String) : Option Command :=
  match positional args with
  | "nfa" :: words => some (.nfa words)
  | ["table", file] => some (.table file)
  | "parse" :: file :: tokens => some (.parse file tokens)
  | _ => none

abbrev Files := String → Except ReadError String

def load (files : Files) (file : String) : Except Failure Parser := do
  let source ← (files file).mapError (.unreadable file)
  (Parser.ofDescription source).mapError (.badDescription file)

def overview (p : Parser) : String :=
  let productions := (List.range p.grammar.productions.size).map fun id =>
    toString id ++ ": " ++ p.grammar.productionText id ++ "\n"
  String.join productions ++ "\n" ++ p.table.matrix p.grammar.vocabulary

def parseTokens (p : Parser) (limit : Nat) (tokens : List String) :
    Option (Except Failure String) :=
  match tokens.mapM p.grammar.vocabulary.lookUp with
  | .error e => some (.error (.badToken e))
  | .ok input =>
    (p.parse limit input).map fun
      | .ok tree => .ok (tree.drawing p.grammar.vocabulary)
      | .error e => .error (.noTree p.grammar.vocabulary e)

/-- What a command prints; `none` if it parses for more than `limit` steps. -/
def run (files : Files) (limit : Nat) : Command → Option (Except Failure String)
  | nfa words => ((Graph.keywords words).dot? 0).map .ok
  | table file => some ((load files file).map overview)
  | parse file tokens =>
    match load files file with
    | .ok p => parseTokens p limit tokens
    | .error e => some (.error e)

def runArgs (files : Files) (limit : Nat) (args : List String) :
    Option (Except Failure String) :=
  match read args with
  | some command => command.run files limit
  | none => some (.error .noSubcommand)

end Command
end Recognizers
