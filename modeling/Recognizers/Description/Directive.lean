import Recognizers.Text.Words

/-!
The lines of a table description, read by their shape alone:

    terminals a b
    nonterminals S X
    production X -> a b
    shift 0 a 1
    goto 0 X 3
    reduce 2 eof 0
    final 3

What follows a `#` is a comment. `shift` and `goto` mean the same; the kind of the symbol tells
which of the two it is.
-/
namespace Recognizers

inductive Directive where
  | terminals (names : List String)
  | nonterminals (names : List String)
  | production (left : String) (right : List String)
  | move (state symbol target : String)
  | reduce (state symbol id : String)
  | final (states : List String)
deriving DecidableEq

inductive Malformed where
  | production
  | move (keyword : String)
  | reduce
  | notNumber (word : String)
  | unknownProduction (id : Nat)
  | unknownDirective (word : String)
deriving DecidableEq

def Malformed.message : Malformed → String
  | production => "expected \"production <left> -> <right>...\""
  | move keyword => "expected \"" ++ keyword ++ " <state> <symbol> <target>\""
  | reduce => "expected \"reduce <state> <symbol> <production>\""
  | notNumber word => "expected a number, got \"" ++ word ++ "\""
  | unknownProduction id => "unknown production " ++ toString id
  | unknownDirective word => "unknown directive \"" ++ word ++ "\""

namespace Directive

def readMove (keyword : String) : List String → Except Malformed Directive
  | [state, symbol, target] => .ok (.move state symbol target)
  | _ => .error (.move keyword)

def readReduce : List String → Except Malformed Directive
  | [state, symbol, id] => .ok (.reduce state symbol id)
  | _ => .error .reduce

def readProduction : List String → Except Malformed Directive
  | left :: "->" :: right => .ok (.production left right)
  | _ => .error .production

def read (keyword : String) (args : List String) : Except Malformed Directive :=
  if keyword = "terminals" then .ok (.terminals args)
  else if keyword = "nonterminals" then .ok (.nonterminals args)
  else if keyword = "production" then readProduction args
  else if keyword = "shift" ∨ keyword = "goto" then readMove keyword args
  else if keyword = "reduce" then readReduce args
  else if keyword = "final" then .ok (.final args)
  else .error (.unknownDirective keyword)

def lineWords (line : List Char) : List String := Text.words (line.takeWhile (· ≠ '#'))

end Directive
end Recognizers
