import Recognizers.Parser.Basic

/-!
The same parser over a plain list of symbols left to read: a move drops the first one, if there
is one, and a reduction puts the left side in front. This machine knows no positions.
-/
namespace Recognizers

structure Pending where
  states : List Nat := [0]
  forest : Forest := .empty
  rest : List Symbol

namespace Pending

def start (input : List Symbol) : Pending := { rest := input }

def state (c : Pending) : Nat := c.states.headD 0

def look (c : Pending) : Symbol := c.rest.headD .eof

def available (c : Pending) : Nat := min c.forest.roots.length (c.states.length - 1)

end Pending

def Config.pending (c : Config) : Pending :=
  { states := c.states, forest := c.forest, rest := c.tape.ahead }

namespace Parser

end Parser
end Recognizers
