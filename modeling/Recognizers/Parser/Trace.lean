import Recognizers.LogLevel
import Recognizers.Parser.Basic

/-!
What a parse reports while it runs: its goal, every action before it is taken, every reduction
after it succeeded, and the size of the tree in the end.
-/
namespace Recognizers

inductive ParseEvent where
  | begun (length : Nat) (goal : Symbol)
  | acting (state position : Nat) (symbol : Symbol) (action : Action)
  | reduced (production cursor : Nat)
  | built (nodes : Nat)
deriving DecidableEq

namespace ParseEvent

def level : ParseEvent → LogLevel
  | begun .. | built .. => .debug
  | acting .. | reduced .. => .trace

def text (g : Grammar) : ParseEvent → String
  | begun length goal =>
    "parsing " ++ toString length ++ " symbols towards " ++ g.vocabulary.name goal
  | acting state position symbol action =>
    "state " ++ toString state ++ ", #" ++ toString position ++ " " ++ g.vocabulary.name symbol
      ++ " : " ++ action.text
  | reduced production cursor =>
    "reduce by " ++ g.productionText production ++ " -> cursor " ++ toString cursor
  | built nodes => "parsed into " ++ toString nodes ++ " nodes"

end ParseEvent

namespace Parser

def stepEvents (p : Parser) (c : Config) : List ParseEvent :=
  match p.action? c with
  | none => []
  | some action =>
    .acting c.state c.tape.position c.tape.look action ::
      match action, p.act c action with
      | .reduce id, .ok next => [.reduced id next.tape.cursor]
      | _, _ => []

def runEvents (p : Parser) (goal : Symbol) : Nat → Config → List ParseEvent
  | 0, _ => []
  | limit + 1, c =>
    if c.tape.endsWith goal then
      match c.forest.single? with
      | some tree => [.built tree.size]
      | none => []
    else
      p.stepEvents c ++
        match p.step c with
        | .ok next => p.runEvents goal limit next
        | .error _ => []

def events (p : Parser) (limit : Nat) (input : List Symbol) : List ParseEvent :=
  match p.startSymbol with
  | .ok goal => .begun input.length goal :: p.runEvents goal limit (.start input)
  | .error _ => []

end Parser
end Recognizers
