import Recognizers.Grammar
import Recognizers.Table.Basic
import Recognizers.Tree.Forest
import Recognizers.Parser.Error
import Recognizers.Parser.Tape

/-!
Parsing with a grammar and an action table. A reduction pops one state and one tree for each symbol
of the right side and writes the left side back onto the tape, where a goto passes over it. A parse
is over when the start symbol, which the least final state reduces to at the end of the input, is all
that is left to read.
-/
namespace Recognizers

structure Config where
  /-- The states, the current one first. -/
  states : List Nat := [0]
  forest : Forest := .empty
  tape : Tape

namespace Config

def start (input : List Symbol) : Config := { tape := .ofList input }

def state (c : Config) : Nat := c.states.headD 0

/-- How many trees can be popped; the bottom state stays. -/
def available (c : Config) : Nat := min c.forest.roots.length (c.states.length - 1)

end Config

structure Parser where
  grammar : Grammar := {}
  table : Table := .empty

namespace Parser

def startSymbol (p : Parser) : Except ParseError Symbol :=
  match p.table.finals.min? with
  | none => .error .noFinalState
  | some state =>
    match p.table.action? state .eof with
    | some (.reduce id) =>
      match p.grammar.production? id with
      | some rule => .ok rule.left
      | none => .error (.unknownProduction id)
    | _ => .error (.noStartSymbol state)

def action? (p : Parser) (c : Config) : Option Action := p.table.action? c.state c.tape.look

def reduce (p : Parser) (c : Config) (id : Nat) : Except ParseError Config :=
  match p.grammar.production? id with
  | none => .error (.unknownProduction id)
  | some rule =>
    if rule.arity ≤ c.available then
      .ok
        { states := c.states.drop rule.arity
          forest := c.forest.join rule.left id rule.arity
          tape := c.tape.writeBack rule.left }
    else .error (.stackUnderflow id rule.arity c.available)

def act (p : Parser) (c : Config) : Action → Except ParseError Config
  | .shift target =>
    .ok
      { states := target :: c.states
        forest := c.forest.grow c.tape.look
        tape := c.tape.advance }
  | .goto target => .ok { c with states := target :: c.states, tape := c.tape.advance }
  | .reduce id => p.reduce c id

def step (p : Parser) (c : Config) : Except ParseError Config :=
  match p.action? c with
  | some action => p.act c action
  | none => .error (.noAction c.tape.position c.tape.look c.state)

def finish (f : Forest) : Except ParseError ParseTree :=
  match f.single? with
  | some tree => .ok tree
  | none => .error (.incomplete f.symbols)

/-- Goes on from a configuration; `none` if the parse takes `limit` steps and is not over. -/
def run (p : Parser) (goal : Symbol) : Nat → Config → Option (Except ParseError ParseTree)
  | 0, _ => none
  | limit + 1, c =>
    if c.tape.endsWith goal then some (finish c.forest)
    else
      match p.step c with
      | .ok next => p.run goal limit next
      | .error e => some (.error e)

def parse (p : Parser) (limit : Nat) (input : List Symbol) :
    Option (Except ParseError ParseTree) :=
  match p.startSymbol with
  | .ok goal => p.run goal limit (.start input)
  | .error e => some (.error e)

end Parser
end Recognizers
