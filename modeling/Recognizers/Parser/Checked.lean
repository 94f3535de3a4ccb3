import Recognizers.Parser.Basic
import Recognizers.Tree.Checked

/-!
The parser as it works on its memory: stacks with the latest element last, an array of nodes and
the tape. Where an access relies on something, it is checked first; a check that fails is a fault,
which is not an error of the parse.
-/
namespace Recognizers

structure Memory where
  states : List Nat := [0]
  roots : List Nat := []
  nodes : Array Node := #[]
  tape : Tape

namespace Checked

def adopt (nodes : Array Node) (parent : Nat) : List Nat → Except Fault (Array Node)
  | [] => .ok nodes
  | c :: cs => do
    let n ← read nodes c
    let nodes ← write nodes c { n with parent := some parent }
    adopt nodes parent cs

def endsWith (t : Tape) (symbol : Symbol) : Except Fault Bool :=
  if t.cursor + 1 = t.symbols.size then do
    let last ← read t.symbols t.cursor
    pure (last = symbol)
  else pure false

def writeBack (t : Tape) (symbol : Symbol) : Except Fault Tape :=
  if t.cursor = 0 then
    pure { t with symbols := #[symbol] ++ t.symbols, prepended := t.prepended + 1 }
  else do
    let place ← minus t.cursor 1
    let filled :=
      if t.symbols.size ≤ place then
        t.symbols ++ Array.replicate (place + 1 - t.symbols.size) .eof
      else t.symbols
    let symbols ← write filled place symbol
    pure { t with symbols, cursor := place }

end Checked

namespace Parser
open Checked

def reduceChecked (p : Parser) (c : Memory) (id : Nat) : Except Fault (Except ParseError Memory) :=
  match p.grammar.production? id with
  | none => pure (.error (.unknownProduction id))
  | some rule => do
    let above ← minus c.states.length 1
    let available := min c.roots.length above
    if available < rule.arity then
      pure (.error (.stackUnderflow id rule.arity available))
    else
      let below ← minus c.states.length rule.arity
      let kept ← minus c.roots.length rule.arity
      let children := c.roots.drop kept
      let adopted ← adopt c.nodes c.nodes.size children
      let tape ← writeBack c.tape rule.left
      pure
        (.ok
          { states := c.states.take below
            roots := c.roots.take kept ++ [c.nodes.size]
            nodes := adopted.push { symbol := rule.left, content := .inner id children }
            tape })

def stepChecked (p : Parser) (c : Memory) : Except Fault (Except ParseError Memory) := do
  let state ← top c.states
  match p.table.action? state c.tape.look with
  | none => pure (.error (.noAction c.tape.position c.tape.look state))
  | some (.shift target) =>
    pure
      (.ok
        { states := c.states ++ [target]
          roots := c.roots ++ [c.nodes.size]
          nodes := c.nodes.push { symbol := c.tape.look, content := .leaf }
          tape := c.tape.advance })
  | some (.goto target) =>
    pure (.ok { c with states := c.states ++ [target], tape := c.tape.advance })
  | some (.reduce id) => p.reduceChecked c id

def finishChecked (c : Memory) : Except Fault (Except ParseError BareTree) :=
  if c.roots.length = 1 then do
    let root ← read c.roots.toArray 0
    pure (.ok { nodes := c.nodes, root })
  else do
    let residual ← c.roots.mapM (read c.nodes)
    pure (.error (.incomplete (residual.map Node.symbol)))

def runChecked (p : Parser) (goal : Symbol) :
    Nat → Memory → Except Fault (Option (Except ParseError BareTree))
  | 0, _ => pure none
  | limit + 1, c => do
    if ← endsWith c.tape goal then
      let result ← finishChecked c
      pure (some result)
    else
      match ← p.stepChecked c with
      | .ok next => p.runChecked goal limit next
      | .error e => pure (some (.error e))

def parseChecked (p : Parser) (limit : Nat) (input : List Symbol) :
    Except Fault (Option (Except ParseError BareTree)) :=
  match p.startSymbol with
  | .ok goal => p.runChecked goal limit { tape := .ofList input }
  | .error e => pure (some (.error e))

end Parser
end Recognizers
