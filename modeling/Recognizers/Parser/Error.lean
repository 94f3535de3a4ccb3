import Recognizers.Vocabulary

/-!
Why a parse ends without a tree, and the texts that tell.
-/
namespace Recognizers

inductive ParseError where
  | noAction (position : Nat) (symbol : Symbol) (state : Nat)
  | incomplete (residual : List Symbol)
  | noFinalState
  | noStartSymbol (state : Nat)
  | stackUnderflow (production needed available : Nat)
  | unknownProduction (production : Nat)
deriving DecidableEq

def ParseError.message (v : Vocabulary) : ParseError → String
  | noAction position symbol state =>
    "no action at symbol #" ++ toString position ++ " (" ++ v.name symbol ++ ") in state "
      ++ toString state
  | incomplete residual =>
    "input did not reduce to a single node, left on the stack: "
      ++ " ".intercalate (residual.map v.name)
  | noFinalState => "the table has no final state"
  | noStartSymbol state => "final state " ++ toString state ++ " does not reduce on end of input"
  | stackUnderflow production needed available =>
    "production " ++ toString production ++ " needs " ++ toString needed
      ++ " stack entries, only " ++ toString available ++ " left"
  | unknownProduction production =>
    "the table refers to unknown production " ++ toString production

end Recognizers
