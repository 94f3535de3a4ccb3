import Recognizers.Graph.Basic
import Recognizers.Text.Quoted

/-!
The whole content of a graph as one line, for diagnosis: every state with its serial, whether it
accepts, and the targets under each label.
-/
namespace Recognizers

def braced (items : List String) : String := r"{" ++ ", ".intercalate items ++ r"}"

def State.inspectTargets (targets : List Nat) : String :=
  braced (targets.map fun q => "StateId(" ++ toString q ++ ")")

def State.inspect (s : State) : String :=
  let labelled := s.transitions.map fun (label, targets) =>
    Text.quote label ++ ": " ++ inspectTargets targets
  r"NfaState {" ++ " serial: " ++ Text.quote s.serial ++ ", accepting: " ++ toString s.accepting
    ++ ", trans: " ++ braced labelled ++ r" }"

def Graph.inspect (g : Graph) : String :=
  r"Nfa {" ++ " states: [" ++ ", ".intercalate (g.states.toList.map State.inspect) ++ r"] }"

end Recognizers
