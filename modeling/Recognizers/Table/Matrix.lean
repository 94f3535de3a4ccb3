import Recognizers.Vocabulary
import Recognizers.Table.Basic

/-!
The text of an action table: a heading with the names of the symbols, then a line for every
state that has an entry. Cells are set apart by tabs, and a place without an entry is an empty
cell.
-/
namespace Recognizers
namespace Table

/-- A final state accepts where it acts on the end of the input. -/
def cellText (t : Table) (state : Nat) (symbol : Symbol) : String :=
  match t.action? state symbol with
  | none => ""
  | some action => if symbol = .eof ∧ state ∈ t.finals then "acc" else action.text

def line (first : String) (cells : List String) : String :=
  "\t".intercalate (first :: cells) ++ "\n"

def heading (t : Table) (v : Vocabulary) : String := line "" (t.symbols.map v.name)

def row (t : Table) (state : Nat) : String :=
  line (toString state) (t.symbols.map (t.cellText state))

def matrix (t : Table) (v : Vocabulary) : String :=
  t.heading v ++ String.join (t.states.map t.row)

end Table
end Recognizers
