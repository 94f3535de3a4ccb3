import Recognizers.Table.Basic

/-!
Tables as they are kept and changed in place, a row of actions for each state. The row of a state is
made before it is known whether an action will be accepted in it. What is asked of a table is
answered, and a table is left behind, also by what is refused.
-/
namespace Recognizers

abbrev Row := Std.ExtTreeMap Symbol Action

structure RowTable where
  rows : Std.ExtTreeMap Nat Row := ∅
  finals : Std.ExtTreeSet Nat := ∅

namespace RowTable

def action? (t : RowTable) (state : Nat) (symbol : Symbol) : Option Action :=
  t.rows[state]?.bind (·[symbol]?)

def putRow (t : RowTable) (state : Nat) (row : Row) : RowTable :=
  { t with rows := t.rows.insert state row }

/-- The row of a state together with the table, in which it is made if it is not there. -/
def openRow (t : RowTable) (state : Nat) : Row × RowTable :=
  match t.rows[state]? with
  | some row => (row, t)
  | none => (∅, t.putRow state ∅)

def enter (t : RowTable) (cell : Cell) (action : Action) : Except Conflict Unit × RowTable :=
  let (row, opened) := t.openRow cell.state
  match row[cell.symbol]?.filter (· ≠ action) with
  | some existing => (.error { cell, existing, attempted := action }, opened)
  | none => (.ok (), opened.putRow cell.state (row.insert cell.symbol action))

def enterMove (t : RowTable) (state : Nat) (symbol : Symbol) (target : Nat) :
    Except Conflict Unit × RowTable := t.enter ⟨state, symbol⟩ (.move target symbol)

def enterReduction (t : RowTable) (state : Nat) (symbol : Symbol) (production : Nat) :
    Except Conflict Unit × RowTable := t.enter ⟨state, symbol⟩ (.reduce production)

def addFinal (t : RowTable) (state : Nat) : RowTable :=
  { t with finals := t.finals.insert state }

end RowTable
end Recognizers
