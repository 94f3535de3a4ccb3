import Std.Data.ExtTreeSet
import Recognizers.Symbol

/-!
Action tables: what to do in a state on a symbol, and the states in which the end of the input
may be accepted. An entry is never overwritten by a different one. Every entry suits its column
(`fits`): only terminals are shifted, and only on non-terminals is there a goto.
-/
namespace Recognizers

inductive Action where
  | shift (target : Nat)
  | goto (target : Nat)
  | reduce (production : Nat)
deriving DecidableEq

namespace Action

def text : Action → String
  | shift target => "s" ++ toString target
  | goto target => "g" ++ toString target
  | reduce production => "r" ++ toString production

def move (target : Nat) (symbol : Symbol) : Action :=
  match symbol.kind with
  | .terminal => shift target
  | .nonterminal => goto target

def Fits : Action → Symbol → Prop
  | shift _, symbol => symbol.kind = .terminal
  | goto _, symbol => symbol.kind = .nonterminal
  | reduce _, _ => True

theorem move_fits (target : Nat) (symbol : Symbol) : (move target symbol).Fits symbol := by
  cases symbol <;> rfl

end Action

/-- A place in a table. Places are ordered by state, then by symbol. -/
structure Cell where
  state : Nat
  symbol : Symbol
deriving DecidableEq

namespace Cell

instance : Ord Cell := ⟨compareLex (compareOn state) (compareOn symbol)⟩

instance : Std.TransOrd Cell :=
  inferInstanceAs (Std.TransCmp (compareLex (compareOn state) (compareOn symbol)))

theorem eq_of_compare {a b : Cell} (h : compare a b = .eq) : a = b := by
  have tie : compareLex (compareOn state) (compareOn symbol) a b = .eq := h
  simp only [compareLex, compareOn, Ordering.then_eq_eq, Nat.compare_eq_eq] at tie
  cases a
  cases b
  simp_all

instance : Std.LawfulEqOrd Cell where
  eq_of_compare := eq_of_compare

end Cell

structure Conflict where
  cell : Cell
  existing : Action
  attempted : Action
deriving DecidableEq

def Conflict.message (c : Conflict) : String :=
  "conflict in state " ++ toString c.cell.state ++ ": " ++ c.existing.text ++ " vs "
    ++ c.attempted.text

structure Table where
  entries : Std.ExtTreeMap Cell Action
  finals : Std.ExtTreeSet Nat
  fits : ∀ {cell : Cell} {action : Action}, entries[cell]? = some action →
    action.Fits cell.symbol

namespace Table

def empty : Table where
  entries := ∅
  finals := ∅
  fits := by
    intro cell action found
    rw [Std.ExtTreeMap.getElem?_empty] at found
    cases found

def action? (t : Table) (state : Nat) (symbol : Symbol) : Option Action :=
  t.entries[Cell.mk state symbol]?

def insert (t : Table) (cell : Cell) (action : Action) (suits : action.Fits cell.symbol) :
    Table :=
  { entries := t.entries.insert cell action
    finals := t.finals
    fits := by
      intro c a found
      rw [Std.ExtTreeMap.getElem?_insert] at found
      split at found
      · rename_i same
        rw [← Cell.eq_of_compare same, ← Option.some.inj found]
        exact suits
      · exact t.fits found }

/-- Writes an entry. A place that holds an action already admits only the same one again. -/
def enter (t : Table) (cell : Cell) (action : Action) (suits : action.Fits cell.symbol) :
    Except Conflict Table :=
  match t.entries[cell]? with
  | some existing =>
    if existing = action then .ok t else .error { cell, existing, attempted := action }
  | none => .ok (t.insert cell action suits)

def enterMove (t : Table) (state : Nat) (symbol : Symbol) (target : Nat) :
    Except Conflict Table :=
  t.enter ⟨state, symbol⟩ (.move target symbol) (Action.move_fits target symbol)

def enterReduction (t : Table) (state : Nat) (symbol : Symbol) (production : Nat) :
    Except Conflict Table :=
  t.enter ⟨state, symbol⟩ (.reduce production) trivial

def addFinal (t : Table) (state : Nat) : Table :=
  { t with finals := t.finals.insert state }

def states (t : Table) : List Nat :=
  (Std.ExtTreeSet.ofList (t.entries.keys.map Cell.state)).toList

def symbols (t : Table) : List Symbol :=
  (Std.ExtTreeSet.ofList (t.entries.keys.map Cell.symbol)).toList

end Table
end Recognizers
