import Recognizers.Symbol

/-!
The buffer a parse reads and changes. The cursor stands on the next symbol; beyond the last one
every symbol reads as the end of the input. `writeBack` puts a symbol just before the cursor and
steps back onto it, so that the reader meets it next. `ahead` is what is left to read.
-/
namespace Recognizers

structure Tape where
  symbols : Array Symbol
  cursor : Nat := 0
  /-- How many symbols were put in front of the whole input. -/
  prepended : Nat := 0

namespace Tape

def ofList (input : List Symbol) : Tape := { symbols := input.toArray }

def ahead (t : Tape) : List Symbol := t.symbols.toList.drop t.cursor

def look (t : Tape) : Symbol := t.symbols[t.cursor]?.getD .eof

/-- The place of the cursor in the input as it was given, counted from 1. -/
def position (t : Tape) : Nat := max (t.cursor + 1 - t.prepended) 1

def advance (t : Tape) : Tape := { t with cursor := t.cursor + 1 }

def endsWith (t : Tape) (symbol : Symbol) : Bool :=
  t.cursor + 1 = t.symbols.size && t.symbols[t.cursor]? = some symbol

/-- At the left end room is made for the symbol; beyond the right end the gap is filled up. -/
def writeBack (t : Tape) (symbol : Symbol) : Tape :=
  match t.cursor with
  | 0 => { t with symbols := #[symbol] ++ t.symbols, prepended := t.prepended + 1 }
  | place + 1 =>
    let filled := t.symbols ++ Array.replicate (place + 1 - t.symbols.size) .eof
    { t with symbols := filled.setIfInBounds place symbol, cursor := place }

theorem look_eq (t : Tape) : t.look = t.ahead.headD .eof := by
  simp [look, ahead, List.headD_eq_head?_getD, List.head?_drop]

theorem ahead_advance (t : Tape) : t.advance.ahead = t.ahead.tail := by
  simp [advance, ahead, List.tail_drop]

theorem ahead_writeBack (t : Tape) (symbol : Symbol) :
    (t.writeBack symbol).ahead = symbol :: t.ahead := by
  rcases t with ⟨symbols, cursor, prepended⟩
  cases cursor with
  | zero => simp [writeBack, ahead]
  | succ place =>
    simp only [writeBack, ahead, Array.toList_setIfInBounds, Array.toList_append,
      Array.toList_replicate]
    rw [List.drop_eq_getElem_cons (by simp; omega)]
    simp [List.drop_set, List.drop_append]

theorem endsWith_iff (t : Tape) (symbol : Symbol) :
    t.endsWith symbol = true ↔ t.ahead = [symbol] := by
  simp only [endsWith, ahead, Bool.and_eq_true, decide_eq_true_eq,
    ← Array.length_toList, ← Array.getElem?_toList]
  constructor
  · intro ⟨last, here⟩
    obtain ⟨inside, same⟩ := List.getElem?_eq_some_iff.mp here
    rw [List.drop_eq_getElem_cons inside, List.drop_eq_nil_of_le (by omega), same]
  · intro all
    have count := congrArg List.length all
    have first := congrArg List.head? all
    simp only [List.length_drop, List.length_singleton, List.head?_drop, List.head?_cons]
      at count first
    exact ⟨by omega, first⟩

end Tape
end Recognizers
