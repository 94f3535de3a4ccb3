import Std.Data.ExtTreeMap

/-!
Grammar symbols: terminals and non-terminals, each kind numbered from 0. Symbols are ordered
terminals first, then by number; `compare_eq` says that symbols which tie in this order are equal.
-/
namespace Recognizers

inductive SymbolKind where
  | terminal
  | nonterminal
deriving DecidableEq

inductive Symbol where
  | terminal (number : Nat)
  | nonterminal (number : Nat)
deriving DecidableEq

namespace Symbol

def eof : Symbol := terminal 0

def null : Symbol := terminal 1

def kind : Symbol → SymbolKind
  | terminal _ => .terminal
  | nonterminal _ => .nonterminal

def number : Symbol → Nat
  | terminal n => n
  | nonterminal n => n

def rank (s : Symbol) : Nat :=
  match s.kind with
  | .terminal => 0
  | .nonterminal => 1

instance : Ord Symbol := ⟨compareLex (compareOn rank) (compareOn number)⟩

instance : Std.TransOrd Symbol :=
  inferInstanceAs (Std.TransCmp (compareLex (compareOn rank) (compareOn number)))

theorem compare_eq {a b : Symbol} (h : compare a b = .eq) : a = b := by
  have tie : compareLex (compareOn rank) (compareOn number) a b = .eq := h
  simp only [compareLex, compareOn, Ordering.then_eq_eq, Nat.compare_eq_eq] at tie
  cases a <;> cases b <;> simp_all [rank, kind, number]

instance : Std.LawfulEqOrd Symbol where
  eq_of_compare := compare_eq

end Symbol
end Recognizers
