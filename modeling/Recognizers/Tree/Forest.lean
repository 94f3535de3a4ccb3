import Recognizers.Tree.ParseTree

/-!
The trees a parse has built so far: an arena and a stack of roots. A leaf starts a new tree;
joining makes the latest roots the children of a new one.
-/
namespace Recognizers

structure Forest where
  arena : Arena
  /-- The roots, the latest one first. -/
  roots : List Nat
  known : ∀ r ∈ roots, r < arena.size

namespace Forest

def empty : Forest where
  arena := .empty
  roots := []
  known := fun _ member => nomatch member

def grow (f : Forest) (symbol : Symbol) : Forest where
  arena := f.arena.leaf symbol
  roots := f.arena.size :: f.roots
  known := by
    intro r member
    simp only [Arena.leaf, Arena.size, Array.size_push]
    rcases List.mem_cons.mp member with here | earlier
    · exact Nat.lt_succ_of_le (Nat.le_of_eq here)
    · exact Nat.lt_succ_of_lt (f.known r earlier)

/-- Puts a new root above the `count` latest ones, the earliest of which becomes its first
child. -/
def join (f : Forest) (symbol : Symbol) (production count : Nat) : Forest where
  arena := f.arena.inner symbol production (f.roots.take count).reverse
    (fun c member => f.known c (List.mem_of_mem_take (List.mem_reverse.mp member)))
  roots := f.arena.size :: f.roots.drop count
  known := by
    intro r member
    simp only [Arena.inner, Arena.size, Array.size_push, Arena.size_adopt]
    rcases List.mem_cons.mp member with here | earlier
    · exact Nat.lt_succ_of_le (Nat.le_of_eq here)
    · exact Nat.lt_succ_of_lt (f.known r (List.mem_of_mem_drop earlier))

def symbols (f : Forest) : List Symbol :=
  (f.roots.reverse.filterMap f.arena.node?).map Node.symbol

def single? (f : Forest) : Option ParseTree :=
  match only : f.roots with
  | [root] => some { arena := f.arena, root, known := f.known root (by simp [only]) }
  | _ => none

end Forest
end Recognizers
