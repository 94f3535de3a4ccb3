import Recognizers.Tree.ParseTree

/-!
Walks over the inner nodes of a tree with a visitor, which may act in any monad: a node is
entered before its non-terminal children are walked and left after them. A visitor that can fail
ends the walk where it fails.
-/
namespace Recognizers

structure Visitor (m : Type → Type u) where
  enter : Nat → m Unit
  leave : Nat → m Unit

inductive Visit where
  | enter (node : Nat)
  | leave (node : Nat)
deriving DecidableEq

namespace Arena

def innerChildren (a : Arena) (i : Nat) : List Nat :=
  (a.children i).filter fun c => (a.node? c).any (·.symbol.kind = .nonterminal)

def visits (a : Arena) : Visit → List Visit
  | .enter i => (a.preorder i).flatMap fun j => [.enter j, .leave j]
  | .leave i => [.leave i]

theorem visits_enter (a : Arena) (i : Nat) :
    a.visits (.enter i) =
      .enter i :: .leave i :: (a.children i).flatMap fun c => a.visits (.enter c) := by
  simp only [visits, preorder_eq a i, List.flatMap_cons, List.flatMap_assoc, List.cons_append,
    List.nil_append]

theorem flatMap_filter_length_le (keep : Nat → Bool) (f : Nat → List Visit) (nodes : List Nat) :
    ((nodes.filter keep).flatMap f).length ≤ (nodes.flatMap f).length := by
  induction nodes with
  | nil => exact Nat.le_refl _
  | cons c cs ih =>
    cases kept : keep c with
    | false =>
      rw [List.filter_cons_of_neg (by rw [kept]; exact Bool.false_ne_true), List.flatMap_cons,
        List.length_append]
      exact Nat.le_trans ih (Nat.le_add_left _ _)
    | true =>
      rw [List.filter_cons_of_pos kept, List.flatMap_cons, List.flatMap_cons, List.length_append,
        List.length_append]
      exact Nat.add_le_add_left ih _

def walkFrom [Monad m] (a : Arena) (v : Visitor m) (pending : List Visit) : m Unit :=
  match pending with
  | [] => pure ()
  | .leave i :: rest => do
    v.leave i
    walkFrom a v rest
  | .enter i :: rest =>
    if (a.node? i).all (·.isLeaf) then walkFrom a v rest
    else do
      v.enter i
      walkFrom a v ((a.innerChildren i).map .enter ++ .leave i :: rest)
termination_by (pending.flatMap a.visits).length
decreasing_by
  · rw [List.flatMap_cons, List.length_append]
    exact Nat.lt_add_of_pos_left Nat.one_pos
  · rw [List.flatMap_cons, List.length_append, visits_enter a i, List.length_cons]
    omega
  · have := flatMap_filter_length_le (fun c => (a.node? c).any (·.symbol.kind = .nonterminal))
      (fun c => a.visits (.enter c)) (a.children i)
    rw [List.flatMap_cons, visits_enter a i, List.flatMap_append, List.flatMap_map,
      List.flatMap_cons]
    simp only [innerChildren, List.length_append, List.length_cons]
    have one : (a.visits (.leave i)).length = 1 := rfl
    omega

end Arena

def ParseTree.walk [Monad m] (t : ParseTree) (v : Visitor m) : m Unit :=
  t.arena.walkFrom v [.enter t.root]

end Recognizers
