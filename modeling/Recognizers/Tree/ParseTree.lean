import Recognizers.Vocabulary
import Recognizers.Tree.Arena

/-!
Parse trees: an arena with a root. `outline` lists the nodes below the root with their depths,
parents first and children from left to right; the leaves and the printed tree are read off it.
All traversals keep a list of what is still to do, and end because fewer and fewer nodes are.
-/
namespace Recognizers

structure ParseTree where
  arena : Arena
  root : Nat
  known : root < arena.size

structure Placed where
  depth : Nat
  index : Nat
  node : Node

namespace Arena

/-- The nodes at and below those of `pending`, a list of depths and indices. -/
def outlineFrom (a : Arena) (pending : List (Nat × Nat)) : List Placed :=
  match pending with
  | [] => []
  | (depth, i) :: rest =>
    match _ : a.node? i with
    | none => outlineFrom a rest
    | some node =>
      { depth, index := i, node } :: outlineFrom a (node.children.map (depth + 1, ·) ++ rest)
termination_by (pending.flatMap fun p => a.preorder p.2).length
decreasing_by
  · simp only [List.flatMap_cons, List.length_append, preorder_eq a i, List.length_cons]
    omega
  · simp only [List.flatMap_append, List.flatMap_map, List.flatMap_cons, preorder_eq a i,
      children_of_node ‹_ = some _›, List.cons_append, List.length_cons]
    exact Nat.lt_succ_self _

/-- Whether two lists of nodes agree pairwise in symbols, in being leaves and in what stands
below them. -/
def isomorphicFrom (a b : Arena) (pending : List (Nat × Nat)) : Bool :=
  match pending with
  | [] => true
  | (i, j) :: rest =>
    match _ : a.node? i, b.node? j with
    | some m, some n =>
      if _ : m.symbol = n.symbol ∧ m.isLeaf = n.isLeaf ∧
          m.children.length = n.children.length then
        isomorphicFrom a b (m.children.zip n.children ++ rest)
      else false
    | _, _ => false
termination_by (pending.flatMap fun p => a.preorder p.1).length
decreasing_by
  rename_i found same
  have first : (m.children.zip n.children).flatMap (fun p => a.preorder p.1) =
      m.children.flatMap a.preorder := by
    conv => rhs; rw [← List.map_fst_zip (Nat.le_of_eq same.2.2), List.flatMap_map]
  simp only [List.flatMap_append, first, List.flatMap_cons, preorder_eq a i, children_of_node found,
    List.cons_append, List.length_cons]
  exact Nat.lt_succ_self _

end Arena

namespace ParseTree

def size (t : ParseTree) : Nat := t.arena.size

def outline (t : ParseTree) : List Placed := t.arena.outlineFrom [(0, t.root)]

def leaves (t : ParseTree) : List Symbol :=
  (t.outline.filter (·.node.isLeaf)).map (·.node.symbol)

/-- Equal up to the numbering of nodes and the productions used. -/
def isomorphic (t u : ParseTree) : Bool := t.arena.isomorphicFrom u.arena [(t.root, u.root)]

/-- A leading underscore marks a synthesized name and is not printed. -/
def displayName (name : String) : String :=
  match name.toList with
  | '_' :: rest => String.ofList rest
  | _ => name

def line (depth : Nat) (name : String) : String :=
  "|" ++ String.ofList (List.replicate depth '-') ++ displayName name ++ "\n"

/-- One line for each node, with a dash for each of its ancestors. -/
def drawing (t : ParseTree) (v : Vocabulary) : String :=
  String.join (t.outline.map fun p => line p.depth (v.name p.node.symbol))

end ParseTree
end Recognizers
