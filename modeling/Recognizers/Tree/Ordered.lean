import Recognizers.Tree.ParseTree

/-!
Ordered trees as a plain inductive type, with their leaves and preorder by recursion.
`ParseTree.unfold` reads the tree below the root of an arena.
-/
namespace Recognizers

inductive OrderedTree where
  | leaf (symbol : Symbol)
  | inner (symbol : Symbol) (production : Nat) (children : List OrderedTree)

namespace OrderedTree

def symbol : OrderedTree → Symbol
  | leaf s => s
  | inner s _ _ => s

mutual

def leaves : OrderedTree → List Symbol
  | leaf s => [s]
  | inner _ _ children => leavesAll children

def leavesAll : List OrderedTree → List Symbol
  | [] => []
  | t :: ts => leaves t ++ leavesAll ts

end

mutual

def preorder (depth : Nat) : OrderedTree → List (Nat × Symbol)
  | leaf s => [(depth, s)]
  | inner s _ children => (depth, s) :: preorderAll (depth + 1) children

def preorderAll (depth : Nat) : List OrderedTree → List (Nat × Symbol)
  | [] => []
  | t :: ts => preorder depth t ++ preorderAll depth ts

end

end OrderedTree

namespace Arena

def node (a : Arena) (i : Fin a.size) : Node :=
  have known : i.val < a.nodes.size := i.isLt
  a.nodes[i.val]

def unfold (a : Arena) (i : Fin a.size) : OrderedTree :=
  let children := (a.children i.val).attach.map fun c =>
    unfold a ⟨c.val, Nat.lt_trans (a.children_lt c.property) i.isLt⟩
  match (a.node i).content with
  | .leaf => .leaf (a.node i).symbol
  | .inner production _ => .inner (a.node i).symbol production children
termination_by i.val
decreasing_by exact a.children_lt c.property

end Arena

def ParseTree.unfold (t : ParseTree) : OrderedTree := t.arena.unfold ⟨t.root, t.known⟩

end Recognizers
