import Mathlib.Data.List.Forall2
import Recognizers.Proofs.Tree.Unfolding

/-!
What it means that trees are isomorphic: the trees unfolded from the arenas are the same up to
their productions (`isomorphic_iff`). How the nodes are numbered and linked does not matter.
-/
namespace Recognizers

theorem map_eq_map_iff_zip {α β γ : Type} {f : α → γ} {g : β → γ} {xs : List α}
    {ys : List β} :
    xs.map f = ys.map g ↔ xs.length = ys.length ∧ ∀ p ∈ xs.zip ys, f p.1 = g p.2 := by
  rw [← List.forall₂_eq_eq_eq, List.forall₂_map_left_iff, List.forall₂_map_right_iff,
    List.forall₂_iff_zip]
  simp only [Prod.forall]

namespace OrderedTree

mutual

/-- The tree with its productions forgotten. -/
def plain : OrderedTree → OrderedTree
  | leaf s => leaf s
  | inner s _ children => inner s 0 (plainAll children)

def plainAll : List OrderedTree → List OrderedTree
  | [] => []
  | t :: ts => plain t :: plainAll ts

end

theorem plainAll_eq_map (trees : List OrderedTree) : plainAll trees = trees.map plain := by
  induction trees with
  | nil => rfl
  | cons t ts ih => rw [plainAll, List.map_cons, ih]

theorem plain_inner (symbol : Symbol) (production : Nat) (children : List OrderedTree) :
    (inner symbol production children).plain = .inner symbol 0 (children.map plain) := by
  rw [plain, plainAll_eq_map]

end OrderedTree

theorem Node.children_of_isLeaf {n : Node} (shape : n.isLeaf = true) : n.children = [] := by
  unfold isLeaf at shape
  unfold children
  split at shape
  · rfl
  · cases shape

namespace Arena

theorem plain_subtree {a : Arena} {i : Nat} {n : Node} (found : a.node? i = some n) :
    (a.subtree i).plain =
      if n.isLeaf then .leaf n.symbol
      else .inner n.symbol 0 (n.children.map fun c => (a.subtree c).plain) := by
  rw [subtree_eq found]
  cases shape : n.content with
  | leaf =>
    simp only [Node.isLeaf, shape, OrderedTree.plain, if_true]
  | inner production children =>
    simp only [Node.isLeaf, Node.children, shape, OrderedTree.plain_inner, List.map_map,
      Bool.false_eq_true, if_false, Function.comp_def]

theorem plain_subtree_eq_iff {a b : Arena} {i j : Nat} {m n : Node} (left : a.node? i = some m)
    (right : b.node? j = some n) :
    (a.subtree i).plain = (b.subtree j).plain ↔
      (m.symbol = n.symbol ∧ m.isLeaf = n.isLeaf ∧ m.children.length = n.children.length) ∧
        ∀ p ∈ m.children.zip n.children, (a.subtree p.1).plain = (b.subtree p.2).plain := by
  rw [plain_subtree left, plain_subtree right]
  cases first : m.isLeaf <;> cases second : n.isLeaf
  · simp only [Bool.false_eq_true, if_false, OrderedTree.inner.injEq, true_and, map_eq_map_iff_zip,
      and_assoc]
  · simp
  · simp
  · simp [Node.children_of_isLeaf first, Node.children_of_isLeaf second]

theorem children_known {a b : Arena} {i j : Nat} {m n : Node} {p : Nat × Nat}
    (left : a.node? i = some m) (right : b.node? j = some n)
    (member : p ∈ m.children.zip n.children) : p.1 < a.size ∧ p.2 < b.size := by
  have first := a.earlier left p.1 (List.of_mem_zip member).1
  have second := b.earlier right p.2 (List.of_mem_zip member).2
  exact ⟨Nat.lt_trans first (lt_of_node left), Nat.lt_trans second (lt_of_node right)⟩

theorem isomorphicFrom_iff (a b : Arena) (pending : List (Nat × Nat))
    (known : ∀ p ∈ pending, p.1 < a.size ∧ p.2 < b.size) :
    a.isomorphicFrom b pending = true ↔
      ∀ p ∈ pending, (a.subtree p.1).plain = (b.subtree p.2).plain := by
  fun_induction isomorphicFrom a b pending with
  | case1 => simp
  | case2 i j rest m n left right same ih =>
    have below : ∀ p ∈ m.children.zip n.children ++ rest, p.1 < a.size ∧ p.2 < b.size := by
      intro p member
      rcases List.mem_append.mp member with child | later
      · exact children_known left right child
      · exact known p (List.mem_cons_of_mem _ later)
    rw [ih below, List.forall_mem_cons, plain_subtree_eq_iff left right, List.forall_mem_append]
    simp only [same, and_self, true_and]
  | case3 i j rest m n left right differ =>
    rw [List.forall_mem_cons, plain_subtree_eq_iff left right]
    simp only [differ, false_and, Bool.false_eq_true]
  | case4 i j rest missing =>
    obtain ⟨first, second⟩ := known (i, j) List.mem_cons_self
    exact absurd (node_of_lt second) (missing _ _ (node_of_lt first))

end Arena

theorem ParseTree.isomorphic_iff (t u : ParseTree) :
    t.isomorphic u = true ↔ t.unfold.plain = u.unfold.plain := by
  rw [isomorphic, Arena.isomorphicFrom_iff _ _ _ (by simp [t.known, u.known]),
    List.forall_mem_singleton, Arena.subtree_eq_unfold t.known, Arena.subtree_eq_unfold u.known]
  rfl

end Recognizers
