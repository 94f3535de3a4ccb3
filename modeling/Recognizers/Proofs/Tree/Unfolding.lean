import Recognizers.Tree.Forest
import Recognizers.Tree.Ordered

/-!
A forest as a stack of ordered trees. Growing and joining act on the stack as on plain lists, for
an arena that grows keeps what stands below its old nodes. The leaves that a traversal of the
arena finds are those of the unfolded tree.
-/
namespace Recognizers

namespace OrderedTree

@[induction_eliminator]
theorem induct {P : OrderedTree → Prop} (leaf : ∀ symbol, P (.leaf symbol))
    (inner : ∀ symbol production children, (∀ c ∈ children, P c) →
      P (.inner symbol production children)) (t : OrderedTree) : P t := by
  apply OrderedTree.rec (motive_1 := P) (motive_2 := fun trees => ∀ c ∈ trees, P c) leaf inner
  · intro c none
    cases none
  · intro t trees first later c member
    rcases List.mem_cons.mp member with rfl | after
    · exact first
    · exact later c after

theorem leavesAll_eq_flatMap (trees : List OrderedTree) :
    leavesAll trees = trees.flatMap leaves := by
  induction trees with
  | nil => rfl
  | cons t ts ih => rw [leavesAll, List.flatMap_cons, ih]

theorem leaves_inner (symbol : Symbol) (production : Nat) (children : List OrderedTree) :
    (inner symbol production children).leaves = children.flatMap leaves := by
  rw [leaves, leavesAll_eq_flatMap]

end OrderedTree

namespace Arena

/-- What stands at and below an index; an index without a node stands for a leaf. -/
def subtree (a : Arena) (i : Nat) : OrderedTree :=
  if known : i < a.size then a.unfold ⟨i, known⟩ else .leaf .null

theorem subtree_eq_unfold {a : Arena} {i : Nat} (known : i < a.size) :
    a.subtree i = a.unfold ⟨i, known⟩ := dif_pos known

theorem lt_of_node {a : Arena} {i : Nat} {n : Node} (found : a.node? i = some n) : i < a.size := by
  obtain ⟨known, _⟩ := Array.getElem?_eq_some_iff.mp found
  exact known

theorem node_of_lt {a : Arena} {i : Nat} (known : i < a.size) :
    a.node? i = some (a.node ⟨i, known⟩) := Array.getElem?_eq_getElem known

/-- An index comes after its children, and so what passes from them to it holds of all indices. -/
theorem children_induct (a : Arena) {P : Nat → Prop}
    (index : ∀ i, (∀ c ∈ a.children i, P c) → P i) (i : Nat) : P i := by
  induction i using Nat.strongRecOn with
  | ind i ih =>
    apply index
    intro c child
    exact ih c (a.children_lt child)

theorem known_induct (a : Arena) {P : ∀ i, i < a.size → Prop}
    (node : ∀ i n (found : a.node? i = some n),
      (∀ c (child : c ∈ n.children),
        P c (Nat.lt_trans (a.earlier found c child) (lt_of_node found))) →
      P i (lt_of_node found))
    (i : Nat) (known : i < a.size) : P i known := by
  induction i using a.children_induct with
  | index i ih =>
    have found := node_of_lt known
    rw [children_of_node found] at ih
    apply node i _ found
    intro c child
    exact ih c child _

theorem unfold_eq {a : Arena} {i : Fin a.size} :
    a.unfold i =
      match (a.node i).content with
      | .leaf => .leaf (a.node i).symbol
      | .inner production _ =>
        .inner (a.node i).symbol production ((a.children i.val).map a.subtree) := by
  have children : ((a.children i.val).attach.map fun c =>
      a.unfold ⟨c.val, Nat.lt_trans (a.children_lt c.property) i.isLt⟩) =
      (a.children i.val).map a.subtree := by
    rw [← List.attach_map_val (f := a.subtree)]
    apply List.map_congr_left
    intro c _
    exact (subtree_eq_unfold (Nat.lt_trans (a.children_lt c.property) i.isLt)).symm
  cases shape : (a.node i).content with
  | leaf => rw [unfold, shape]
  | inner production _ => rw [unfold, children, shape]

theorem subtree_eq {a : Arena} {i : Nat} {n : Node} (found : a.node? i = some n) :
    a.subtree i =
      match n.content with
      | .leaf => .leaf n.symbol
      | .inner production children => .inner n.symbol production (children.map a.subtree) := by
  have known := lt_of_node found
  have same : a.node ⟨i, known⟩ = n := Option.some.inj ((node_of_lt known).symm.trans found)
  rw [subtree_eq_unfold known, unfold_eq, same]
  cases content : n.content with
  | leaf => rfl
  | inner production children =>
    simp only [children_of_node found, Node.children, content]

theorem symbol_subtree {a : Arena} {i : Nat} {n : Node} (found : a.node? i = some n) :
    (a.subtree i).symbol = n.symbol := by
  rw [subtree_eq found]
  cases n.content <;> rfl

/-- `b` has the nodes of `a` and perhaps more; the parents may have changed. -/
def Extends (b a : Arena) : Prop :=
  ∀ i n, a.node? i = some n →
    ∃ m, b.node? i = some m ∧ m.symbol = n.symbol ∧ m.content = n.content

theorem Extends.subtree_eq {a b : Arena} (grown : b.Extends a) {i : Nat} (known : i < a.size) :
    b.subtree i = a.subtree i := by
  induction i, known using a.known_induct with
  | node i n found ih =>
    obtain ⟨m, kept, symbol, content⟩ := grown i n found
    rw [Arena.subtree_eq found, Arena.subtree_eq kept, symbol, content]
    cases shape : n.content with
    | leaf => rfl
    | inner production children =>
      have same : children.map b.subtree = children.map a.subtree := by
        apply List.map_congr_left
        simpa only [Node.children, shape] using ih
      simp only [same]

theorem leaf_extends (a : Arena) (symbol : Symbol) : (a.leaf symbol).Extends a := by
  intro i n found
  have old : i ≠ a.nodes.size := Nat.ne_of_lt (lt_of_node found)
  refine ⟨n, ?_, rfl, rfl⟩
  simp only [node?, leaf, Array.getElem?_push, if_neg old]
  exact found

theorem inner_extends (a : Arena) (symbol : Symbol) (production : Nat) (children : List Nat)
    (known : ∀ c ∈ children, c < a.size) :
    (a.inner symbol production children known).Extends a := by
  intro i n found
  have old : i ≠ a.nodes.size := Nat.ne_of_lt (lt_of_node found)
  refine ⟨if i ∈ children then { n with parent := some a.size } else n, ?_, ?_, ?_⟩
  · simp only [node?, inner, Array.getElem?_push, size_adopt, getElem?_adopt, if_neg old]
    exact congrArg (Option.map _) found
  · split <;> rfl
  · split <;> rfl

theorem node_leaf (a : Arena) (symbol : Symbol) :
    (a.leaf symbol).node? a.size = some { symbol, content := .leaf } := by
  simp [node?, leaf, size]

theorem node_inner (a : Arena) (symbol : Symbol) (production : Nat) (children : List Nat)
    (known : ∀ c ∈ children, c < a.size) :
    (a.inner symbol production children known).node? a.size =
      some { symbol, content := .inner production children } := by
  simp only [node?, inner, size, Array.getElem?_push, size_adopt, if_true]

end Arena

namespace Forest

theorem reverse_parts {α : Type} (stack : List α) (count : Nat) :
    stack.reverse = (stack.drop count).reverse ++ (stack.take count).reverse := by
  rw [← List.reverse_append, List.take_append_drop]

def trees (f : Forest) : List OrderedTree := f.roots.map f.arena.subtree

theorem trees_empty : empty.trees = [] := rfl

theorem length_trees (f : Forest) : f.trees.length = f.roots.length := List.length_map _

theorem map_subtree_of_extends {f : Forest} {b : Arena} (grown : b.Extends f.arena)
    {roots : List Nat} (old : roots ⊆ f.roots) :
    roots.map b.subtree = roots.map f.arena.subtree := by
  apply List.map_congr_left
  intro r member
  exact grown.subtree_eq (f.known r (old member))

theorem trees_grow (f : Forest) (symbol : Symbol) :
    (f.grow symbol).trees = .leaf symbol :: f.trees := by
  have latest : (f.arena.leaf symbol).subtree f.arena.size = .leaf symbol := by
    rw [Arena.subtree_eq (Arena.node_leaf f.arena symbol)]
  simp only [trees, grow, List.map_cons, latest]
  rw [map_subtree_of_extends (Arena.leaf_extends f.arena symbol) (List.Subset.refl _)]

theorem mem_of_taken {f : Forest} {count c : Nat} (member : c ∈ (f.roots.take count).reverse) :
    c ∈ f.roots := List.mem_of_mem_take (List.mem_reverse.mp member)

theorem node_join (f : Forest) (symbol : Symbol) (production count : Nat) :
    (f.join symbol production count).arena.node? f.arena.size =
      some { symbol, content := .inner production (f.roots.take count).reverse } :=
  Arena.node_inner f.arena symbol production _ fun c member => f.known c (mem_of_taken member)

theorem trees_join (f : Forest) (symbol : Symbol) (production count : Nat) :
    (f.join symbol production count).trees =
      .inner symbol production (f.trees.take count).reverse :: f.trees.drop count := by
  have known : ∀ c ∈ (f.roots.take count).reverse, c < f.arena.size := fun c member =>
    f.known c (mem_of_taken member)
  have grown := Arena.inner_extends f.arena symbol production _ known
  have latest := Arena.subtree_eq (Arena.node_inner f.arena symbol production _ known)
  simp only [map_subtree_of_extends grown fun _ => mem_of_taken] at latest
  simp only [trees, join, List.map_cons, latest]
  rw [map_subtree_of_extends grown (List.drop_subset count f.roots), List.map_reverse,
    List.map_take, List.map_drop]

def yield (f : Forest) : List Symbol := f.trees.reverse.flatMap OrderedTree.leaves

theorem yield_empty : empty.yield = [] := rfl

theorem yield_grow (f : Forest) (symbol : Symbol) :
    (f.grow symbol).yield = f.yield ++ [symbol] := by
  simp [yield, trees_grow, OrderedTree.leaves]

theorem yield_join (f : Forest) (symbol : Symbol) (production count : Nat) :
    (f.join symbol production count).yield = f.yield := by
  simp only [yield, trees_join, List.reverse_cons, reverse_parts f.trees count, List.flatMap_append,
    List.flatMap_singleton, OrderedTree.leaves_inner]

theorem single?_eq_some {f : Forest} {t : ParseTree} (only : f.single? = some t) :
    f.trees = [t.unfold] := by
  unfold single? at only
  split at only
  · rename_i root roots
    cases only
    have known := f.known root (by simp [roots])
    simp only [trees, roots, List.map_cons, List.map_nil, ParseTree.unfold]
    rw [Arena.subtree_eq_unfold known]
  · cases only

theorem single?_isSome (f : Forest) : f.single?.isSome = decide (f.trees.length = 1) := by
  unfold single?
  split
  · rename_i root roots
    simp [length_trees, roots]
  · rename_i many
    rw [length_trees]
    cases roots : f.roots with
    | nil => rfl
    | cons r rest =>
      cases rest with
      | nil => exact absurd roots (many r)
      | cons s rest => simp

end Forest

namespace Arena

theorem pending_known {a : Arena} {depth i : Nat} {n : Node} {rest : List (Nat × Nat)}
    (known : ∀ p ∈ (depth, i) :: rest, p.2 < a.size) (found : a.node? i = some n) :
    ∀ p ∈ n.children.map (depth + 1, ·) ++ rest, p.2 < a.size := by
  intro p member
  rcases List.mem_append.mp member with child | later
  · obtain ⟨c, below, rfl⟩ := List.mem_map.mp child
    exact Nat.lt_trans (a.earlier found c below) (lt_of_node found)
  · exact known p (List.mem_cons_of_mem _ later)

theorem outlineFrom_cons {a : Arena} {i : Nat} {n : Node} (found : a.node? i = some n)
    (depth : Nat) (rest : List (Nat × Nat)) :
    a.outlineFrom ((depth, i) :: rest) =
      { depth, index := i, node := n } ::
        a.outlineFrom (n.children.map (depth + 1, ·) ++ rest) := by
  rw [outlineFrom]
  split
  · rename_i missing
    rw [found] at missing
    cases missing
  · rename_i m again
    cases found.symm.trans again
    rfl

theorem outlineFrom_cons_of_none {a : Arena} {i : Nat} (missing : a.node? i = none)
    (depth : Nat) (rest : List (Nat × Nat)) :
    a.outlineFrom ((depth, i) :: rest) = a.outlineFrom rest := by
  rw [outlineFrom]
  split
  · rfl
  · rename_i m found
    rw [missing] at found
    cases found

theorem outlineFrom_leaves (a : Arena) (pending : List (Nat × Nat))
    (known : ∀ p ∈ pending, p.2 < a.size) :
    ((a.outlineFrom pending).filter (·.node.isLeaf)).map (·.node.symbol) =
      pending.flatMap fun p => (a.subtree p.2).leaves := by
  fun_induction outlineFrom a pending with
  | case1 => rfl
  | case2 depth i rest missing ih =>
    rw [node_of_lt (known (depth, i) (by simp))] at missing
    cases missing
  | case3 depth i rest n found ih =>
    have later := ih (pending_known known found)
    rw [List.flatMap_append, List.flatMap_map] at later
    rw [List.flatMap_cons, subtree_eq found]
    cases shape : n.content with
    | leaf =>
      rw [List.filter_cons_of_pos (by simp [Node.isLeaf, shape]), List.map_cons, later]
      simp [Node.children, shape, OrderedTree.leaves]
    | inner production children =>
      rw [List.filter_cons_of_neg (by simp [Node.isLeaf, shape]), later]
      simp only [Node.children, shape, OrderedTree.leaves_inner, List.flatMap_map]

end Arena

theorem ParseTree.symbol_unfold {t : ParseTree} {n : Node}
    (found : t.arena.node? t.root = some n) : t.unfold.symbol = n.symbol := by
  rw [← Arena.symbol_subtree found, Arena.subtree_eq_unfold t.known]
  rfl

theorem ParseTree.leaves_eq_unfold (t : ParseTree) : t.leaves = t.unfold.leaves := by
  have found := Arena.outlineFrom_leaves t.arena [(0, t.root)] (by simpa using t.known)
  rw [List.flatMap_singleton, Arena.subtree_eq_unfold t.known] at found
  exact found

end Recognizers
