import Recognizers.Proofs.Tree.Unfolding

/-!
Forests whose symbols go by other names. Renaming changes what stands in the nodes and not how
they lie in the arena, so it commutes with growing and joining, and a tree is drawn alike under
vocabularies that agree on the names.
-/
namespace Recognizers

variable {relabel : Symbol → Symbol}

def Node.rename (relabel : Symbol → Symbol) (n : Node) : Node :=
  { n with symbol := relabel n.symbol }

namespace Arena

theorem eq_of_nodes {a b : Arena} (same : a.nodes = b.nodes) : a = b := by
  cases a
  cases b
  cases same
  rfl

def rename (relabel : Symbol → Symbol) (a : Arena) : Arena where
  nodes := a.nodes.map (Node.rename relabel)
  earlier := by
    intro i n found
    rw [Array.getElem?_map, Option.map_eq_some_iff] at found
    obtain ⟨m, found, rfl⟩ := found
    exact fun c child => a.earlier found c child

theorem node?_rename (a : Arena) (i : Nat) :
    (a.rename relabel).node? i = (a.node? i).map (Node.rename relabel) := Array.getElem?_map

theorem size_rename (a : Arena) : (a.rename relabel).size = a.size := Array.size_map

theorem rename_leaf (a : Arena) (symbol : Symbol) :
    (a.leaf symbol).rename relabel = (a.rename relabel).leaf (relabel symbol) :=
  eq_of_nodes (Array.map_push ..)

theorem map_rename_adopt (nodes : Array Node) (parent : Nat) (children : List Nat) :
    (adopt nodes parent children).map (Node.rename relabel) =
      adopt (nodes.map (Node.rename relabel)) parent children := by
  apply Array.ext_getElem?
  intro i
  rw [Array.getElem?_map, getElem?_adopt, getElem?_adopt, Array.getElem?_map, Option.map_map,
    Option.map_map]
  congr 1
  funext n
  simp only [Function.comp_apply]
  split <;> rfl

theorem rename_inner (a : Arena) (symbol : Symbol) (production : Nat) (children : List Nat)
    (known : ∀ c ∈ children, c < a.size) :
    (a.inner symbol production children known).rename relabel =
      (a.rename relabel).inner (relabel symbol) production children
        (by rw [size_rename]; exact known) := by
  apply eq_of_nodes
  simp only [Arena.rename, inner, Array.map_push, map_rename_adopt, size, Array.size_map]
  rfl

theorem outlineFrom_rename (a : Arena) (pending : List (Nat × Nat)) :
    (a.rename relabel).outlineFrom pending =
      (a.outlineFrom pending).map fun p => { p with node := p.node.rename relabel } := by
  fun_induction outlineFrom a pending with
  | case1 =>
    rw [outlineFrom]
    rfl
  | case2 depth i rest missing ih =>
    rw [outlineFrom_cons_of_none (by rw [node?_rename, missing]; rfl), ih]
  | case3 depth i rest n found ih =>
    rw [outlineFrom_cons (by rw [node?_rename, found]; rfl), List.map_cons, ← ih]
    rfl

end Arena

namespace ParseTree

def rename (relabel : Symbol → Symbol) (t : ParseTree) : ParseTree where
  arena := t.arena.rename relabel
  root := t.root
  known := by
    rw [Arena.size_rename]
    exact t.known

theorem drawing_rename {v w : Vocabulary} (names : ∀ s, w.name (relabel s) = v.name s)
    (t : ParseTree) : (t.rename relabel).drawing w = t.drawing v := by
  have outline : (t.rename relabel).outline =
      t.outline.map fun p => { p with node := p.node.rename relabel } :=
    Arena.outlineFrom_rename t.arena _
  simp only [drawing, outline, List.map_map, Function.comp_def, Node.rename, names]

end ParseTree

namespace Forest

def rename (relabel : Symbol → Symbol) (f : Forest) : Forest where
  arena := f.arena.rename relabel
  roots := f.roots
  known := by
    rw [Arena.size_rename]
    exact f.known

theorem rename_grow (f : Forest) (symbol : Symbol) :
    (f.grow symbol).rename relabel = (f.rename relabel).grow (relabel symbol) := by
  simp only [Forest.rename, grow, Arena.rename_leaf, Arena.size_rename]

theorem rename_join (f : Forest) (symbol : Symbol) (production count : Nat) :
    (f.join symbol production count).rename relabel =
      (f.rename relabel).join (relabel symbol) production count := by
  simp only [Forest.rename, join, Arena.rename_inner, Arena.size_rename]

theorem symbols_rename (f : Forest) : (f.rename relabel).symbols = f.symbols.map relabel := by
  have nodes : (f.arena.rename relabel).node? =
      fun i => (f.arena.node? i).map (Node.rename relabel) :=
    funext f.arena.node?_rename
  simp only [symbols, Forest.rename, nodes, List.map_filterMap, Option.map_map]
  rfl

theorem single?_rename (f : Forest) :
    (f.rename relabel).single? = f.single?.map (ParseTree.rename relabel) := by
  obtain ⟨arena, roots, known⟩ := f
  unfold single?
  split
  · rename_i root only
    cases (show roots = [root] from only)
    rfl
  · rename_i many
    split
    · rename_i root only
      exact absurd only (many root)
    · rfl

end Forest
end Recognizers
