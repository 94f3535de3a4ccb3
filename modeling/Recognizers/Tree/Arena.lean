import Recognizers.Symbol

/-!
Nodes of parse trees, kept in an arena and referring to each other by index. A node comes after
its children (`earlier`), so every descent ends; `preorder` lists the nodes of one, and its
length is the measure by which the traversals are total.
-/
namespace Recognizers

inductive Content where
  | leaf
  | inner (production : Nat) (children : List Nat)
deriving DecidableEq

structure Node where
  symbol : Symbol
  content : Content
  parent : Option Nat := none
deriving DecidableEq

namespace Node

/-- An inner node without children is not a leaf. -/
def isLeaf (n : Node) : Bool :=
  match n.content with
  | .leaf => true
  | .inner _ _ => false

def children (n : Node) : List Nat :=
  match n.content with
  | .leaf => []
  | .inner _ children => children

def production? (n : Node) : Option Nat :=
  match n.content with
  | .leaf => none
  | .inner production _ => some production

end Node

structure Arena where
  nodes : Array Node
  earlier : ∀ {i : Nat} {n : Node}, nodes[i]? = some n → ∀ c ∈ n.children, c < i

namespace Arena

def empty : Arena where
  nodes := #[]
  earlier := by
    intro i n found
    rw [Array.getElem?_empty] at found
    cases found

def size (a : Arena) : Nat := a.nodes.size

def node? (a : Arena) (i : Nat) : Option Node := a.nodes[i]?

/-- The children of a node; an index without a node has none. -/
def children (a : Arena) (i : Nat) : List Nat :=
  match a.node? i with
  | some n => n.children
  | none => []

theorem children_of_node {a : Arena} {i : Nat} {n : Node} (h : a.node? i = some n) :
    a.children i = n.children := by simp [children, h]

theorem children_lt (a : Arena) {i c : Nat} (h : c ∈ a.children i) : c < i := by
  unfold children at h
  split at h
  · rename_i found
    exact a.earlier found c h
  · cases h

def preorder (a : Arena) (i : Nat) : List Nat :=
  i :: (a.children i).attach.flatMap fun c => preorder a c.val
termination_by i
decreasing_by exact a.children_lt c.property

theorem preorder_eq (a : Arena) (i : Nat) :
    a.preorder i = i :: (a.children i).flatMap a.preorder := by
  rw [preorder, List.flatMap_subtype (fun _ _ => rfl), List.unattach_attach]

def leaf (a : Arena) (symbol : Symbol) : Arena where
  nodes := a.nodes.push { symbol, content := .leaf }
  earlier := by
    intro i n found
    rw [Array.getElem?_push] at found
    split at found
    · rw [← Option.some.inj found]
      simp [Node.children]
    · exact a.earlier found

def adopt (nodes : Array Node) (parent : Nat) (children : List Nat) : Array Node :=
  children.foldl (fun ns c => ns.modify c fun n => { n with parent := some parent }) nodes

theorem getElem?_adopt (nodes : Array Node) (parent : Nat) (children : List Nat) (i : Nat) :
    (adopt nodes parent children)[i]? =
      nodes[i]?.map fun n => if i ∈ children then { n with parent := some parent } else n := by
  induction children generalizing nodes with
  | nil => simp [adopt]
  | cons c cs ih =>
    have step : adopt nodes parent (c :: cs) =
      adopt (nodes.modify c fun n => { n with parent := some parent }) parent cs := rfl
    rw [step, ih, Array.getElem?_modify]
    cases nodes[i]? with
    | none => simp
    | some n =>
      by_cases here : c = i
      · simp [here]
      · simp [here, Ne.symm here]

theorem size_adopt (nodes : Array Node) (parent : Nat) (children : List Nat) :
    (adopt nodes parent children).size = nodes.size := by
  induction children generalizing nodes with
  | nil => rfl
  | cons c cs ih => exact (ih _).trans (Array.size_modify ..)

def inner (a : Arena) (symbol : Symbol) (production : Nat) (children : List Nat)
    (known : ∀ c ∈ children, c < a.size) : Arena where
  nodes := (adopt a.nodes a.size children).push { symbol, content := .inner production children }
  earlier := by
    intro i n found
    rw [Array.getElem?_push, size_adopt] at found
    split at found
    · rename_i last
      rw [← Option.some.inj found, last]
      exact known
    · rw [getElem?_adopt, Option.map_eq_some_iff] at found
      obtain ⟨m, found, same⟩ := found
      have kept : n.children = m.children := by
        rw [← same]
        split <;> rfl
      rw [kept]
      exact a.earlier found

end Arena
end Recognizers
