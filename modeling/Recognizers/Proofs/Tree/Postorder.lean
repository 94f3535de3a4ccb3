import Mathlib.Data.List.Nodup
import Recognizers.Grammar
import Recognizers.Proofs.Tree.Unfolding

/-!
How a forest lies in its arena. Every tree is stored in postorder and the trees one after another,
so no node is lost or shared. Parents and children refer to each other, and the roots have no
parents. All of this holds of the forests that a parser for a grammar can come to (`Built.orderly`).
-/
namespace Recognizers
namespace Arena

def postorder (a : Arena) (i : Nat) : List Nat :=
  ((a.children i).attach.flatMap fun c => postorder a c.val) ++ [i]
termination_by i
decreasing_by exact a.children_lt c.property

def parent? (a : Arena) (i : Nat) : Option Nat := (a.node? i).bind Node.parent

def Linked (a : Arena) : Prop := ∀ i j, a.parent? i = some j ↔ i ∈ a.children j

theorem postorder_eq (a : Arena) (i : Nat) :
    a.postorder i = (a.children i).flatMap a.postorder ++ [i] := by
  rw [postorder, List.flatMap_subtype (fun _ _ => rfl), List.unattach_attach]

theorem self_mem_postorder (a : Arena) (i : Nat) : i ∈ a.postorder i := by
  rw [postorder_eq]
  exact List.mem_append_right _ (List.mem_singleton_self i)

theorem eq_or_child_of_mem_postorder {a : Arena} {i r : Nat} (member : i ∈ a.postorder r) :
    i = r ∨ ∃ j, i ∈ a.children j := by
  induction r using a.children_induct with
  | index r ih =>
    rw [postorder_eq] at member
    rcases List.mem_append.mp member with below | here
    · obtain ⟨c, child, deeper⟩ := List.mem_flatMap.mp below
      rcases ih c child deeper with same | inside
      · exact .inr ⟨r, same ▸ child⟩
      · exact .inr inside
    · exact .inl (List.mem_singleton.mp here)

theorem postorder_congr {a b : Arena} {i : Nat} (same : ∀ j ≤ i, b.children j = a.children j) :
    b.postorder i = a.postorder i := by
  induction i using Nat.strongRecOn with
  | ind i ih =>
    rw [postorder_eq, postorder_eq, same i (Nat.le_refl i)]
    have below : ∀ c ∈ a.children i, b.postorder c = a.postorder c := by
      intro c child
      have earlier := a.children_lt child
      exact ih c earlier fun j le => same j (by omega)
    rw [List.flatMap_congr below]

theorem node?_of_size_le {a : Arena} {i : Nat} (beyond : a.size ≤ i) : a.node? i = none :=
  Array.getElem?_eq_none beyond

theorem children_of_size_le {a : Arena} {i : Nat} (beyond : a.size ≤ i) : a.children i = [] := by
  rw [children, node?_of_size_le beyond]

theorem parent?_of_size_le {a : Arena} {i : Nat} (beyond : a.size ≤ i) : a.parent? i = none := by
  rw [parent?, node?_of_size_le beyond, Option.bind_none]

theorem node?_leaf (a : Arena) (symbol : Symbol) (i : Nat) :
    (a.leaf symbol).node? i =
      if i = a.size then some { symbol, content := .leaf } else a.node? i :=
  Array.getElem?_push

theorem size_leaf (a : Arena) (symbol : Symbol) : (a.leaf symbol).size = a.size + 1 :=
  Array.size_push _

theorem children_leaf (a : Arena) (symbol : Symbol) (i : Nat) :
    (a.leaf symbol).children i = a.children i := by
  by_cases last : i = a.size
  · rw [children_of_size_le (Nat.le_of_eq last.symm), children, node?_leaf, if_pos last]
    rfl
  · simp only [children, node?_leaf, if_neg last]

theorem parent?_leaf (a : Arena) (symbol : Symbol) (i : Nat) :
    (a.leaf symbol).parent? i = a.parent? i := by
  by_cases last : i = a.size
  · rw [parent?_of_size_le (Nat.le_of_eq last.symm), parent?, node?_leaf, if_pos last]
    rfl
  · simp only [parent?, node?_leaf, if_neg last]

theorem Linked.leaf {a : Arena} (linked : a.Linked) (symbol : Symbol) :
    (a.leaf symbol).Linked := by
  intro i j
  rw [parent?_leaf, children_leaf]
  exact linked i j

section

variable {a : Arena} {symbol : Symbol} {production : Nat} {children : List Nat}
  {known : ∀ c ∈ children, c < a.size}

theorem node?_inner (i : Nat) :
    (a.inner symbol production children known).node? i =
      if i = a.size then some { symbol, content := .inner production children }
      else (a.node? i).map fun n =>
        if i ∈ children then { n with parent := some a.size } else n := by
  simp only [node?, inner, Array.getElem?_push, size_adopt, getElem?_adopt]
  rfl

theorem size_inner : (a.inner symbol production children known).size = a.size + 1 := by
  simp only [inner, size, Array.size_push, size_adopt]

theorem children_inner (i : Nat) :
    (a.inner symbol production children known).children i =
      if i = a.size then children else a.children i := by
  rw [Arena.children, node?_inner]
  by_cases last : i = a.size
  · rw [if_pos last, if_pos last]
    rfl
  · rw [if_neg last, if_neg last, Arena.children]
    cases a.node? i with
    | none => rfl
    | some n =>
      simp only [Option.map_some]
      split <;> rfl

theorem parent?_inner (i : Nat) :
    (a.inner symbol production children known).parent? i =
      if i ∈ children then some a.size else a.parent? i := by
  rw [parent?, node?_inner]
  by_cases child : i ∈ children
  · have old : i ≠ a.size := Nat.ne_of_lt (known i child)
    rw [if_neg old, node_of_lt (known i child), if_pos child]
    simp only [Option.map_some, Option.bind_some, if_pos child]
  · by_cases last : i = a.size
    · rw [if_pos last, if_neg child, parent?_of_size_le (Nat.le_of_eq last.symm)]
      rfl
    · simp only [if_neg last, if_neg child, parent?, Option.map_id_fun', id_eq]

theorem Linked.inner (linked : a.Linked) (known : ∀ c ∈ children, c < a.size)
    (orphans : ∀ c ∈ children, a.parent? c = none) :
    (a.inner symbol production children known).Linked := by
  intro i j
  rw [parent?_inner, children_inner]
  by_cases child : i ∈ children
  · by_cases last : j = a.size
    · rw [if_pos child, if_pos last, last]
      exact iff_of_true rfl child
    · have apart : i ∉ a.children j := by
        intro below
        have adopted := (linked i j).mpr below
        rw [orphans i child] at adopted
        cases adopted
      rw [if_pos child, if_neg last]
      exact iff_of_false (fun same => last (Option.some.inj same).symm) apart
  · by_cases last : j = a.size
    · have apart : a.parent? i ≠ some j := by
        intro adopted
        have below := (linked i j).mp adopted
        rw [last, children_of_size_le (Nat.le_refl _)] at below
        cases below
      rw [if_neg child, if_pos last]
      exact iff_of_false apart child
    · rw [if_neg child, if_neg last]
      exact linked i j

end

end Arena

/-- A leaf stands for a terminal, an inner node for a production with all of its right side. -/
inductive Node.Formed (g : Grammar) (n : Node) : Prop where
  | leaf (shape : n.isLeaf = true) (unmade : n.production? = none)
      (terminal : n.symbol.kind = .terminal) : Formed g n
  | inner (id : Nat) (rule : Production) (shape : n.isLeaf = false)
      (made : n.production? = some id) (known : g.production? id = some rule)
      (left : n.symbol = rule.left) (count : n.children.length = rule.arity) : Formed g n

theorem Node.Formed.adopted {g : Grammar} {n : Node} (formed : n.Formed g)
    (parent : Option Nat) : ({ n with parent } : Node).Formed g := by
  cases formed with
  | leaf shape unmade terminal => exact .leaf shape unmade terminal
  | inner id rule shape made known left count => exact .inner id rule shape made known left count

namespace Forest

def postorder (f : Forest) : List Nat := f.roots.reverse.flatMap f.arena.postorder

structure Orderly (f : Forest) : Prop where
  postorder : f.postorder = List.range f.arena.size
  linked : f.arena.Linked
  orphans : ∀ r ∈ f.roots, f.arena.parent? r = none

/-- The forests that grow out of nothing by leaves for terminals and by joins along productions,
and how many there were of each. -/
inductive Built (g : Grammar) : Forest → Nat → Nat → Prop where
  | empty : Built g .empty 0 0
  | grow {f : Forest} {leaves joins : Nat} {symbol : Symbol} (before : Built g f leaves joins)
      (terminal : symbol.kind = .terminal) : Built g (f.grow symbol) (leaves + 1) joins
  | join {f : Forest} {leaves joins id : Nat} {rule : Production}
      (before : Built g f leaves joins) (known : g.production? id = some rule)
      (enough : rule.arity ≤ f.roots.length) :
      Built g (f.join rule.left id rule.arity) leaves (joins + 1)

variable {g : Grammar} {f : Forest} {leaves joins : Nat}

theorem size_grow (f : Forest) (symbol : Symbol) :
    (f.grow symbol).arena.size = f.arena.size + 1 := Arena.size_leaf f.arena symbol

theorem size_join (f : Forest) (symbol : Symbol) (production count : Nat) :
    (f.join symbol production count).arena.size = f.arena.size + 1 := by
  simp only [join, Arena.size_inner]

theorem postorder_grow (f : Forest) (symbol : Symbol) :
    (f.grow symbol).postorder = f.postorder ++ [f.arena.size] := by
  have old : ∀ r ∈ f.roots.reverse,
      (f.arena.leaf symbol).postorder r = f.arena.postorder r := by
    intro r _
    exact Arena.postorder_congr fun j _ => Arena.children_leaf f.arena symbol j
  have latest : (f.arena.leaf symbol).postorder f.arena.size = [f.arena.size] := by
    rw [Arena.postorder_eq, Arena.children_leaf, Arena.children_of_size_le (Nat.le_refl _)]
    rfl
  simp only [postorder, grow, List.reverse_cons, List.flatMap_append, List.flatMap_singleton,
    latest, List.flatMap_congr old]

theorem postorder_join (f : Forest) (symbol : Symbol) (production count : Nat) :
    (f.join symbol production count).postorder = f.postorder ++ [f.arena.size] := by
  have known : ∀ c ∈ (f.roots.take count).reverse, c < f.arena.size := fun c member =>
    f.known c (mem_of_taken member)
  have old : ∀ r ∈ f.roots,
      (f.arena.inner symbol production _ known).postorder r = f.arena.postorder r := by
    intro r member
    apply Arena.postorder_congr
    intro j le
    have before : j ≠ f.arena.size := Nat.ne_of_lt (Nat.lt_of_le_of_lt le (f.known r member))
    rw [Arena.children_inner, if_neg before]
  have taken := List.flatMap_congr fun r (member : r ∈ (f.roots.take count).reverse) =>
    old r (mem_of_taken member)
  have kept := List.flatMap_congr fun r (member : r ∈ (f.roots.drop count).reverse) =>
    old r (List.mem_of_mem_drop (List.mem_reverse.mp member))
  have latest : (f.arena.inner symbol production _ known).postorder f.arena.size =
      (f.roots.take count).reverse.flatMap f.arena.postorder ++ [f.arena.size] := by
    rw [Arena.postorder_eq, Arena.children_inner, if_pos rfl, taken]
  simp only [postorder, join, List.reverse_cons, List.flatMap_append, List.flatMap_singleton,
    latest, kept, reverse_parts f.roots count, List.append_assoc]

theorem Orderly.roots_nodup (orderly : f.Orderly) : f.roots.Nodup := by
  have once : f.postorder.Nodup := by
    rw [orderly.postorder]
    exact List.nodup_range
  have apart := (List.nodup_flatMap.mp once).2
  rw [← List.nodup_reverse]
  refine apart.imp fun {r s} disjoint same => ?_
  exact disjoint (f.arena.self_mem_postorder r) (same ▸ f.arena.self_mem_postorder r)

theorem Orderly.empty : Forest.empty.Orderly := by
  refine ⟨rfl, ?_, fun r member => nomatch member⟩
  intro i j
  rw [Arena.parent?_of_size_le (Nat.zero_le i), Arena.children_of_size_le (Nat.zero_le j)]
  simp

theorem Orderly.grow (orderly : f.Orderly) (symbol : Symbol) : (f.grow symbol).Orderly := by
  refine ⟨?_, orderly.linked.leaf symbol, ?_⟩
  · rw [postorder_grow, orderly.postorder, size_grow, List.range_succ]
  · intro r member
    simp only [Forest.grow, Arena.parent?_leaf] at member ⊢
    rcases List.mem_cons.mp member with latest | earlier
    · exact Arena.parent?_of_size_le (Nat.le_of_eq latest.symm)
    · exact orderly.orphans r earlier

theorem Orderly.join (orderly : f.Orderly) (symbol : Symbol) (production count : Nat) :
    (f.join symbol production count).Orderly := by
  refine ⟨?_, ?_, ?_⟩
  · rw [postorder_join, orderly.postorder, size_join, List.range_succ]
  · exact orderly.linked.inner (fun c member => f.known c (mem_of_taken member))
      fun c member => orderly.orphans c (mem_of_taken member)
  · intro r member
    have kept : r ∉ (f.roots.take count).reverse ∧ f.arena.parent? r = none := by
      rcases List.mem_cons.mp member with latest | earlier
      · refine ⟨fun child => ?_, Arena.parent?_of_size_le (Nat.le_of_eq latest.symm)⟩
        have old := f.known r (mem_of_taken child)
        omega
      · have once := orderly.roots_nodup
        rw [← List.take_append_drop count f.roots] at once
        refine ⟨fun child => ?_, orderly.orphans r (List.mem_of_mem_drop earlier)⟩
        exact (List.nodup_append.mp once).2.2 r (List.mem_reverse.mp child) r earlier rfl
    simp only [Forest.join, Arena.parent?_inner, if_neg kept.1]
    exact kept.2

theorem Built.orderly (built : f.Built g leaves joins) : f.Orderly := by
  induction built with
  | empty => exact .empty
  | grow before terminal ih => exact ih.grow _
  | join before known enough ih => exact ih.join _ _ _

theorem Built.size (built : f.Built g leaves joins) : f.arena.size = leaves + joins := by
  induction built with
  | empty => rfl
  | grow before terminal ih =>
    rw [size_grow, ih]
    omega
  | join before known enough ih =>
    rw [size_join, ih]
    omega

theorem Built.formed (built : f.Built g leaves joins) {i : Nat} {n : Node}
    (found : f.arena.node? i = some n) : n.Formed g := by
  induction built generalizing n with
  | empty => cases found
  | grow before terminal ih =>
    simp only [Forest.grow, Arena.node?_leaf] at found
    split at found
    · cases found
      exact .leaf rfl rfl terminal
    · exact ih found
  | @join f leaves joins id rule before known enough ih =>
    simp only [Forest.join, Arena.node?_inner] at found
    split at found
    · cases found
      refine .inner id rule rfl rfl known rfl ?_
      simp only [Node.children, List.length_reverse, List.length_take]
      exact Nat.min_eq_left enough
    · obtain ⟨m, old, same⟩ := Option.map_eq_some_iff.mp found
      split at same
      · exact same ▸ (ih old).adopted _
      · exact same ▸ ih old

theorem single?_parts {t : ParseTree} (only : f.single? = some t) :
    t.arena = f.arena ∧ f.roots = [t.root] := by
  unfold single? at only
  split at only
  · rename_i root roots
    cases only
    exact ⟨rfl, roots⟩
  · cases only

variable {root : Nat}

theorem Orderly.postorder_root (orderly : f.Orderly) (only : f.roots = [root]) :
    f.arena.postorder root = List.range f.arena.size := by
  have all := orderly.postorder
  rw [Forest.postorder, only] at all
  simpa using all

theorem Orderly.root_last (orderly : f.Orderly) (only : f.roots = [root]) :
    root + 1 = f.arena.size := by
  have last := congrArg List.getLast? (orderly.postorder_root only)
  have inside : root < f.arena.size := f.known root (by simp [only])
  obtain ⟨before, size⟩ : ∃ before, f.arena.size = before + 1 :=
    ⟨f.arena.size - 1, by omega⟩
  rw [Arena.postorder_eq, List.getLast?_concat, size, List.range_succ, List.getLast?_concat] at last
  rw [size, Option.some.inj last]

theorem Orderly.parent_of_nonroot (orderly : f.Orderly) (only : f.roots = [root]) {i : Nat}
    (known : i < f.arena.size) (below : i ≠ root) :
    ∃ j, f.arena.parent? i = some j ∧ ∀ k, i ∈ f.arena.children k ↔ k = j := by
  have listed : i ∈ f.arena.postorder root := by
    rw [orderly.postorder_root only]
    exact List.mem_range.mpr known
  rcases Arena.eq_or_child_of_mem_postorder listed with same | ⟨j, child⟩
  · exact absurd same below
  · have parent := (orderly.linked i j).mpr child
    refine ⟨j, parent, fun k => ?_⟩
    rw [← orderly.linked i k, parent, Option.some.injEq]
    exact eq_comm

end Forest
end Recognizers
