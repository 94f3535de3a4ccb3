import Recognizers.Proofs.Tree.Isomorphism
import Recognizers.Proofs.Tree.Postorder
import Recognizers.Tree.Checked

/-!
Traversals of an arena without faults. Every index on their lists has a node, and the preorders of
the list shrink by one node in each round.
-/
namespace Recognizers

namespace Checked

theorem ok_bind {ε α β : Type} (a : α) (f : α → Except ε β) : (Except.ok a >>= f) = f a := rfl

theorem read_eq_ok {α : Type} {xs : Array α} {i : Nat} {x : α} (found : xs[i]? = some x) :
    read xs i = .ok x := by
  simp only [read, found]

theorem write_of_lt {α : Type} {xs : Array α} {i : Nat} (inside : i < xs.size) (x : α) :
    write xs i x = .ok (xs.setIfInBounds i x) := if_pos inside

theorem minus_of_le {size taken : Nat} (enough : taken ≤ size) :
    minus size taken = .ok (size - taken) := if_pos enough

end Checked

namespace Arena

variable {a b : Arena} {i j : Nat} {m n : Node} {rounds : Nat}

theorem length_preorder (a : Arena) (i : Nat) : (a.preorder i).length = (a.postorder i).length := by
  induction i using a.children_induct with
  | index i ih =>
    have below : (a.children i).map (fun c => (a.preorder c).length) =
        (a.children i).map (fun c => (a.postorder c).length) := List.map_congr_left ih
    rw [preorder_eq, postorder_eq, List.length_cons, List.length_append, List.length_flatMap,
      List.length_flatMap, below]
    rfl

theorem length_visits (a : Arena) (i : Nat) :
    (a.visits (.enter i)).length = 2 * (a.preorder i).length := by
  simp only [visits, List.length_flatMap, List.length_cons, List.length_nil, List.map_const',
    List.sum_replicate_nat]
  omega

theorem length_pending (found : a.node? i = some n) (depth : Nat) (rest : List (Nat × Nat)) :
    (((depth, i) :: rest).flatMap fun p => a.preorder p.2).length =
      ((n.children.map (depth + 1, ·) ++ rest).flatMap fun p => a.preorder p.2).length + 1 := by
  simp only [List.flatMap_cons, List.flatMap_append, List.flatMap_map, preorder_eq a i,
    children_of_node found, List.cons_append, List.length_cons]

theorem checked_outlineFrom (pending : List (Nat × Nat)) (known : ∀ p ∈ pending, p.2 < a.size)
    (enough : (pending.flatMap fun p => a.preorder p.2).length ≤ rounds) :
    Checked.outlineFrom a.nodes rounds pending = .ok (some (a.outlineFrom pending)) := by
  fun_induction outlineFrom a pending generalizing rounds with
  | case1 => cases rounds <;> rfl
  | case2 depth i rest missing ih =>
    rw [node_of_lt (known (depth, i) List.mem_cons_self)] at missing
    cases missing
  | case3 depth i rest n found ih =>
    rw [length_pending found] at enough
    cases rounds with
    | zero => omega
    | succ rounds =>
      have below := ih (pending_known known found) (Nat.le_of_succ_le_succ enough)
      simp only [Checked.outlineFrom, Checked.read_eq_ok found, Checked.ok_bind, below]
      rfl

theorem length_pairs (found : a.node? i = some m)
    (same : m.children.length = n.children.length) (rest : List (Nat × Nat)) :
    (((i, j) :: rest).flatMap fun p => a.preorder p.1).length =
      (((m.children.zip n.children).reverse ++ rest).flatMap
        fun p => a.preorder p.1).length + 1 := by
  have all : (m.children.zip n.children).flatMap (fun p => a.preorder p.1) =
      m.children.flatMap a.preorder := by
    conv => rhs; rw [← List.map_fst_zip (Nat.le_of_eq same), List.flatMap_map]
  have reversed := ((m.children.zip n.children).reverse_perm.flatMap_right
    fun p => a.preorder p.1).length_eq
  rw [List.flatMap_cons, preorder_eq, children_of_node found, ← all, List.flatMap_append,
    List.length_append, List.length_append, List.length_cons, reversed]
  omega

theorem checked_isomorphicFrom (pending : List (Nat × Nat))
    (known : ∀ p ∈ pending, p.1 < a.size ∧ p.2 < b.size)
    (enough : (pending.flatMap fun p => a.preorder p.1).length ≤ rounds) :
    ∃ answer, Checked.isomorphicFrom a.nodes b.nodes rounds pending = .ok (some answer) ∧
      (answer = true ↔ ∀ p ∈ pending, (a.subtree p.1).plain = (b.subtree p.2).plain) := by
  induction rounds generalizing pending with
  | zero =>
    cases pending with
    | nil => exact ⟨true, rfl, by simp⟩
    | cons p rest =>
      rw [List.flatMap_cons, preorder_eq, List.length_append, List.length_cons] at enough
      omega
  | succ rounds ih =>
    cases pending with
    | nil => exact ⟨true, rfl, by simp⟩
    | cons p rest =>
      obtain ⟨i, j⟩ := p
      obtain ⟨⟨inside, inside'⟩, later⟩ := List.forall_mem_cons.mp known
      obtain ⟨m, left⟩ : ∃ m, a.node? i = some m := ⟨_, node_of_lt inside⟩
      obtain ⟨n, right⟩ : ∃ n, b.node? j = some n := ⟨_, node_of_lt inside'⟩
      simp only [Checked.isomorphicFrom, Checked.read_eq_ok left, Checked.read_eq_ok right,
        Checked.ok_bind]
      rw [List.forall_mem_cons, plain_subtree_eq_iff left right]
      by_cases same : m.symbol = n.symbol ∧ m.isLeaf = n.isLeaf ∧
          m.children.length = n.children.length
      · rw [if_pos same]
        rw [length_pairs left same.2.2] at enough
        obtain ⟨answer, checked, iff⟩ := ih ((m.children.zip n.children).reverse ++ rest)
          (by
            intro p member
            rcases List.mem_append.mp member with child | after
            · exact children_known left right (List.mem_reverse.mp child)
            · exact later p after)
          (Nat.le_of_succ_le_succ enough)
        refine ⟨answer, checked, ?_⟩
        rw [iff, List.forall_mem_append]
        simp only [same, and_self, true_and, List.mem_reverse]
      · rw [if_neg same]
        exact ⟨false, rfl, by simp [same]⟩

theorem checked_nonterminals (nodes : List Nat) (known : ∀ c ∈ nodes, c < a.size) :
    Checked.nonterminals a.nodes nodes =
      .ok (nodes.filter fun c => (a.node? c).any (·.symbol.kind = .nonterminal)) := by
  induction nodes with
  | nil => rfl
  | cons c cs ih =>
    obtain ⟨inside, later⟩ := List.forall_mem_cons.mp known
    have found := node_of_lt inside
    simp only [Checked.nonterminals, Checked.read_eq_ok found, ih later, Checked.ok_bind,
      List.filter_cons, found, Option.any_some, decide_eq_true_eq]
    rfl

theorem length_inner_visits (a : Arena) (i : Nat) (rest : List Visit) :
    (((a.innerChildren i).map Visit.enter ++ Visit.leave i :: rest).flatMap a.visits).length <
      ((Visit.enter i :: rest).flatMap a.visits).length := by
  have fewer := flatMap_filter_length_le (fun c => (a.node? c).any (·.symbol.kind = .nonterminal))
    (fun c => a.visits (.enter c)) (a.children i)
  have one : (a.visits (.leave i)).length = 1 := rfl
  rw [List.flatMap_append, List.flatMap_map, List.flatMap_cons, List.flatMap_cons, visits_enter a i]
  simp only [innerChildren, List.length_append, List.length_cons]
  omega

theorem length_visits_pos (a : Arena) (visit : Visit) : 0 < (a.visits visit).length := by
  cases visit with
  | enter i =>
    rw [visits_enter]
    exact Nat.succ_pos _
  | leave i => exact Nat.one_pos

theorem checked_walkFrom {M : Type → Type u} [Monad M] [LawfulMonad M] (v : Visitor M)
    (pending : List Visit) (known : ∀ i, .enter i ∈ pending → i < a.size)
    (enough : (pending.flatMap a.visits).length ≤ rounds) :
    Checked.walkFrom a.nodes v rounds pending =
      (do
        a.walkFrom v pending
        pure (.ok true)) := by
  induction rounds generalizing pending with
  | zero =>
    cases pending with
    | nil => simp [Checked.walkFrom, walkFrom]
    | cons visit rest =>
      have first := a.length_visits_pos visit
      rw [List.flatMap_cons, List.length_append] at enough
      omega
  | succ rounds ih =>
    cases pending with
    | nil => simp [Checked.walkFrom, walkFrom]
    | cons visit rest =>
      have later : ∀ i, .enter i ∈ rest → i < a.size := fun i member =>
        known i (List.mem_cons_of_mem _ member)
      have first := a.length_visits_pos visit
      have fewer : (rest.flatMap a.visits).length ≤ rounds := by
        rw [List.flatMap_cons, List.length_append] at enough
        omega
      cases visit with
      | leave i => simp only [Checked.walkFrom, walkFrom, ih rest later fewer, bind_assoc]
      | enter i =>
        have inside := known i List.mem_cons_self
        obtain ⟨n, found⟩ : ∃ n, a.node? i = some n := ⟨_, node_of_lt inside⟩
        simp only [Checked.walkFrom, Checked.read_eq_ok found]
        rw [walkFrom, found, Option.all_some]
        split
        · exact ih rest later fewer
        · have below : ∀ c ∈ n.children, c < a.size := fun c child =>
            Nat.lt_trans (a.earlier found c child) inside
          have inner : Checked.nonterminals a.nodes n.children = .ok (a.innerChildren i) := by
            rw [checked_nonterminals n.children below, innerChildren, children_of_node found]
          have shrinks := a.length_inner_visits i rest
          simp only [inner, bind_assoc]
          rw [ih]
          · intro c member
            rcases List.mem_append.mp member with child | after
            · obtain ⟨d, inner, same⟩ := List.mem_map.mp child
              cases same
              rw [innerChildren, children_of_node found] at inner
              exact below c (List.mem_of_mem_filter inner)
            · exact later c (by simpa using after)
          · omega

end Arena

namespace ParseTree

variable {t u : ParseTree} {rounds : Nat}

theorem bare_outline (enough : (t.arena.preorder t.root).length ≤ rounds) :
    t.bare.outline rounds = .ok (some t.outline) :=
  Arena.checked_outlineFrom [(0, t.root)] (by simpa using t.known) (by simpa using enough)

theorem bare_leaves (enough : (t.arena.preorder t.root).length ≤ rounds) :
    t.bare.leaves rounds = .ok (some t.leaves) := by
  rw [BareTree.leaves, bare_outline enough]
  rfl

theorem bare_drawing (enough : (t.arena.preorder t.root).length ≤ rounds) (v : Vocabulary) :
    t.bare.drawing v rounds = .ok (some (t.drawing v)) := by
  rw [BareTree.drawing, bare_outline enough]
  rfl

theorem bare_isomorphic (enough : (t.arena.preorder t.root).length ≤ rounds) (u : ParseTree) :
    t.bare.isomorphic u.bare rounds = .ok (some (t.isomorphic u)) := by
  have known : ∀ p ∈ [(t.root, u.root)], p.1 < t.arena.size ∧ p.2 < u.arena.size := by
    simp [t.known, u.known]
  obtain ⟨answer, checked, iff⟩ := Arena.checked_isomorphicFrom _ known (by simpa using enough)
  have same : answer = t.isomorphic u := by
    rw [Bool.eq_iff_iff, iff]
    exact (Arena.isomorphicFrom_iff t.arena u.arena _ known).symm
  rw [← same]
  exact checked

theorem bare_walk {M : Type → Type u} [Monad M] [LawfulMonad M]
    (enough : 2 * (t.arena.preorder t.root).length ≤ rounds) (v : Visitor M) :
    t.bare.walk v rounds =
      (do
        t.walk v
        pure (.ok true)) := by
  apply Arena.checked_walkFrom
  · intro i member
    cases List.mem_singleton.mp member
    exact t.known
  · rw [List.flatMap_singleton, Arena.length_visits]
    exact enough

end ParseTree
end Recognizers
