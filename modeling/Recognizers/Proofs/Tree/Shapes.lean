import Recognizers.Proofs.Tree.Isomorphism
import Recognizers.Proofs.Tree.Outline

/-!
Trees of one shape. The comparison of two trees asks for the same ordered trees up to productions,
whatever the order of its list. The rows of a tree do not show its productions (`preorder_plain`), so
no traversal tells isomorphic trees apart.
-/
namespace Recognizers

theorem OrderedTree.preorder_plain (t : OrderedTree) (depth : Nat) :
    t.plain.preorder depth = t.preorder depth := by
  induction t generalizing depth with
  | leaf symbol => rfl
  | inner symbol production children ih =>
    rw [plain_inner, preorder_inner, preorder_inner, List.flatMap_map]
    rw [List.flatMap_congr fun c child => ih c child (depth + 1)]

namespace ParseTree

variable {t u w : ParseTree}

theorem isomorphic_self (t : ParseTree) : t.isomorphic t = true := (t.isomorphic_iff t).mpr rfl

theorem isomorphic_comm (t u : ParseTree) : t.isomorphic u = u.isomorphic t := by
  rw [Bool.eq_iff_iff, isomorphic_iff, isomorphic_iff]
  exact eq_comm

theorem isomorphic_trans (first : t.isomorphic u = true) (second : u.isomorphic w = true) :
    t.isomorphic w = true := by
  rw [isomorphic_iff] at first second ⊢
  exact first.trans second

theorem rows_of_isomorphic (same : t.isomorphic u = true) : t.rows = u.rows := by
  have shapes := (t.isomorphic_iff u).mp same
  rw [rows, rows, ← OrderedTree.preorder_plain, shapes, OrderedTree.preorder_plain]

end ParseTree

namespace Parser

variable {p q : Parser} {limit limit' : Nat} {input input' : List Symbol} {t u : ParseTree}

/-- Two parsed trees, perhaps of different parsers, are isomorphic just when they unfold to the same
ordered tree up to productions. The list of pairs of nodes, the latest pair first, comes to that
answer after no more rounds than there are nodes. It is an equivalence, and isomorphic trees have the
same leaves, equally many nodes and the same drawings. -/
theorem isomorphic_decides_shape (parsed : p.parse limit input = some (.ok t))
    (reparsed : q.parse limit' input' = some (.ok u)) :
    (t.isomorphic u = true ↔ t.unfold.plain = u.unfold.plain) ∧
    (∀ rounds, t.size ≤ rounds → t.bare.isomorphic u.bare rounds = .ok (some (t.isomorphic u))) ∧
    t.isomorphic t = true ∧ t.isomorphic u = u.isomorphic t ∧
    (∀ w : ParseTree, t.isomorphic u = true → u.isomorphic w = true → t.isomorphic w = true) ∧
    (t.isomorphic u = true →
      t.leaves = u.leaves ∧ t.size = u.size ∧ ∀ v, t.drawing v = u.drawing v) := by
  refine ⟨t.isomorphic_iff u, fun rounds enough => ?_, t.isomorphic_self, t.isomorphic_comm u,
    fun w => ParseTree.isomorphic_trans, fun same => ?_⟩
  · rw [← length_preorder_root parsed] at enough
    exact ParseTree.bare_isomorphic enough u
  · have rows := ParseTree.rows_of_isomorphic same
    refine ⟨?_, ?_, fun v => ?_⟩
    · rw [leaves_eq_rows parsed, leaves_eq_rows reparsed, rows]
    · rw [← length_rows parsed, ← length_rows reparsed, rows]
    · rw [t.drawing_eq_rows, u.drawing_eq_rows, rows]

/-- The parser `endmarked` with one more production in front, so that the others have other
numbers. -/
def renumbered : Parser where
  grammar := { productions := #[⟨0, [.eof]⟩] ++ endmarked.grammar.productions }
  table := .ofLists endmarkedMoves (endmarkedReductions.map fun (cell, id) => (cell, id + 1)) [4, 7]

theorem renumbered_start : renumbered.startSymbol = .ok (.nonterminal 0) :=
  startSymbol_of_final (Table.min?_finals_ofLists _ _ _) rfl rfl rfl

theorem renumbered_isomorphic : ∃ t u, endmarked.parse 20 [.terminal 2] = some (.ok t) ∧
    renumbered.parse 20 [.terminal 2] = some (.ok u) ∧
    (t.arena.node? 4).bind Node.production? = some 0 ∧
    (u.arena.node? 4).bind Node.production? = some 1 ∧
    t.isomorphic u = true ∧ t.unfold.plain = u.unfold.plain ∧ t.leaves = u.leaves ∧
    t.drawing endmarkedNames = u.drawing endmarkedNames := by
  obtain ⟨t, u, parsed, reparsed, size, first, second, compared⟩ : ∃ t u,
      endmarked.parse 20 [.terminal 2] = some (.ok t) ∧
      renumbered.parse 20 [.terminal 2] = some (.ok u) ∧ t.size = 5 ∧
      (t.arena.node? 4).bind Node.production? = some 0 ∧
      (u.arena.node? 4).bind Node.production? = some 1 ∧
      t.bare.isomorphic u.bare 5 = .ok (some true) :=
    ⟨_, _, parse_of_start endmarked_start 20 _, parse_of_start renumbered_start 20 _, rfl, rfl, rfl,
      rfl⟩
  obtain ⟨shapes, settled, _, _, _, alike⟩ := isomorphic_decides_shape parsed reparsed
  rw [settled 5 (Nat.le_of_eq size)] at compared
  have same := Option.some.inj (Except.ok.inj compared)
  obtain ⟨leaves, _, drawings⟩ := alike same
  exact ⟨t, u, parsed, reparsed, first, second, same, shapes.mp same, leaves, drawings _⟩

end Parser
end Recognizers
