import Recognizers.Proofs.Parser.Alphabet
import Recognizers.Proofs.Parser.Checked
import Recognizers.Proofs.Text.Words
import Recognizers.Proofs.Tree.Walk

/-!
Traversals as recursions over the unfolded tree. The outline lists its preorder (`outline_rows`), so
the drawing is the text by recursion (`drawing_eq_text`), with a line for each node. Leaves are known
by their terminals.
-/
namespace Recognizers

namespace OrderedTree

variable {t : OrderedTree}

theorem preorderAll_eq_flatMap (depth : Nat) (trees : List OrderedTree) :
    preorderAll depth trees = trees.flatMap (preorder depth) := by
  induction trees with
  | nil => rfl
  | cons t ts ih => rw [preorderAll, List.flatMap_cons, ih]

theorem preorder_inner (depth : Nat) (symbol : Symbol) (production : Nat)
    (children : List OrderedTree) : (inner symbol production children).preorder depth =
      (depth, symbol) :: children.flatMap (preorder (depth + 1)) := by
  rw [preorder, preorderAll_eq_flatMap]

inductive Classed : OrderedTree → Prop where
  | leaf {symbol : Symbol} (terminal : symbol.kind = .terminal) : Classed (.leaf symbol)
  | inner {symbol : Symbol} {production : Nat} {children : List OrderedTree}
      (nonterminal : symbol.kind = .nonterminal) (below : ∀ c ∈ children, Classed c) :
      Classed (.inner symbol production children)

def terminalRow (row : Nat × Symbol) : Bool := row.2.kind = .terminal

theorem Classed.leaves_eq (classed : t.Classed) (depth : Nat) :
    t.leaves = ((t.preorder depth).filter terminalRow).map Prod.snd := by
  induction classed generalizing depth with
  | leaf terminal => simp [leaves, preorder, terminalRow, terminal]
  | inner nonterminal below ih =>
    rw [leaves_inner, preorder_inner, List.filter_cons_of_neg (by simp [terminalRow, nonterminal]),
      List.filter_flatMap, List.map_flatMap]
    exact List.flatMap_congr fun c child => ih c child (depth + 1)

mutual

/-- The line of the root at its depth, and behind it the texts of the children from left to right, one
deeper. -/
def text (v : Vocabulary) (depth : Nat) : OrderedTree → String
  | leaf s => ParseTree.line depth (v.name s)
  | inner s _ children => ParseTree.line depth (v.name s) ++ textAll v (depth + 1) children

def textAll (v : Vocabulary) (depth : Nat) : List OrderedTree → String
  | [] => ""
  | t :: ts => text v depth t ++ textAll v depth ts

end

end OrderedTree

namespace ParseTree

def rowText (v : Vocabulary) (row : Nat × Symbol) : String := line row.1 (v.name row.2)

def rowChars (v : Vocabulary) (row : Nat × Symbol) : List Char :=
  '|' :: (List.replicate row.1 '-' ++ (displayName (v.name row.2)).toList)

theorem toList_rowText (v : Vocabulary) (row : Nat × Symbol) :
    (rowText v row).toList = rowChars v row ++ ['\n'] := by
  simp [rowText, line, rowChars]

theorem mem_of_mem_displayName {name : String} {c : Char}
    (member : c ∈ (displayName name).toList) : c ∈ name.toList := by
  unfold displayName at member
  split at member
  · rename_i rest marked
    rw [marked]
    exact List.mem_cons_of_mem _ (by simpa using member)
  · exact member

theorem feedless_rowChars {v : Vocabulary} {row : Nat × Symbol}
    (whole : '\n' ∉ (displayName (v.name row.2)).toList) : '\n' ∉ rowChars v row := by
  simp [rowChars, whole]

end ParseTree

namespace OrderedTree

theorem textAll_eq {v : Vocabulary} {depth : Nat} {trees : List OrderedTree}
    (rows : ∀ t ∈ trees,
      t.text v depth = String.join ((t.preorder depth).map (ParseTree.rowText v))) :
    textAll v depth trees =
      String.join ((trees.flatMap (preorder depth)).map (ParseTree.rowText v)) := by
  induction trees with
  | nil => rfl
  | cons t ts ih =>
    obtain ⟨first, later⟩ := List.forall_mem_cons.mp rows
    rw [textAll, first, ih later, List.flatMap_cons, List.map_append, String.join_append]

theorem text_eq (t : OrderedTree) (v : Vocabulary) (depth : Nat) :
    t.text v depth = String.join ((t.preorder depth).map (ParseTree.rowText v)) := by
  induction t generalizing depth with
  | leaf symbol => simp [text, preorder, ParseTree.rowText]
  | inner symbol production children ih =>
    rw [text, preorder_inner, textAll_eq fun c child => ih c child (depth + 1), List.map_cons,
      String.join_cons]
    rfl

end OrderedTree

namespace Arena

variable {a : Arena} {i : Nat}

theorem Classed.subtree (classed : a.Classed) (known : i < a.size) : (a.subtree i).Classed := by
  induction i, known using a.known_induct with
  | node i n found ih =>
    have kind := classed i n found
    rw [subtree_eq found]
    cases shape : n.content with
    | leaf =>
      apply OrderedTree.Classed.leaf
      cases given : n.symbol with
      | terminal number => rfl
      | nonterminal number => simp [given, Symbol.kind, Node.isLeaf, shape] at kind
    | inner production children =>
      apply OrderedTree.Classed.inner
      · exact kind.mpr (by simp [Node.isLeaf, shape])
      · simpa [Node.children, shape] using ih

theorem length_preorder_subtree (known : i < a.size) (depth : Nat) :
    ((a.subtree i).preorder depth).length = (a.preorder i).length := by
  induction i, known using a.known_induct generalizing depth with
  | node i n found ih =>
    rw [subtree_eq found, preorder_eq, children_of_node found]
    cases shape : n.content with
    | leaf => simp [OrderedTree.preorder, Node.children, shape]
    | inner production children =>
      simp only [Node.children, shape] at ih ⊢
      have counts := List.map_congr_left fun c child => ih c child (depth + 1)
      simp only [OrderedTree.preorder_inner, List.flatMap_map, List.length_cons,
        List.length_flatMap, counts]

theorem outlineFrom_rows (pending : List (Nat × Nat)) (known : ∀ p ∈ pending, p.2 < a.size) :
    (a.outlineFrom pending).map (fun p => (p.depth, p.node.symbol)) =
      pending.flatMap fun p => (a.subtree p.2).preorder p.1 := by
  fun_induction outlineFrom a pending with
  | case1 => rfl
  | case2 depth i rest missing ih =>
    rw [node_of_lt (known (depth, i) List.mem_cons_self)] at missing
    cases missing
  | case3 depth i rest n found ih =>
    have later := ih (pending_known known found)
    rw [List.flatMap_append, List.flatMap_map] at later
    rw [List.map_cons, later, List.flatMap_cons, subtree_eq found]
    cases shape : n.content with
    | leaf => simp [Node.children, shape, OrderedTree.preorder]
    | inner production children =>
      simp [Node.children, shape, OrderedTree.preorder_inner, List.flatMap_map]

theorem over_of_nodes {P : Symbol → Prop} (all : ∀ n ∈ a.nodes.toList, P n.symbol) : a.Over P := by
  intro i n found
  exact all n (Array.mem_toList_iff.mpr (Array.mem_of_getElem? found))

end Arena

namespace ParseTree

variable {t : ParseTree} {v : Vocabulary} {P : Symbol → Prop}

def rows (t : ParseTree) : List (Nat × Symbol) := t.unfold.preorder 0

theorem outline_rows (t : ParseTree) :
    t.outline.map (fun p => (p.depth, p.node.symbol)) = t.rows := by
  have listed := Arena.outlineFrom_rows [(0, t.root)] (by simpa using t.known)
  rw [List.flatMap_singleton, Arena.subtree_eq_unfold t.known] at listed
  exact listed

theorem drawing_eq_rows (t : ParseTree) (v : Vocabulary) :
    t.drawing v = String.join (t.rows.map (rowText v)) := by
  rw [← outline_rows, List.map_map]
  rfl

theorem drawing_eq_text (t : ParseTree) (v : Vocabulary) : t.drawing v = t.unfold.text v 0 := by
  rw [drawing_eq_rows, OrderedTree.text_eq]
  rfl

theorem rows_over (covered : t.arena.Over P) : ∀ row ∈ t.rows, P row.2 := by
  intro row member
  rw [← outline_rows] at member
  obtain ⟨placed, listed, rfl⟩ := List.mem_map.mp member
  exact covered placed.index placed.node (Arena.node?_of_mem_outlineFrom listed)

theorem lines_drawing (whole : ∀ row ∈ t.rows, '\n' ∉ (displayName (v.name row.2)).toList) :
    Text.lines (t.drawing v) = t.rows.map (rowChars v) ++ [[]] := by
  have ended : t.drawing v = String.ofList ((t.rows.map (rowChars v)).flatMap (· ++ ['\n'])) := by
    rw [drawing_eq_rows, ← String.toList_inj, String.toList_join, String.toList_ofList,
      List.flatMap_map, List.flatMap_map]
    exact List.flatMap_congr fun row _ => toList_rowText v row
  rw [ended, Text.lines_ended]
  intro line member
  obtain ⟨row, inside, rfl⟩ := List.mem_map.mp member
  exact feedless_rowChars (whole row inside)

end ParseTree

namespace Parser

variable {p : Parser} {limit : Nat} {input : List Symbol} {t : ParseTree}

theorem length_rows (parsed : p.parse limit input = some (.ok t)) : t.rows.length = t.size := by
  have count := Arena.length_preorder_subtree t.known 0
  rw [length_preorder_root parsed, Arena.subtree_eq_unfold t.known] at count
  exact count

theorem classed_unfold (parsed : p.parse limit input = some (.ok t)) : t.unfold.Classed := by
  have classed := (classed_of_parsed parsed).subtree t.known
  rwa [Arena.subtree_eq_unfold t.known] at classed

theorem leaves_eq_rows (parsed : p.parse limit input = some (.ok t)) :
    t.leaves = (t.rows.filter OrderedTree.terminalRow).map Prod.snd := by
  rw [t.leaves_eq_unfold]
  exact (classed_unfold parsed).leaves_eq 0

/-- Leaves and drawing of a parsed tree are those by recursion. If no name that is shown holds a line
feed, then the drawing has a line for each node, in preorder, and among them those of the leaves in
their order. -/
theorem traversals_by_recursion (parsed : p.parse limit input = some (.ok t)) :
    t.leaves = t.unfold.leaves ∧ (∀ v, t.drawing v = t.unfold.text v 0) ∧
    ∀ v, t.arena.Over (fun s => '\n' ∉ (v.name s).toList) →
      ∃ lines, Text.lines (t.drawing v) = lines ++ [[]] ∧ lines.length = t.size ∧
        lines = t.rows.map (ParseTree.rowChars v) ∧
        (t.rows.filter OrderedTree.terminalRow).map Prod.snd = t.leaves ∧
        ((t.rows.filter OrderedTree.terminalRow).map (ParseTree.rowChars v)).Sublist lines := by
  refine ⟨t.leaves_eq_unfold, t.drawing_eq_text, fun v whole => ?_⟩
  have shown : ∀ row ∈ t.rows, '\n' ∉ (ParseTree.displayName (v.name row.2)).toList := by
    intro row member inside
    exact ParseTree.rows_over whole row member (ParseTree.mem_of_mem_displayName inside)
  refine ⟨_, ParseTree.lines_drawing shown, ?_, rfl, (leaves_eq_rows parsed).symm, ?_⟩
  · rw [List.length_map, length_rows parsed]
  · exact List.filter_sublist.map _

def endmarkedNames : Vocabulary where
  terminals := ["eof", "null", "a", "b"]
  nonterminals := ["S", "E", "_B"]
  distinct := by decide

theorem endmarked_lines : ∃ t, endmarked.parse 20 [.terminal 2] = some (.ok t) ∧
    t.drawing endmarkedNames = "|S\n|-E\n|-a\n|-eof\n|-B\n" ∧ t.leaves = [.terminal 2, .eof] ∧
    (Text.lines (t.drawing endmarkedNames)).length = t.size + 1 := by
  obtain ⟨t, parsed, unfolded, whole⟩ : ∃ t, endmarked.parse 20 [.terminal 2] = some (.ok t) ∧
      (t.unfold.leaves = [.terminal 2, .eof] ∧
        t.unfold.text endmarkedNames 0 = "|S\n|-E\n|-a\n|-eof\n|-B\n") ∧
      ∀ n ∈ t.arena.nodes.toList, '\n' ∉ (endmarkedNames.name n.symbol).toList :=
    ⟨_, parse_of_start endmarked_start 20 _, by decide +kernel, by decide +kernel⟩
  obtain ⟨leaves, drawing, lined⟩ := traversals_by_recursion parsed
  obtain ⟨lines, split, count, _⟩ := lined endmarkedNames (Arena.over_of_nodes whole)
  refine ⟨t, parsed, (drawing _).trans unfolded.2, leaves.trans unfolded.1, ?_⟩
  rw [split, List.length_append, count]
  rfl

end Parser
end Recognizers
