import Recognizers.Proofs.Description.Closure
import Recognizers.Proofs.Tree.Shapes

/-!
A tree read off its drawing. The dashes of a line tell its depth (`dashes_unique`) and the names tell
the symbols, so the drawing tells the rows (`rows_of_drawing`). A node has below it just the rows up to
the next one that is not deeper, so the rows tell the tree up to productions.
-/
namespace Recognizers

namespace OrderedTree

variable {t u : OrderedTree} {depth : Nat} {rest rest' : List (Nat × Symbol)}

/-- If there is a row, then the first one is at this depth at most. -/
def Shallow (depth : Nat) (rows : List (Nat × Symbol)) : Prop :=
  ∀ row, rows.head? = some row → row.1 ≤ depth

theorem head?_preorder (t : OrderedTree) (depth : Nat) :
    (t.preorder depth).head? = some (depth, t.symbol) := by
  cases t with
  | leaf symbol => rfl
  | inner symbol production children =>
    rw [preorder_inner]
    rfl

theorem Shallow.preorders (shallow : Shallow depth rest) (trees : List OrderedTree) :
    Shallow (depth + 1) (trees.flatMap (preorder (depth + 1)) ++ rest) := by
  intro row first
  cases trees with
  | nil =>
    have here := shallow row first
    omega
  | cons t trees =>
    simp only [List.flatMap_cons, List.append_assoc, List.head?_append, head?_preorder] at first
    cases first
    exact Nat.le_refl _

theorem Shallow.ne_preorder (shallow : Shallow depth rest) (t : OrderedTree)
    (later : List (Nat × Symbol)) : rest ≠ t.preorder (depth + 1) ++ later := by
  intro same
  have first : rest.head? = some (depth + 1, t.symbol) := by
    rw [same, List.head?_append, head?_preorder]
    rfl
  exact absurd (shallow _ first) (Nat.not_succ_le_self depth)

/-- The rows of `t` at some depth tell `t` up to productions, whatever shallow rows follow. -/
def Told (t : OrderedTree) : Prop :=
  ∀ (u : OrderedTree) (depth : Nat) (rest rest' : List (Nat × Symbol)), u.Classed →
    Shallow depth rest → Shallow depth rest' →
    t.preorder depth ++ rest = u.preorder depth ++ rest' → t.plain = u.plain ∧ rest = rest'

theorem told_children {children children' : List OrderedTree} (told : ∀ c ∈ children, c.Told)
    (classed : ∀ c ∈ children', c.Classed) (shallow : Shallow depth rest)
    (shallow' : Shallow depth rest')
    (same : children.flatMap (preorder (depth + 1)) ++ rest =
      children'.flatMap (preorder (depth + 1)) ++ rest') :
    children.map plain = children'.map plain ∧ rest = rest' := by
  induction children generalizing children' with
  | nil =>
    cases children' with
    | nil => exact ⟨rfl, same⟩
    | cons c' children' =>
      rw [List.flatMap_cons, List.append_assoc] at same
      exact absurd same (shallow.ne_preorder c' _)
  | cons c children ih =>
    obtain ⟨first, later⟩ := List.forall_mem_cons.mp told
    cases children' with
    | nil =>
      rw [List.flatMap_cons, List.append_assoc] at same
      exact absurd same.symm (shallow'.ne_preorder c _)
    | cons c' children' =>
      obtain ⟨kind, kinds⟩ := List.forall_mem_cons.mp classed
      rw [List.flatMap_cons, List.flatMap_cons, List.append_assoc, List.append_assoc] at same
      obtain ⟨here, behind⟩ := first c' (depth + 1) _ _ kind (shallow.preorders children)
        (shallow'.preorders children') same
      obtain ⟨others, rests⟩ := ih later kinds behind
      exact ⟨by rw [List.map_cons, List.map_cons, here, others], rests⟩

theorem Classed.told (classed : t.Classed) : t.Told := by
  intro u depth rest rest' kind shallow shallow' same
  induction classed generalizing u depth rest rest' with
  | @leaf symbol terminal =>
    cases kind with
    | leaf other =>
      obtain ⟨row, rests⟩ := List.cons.inj same
      cases row
      exact ⟨rfl, rests⟩
    | inner nonterminal below =>
      rw [preorder_inner] at same
      cases (List.cons.inj same).1
      rw [terminal] at nonterminal
      cases nonterminal
  | @inner symbol production children nonterminal below ih =>
    cases kind with
    | leaf terminal =>
      rw [preorder_inner] at same
      cases (List.cons.inj same).1
      rw [terminal] at nonterminal
      cases nonterminal
    | @inner symbol' production' children' _ kinds =>
      rw [preorder_inner, preorder_inner] at same
      obtain ⟨row, behind⟩ := List.cons.inj same
      cases row
      obtain ⟨trees, rests⟩ := told_children ih kinds shallow shallow' behind
      rw [plain_inner, plain_inner, trees]
      exact ⟨rfl, rests⟩

theorem Classed.preorder_unique (classed : t.Classed) (kind : u.Classed)
    (same : t.preorder depth = u.preorder depth) : t.plain = u.plain := by
  have nothing : Shallow depth [] := nofun
  exact (classed.told u depth [] [] kind nothing nothing (congrArg (· ++ []) same)).1

end OrderedTree

namespace Vocabulary

variable {v : Vocabulary} {s s' : Symbol}

def names (v : Vocabulary) : List String := v.terminals ++ v.nonterminals

/-- The names as they are shown can be told from each other, stay within a line and do not begin with a
dash. One of them may be empty. -/
structure Legible (v : Vocabulary) : Prop where
  distinct : (v.names.map ParseTree.displayName).Nodup
  feedless : ∀ name ∈ v.names, '\n' ∉ (ParseTree.displayName name).toList
  undashed : ∀ name ∈ v.names, (ParseTree.displayName name).toList.head? ≠ some '-'

theorem Interned.name_mem (interned : v.Interned s) : v.name s ∈ v.names := by
  have named := find?_eq_some_iff.mp interned
  cases s with
  | terminal place => exact List.mem_append_left _ (List.mem_of_getElem? named)
  | nonterminal place => exact List.mem_append_right _ (List.mem_of_getElem? named)

theorem Legible.symbol_unique (legible : v.Legible) (interned : v.Interned s)
    (interned' : v.Interned s')
    (same : ParseTree.displayName (v.name s) = ParseTree.displayName (v.name s')) : s = s' := by
  have names : v.name s = v.name s' :=
    List.inj_on_of_nodup_map legible.distinct interned.name_mem interned'.name_mem same
  rw [Interned, names] at interned
  exact Option.some.inj (interned.symm.trans interned')

end Vocabulary

theorem dashes_unique {count count' : Nat} {text text' : List Char} (undashed : text.head? ≠ some '-')
    (undashed' : text'.head? ≠ some '-')
    (same : List.replicate count '-' ++ text = List.replicate count' '-' ++ text') :
    count = count' ∧ text = text' := by
  induction count generalizing count' with
  | zero =>
    cases count' with
    | zero => exact ⟨rfl, same⟩
    | succ count' =>
      have first : text.head? = some '-' := congrArg List.head? same
      exact absurd first undashed
  | succ count ih =>
    cases count' with
    | zero =>
      have first : text'.head? = some '-' := congrArg List.head? same.symm
      exact absurd first undashed'
    | succ count' =>
      simp only [List.replicate_succ, List.cons_append] at same
      obtain ⟨counts, texts⟩ := ih (List.cons.inj same).2
      exact ⟨congrArg (· + 1) counts, texts⟩

namespace ParseTree

variable {v : Vocabulary} {t u : ParseTree}

theorem rowChars_unique (legible : v.Legible) {row row' : Nat × Symbol} (interned : v.Interned row.2)
    (interned' : v.Interned row'.2) (same : rowChars v row = rowChars v row') : row = row' := by
  obtain ⟨depths, shown⟩ := dashes_unique (legible.undashed _ interned.name_mem)
    (legible.undashed _ interned'.name_mem) (List.cons.inj same).2
  exact Prod.ext depths
    (legible.symbol_unique interned interned' (String.toList_inj.mp shown))

theorem rows_of_drawing (legible : v.Legible) (named : t.arena.Over v.Interned)
    (named' : u.arena.Over v.Interned) (same : t.drawing v = u.drawing v) : t.rows = u.rows := by
  have feedless {w : ParseTree} (named : w.arena.Over v.Interned) :
      ∀ row ∈ w.rows, '\n' ∉ (displayName (v.name row.2)).toList := by
    intro row member
    exact legible.feedless _ (rows_over named row member).name_mem
  have lines := congrArg Text.lines same
  rw [lines_drawing (feedless named), lines_drawing (feedless named')] at lines
  obtain ⟨count, pairs⟩ := map_eq_map_iff_zip.mp (List.append_cancel_right lines)
  rw [← List.map_id t.rows, ← List.map_id u.rows]
  refine map_eq_map_iff_zip.mpr ⟨count, fun pair member => ?_⟩
  obtain ⟨first, second⟩ := List.of_mem_zip member
  exact rowChars_unique legible (rows_over named _ first) (rows_over named' _ second)
    (pairs pair member)

end ParseTree

namespace Parser

variable {p q : Parser} {limit limit' : Nat} {input input' : List Symbol} {t u : ParseTree}
  {v : Vocabulary}

/-- Parsed trees, perhaps of different parsers, that are drawn alike are isomorphic, if the names as they
are shown are distinct, hold no line feed and do not begin with a dash, and all symbols have one. -/
theorem isomorphic_of_drawing (legible : v.Legible) (parsed : p.parse limit input = some (.ok t))
    (reparsed : q.parse limit' input' = some (.ok u)) (named : t.arena.Over v.Interned)
    (named' : u.arena.Over v.Interned) (same : t.drawing v = u.drawing v) :
    t.unfold.plain = u.unfold.plain ∧ t.isomorphic u = true := by
  have rows := ParseTree.rows_of_drawing legible named named' same
  have shapes := (classed_unfold parsed).preorder_unique (classed_unfold reparsed) rows
  exact ⟨shapes, (t.isomorphic_iff u).mpr shapes⟩

theorem endmarkedNames_legible : endmarkedNames.Legible where
  distinct := by decide +kernel
  feedless := by decide +kernel
  undashed := by decide +kernel

theorem renumbered_drawn_alike : ∃ t u, endmarked.parse 20 [.terminal 2] = some (.ok t) ∧
    renumbered.parse 20 [.terminal 2] = some (.ok u) ∧
    t.drawing endmarkedNames = "|S\n|-E\n|-a\n|-eof\n|-B\n" ∧
    u.drawing endmarkedNames = "|S\n|-E\n|-a\n|-eof\n|-B\n" ∧
    t.unfold.plain = u.unfold.plain ∧ t.isomorphic u = true := by
  obtain ⟨t, u, parsed, reparsed, drawing, redrawing, named, named'⟩ : ∃ t u,
      endmarked.parse 20 [.terminal 2] = some (.ok t) ∧
      renumbered.parse 20 [.terminal 2] = some (.ok u) ∧
      t.unfold.text endmarkedNames 0 = "|S\n|-E\n|-a\n|-eof\n|-B\n" ∧
      u.unfold.text endmarkedNames 0 = "|S\n|-E\n|-a\n|-eof\n|-B\n" ∧
      (∀ n ∈ t.arena.nodes.toList, endmarkedNames.Interned n.symbol) ∧
      ∀ n ∈ u.arena.nodes.toList, endmarkedNames.Interned n.symbol :=
    ⟨_, _, parse_of_start endmarked_start 20 _, parse_of_start renumbered_start 20 _,
      by decide +kernel, by decide +kernel, by decide +kernel, by decide +kernel⟩
  rw [← ParseTree.drawing_eq_text] at drawing redrawing
  obtain ⟨shapes, same⟩ := isomorphic_of_drawing endmarkedNames_legible parsed reparsed
    (Arena.over_of_nodes named) (Arena.over_of_nodes named') (drawing.trans redrawing.symm)
  exact ⟨t, u, parsed, reparsed, drawing, redrawing, shapes, same⟩

end Parser
end Recognizers
