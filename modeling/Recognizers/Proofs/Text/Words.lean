import Recognizers.Text.Words

/-!
Lines and words as the pieces that a list is split into. Lines with a line feed between any two of
them are found again (`lines_unlines`). A blank parts the words of a line (`words_append_cons`), so
nothing depends on which blanks stand there, on how many of them, or on those at the ends.
-/
namespace Recognizers
namespace Text

def unlines (lines : List (List Char)) : String := String.ofList (['\n'].intercalate lines)

theorem linesFrom_eq (lineRev cs : List Char) :
    linesFrom lineRev cs = cs.splitOnPPrepend (· == '\n') lineRev := by
  induction cs generalizing lineRev with
  | nil => rw [linesFrom, List.splitOnPPrepend_nil]
  | cons c cs ih =>
    simp only [linesFrom, List.splitOnPPrepend_cons_eq_if, beq_iff_eq, ih,
      List.splitOnPPrepend_nil_right]

theorem lines_eq_splitOn (text : String) : lines text = text.toList.splitOn '\n' := by
  rw [lines, linesFrom_eq, List.splitOnPPrepend_nil_right, List.splitOn_eq_splitOnP]

theorem lines_unlines {texts : List (List Char)} (whole : ∀ line ∈ texts, '\n' ∉ line)
    (some_line : texts ≠ []) : lines (unlines texts) = texts := by
  rw [lines_eq_splitOn, unlines, String.toList_ofList,
    List.splitOn_intercalate '\n' whole some_line]

theorem lines_ended {texts : List (List Char)} (whole : ∀ line ∈ texts, '\n' ∉ line) :
    lines (String.ofList (texts.flatMap (· ++ ['\n']))) = texts ++ [[]] := by
  rw [lines_eq_splitOn, String.toList_ofList]
  induction texts with
  | nil => rfl
  | cons line texts ih =>
    have feedless : '\n' ∉ line := whole line List.mem_cons_self
    rw [List.flatMap_cons, List.append_assoc, List.singleton_append,
      List.splitOn_append_cons_self_of_not_mem feedless,
      ih fun text member => whole text (List.mem_cons_of_mem line member), List.cons_append]

theorem not_mem_intercalate {c separator : Char} (other : c ≠ separator)
    {pieces : List (List Char)} (without : ∀ piece ∈ pieces, c ∉ piece) :
    c ∉ [separator].intercalate pieces := by
  induction pieces with
  | nil => exact List.not_mem_nil
  | cons piece rest ih =>
    have first : c ∉ piece := without piece List.mem_cons_self
    have later := ih fun next member => without next (List.mem_cons_of_mem piece member)
    cases rest with
    | nil => rwa [List.intercalate_singleton]
    | cons next rest =>
      rw [List.intercalate_cons_cons, List.mem_append, List.mem_append, List.mem_singleton]
      simp only [first, other, later, or_self, not_false_eq_true]

theorem wordsFrom_eq (wordRev cs : List Char) : wordsFrom wordRev cs =
    ((cs.splitOnPPrepend isBlank wordRev).filter (· ≠ [])).map String.ofList := by
  have finished_eq (wordRev : List Char) : finished wordRev =
      ([wordRev.reverse].filter (· ≠ [])).map String.ofList := by
    by_cases none : wordRev = [] <;> simp [finished, none]
  induction cs generalizing wordRev with
  | nil => rw [wordsFrom, finished_eq, List.splitOnPPrepend_nil]
  | cons c cs ih =>
    rw [wordsFrom, List.splitOnPPrepend_cons_eq_if]
    split
    · rw [finished_eq, ih, List.splitOnPPrepend_nil_right, ← List.map_append, ← List.filter_append,
        List.singleton_append]
    · exact ih (c :: wordRev)

theorem words_eq_splitOnP (line : List Char) :
    words line = ((line.splitOnP isBlank).filter (· ≠ [])).map String.ofList := by
  rw [words, wordsFrom_eq, List.splitOnPPrepend_nil_right]

theorem words_append_cons {c : Char} (blank : isBlank c = true) (front back : List Char) :
    words (front ++ c :: back) = words front ++ words back := by
  rw [words_eq_splitOnP, List.splitOnP_append_cons front back blank, List.filter_append,
    List.map_append, ← words_eq_splitOnP, ← words_eq_splitOnP]

def Gap (gap : List Char) : Prop := ∀ c ∈ gap, isBlank c = true

instance (gap : List Char) : Decidable (Gap gap) := List.decidableBAll _ gap

theorem Gap.nil : Gap [] := by
  intro c member
  cases member

theorem words_gap_append {gap : List Char} (blanks : Gap gap) (back : List Char) :
    words (gap ++ back) = words back := by
  induction gap with
  | nil => rfl
  | cons c gap ih =>
    have first : isBlank c = true := blanks c List.mem_cons_self
    exact (words_append_cons first [] (gap ++ back)).trans
      (ih fun d member => blanks d (List.mem_cons_of_mem c member))

theorem words_gap {gap : List Char} (blanks : Gap gap) : words gap = [] := by
  rw [← List.append_nil gap, words_gap_append blanks]
  rfl

theorem words_between {gap : List Char} (blanks : Gap gap) (some_blank : gap ≠ [])
    (front back : List Char) : words (front ++ gap ++ back) = words front ++ words back := by
  cases gap with
  | nil => exact absurd rfl some_blank
  | cons c gap =>
    have first : isBlank c = true := blanks c List.mem_cons_self
    have rest : Gap gap := fun d member => blanks d (List.mem_cons_of_mem c member)
    rw [List.append_assoc, List.cons_append, words_append_cons first, words_gap_append rest]

theorem words_append_gap {gap : List Char} (blanks : Gap gap) (front : List Char) :
    words (front ++ gap) = words front := by
  by_cases none : gap = []
  · rw [none, List.append_nil]
  · have ended := words_between blanks none front []
    rwa [List.append_nil, words_gap .nil, List.append_nil] at ended

def Unbroken (cs : List Char) : Prop := ∀ c ∈ cs, isBlank c = false

instance (cs : List Char) : Decidable (Unbroken cs) := List.decidableBAll _ cs

structure Solid (word : List Char) : Prop where
  nonempty : word ≠ []
  unbroken : Unbroken word

instance (word : List Char) : Decidable (Solid word) :=
  decidable_of_iff (word ≠ [] ∧ Unbroken word)
    ⟨fun ⟨nonempty, unbroken⟩ => ⟨nonempty, unbroken⟩, fun solid => ⟨solid.1, solid.2⟩⟩

theorem Unbroken.not_mem {cs : List Char} (unbroken : Unbroken cs) {c : Char}
    (blank : isBlank c = true) : c ∉ cs := by
  intro member
  rw [unbroken c member] at blank
  cases blank

theorem isBlank_of_isDigit {c : Char} (digit : c.isDigit = true) : isBlank c = false := by
  have bounds : 48 ≤ c.toNat ∧ c.toNat ≤ 57 := by
    simpa [Char.isDigit, UInt32.le_iff_toNat_le, ← Char.toNat_val] using digit
  simp [isBlank, blankRanges]
  omega

theorem unbroken_toString (n : Nat) : Unbroken (toString n).toList := by
  intro c member
  rw [Nat.toString_eq_ofList_toDigits, String.toList_ofList] at member
  exact isBlank_of_isDigit (Nat.isDigit_of_mem_toDigits (by decide) (by decide) member)

/-- Rows of cells, with a tab between any two cells and a line feed behind each row. Neither a line
nor a cell is split within a cell. -/
theorem split_cells {rows : List (List String)}
    (unbroken : ∀ row ∈ rows, ∀ cell ∈ row, Unbroken cell.toList)
    (occupied : ∀ row ∈ rows, row ≠ []) :
    (lines (String.join (rows.map fun row => "\t".intercalate row ++ "\n"))).dropLast.map
      (List.splitOn '\t') = rows.map (List.map String.toList) := by
  have text : String.join (rows.map fun row => "\t".intercalate row ++ "\n") =
      String.ofList ((rows.map fun row => ['\t'].intercalate (row.map String.toList)).flatMap
        (· ++ ['\n'])) := by
    rw [← String.toList_inj, String.toList_ofList, String.toList_join, List.flatMap_map,
      List.flatMap_map]
    simp only [String.toList_append, String.toList_intercalate]
    rfl
  have without {c : Char} (blank : isBlank c = true) {row : List String} (inside : row ∈ rows) :
      ∀ cell ∈ row.map String.toList, c ∉ cell := by
    intro cell member
    obtain ⟨cell, here, rfl⟩ := List.mem_map.mp member
    exact (unbroken row inside cell here).not_mem blank
  have whole : ∀ line ∈ rows.map fun row => ['\t'].intercalate (row.map String.toList),
      '\n' ∉ line := by
    intro line member
    obtain ⟨row, inside, rfl⟩ := List.mem_map.mp member
    exact not_mem_intercalate (by decide) (without (by decide) inside)
  rw [text, lines_ended whole, List.dropLast_concat, List.map_map]
  refine List.map_congr_left fun row inside => ?_
  have some_cell : row.map String.toList ≠ [] := by
    rw [ne_eq, List.map_eq_nil_iff]
    exact occupied row inside
  exact List.splitOn_intercalate '\t' (without (by decide) inside) some_cell

theorem words_of_solid {word : List Char} (solid : Solid word) :
    words word = [String.ofList word] := by
  rw [words_eq_splitOnP, List.splitOnP_eq_singleton solid.unbroken]
  simp [solid.nonempty]

theorem solid_of_mem_finished {wordRev : List Char} (unbroken : Unbroken wordRev)
    {word : String} (member : word ∈ finished wordRev) : Solid word.toList := by
  rw [finished] at member
  split at member
  · cases member
  · rename_i nonempty
    rw [List.mem_singleton.mp member, String.toList_ofList]
    exact ⟨by simpa using nonempty, fun c inside => unbroken c (List.mem_reverse.mp inside)⟩

theorem solid_of_mem_wordsFrom {wordRev line : List Char}
    (unbroken : Unbroken wordRev) {word : String}
    (member : word ∈ wordsFrom wordRev line) : Solid word.toList := by
  induction line generalizing wordRev with
  | nil => exact solid_of_mem_finished unbroken member
  | cons c line ih =>
    rw [wordsFrom] at member
    split at member
    · rcases List.mem_append.mp member with before | later
      · exact solid_of_mem_finished unbroken before
      · exact ih (fun d none => absurd none List.not_mem_nil) later
    · rename_i unblank
      rw [Bool.not_eq_true] at unblank
      refine ih (fun d inside => ?_) member
      rcases List.mem_cons.mp inside with rfl | earlier
      · exact unblank
      · exact unbroken d earlier

theorem solid_of_mem_words {line : List Char} {word : String} (member : word ∈ words line) :
    Solid word.toList :=
  solid_of_mem_wordsFrom (fun _ none => absurd none List.not_mem_nil) member

end Text
end Recognizers
