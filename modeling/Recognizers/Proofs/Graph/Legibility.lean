import Recognizers.Proofs.Graph.EdgeLines

/-!
How the statements of a drawing can be told apart. The node lines are known by their shapes, whatever
follows (`nodeLines_unique`). The edge lines are known as far as no label feigns the border between two
of them (`edgeLines_unique`): labels are drawn as they are.
-/
namespace Recognizers

variable {source target label : String} {lines lines' : List String} {names : String → Prop}
  {text rest rest' : List Char}

def opening (source target : String) : String := "    " ++ source ++ " -> " ++ target ++ "[label="

/-- What stands between the labels of two edges in a drawing, the second of them from `source` to
`target`. -/
def border (source target : String) : String := "\"];\n" ++ opening source target ++ "\""

/-- The label, closed by its quotation mark, holds the border before such an edge. -/
def Feigns (source target label : String) : Prop :=
  (border source target).toList <:+: (label ++ "\"").toList

instance (source target label : String) : Decidable (Feigns source target label) :=
  inferInstanceAs (Decidable ((border source target).toList <:+: (label ++ "\"").toList))

def Plain (names : String → Prop) (label : String) : Prop :=
  ∀ source target, names source → names target → ¬ Feigns source target label

def Joins (names : String → Prop) (line : String) : Prop :=
  ∃ source label target, line = edgeLine source label target ∧ names source ∧ names target

def Legible (names : String → Prop) (line : String) : Prop :=
  ∃ source label target, line = edgeLine source label target ∧ names source ∧ names target ∧
    Plain names label

def statements (lines : List String) : List Char :=
  lines.flatMap fun line => (Graph.indented line).toList

def closing : List Char := ['}', '\n']

/-- What is behind the node lines or an edge line of a drawing: its end or one more edge line. -/
inductive Follows (names : String → Prop) : List Char → Prop where
  | closing : Follows names closing
  | edge {source target : String} (rest : List Char) (first : names source)
      (second : names target) : Follows names ((opening source target).toList ++ '"' :: rest)

theorem statements_cons (line : String) (lines : List String) (rest : List Char) :
    statements (line :: lines) ++ rest =
      (Graph.indented line).toList ++ (statements lines ++ rest) := by
  rw [statements, List.flatMap_cons, List.append_assoc]
  rfl

theorem indented_ne_closing (line : String) : (Graph.indented line).toList ++ text ≠ closing := by
  intro same
  have first := congrArg List.head? same
  exact absurd first (by simp [Graph.indented, closing])

theorem toList_opening (source target : String) : (opening source target).toList =
    "    ".toList ++ (source.toList ++ ' ' :: ("-> ".toList ++
      (target.toList ++ '[' :: "label=".toList))) := by
  simp [opening]

theorem toList_indented_edgeLine (source label target : String) :
    (Graph.indented (edgeLine source label target)).toList =
      (opening source target).toList ++ '"' :: (label.toList ++ '"' :: "];\n".toList) := by
  simp [Graph.indented, edgeLine, opening]

theorem toList_indented_nodeLine (s : State) : (Graph.indented (Graph.nodeLine s)).toList =
    "    ".toList ++ (s.serial.toList ++ ' ' :: ("[shape=".toList ++
      ((Graph.shape s).toList ++ "];\n".toList))) := by
  simp [Graph.indented, Graph.nodeLine]

theorem word_unique {word word' : List Char} {c c' : Char}
    (small : ∀ x ∈ word, x.isLower = true) (small' : ∀ x ∈ word', x.isLower = true)
    (stop : c.isLower = false) (stop' : c'.isLower = false)
    (same : word ++ c :: rest = word' ++ c' :: rest') : word = word' ∧ c :: rest = c' :: rest' := by
  have read := congrArg (List.span Char.isLower) same
  rw [span_word small stop, span_word small' stop'] at read
  exact Prod.mk.inj read

/-- A text that reaches one of its marks behind `front`, which has none, holds `front` and a mark. -/
theorem prefix_of_mark {mark : Char} {front : List Char} (absent : mark ∉ front)
    (same : front ++ mark :: rest = text ++ mark :: rest') :
    front ++ [mark] <+: text ++ [mark] := by
  rcases List.append_eq_append_iff.mp same with ⟨more, rfl, here⟩ | ⟨more, rfl, here⟩
  · cases more with
    | nil => simp
    | cons c more =>
      cases (List.cons.inj here).1
      exact ⟨more ++ [mark], by simp⟩
  · cases more with
    | nil => simp
    | cons c more =>
      cases (List.cons.inj here).1
      exact absurd (by simp) absent

theorem opening_unique {source' target' : String} (words : ∀ name, names name → Serial.IsWord name)
    (first : names source) (second : names target) (first' : names source')
    (second' : names target')
    (same : (opening source target).toList ++ rest = (opening source' target').toList ++ rest') :
    source = source' ∧ target = target' ∧ rest = rest' := by
  simp only [toList_opening, List.append_assoc, List.cons_append, List.append_cancel_left_eq] at same
  obtain ⟨sources, behind⟩ :=
    word_unique (words _ first) (words _ first') (by decide) (by decide) same
  obtain ⟨targets, inside⟩ := word_unique (words _ second) (words _ second') (by decide) (by decide)
    (List.append_cancel_left (List.cons.inj behind).2)
  exact ⟨String.toList_inj.mp sources, String.toList_inj.mp targets,
    List.append_cancel_left (List.cons.inj inside).2⟩

theorem quote_not_mem_opening (word : Serial.IsWord source) (other : Serial.IsWord target) :
    '"' ∉ (opening source target).toList := by
  have apart : ∀ {name : String}, Serial.IsWord name → '"' ∉ name.toList :=
    fun word member => absurd (word _ member) (by decide)
  simp [opening, apart word, apart other]

/-- A label that another reading of the same text would end earlier feigns the border there. -/
theorem feigns_of_follows {more : List Char} (words : ∀ name, names name → Serial.IsWord name)
    (follows : Follows names rest) (longer : more ≠ [])
    (same : '"' :: ("];\n".toList ++ rest) = more ++ '"' :: rest') :
    ∃ source target, names source ∧ names target ∧
      (border source target).toList <+: more ++ ['"'] := by
  obtain ⟨c, more, rfl⟩ := List.exists_cons_of_ne_nil longer
  obtain ⟨rfl, here⟩ := List.cons.inj same
  cases follows with
  | closing =>
    have mark : '"' ∈ "];\n".toList ++ closing := by rw [here]; simp
    exact absurd mark (by decide)
  | @edge source target rest first second =>
    refine ⟨source, target, first, second, ?_⟩
    have absent : '"' ∉ "];\n".toList ++ (opening source target).toList := by
      simp [quote_not_mem_opening (words _ first) (words _ second)]
    rw [← List.append_assoc] at here
    simpa [border] using prefix_of_mark absent here

theorem Legible.joins {line : String} (legible : Legible names line) : Joins names line := by
  obtain ⟨source, label, target, same, first, second, _⟩ := legible
  exact ⟨source, label, target, same, first, second⟩

theorem follows_statements (joins : ∀ line ∈ lines, Joins names line) :
    Follows names (statements lines ++ closing) := by
  cases lines with
  | nil => exact .closing
  | cons line lines =>
    obtain ⟨source, label, target, rfl, first, second⟩ := joins line List.mem_cons_self
    rw [statements_cons, toList_indented_edgeLine, List.append_assoc, List.cons_append]
    exact .edge _ first second

theorem label_unique {label' : String} (words : ∀ name, names name → Serial.IsWord name)
    (follows : Follows names rest) (plain : Plain names label') {more : List Char}
    (longer : label'.toList = label.toList ++ more)
    (same : '"' :: ("];\n".toList ++ rest) = more ++ '"' :: ("];\n".toList ++ rest')) :
    label = label' ∧ rest = rest' := by
  by_cases nothing : more = []
  · subst nothing
    rw [List.append_nil] at longer
    exact ⟨(String.toList_inj.mp longer).symm, by simpa using same⟩
  · obtain ⟨one, other, first, second, ⟨behind, held⟩⟩ := feigns_of_follows words follows nothing same
    refine absurd ⟨label.toList, behind, ?_⟩ (plain one other first second)
    rw [List.append_assoc, held, String.toList_append, longer, List.append_assoc]
    rfl

theorem edgeLines_unique (words : ∀ name, names name → Serial.IsWord name)
    (legible : ∀ line ∈ lines, Legible names line) (legible' : ∀ line ∈ lines', Legible names line)
    (same : statements lines ++ closing = statements lines' ++ closing) : lines = lines' := by
  induction lines generalizing lines' with
  | nil =>
    cases lines' with
    | nil => rfl
    | cons line' lines' =>
      rw [statements_cons] at same
      exact absurd same.symm (indented_ne_closing line')
  | cons line lines ih =>
    cases lines' with
    | nil =>
      rw [statements_cons] at same
      exact absurd same (indented_ne_closing line)
    | cons line' lines' =>
      obtain ⟨⟨source, label, target, rfl, first, second, plain⟩, later⟩ :=
        List.forall_mem_cons.mp legible
      obtain ⟨⟨source', label', target', rfl, first', second', plain'⟩, later'⟩ :=
        List.forall_mem_cons.mp legible'
      simp only [statements_cons, toList_indented_edgeLine, List.append_assoc, List.cons_append] at same
      obtain ⟨rfl, rfl, inside⟩ := opening_unique words first second first' second' same
      -- One label begins with the other, and behind the shorter one there is the end or an edge line.
      have labels : label = label' ∧ statements lines ++ closing = statements lines' ++ closing := by
        rcases List.append_eq_append_iff.mp (List.cons.inj inside).2 with
          ⟨more, longer, here⟩ | ⟨more, longer, here⟩
        · have follows := follows_statements fun line member => (later line member).joins
          exact label_unique words follows plain' longer here
        · have follows := follows_statements fun line member => (later' line member).joins
          obtain ⟨labels, rests⟩ := label_unique words follows plain longer here
          exact ⟨labels.symm, rests.symm⟩
      rw [labels.1, ih later later' labels.2]

theorem indented_nodeLine_ne_follows (words : ∀ name, names name → Serial.IsWord name) {s : State}
    (word : Serial.IsWord s.serial) (follows : Follows names rest) :
    (Graph.indented (Graph.nodeLine s)).toList ++ text ≠ rest := by
  intro same
  cases follows with
  | closing => exact indented_ne_closing _ same
  | edge _ first _ =>
    simp only [toList_indented_nodeLine, toList_opening, List.append_assoc, List.cons_append,
      List.append_cancel_left_eq] at same
    have behind := (word_unique word (words _ first) (by decide) (by decide) same).2
    have marks := congrArg List.head? (List.cons.inj behind).2
    exact absurd marks (by simp)

theorem shape_unique {s s' : State}
    (same : (Graph.shape s).toList ++ rest = (Graph.shape s').toList ++ rest') :
    s.accepting = s'.accepting ∧ rest = rest' := by
  cases here : s.accepting with
  | false =>
    cases there : s'.accepting with
    | false => exact ⟨rfl, by simpa [Graph.shape, here, there] using same⟩
    | true => simp [Graph.shape, here, there] at same
  | true =>
    cases there : s'.accepting with
    | false => simp [Graph.shape, here, there] at same
    | true => exact ⟨rfl, by simpa [Graph.shape, here, there] using same⟩

theorem nodeLines_unique (words : ∀ name, names name → Serial.IsWord name) {states states' : List State}
    (shown : ∀ s ∈ states, Serial.IsWord s.serial) (shown' : ∀ s ∈ states', Serial.IsWord s.serial)
    (follows : Follows names rest) (follows' : Follows names rest')
    (same : statements (states.map Graph.nodeLine) ++ rest =
      statements (states'.map Graph.nodeLine) ++ rest') :
    states.map (fun s => (s.serial, s.accepting)) = states'.map (fun s => (s.serial, s.accepting)) ∧
      rest = rest' := by
  induction states generalizing states' with
  | nil =>
    cases states' with
    | nil => exact ⟨rfl, same⟩
    | cons s' states' =>
      rw [List.map_cons, statements_cons] at same
      have word := shown' _ List.mem_cons_self
      exact absurd same.symm (indented_nodeLine_ne_follows words word follows)
  | cons s states ih =>
    cases states' with
    | nil =>
      rw [List.map_cons, statements_cons] at same
      have word := shown _ List.mem_cons_self
      exact absurd same (indented_nodeLine_ne_follows words word follows')
    | cons s' states' =>
      obtain ⟨word, later⟩ := List.forall_mem_cons.mp shown
      obtain ⟨word', later'⟩ := List.forall_mem_cons.mp shown'
      simp only [List.map_cons, statements_cons, toList_indented_nodeLine, List.append_assoc,
        List.cons_append, List.append_cancel_left_eq] at same
      obtain ⟨serials, behind⟩ := word_unique word word' (by decide) (by decide) same
      obtain ⟨accepting, tails⟩ :=
        shape_unique (List.append_cancel_left (List.cons.inj behind).2)
      obtain ⟨rows, rests⟩ := ih later later' (List.append_cancel_left tails)
      refine ⟨?_, rests⟩
      rw [List.map_cons, List.map_cons, rows, String.toList_inj.mp serials, accepting]

theorem toList_drawing (nodes lines : List String) :
    (Graph.digraph ("rankdir=LR" :: (nodes ++ lines))).toList =
      (r"digraph nfa {" ++ "\n" ++ Graph.indented "rankdir=LR").toList ++
        (statements nodes ++ (statements lines ++ closing)) := by
  unfold Graph.digraph
  simp [statements, closing, List.flatMap_map]

end Recognizers
