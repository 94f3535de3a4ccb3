import Recognizers.Proofs.Graph.EdgeLines
import Recognizers.Proofs.Text.Words

/-!
The states that the lines of a text declare. A drawing declares the states that it was made of and no
others, as long as its labels leave their lines whole or are nothing but a line feed
(`declaredStates_digraph`).
-/
namespace Recognizers

/-- The serial of the state that a line declares, and whether it accepts. -/
def readNodeLine (line : List Char) : Option (String × Bool) :=
  let name := (line.drop 4).takeWhile Char.isLower
  if line = "    ".toList ++ (name ++ " [shape=circle];".toList) then
    some (.ofList name, false)
  else if line = "    ".toList ++ (name ++ " [shape=doublecircle];".toList) then
    some (.ofList name, true)
  else none

def declaredStates (text : String) : List (String × Bool) :=
  (Text.lines text).filterMap readNodeLine

theorem declaredStates_append (first later : String) :
    declaredStates (first ++ "\n" ++ later) = declaredStates first ++ declaredStates later := by
  have joined : (first ++ "\n" ++ later).toList = first.toList ++ '\n' :: later.toList := by simp
  simp only [declaredStates, Text.lines_eq_splitOn, joined, List.splitOn_append_cons_self,
    List.filterMap_append]

theorem declaredStates_line {line : String} (whole : '\n' ∉ line.toList) :
    declaredStates line = (readNodeLine line.toList).toList := by
  rw [declaredStates, Text.lines_eq_splitOn, List.splitOn_eq_singleton whole]
  cases read : readNodeLine line.toList <;> simp [read]

theorem takeWhile_drop_word {word rest : List Char} {c : Char}
    (small : ∀ x ∈ word, x.isLower = true) (stop : c.isLower = false) :
    (("    ".toList ++ (word ++ c :: rest)).drop 4).takeWhile Char.isLower = word := by
  have read : (word ++ c :: rest).span Char.isLower = (word, c :: rest) := span_word small stop
  rw [List.span_eq_takeWhile_dropWhile] at read
  exact (Prod.mk.inj read).1

theorem readNodeLine_nodeLine {s : State} (word : Serial.IsWord s.serial) :
    readNodeLine ("    " ++ Graph.nodeLine s ++ ";").toList = some (s.serial, s.accepting) := by
  have line : ("    " ++ Graph.nodeLine s ++ ";").toList = "    ".toList ++ (s.serial.toList ++
      ' ' :: ("[shape=".toList ++ ((Graph.shape s).toList ++ "];".toList))) := by
    simp [Graph.nodeLine]
  rw [line, readNodeLine, takeWhile_drop_word word (by decide)]
  cases accepting : s.accepting <;> simp [Graph.shape, accepting]

theorem readNodeLine_arrow {word rest : List Char} (small : ∀ x ∈ word, x.isLower = true) :
    readNodeLine ("    ".toList ++ (word ++ ' ' :: '-' :: rest)) = none := by
  rw [readNodeLine, takeWhile_drop_word small (by decide)]
  simp

theorem feedless_word {name : String} (word : Serial.IsWord name) : '\n' ∉ name.toList :=
  fun member => absurd (word _ member) (by decide)

theorem declaredStates_nodeLine {s : State} (word : Serial.IsWord s.serial) :
    declaredStates ("    " ++ Graph.nodeLine s ++ ";") = [(s.serial, s.accepting)] := by
  have whole : '\n' ∉ ("    " ++ Graph.nodeLine s ++ ";").toList := by
    cases accepting : s.accepting <;>
      simp [Graph.nodeLine, Graph.shape, accepting, feedless_word word]
  rw [declaredStates_line whole, readNodeLine_nodeLine word]
  rfl

theorem declaredStates_edgeLine {source target label : String} (word : Serial.IsWord source)
    (other : Serial.IsWord target) (quiet : '\n' ∉ label.toList ∨ label = "\n") :
    declaredStates ("    " ++ edgeLine source label target ++ ";") = [] := by
  rcases quiet with whole | rfl
  · have line : ("    " ++ edgeLine source label target ++ ";").toList = "    ".toList ++
        (source.toList ++ ' ' :: '-' :: ("> ".toList ++ (target.toList ++
          ("[label=\"".toList ++ (label.toList ++ "\"];".toList))))) := by
      simp [edgeLine]
    rw [declaredStates_line, line, readNodeLine_arrow word]
    · rfl
    · simp [line, feedless_word word, feedless_word other, whole]
  · have opened : ("    " ++ source ++ " -> " ++ target ++ "[label=\"").toList = "    ".toList ++
        (source.toList ++ ' ' :: '-' :: ("> ".toList ++ (target.toList ++
          "[label=\"".toList))) := by
      simp
    have lines : "    " ++ edgeLine source "\n" target ++ ";" =
        "    " ++ source ++ " -> " ++ target ++ "[label=\"" ++ "\n" ++ "\"];" := by
      simp [edgeLine, String.append_assoc]
    rw [lines, declaredStates_append, declaredStates_line, opened, readNodeLine_arrow word]
    · decide
    · simp [opened, feedless_word word, feedless_word other]

theorem declaredStates_statements (statements : List String) (rest : String) :
    declaredStates (String.join (statements.map Graph.indented) ++ rest) =
      statements.flatMap (fun statement => declaredStates ("    " ++ statement ++ ";")) ++
        declaredStates rest := by
  induction statements with
  | nil => simp
  | cons statement statements ih =>
    have split : String.join ((statement :: statements).map Graph.indented) ++ rest =
        "    " ++ statement ++ ";" ++ "\n" ++
          (String.join (statements.map Graph.indented) ++ rest) := by
      simp [Graph.indented, String.append_assoc]
    rw [split, declaredStates_append, ih, List.flatMap_cons, List.append_assoc]

theorem declaredStates_digraph {states : List State} {lines : List String}
    (words : ∀ s ∈ states, Serial.IsWord s.serial)
    (quiet : ∀ line ∈ lines, declaredStates ("    " ++ line ++ ";") = []) :
    declaredStates (Graph.digraph ("rankdir=LR" :: (states.map Graph.nodeLine ++ lines))) =
      states.map fun s => (s.serial, s.accepting) := by
  have nodes : states.flatMap (fun s => declaredStates ("    " ++ Graph.nodeLine s ++ ";")) =
      states.map fun s => (s.serial, s.accepting) := by
    rw [List.flatMap_congr fun s member => declaredStates_nodeLine (words s member)]
    exact List.flatMap_pure_eq_map _ _
  have edges : lines.flatMap (fun line => declaredStates ("    " ++ line ++ ";")) = [] :=
    List.flatMap_eq_nil_iff.mpr quiet
  have header : declaredStates r"digraph nfa {" = [] := by decide
  have direction : declaredStates ("    " ++ "rankdir=LR" ++ ";") = [] := by decide
  have footer : declaredStates (r"}" ++ "\n") = [] := by decide
  unfold Graph.digraph
  rw [String.append_assoc, String.append_assoc, declaredStates_append, header,
    declaredStates_statements, List.flatMap_cons, direction, List.flatMap_append, List.flatMap_map,
    nodes, edges, footer]
  simp

end Recognizers
