import Recognizers.Proofs.Description.Meaning
import Recognizers.Proofs.Text.Words

/-!
The layout of a description: lines without words, the blanks around the words of a line, comments,
carriage returns, and which of its two names the directive of a move goes by. A text that differs
from another in its layout (`Relaid`) stands for the same parser.
-/
namespace Recognizers
namespace Description

open Text

def Note : List Char → Prop
  | [] => True
  | c :: _ => c = '#'

structure Word (word : List Char) : Prop extends Solid word where
  uncut : '#' ∉ word

instance (word : List Char) : Decidable (Word word) :=
  decidable_of_iff (Solid word ∧ '#' ∉ word)
    ⟨fun ⟨solid, uncut⟩ => ⟨solid, uncut⟩, fun whole => ⟨whole.toSolid, whole.uncut⟩⟩

inductive Arguments : Nat → List Char → Prop
  | none {gap note : List Char} : Gap gap → Note note → Arguments 0 (gap ++ note)
  | one {n : Nat} {gap word back : List Char} : Gap gap → gap ≠ [] → Word word →
      Arguments n back → Arguments (n + 1) (gap ++ (word ++ back))

/-- One line is the other one in another layout. -/
inductive LineEdit : List Char → List Char → Prop
  | ahead {gap gap' back : List Char} : Gap gap → Gap gap' → LineEdit (gap ++ back) (gap' ++ back)
  | between {gap gap' front back : List Char} : Gap gap → gap ≠ [] → Gap gap' → gap' ≠ [] →
      LineEdit (front ++ gap ++ back) (front ++ gap' ++ back)
  | behind {gap gap' front note : List Char} : Gap gap → Gap gap' → Note note →
      LineEdit (front ++ gap ++ note) (front ++ gap' ++ note)
  | comment {front note note' : List Char} : Note note → Note note' →
      LineEdit (front ++ note) (front ++ note')
  | carriage (line : List Char) : LineEdit line (line ++ ['\r'])
  | interchange {gap back : List Char} : Gap gap → Arguments 3 back →
      LineEdit (gap ++ "shift".toList ++ back) (gap ++ "goto".toList ++ back)

/-- The line that line `i` becomes when one is added behind the first `n`. -/
def afterAdding (n i : Nat) : Option Nat := if i ≤ n then some i else some (i + 1)

def afterDropping (n i : Nat) : Option Nat :=
  if i ≤ n then some i else if i = n + 1 then none else some (i - 1)

/-- One text is the other one with a line added, left out or changed in its layout. The function
tells which line of the second one a line of the first one has become, counted from 1. -/
inductive Edit : String → String → (Nat → Option Nat) → Prop
  | add {before after : List (List Char)} {line : List Char} :
      (∀ text ∈ before ++ line :: after, '\n' ∉ text) → Arguments 0 line →
      Edit (unlines (before ++ after)) (unlines (before ++ line :: after))
        (afterAdding before.length)
  | drop {before after : List (List Char)} {line : List Char} :
      (∀ text ∈ before ++ line :: after, '\n' ∉ text) → Arguments 0 line →
      Edit (unlines (before ++ line :: after)) (unlines (before ++ after))
        (afterDropping before.length)
  | change {before after : List (List Char)} {line other : List Char} :
      (∀ text ∈ before ++ line :: after, '\n' ∉ text) → '\n' ∉ other →
      LineEdit line other ∨ LineEdit other line →
      Edit (unlines (before ++ line :: after)) (unlines (before ++ other :: after)) some

inductive Relaid : String → String → (Nat → Option Nat) → Prop
  | same (source : String) : Relaid source source some
  | edit {source middle other : String} {first moved : Nat → Option Nat} :
      Edit source middle first → Relaid middle other moved →
      Relaid source other fun i => (first i).bind moved

variable {gap note word front back line other : List Char}

theorem gap_uncut (blanks : Gap gap) : ∀ c ∈ gap, decide (c ≠ '#') = true := by
  intro c member
  rw [decide_eq_true_iff]
  rintro rfl
  exact absurd (blanks '#' member) (by decide)

theorem takeWhile_note (starts : Note note) : note.takeWhile (· ≠ '#') = [] := by
  cases note with
  | nil => rfl
  | cons c rest =>
    cases starts
    rfl

theorem takeWhile_of_cut (cut : '#' ∈ front) (back : List Char) :
    (front ++ back).takeWhile (· ≠ '#') = front.takeWhile (· ≠ '#') := by
  induction front with
  | nil => cases cut
  | cons c front ih =>
    rw [List.cons_append, List.takeWhile_cons, List.takeWhile_cons]
    split
    · rename_i other
      rcases List.mem_cons.mp cut with rfl | later
      · simp at other
      · rw [ih later]
    · rfl

theorem takeWhile_of_uncut (uncut : '#' ∉ front) (back : List Char) :
    (front ++ back).takeWhile (· ≠ '#') = front ++ back.takeWhile (· ≠ '#') := by
  refine List.takeWhile_append_of_pos fun c member => ?_
  rw [decide_eq_true_iff]
  rintro rfl
  exact uncut member

open Directive (lineWords)

theorem lineWords_of_cut (cut : '#' ∈ front) (back : List Char) :
    lineWords (front ++ back) = lineWords front := by
  rw [lineWords, takeWhile_of_cut cut, lineWords]

theorem lineWords_of_uncut (uncut : '#' ∉ front) (back : List Char) :
    lineWords (front ++ back) = words (front ++ back.takeWhile (· ≠ '#')) := by
  rw [lineWords, takeWhile_of_uncut uncut]

theorem lineWords_self (uncut : '#' ∉ front) : lineWords front = words front := by
  have alone := lineWords_of_uncut uncut []
  rwa [List.append_nil, List.takeWhile_nil, List.append_nil] at alone

theorem lineWords_ahead (blanks : Gap gap) (back : List Char) :
    lineWords (gap ++ back) = lineWords back := by
  rw [lineWords, List.takeWhile_append_of_pos (gap_uncut blanks), words_gap_append blanks,
    lineWords]

theorem lineWords_between (blanks : Gap gap) (some_blank : gap ≠ []) (uncut : '#' ∉ front)
    (back : List Char) : lineWords (front ++ gap ++ back) = words front ++ lineWords back := by
  rw [List.append_assoc, lineWords_of_uncut uncut,
    List.takeWhile_append_of_pos (gap_uncut blanks), ← List.append_assoc,
    words_between blanks some_blank, lineWords]

theorem lineWords_behind (blanks : Gap gap) (starts : Note note) (front : List Char) :
    lineWords (front ++ gap ++ note) = lineWords front := by
  rw [List.append_assoc]
  -- Where a comment begins in front already, all that stands behind belongs to it.
  by_cases cut : '#' ∈ front
  · exact lineWords_of_cut cut _
  · rw [lineWords_self cut, lineWords_of_uncut cut, List.takeWhile_append_of_pos (gap_uncut blanks),
      takeWhile_note starts, List.append_nil, words_append_gap blanks]

theorem lineWords_note (starts : Note note) (front : List Char) :
    lineWords (front ++ note) = lineWords front := by
  have behind := lineWords_behind Gap.nil starts front
  rwa [List.append_nil] at behind

theorem lineWords_word (whole : Word word) : lineWords word = [String.ofList word] := by
  rw [lineWords_self whole.uncut, words_of_solid whole.toSolid]

theorem Arguments.lineWords_eq {n : Nat} (arguments : Arguments n back) :
    ∃ args : List String, args.length = n ∧
      ∀ word, Word word → lineWords (word ++ back) = String.ofList word :: args := by
  induction arguments with
  | none blanks starts =>
    refine ⟨[], rfl, fun word whole => ?_⟩
    rw [← List.append_assoc, lineWords_behind blanks starts, lineWords_word whole]
  | @one n gap argument back blanks some_blank solid _ ih =>
    obtain ⟨args, count, spelled⟩ := ih
    refine ⟨String.ofList argument :: args, congrArg (· + 1) count, fun word whole => ?_⟩
    rw [← List.append_assoc, lineWords_between blanks some_blank whole.uncut,
      spelled argument solid, words_of_solid whole.toSolid, List.singleton_append]

theorem lineWords_keyword {n : Nat} (blanks : Gap gap) (arguments : Arguments n back) :
    ∃ args : List String, args.length = n ∧ ∀ keyword : String, Word keyword.toList →
      lineWords (gap ++ keyword.toList ++ back) = keyword :: args := by
  obtain ⟨args, count, spelled⟩ := arguments.lineWords_eq
  refine ⟨args, count, fun keyword whole => ?_⟩
  rw [List.append_assoc, lineWords_ahead blanks, spelled keyword.toList whole,
    String.ofList_toList]

theorem lineWords_of_no_arguments (arguments : Arguments 0 line) : lineWords line = [] := by
  cases arguments with
  | none blanks starts => exact lineWords_behind blanks starts []

def Interchanged (ws other : List String) : Prop :=
  ∃ state symbol target, ws = ["shift", state, symbol, target] ∧
    other = ["goto", state, symbol, target]

theorem LineEdit.lineWords_eq (edit : LineEdit line other) :
    lineWords line = lineWords other ∨ Interchanged (lineWords line) (lineWords other) := by
  cases edit with
  | ahead blanks blanks' => exact .inl (by rw [lineWords_ahead blanks, lineWords_ahead blanks'])
  | @between gap gap' front back blanks some_blank blanks' some_blank' =>
    refine .inl ?_
    by_cases cut : '#' ∈ front
    · rw [List.append_assoc, List.append_assoc, lineWords_of_cut cut, lineWords_of_cut cut]
    · rw [lineWords_between blanks some_blank cut, lineWords_between blanks' some_blank' cut]
  | behind blanks blanks' starts =>
    exact .inl (by rw [lineWords_behind blanks starts, lineWords_behind blanks' starts])
  | comment starts starts' => exact .inl (by rw [lineWords_note starts, lineWords_note starts'])
  | carriage line =>
    have returned : Gap ['\r'] := by decide
    have nothing : Note [] := trivial
    have behind := lineWords_behind returned nothing line
    rw [List.append_nil] at behind
    exact .inl behind.symm
  | @interchange gap back blanks arguments =>
    obtain ⟨args, count, spelled⟩ := lineWords_keyword blanks arguments
    rw [spelled "shift" (by decide), spelled "goto" (by decide)]
    match args, count with
    | [state, symbol, target], _ => exact .inr ⟨state, symbol, target, rfl, rfl⟩

end Description

namespace Parser

open Description

variable {p : Parser} {line other : List Char}

theorem obeyLine_of_edit (edit : LineEdit line other) (p : Parser) :
    p.obeyLine other = p.obeyLine line := by
  rcases edit.lineWords_eq with same | ⟨state, symbol, target, shift, goto⟩
  · exact obeyLine_congr same.symm
  · simp only [obeyLine, shift, goto]
    rfl

theorem obeyLine_of_no_arguments (arguments : Arguments 0 line) (p : Parser) :
    p.obeyLine line = .ok p := by
  rw [obeyLine, lineWords_of_no_arguments arguments]

/-- Two descriptions load alike if they give the same parser, or the same error at lines that
correspond. -/
inductive LoadAlike (moved : Nat → Option Nat) :
    Except DescriptionError Parser → Except DescriptionError Parser → Prop
  | loaded (p : Parser) : LoadAlike moved (.ok p) (.ok p)
  | failed {line line' : Nat} (cause : LineError) : moved line = some line' →
      LoadAlike moved (.error { line, cause }) (.error { line := line', cause })

theorem LoadAlike.trans {first moved : Nat → Option Nat} {a b c : Except DescriptionError Parser}
    (left : LoadAlike first a b) (right : LoadAlike moved b c) :
    LoadAlike (fun i => (first i).bind moved) a c := by
  cases left with
  | loaded p =>
    cases right with
    | loaded => exact .loaded p
  | failed cause here =>
    cases right with
    | failed _ there =>
      refine .failed cause ?_
      rw [here]
      exact there

theorem LoadAlike.symm {moved back : Nat → Option Nat} {a b : Except DescriptionError Parser}
    (alike : LoadAlike moved a b) (inverse : ∀ i j, moved i = some j → back j = some i) :
    LoadAlike back b a := by
  cases alike with
  | loaded p => exact .loaded p
  | failed cause here => exact .failed cause (inverse _ _ here)

theorem obeyLines_renumber {moved : Nat → Option Nat} {texts : List (List Char)} {n m : Nat}
    (shift : ∀ k, moved (n + k) = some (m + k)) (p : Parser) :
    LoadAlike moved (p.obeyLines n texts) (p.obeyLines m texts) := by
  induction texts generalizing p n m with
  | nil => exact .loaded p
  | cons text rest ih =>
    rw [obeyLines_cons, obeyLines_cons]
    cases p.obeyLine text with
    | error cause => exact .failed cause (shift 0)
    | ok next =>
      refine ih (fun k => ?_) next
      have later := shift (k + 1)
      rwa [Nat.add_comm k, ← Nat.add_assoc, ← Nat.add_assoc] at later

theorem obeyLines_before {moved : Nat → Option Nat} {before after after' : List (List Char)}
    {n : Nat} (fixed : ∀ i < n + before.length, moved i = some i)
    (rest : ∀ p, LoadAlike moved (obeyLines p (n + before.length) after)
      (obeyLines p (n + before.length) after')) (p : Parser) :
    LoadAlike moved (p.obeyLines n (before ++ after)) (p.obeyLines n (before ++ after')) := by
  induction before generalizing p n with
  | nil => exact rest p
  | cons text before ih =>
    rw [List.length_cons, Nat.add_comm before.length, ← Nat.add_assoc] at fixed rest
    rw [List.cons_append, List.cons_append, obeyLines_cons, obeyLines_cons]
    cases p.obeyLine text with
    | error cause => exact .failed cause (fixed n (by omega))
    | ok next => exact ih fixed rest next

theorem ofDescription_unlines {texts : List (List Char)} (whole : ∀ text ∈ texts, '\n' ∉ text) :
    ofDescription (Text.unlines texts) = obeyLines {} 1 texts := by
  cases texts with
  | nil => rfl
  | cons text rest => rw [ofDescription, Text.lines_unlines whole (List.cons_ne_nil text rest)]

theorem loadAlike_of_added {before after : List (List Char)} {line : List Char}
    (whole : ∀ text ∈ before ++ line :: after, '\n' ∉ text) (wordless : Arguments 0 line) :
    LoadAlike (afterAdding before.length) (ofDescription (Text.unlines (before ++ after)))
      (ofDescription (Text.unlines (before ++ line :: after))) := by
  have fewer : ∀ text ∈ before ++ after, '\n' ∉ text := by
    intro text member
    refine whole text (List.mem_append.mpr ?_)
    exact (List.mem_append.mp member).imp id (List.mem_cons_of_mem line)
  rw [ofDescription_unlines whole, ofDescription_unlines fewer]
  have fixed (i : Nat) (early : i < 1 + before.length) : afterAdding before.length i = some i :=
    if_pos (by omega)
  refine obeyLines_before fixed (fun p => ?_) {}
  rw [obeyLines_cons, obeyLine_of_no_arguments wordless]
  refine obeyLines_renumber (fun k => ?_) p
  rw [afterAdding, if_neg (by omega), Nat.add_right_comm]

theorem loadAlike_of_changed {before after : List (List Char)} {line other : List Char}
    (whole : ∀ text ∈ before ++ line :: after, '\n' ∉ text) (feedless : '\n' ∉ other)
    (same : ∀ p : Parser, p.obeyLine other = p.obeyLine line) :
    LoadAlike some (ofDescription (Text.unlines (before ++ line :: after)))
      (ofDescription (Text.unlines (before ++ other :: after))) := by
  have changed : ∀ text ∈ before ++ other :: after, '\n' ∉ text := by
    intro text member
    rcases List.mem_append.mp member with early | late
    · exact whole text (List.mem_append_left _ early)
    · rcases List.mem_cons.mp late with rfl | later
      · exact feedless
      · exact whole text (List.mem_append_right _ (List.mem_cons_of_mem line later))
  rw [ofDescription_unlines whole, ofDescription_unlines changed]
  refine obeyLines_before (fun _ _ => rfl) (fun p => ?_) {}
  have equal (n : Nat) : p.obeyLines n (other :: after) = p.obeyLines n (line :: after) := by
    rw [obeyLines_cons, obeyLines_cons, same]
  rw [equal]
  exact obeyLines_renumber (fun _ => rfl) p

theorem LoadAlike.edit {source other : String} {moved : Nat → Option Nat}
    (edit : Edit source other moved) :
    LoadAlike moved (ofDescription source) (ofDescription other) := by
  cases edit with
  | add whole wordless => exact loadAlike_of_added whole wordless
  | drop whole wordless =>
    -- To leave a line out is to undo that it was added.
    refine (loadAlike_of_added whole wordless).symm fun i j moved => ?_
    grind [afterAdding, afterDropping]
  | change whole feedless edit =>
    refine loadAlike_of_changed whole feedless fun p => ?_
    rcases edit with forth | back
    · exact obeyLine_of_edit forth p
    · exact (obeyLine_of_edit back p).symm

theorem LoadAlike.relaid {source other : String} {moved : Nat → Option Nat}
    (relaid : Relaid source other moved) :
    LoadAlike moved (ofDescription source) (ofDescription other) := by
  induction relaid with
  | same source =>
    cases ofDescription source with
    | ok p => exact .loaded p
    | error e => exact .failed e.cause rfl
  | edit edit _ ih => exact (LoadAlike.edit edit).trans ih

/-- Layout means nothing. A text and the same text in another layout give the same parser, with
equal grammar and equal table, or else the same error, at the line that its line has become. -/
theorem relaid_description_loads_alike {source other : String} {moved : Nat → Option Nat}
    (relaid : Relaid source other moved) :
    (∃ p, ofDescription source = .ok p ∧ ofDescription other = .ok p) ∨
      ∃ e line, ofDescription source = .error e ∧ moved e.line = some line ∧
        ofDescription other = .error { e with line } := by
  generalize loaded : ofDescription source = a, loaded' : ofDescription other = b
  have alike := LoadAlike.relaid relaid
  rw [loaded, loaded'] at alike
  cases alike with
  | loaded p => exact .inl ⟨p, rfl, rfl⟩
  | failed cause here => exact .inr ⟨_, _, rfl, here, rfl⟩

def dense : String := "terminals a\nshift 0 a 1\ngoto 0 a 2"

/-- The same lines with a no-break space, a carriage return, a comment on a line of its own and the
other name of the directive that is in line 2. -/
def spread : String := "terminals\u00A0a\r\n # Two actions.\ngoto 0 a 1\ngoto 0 a 2"

theorem spread_fails_one_line_later :
    (∃ moved, Relaid dense spread moved ∧ moved 3 = some 4) ∧
    ∃ cause, ofDescription dense = .error { line := 3, cause } ∧
      ofDescription spread = .error { line := 4, cause } := by
  have space : Edit dense "terminals\u00A0a\nshift 0 a 1\ngoto 0 a 2" some := by
    have edit : LineEdit ("terminals".toList ++ [' '] ++ ['a'])
        ("terminals".toList ++ ['\u00A0'] ++ ['a']) :=
      .between (by decide) (by decide) (by decide) (by decide)
    exact @Edit.change [] ["shift 0 a 1".toList, "goto 0 a 2".toList] _ _ (by decide) (by decide)
      (.inl edit)
  have returned : Edit "terminals\u00A0a\nshift 0 a 1\ngoto 0 a 2"
      "terminals\u00A0a\r\nshift 0 a 1\ngoto 0 a 2" some :=
    @Edit.change [] ["shift 0 a 1".toList, "goto 0 a 2".toList] _ _ (by decide) (by decide)
      (.inl (.carriage "terminals\u00A0a".toList))
  have commented : Edit "terminals\u00A0a\r\nshift 0 a 1\ngoto 0 a 2"
      "terminals\u00A0a\r\n # Two actions.\nshift 0 a 1\ngoto 0 a 2" (afterAdding 1) := by
    have wordless : Arguments 0 ([' '] ++ "# Two actions.".toList) := .none (by decide) rfl
    exact @Edit.add ["terminals\u00A0a\r".toList] ["shift 0 a 1".toList, "goto 0 a 2".toList] _
      (by decide) wordless
  have renamed : Edit "terminals\u00A0a\r\n # Two actions.\nshift 0 a 1\ngoto 0 a 2" spread
      some := by
    have argument (c : Char) (solid : Word [c]) {n : Nat} {back : List Char}
        (rest : Arguments n back) : Arguments (n + 1) ([' '] ++ ([c] ++ back)) :=
      .one (by decide) (by decide) solid rest
    have nothing : Arguments 0 ([] ++ []) := .none .nil trivial
    have three :=
      argument '0' (by decide) (argument 'a' (by decide) (argument '1' (by decide) nothing))
    exact @Edit.change ["terminals\u00A0a\r".toList, " # Two actions.".toList]
      ["goto 0 a 2".toList] _ _ (by decide) (by decide) (.inl (.interchange .nil three))
  have relaid : Relaid dense spread _ :=
    .edit space (.edit returned (.edit commented (.edit renamed (.same spread))))
  have blamed : (match ofDescription dense with
      | .error e => e.line
      | .ok _ => 0) = 3 := by decide +kernel
  refine ⟨⟨_, relaid, rfl⟩, ?_⟩
  rcases relaid_description_loads_alike relaid with ⟨p, loaded, _⟩ | ⟨e, line, failed, here, there⟩
  · rw [loaded] at blamed
    cases blamed
  · rw [failed] at blamed
    obtain ⟨number, cause⟩ := e
    obtain rfl : number = 3 := blamed
    obtain rfl : 4 = line := Option.some.inj here
    exact ⟨cause, failed, there⟩

end Parser
end Recognizers
