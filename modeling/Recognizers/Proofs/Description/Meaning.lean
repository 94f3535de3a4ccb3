import Recognizers.Proofs.Description.Obedience
import Recognizers.Proofs.Table.Entries

/-!
The parser that lines describe: its names, productions, actions and final states are the ones that
some line gives (`Means`). A parser that means the lines so far obeys the next line if and only if
that line is admissible after them, and then means that one too.
-/
namespace Recognizers
open Description

namespace Vocabulary

variable {v w : Vocabulary}

def Spells (v : Vocabulary) (names : List String) (symbols : List Symbol) : Prop :=
  List.Forall₂ (fun name s => v.find? name = some s) names symbols

theorem Extends.spells (grown : w.Extends v) {names : List String} {symbols : List Symbol}
    (spelled : v.Spells names symbols) : w.Spells names symbols :=
  spelled.imp fun _ _ found => grown found

def Writes (v : Vocabulary) (made : String × List String) (rule : Production) : Prop :=
  v.find? made.1 = some rule.left ∧ v.Spells made.2 rule.right

theorem Extends.writes (grown : w.Extends v) {made : String × List String} {rule : Production}
    (written : v.Writes made rule) : w.Writes made rule :=
  ⟨grown written.1, grown.spells written.2⟩

end Vocabulary

namespace Parser

variable {p q : Parser} {before : List (List String)} {line : List String}

/-- The parser has what the lines say, and nothing else. -/
structure Means (p : Parser) (lines : List (List String)) : Prop where
  names : ∀ kind name, p.grammar.vocabulary.Has kind name ↔ Listed lines kind name
  eof : p.grammar.vocabulary.find? "eof" = some .eof
  productions : List.Forall₂ p.grammar.vocabulary.Writes (productions lines)
    p.grammar.productions.toList
  entered : ∀ line ∈ lines, ∀ state name entry, Enters line state name entry →
    ∃ symbol, p.grammar.vocabulary.find? name = some symbol ∧
      p.table.action? state symbol = some (entry.action symbol)
  actions : ∀ state symbol action, p.table.action? state symbol = some action →
    ∃ line ∈ lines, ∃ name entry, Enters line state name entry ∧
      p.grammar.vocabulary.find? name = some symbol ∧ action = entry.action symbol
  finals : ∀ state, state ∈ p.table.finals ↔ ∃ line ∈ lines, Finishes line state

structure Adds (p : Parser) (line : List String) (q : Parser) : Prop where
  grown : q.grammar.vocabulary.Extends p.grammar.vocabulary
  names : ∀ kind name, q.grammar.vocabulary.Has kind name ↔
    p.grammar.vocabulary.Has kind name ∨ Declares line kind name
  productions : ∃ rules, q.grammar.productions.toList = p.grammar.productions.toList ++ rules ∧
    List.Forall₂ q.grammar.vocabulary.Writes (production? line).toList rules
  kept : ∀ state symbol action, p.table.action? state symbol = some action →
    q.table.action? state symbol = some action
  entered : ∀ state name entry, Enters line state name entry →
    ∃ symbol, q.grammar.vocabulary.find? name = some symbol ∧
      q.table.action? state symbol = some (entry.action symbol)
  actions : ∀ state symbol action, q.table.action? state symbol = some action →
    p.table.action? state symbol = some action ∨ ∃ name entry, Enters line state name entry ∧
      q.grammar.vocabulary.find? name = some symbol ∧ action = entry.action symbol
  finals : ∀ state, state ∈ q.table.finals ↔ state ∈ p.table.finals ∨ Finishes line state

theorem productions_append (before : List (List String)) (line : List String) :
    productions (before ++ [line]) = productions before ++ (production? line).toList := by
  rw [productions, productions, List.filterMap_append]
  cases made : production? line <;> simp [made]

theorem means_nothing : ({} : Parser).Means [] := by
  refine ⟨?_, by decide, .nil, nofun, ?_, ?_⟩
  · intro kind name
    rw [Vocabulary.has_iff_mem, Listed]
    cases kind <;> simp [Vocabulary.namesOf, Vocabulary.initial]
  · intro state symbol action found
    rw [Table.action?_empty] at found
    cases found
  · simp [Table.empty]

theorem Means.append (means : p.Means before) (adds : p.Adds line q) :
    q.Means (before ++ [line]) := by
  refine ⟨?_, adds.grown means.eof, ?_, ?_, ?_, ?_⟩
  · intro kind name
    rw [adds.names, means.names, Listed, Listed, or_assoc]
    simp [or_and_right, exists_or]
  · obtain ⟨rules, same, written⟩ := adds.productions
    rw [same, productions_append]
    exact List.rel_append (means.productions.imp fun _ _ => Vocabulary.Extends.writes adds.grown)
      written
  · intro earlier member state name entry enters
    rcases List.mem_append.mp member with old | new
    · obtain ⟨symbol, found, acts⟩ := means.entered earlier old state name entry enters
      exact ⟨symbol, adds.grown found, adds.kept state symbol _ acts⟩
    · rw [List.mem_singleton.mp new] at enters
      exact adds.entered state name entry enters
  · intro state symbol action found
    rcases adds.actions state symbol action found with old | ⟨name, entry, enters, spelled, same⟩
    · obtain ⟨earlier, member, name, entry, enters, spelled, same⟩ :=
        means.actions state symbol action old
      exact ⟨earlier, List.mem_append_left _ member, name, entry, enters, adds.grown spelled, same⟩
    · exact ⟨line, List.mem_append_right _ (List.mem_singleton_self line), name, entry, enters,
        spelled, same⟩
  · intro state
    rw [adds.finals, means.finals]
    simp [or_and_right, exists_or]

theorem adds_blank (p : Parser) : p.Adds [] p := by
  refine ⟨fun found => found, ?_, ⟨[], by simp, .nil⟩, fun _ _ _ found => found, ?_,
    fun _ _ _ => .inl, ?_⟩
  · simp [Declares]
  · rintro state name entry ⟨⟩
  · simp [Finishes]

theorem adds_lists {kind : SymbolKind} {names : List String} {vocabulary : Vocabulary}
    (declared : p.grammar.vocabulary.declareAll kind names = .ok vocabulary) :
    p.Adds (kind.keyword :: names) { p with grammar := { p.grammar with vocabulary } } := by
  obtain ⟨_, grown, has_iff⟩ := Vocabulary.declareAll_spec declared
  have unmade : production? (kind.keyword :: names) = none :=
    production?_of_keyword (by cases kind <;> decide)
  refine ⟨grown, ?_, ⟨[], by simp, by rw [unmade]; exact .nil⟩, fun _ _ _ found => found, ?_,
    fun _ _ _ => .inl, ?_⟩
  · intro kind' name
    rw [has_iff, declares_keyword_iff]
  · intro state name entry enters
    exact absurd enters.keyword (by cases kind <;> decide)
  · intro state
    have unfinished : ¬ Finishes (kind.keyword :: names) state :=
      fun finishes => absurd finishes.keyword (by cases kind <;> decide)
    simp [unfinished]

theorem adds_production {left : String} {right : List String} {head : Nat} {symbols : List Symbol}
    (leftFound : p.grammar.vocabulary.find? left = some (.nonterminal head))
    (rightFound : p.grammar.vocabulary.Spells right symbols) :
    p.Adds ("production" :: left :: "->" :: right)
      { p with
        grammar :=
          { p.grammar with productions := p.grammar.productions.push { head, right := symbols } } } := by
  refine ⟨fun found => found, ?_, ⟨[{ head, right := symbols }], Array.toList_push, ?_⟩,
    fun _ _ _ found => found, ?_, fun _ _ _ => .inl, ?_⟩
  · intro kind name
    have unlisted : ¬ Declares ("production" :: left :: "->" :: right) kind name :=
      fun lists => absurd lists.keyword (by cases kind <;> decide)
    simp [unlisted]
  · exact .cons ⟨leftFound, rightFound⟩ .nil
  · intro state name entry enters
    exact absurd enters.keyword (by decide)
  · intro state
    have unfinished : ¬ Finishes ("production" :: left :: "->" :: right) state :=
      fun finishes => absurd finishes.keyword (by decide)
    simp [unfinished]

theorem adds_enters {state : Nat} {name : String} {entry : Entry} {symbol : Symbol} {table : Table}
    (enters : Enters line state name entry)
    (found : p.grammar.vocabulary.find? name = some symbol)
    (accepted : p.table.enter ⟨state, symbol⟩ (entry.action symbol) (entry.action_fits symbol) =
      .ok table) : p.Adds line { p with table } := by
  obtain ⟨agrees, finals, entries⟩ := Table.enter_spec accepted
  obtain ⟨unlisted, unmade, unfinished⟩ := enters.apart
  refine ⟨fun found => found, ?_, ⟨[], by simp, by rw [unmade]; exact .nil⟩, ?_, ?_, ?_, ?_⟩
  · simp [unlisted]
  · intro state' symbol' action kept
    rw [entries]
    split
    · rename_i here
      cases here
      rw [agrees action kept]
    · exact kept
  · intro state' name' entry' again
    obtain ⟨rfl, rfl, rfl⟩ := enters.unique again
    exact ⟨symbol, found, by rw [entries, if_pos rfl]⟩
  · intro state' symbol' action acts
    rw [entries] at acts
    split at acts
    · rename_i here
      cases here
      exact .inr ⟨name, entry, enters, found, (Option.some.inj acts).symm⟩
    · exact .inl acts
  · intro state'
    rw [finals]
    simp [unfinished]

theorem adds_final {words : List String} {states : List Nat}
    (numbers : List.Forall₂ (fun word state => Text.number? word = some state) words states) :
    p.Adds ("final" :: words) { p with table := states.foldl Table.addFinal p.table } := by
  have mapped : words.map Text.number? = states.map some := by
    rw [← List.forall₂_eq_eq_eq, List.forall₂_map_left_iff, List.forall₂_map_right_iff]
    exact numbers
  refine ⟨fun found => found, ?_, ⟨[], by simp, .nil⟩, ?_, ?_, ?_, ?_⟩
  · intro kind name
    have unlisted : ¬ Declares ("final" :: words) kind name :=
      fun lists => absurd lists.keyword (by cases kind <;> decide)
    simp [unlisted]
  · intro state symbol action found
    rw [Table.action?_foldl_addFinal]
    exact found
  · intro state name entry enters
    exact absurd enters.keyword (by decide)
  · intro state symbol action found
    rw [Table.action?_foldl_addFinal] at found
    exact .inl found
  · intro state
    have named : state ∈ states ↔ some state ∈ words.map Text.number? := by
      rw [mapped]
      simp
    rw [Table.mem_finals_foldl_addFinal, finishes_final_iff, named, List.mem_map]

theorem Obeyed.adds (obeyed : p.Obeyed line q) : p.Adds line q := by
  cases obeyed with
  | blank => exact adds_blank p
  | lists declared => exact adds_lists declared
  | production leftFound rightFound => exact adds_production leftFound rightFound
  | enters enters found made accepted => exact adds_enters enters found accepted
  | final numbers => exact adds_final numbers

namespace Means

theorem found_iff (means : p.Means before) {name : String} :
    (∃ s, p.grammar.vocabulary.find? name = some s) ↔ ∃ kind, Listed before kind name := by
  constructor
  · rintro ⟨s, found⟩
    exact ⟨s.kind, (means.names s.kind name).mp ⟨s, found, rfl⟩⟩
  · rintro ⟨kind, listed⟩
    obtain ⟨s, found, _⟩ := (means.names kind name).mpr listed
    exact ⟨s, found⟩

theorem length_productions (means : p.Means before) :
    (Description.productions before).length = p.grammar.productions.size := by
  rw [means.productions.length_eq, Array.length_toList]

theorem admissible (means : p.Means before) (obeyed : p.Obeyed line q) :
    Admissible before line := by
  cases obeyed with
  | blank => exact .blank
  | lists declared =>
    refine .lists fun name member other listed => ?_
    exact (Vocabulary.declareAll_spec declared).1 name member other
      ((means.names other name).mpr listed)
  | production leftFound rightFound =>
    refine .production ((means.names _ _).mp ⟨_, leftFound, rfl⟩) fun name member => ?_
    exact means.found_iff.mp (exists_forall₂_iff.mp ⟨_, rightFound⟩ name member)
  | @enters line state name entry symbol table enters found made accepted =>
    refine .enters enters (means.found_iff.mp ⟨symbol, found⟩) ?_ ?_
    · rw [means.length_productions]
      exact made
    · intro earlier member other again
      obtain ⟨symbol', found', acts⟩ := means.entered earlier member state name other again
      cases found.symm.trans found'
      exact Entry.action_inj ((Table.enter_spec accepted).1 _ acts)
  | final numbers => exact .final fun word member => exists_forall₂_iff.mp ⟨_, numbers⟩ word member

theorem obeys (means : p.Means before) (admissible : Admissible before line) :
    ∃ q, p.Obeyed line q := by
  cases admissible with
  | blank => exact ⟨p, .blank⟩
  | lists kinds =>
    obtain ⟨vocabulary, declared⟩ := Vocabulary.declareAll_ok fun name member other has =>
      kinds name member other ((means.names other name).mp has)
    exact ⟨_, .lists declared⟩
  | production head known =>
    obtain ⟨s, leftFound, kind⟩ := (means.names _ _).mpr head
    obtain ⟨symbols, rightFound⟩ := exists_forall₂_iff.mpr fun name member =>
      means.found_iff.mpr (known name member)
    cases s with
    | terminal number => cases kind
    | nonterminal head => exact ⟨_, .production leftFound rightFound⟩
  | @enters _ state name entry enters known made agrees =>
    obtain ⟨symbol, found⟩ := means.found_iff.mpr known
    have alike : ∀ existing, p.table.action? state symbol = some existing →
        existing = entry.action symbol := by
      intro existing acts
      obtain ⟨earlier, member, name', other, again, found', same⟩ :=
        means.actions state symbol existing acts
      cases Vocabulary.find?_inj found found'
      rw [same, agrees earlier member other again]
    obtain ⟨table, accepted⟩ : ∃ table, p.table.enter ⟨state, symbol⟩ (entry.action symbol)
        (entry.action_fits symbol) = .ok table := Table.enter_ok_of_agrees alike
    rw [means.length_productions] at made
    exact ⟨_, .enters enters found made accepted⟩
  | final numbers =>
    obtain ⟨states, found⟩ := exists_forall₂_iff.mpr numbers
    exact ⟨_, .final found⟩

theorem next (means : p.Means before) (obeyed : p.Obeyed line q) : q.Means (before ++ [line]) :=
  means.append obeyed.adds

end Means

theorem obeyLines_cons (p : Parser) (number : Nat) (text : List Char) (rest : List (List Char)) :
    p.obeyLines number (text :: rest) =
      match p.obeyLine text with
      | .ok next => next.obeyLines (number + 1) rest
      | .error cause => .error { line := number, cause } := rfl

theorem obeyLine_congr {text other : List Char}
    (same : Directive.lineWords other = Directive.lineWords text) :
    p.obeyLine other = p.obeyLine text := by
  simp only [obeyLine, same]

theorem obeyLines_ok (means : p.Means before) {number : Nat} {texts : List (List Char)}
    (loaded : p.obeyLines number texts = .ok q) :
    q.Means (before ++ texts.map Directive.lineWords) ∧
      ∀ i line, (texts.map Directive.lineWords)[i]? = some line →
        Admissible (before ++ (texts.map Directive.lineWords).take i) line := by
  induction texts generalizing p before number with
  | nil =>
    cases loaded
    simpa using means
  | cons text rest ih =>
    rw [obeyLines_cons] at loaded
    split at loaded
    · rename_i next obeyed
      have effect := obeyLine_eq_ok_iff.mp obeyed
      obtain ⟨meant, admissible⟩ := ih (means.next effect) loaded
      refine ⟨by simpa using meant, fun i line here => ?_⟩
      cases i with
      | zero =>
        cases here
        simpa using means.admissible effect
      | succ i => simpa using admissible i line here
    · cases loaded

theorem obeyLines_error (means : p.Means before) {number : Nat} {texts : List (List Char)}
    {e : DescriptionError} (failed : p.obeyLines number texts = .error e) :
    ∃ i line, e.line = number + i ∧ (texts.map Directive.lineWords)[i]? = some line ∧
      ¬ Admissible (before ++ (texts.map Directive.lineWords).take i) line ∧
      (∀ j < i, ∀ earlier, (texts.map Directive.lineWords)[j]? = some earlier →
        Admissible (before ++ (texts.map Directive.lineWords).take j) earlier) ∧
      ∀ others, (others.map Directive.lineWords).take (i + 1) =
        (texts.map Directive.lineWords).take (i + 1) → p.obeyLines number others = .error e := by
  induction texts generalizing p before number with
  | nil => cases failed
  | cons text rest ih =>
    rw [obeyLines_cons] at failed
    split at failed
    · rename_i next obeyed
      have effect := obeyLine_eq_ok_iff.mp obeyed
      obtain ⟨i, line, place, here, refused, earlier, fixed⟩ := ih (means.next effect) failed
      refine ⟨i + 1, line, by omega, here, by simpa using refused, ?_, ?_⟩
      · intro j below other there
        cases j with
        | zero =>
          cases there
          simpa using means.admissible effect
        | succ j => simpa using earlier j (by omega) other there
      · intro others agree
        cases others with
        | nil => cases agree
        | cons first others =>
          obtain ⟨same, rest⟩ := List.cons.inj agree
          rw [obeyLines_cons, obeyLine_congr same, obeyed]
          exact fixed others rest
    · rename_i cause stopped
      cases failed
      refine ⟨0, _, rfl, rfl, fun admissible => ?_, nofun, ?_⟩
      · rw [List.take_zero, List.append_nil] at admissible
        obtain ⟨q, obeyed⟩ := means.obeys admissible
        rw [obeyLine_eq_ok_iff.mpr obeyed] at stopped
        cases stopped
      · intro others agree
        cases others with
        | nil => cases agree
        | cons first others =>
          rw [obeyLines_cons, obeyLine_congr (List.cons.inj agree).1, stopped]

/-- A description is loaded exactly when each of its lines is admissible after the ones before it,
and then the parser means its lines. Otherwise the first line that is not admissible is blamed, and
every description with the same lines up to that one fails in the same way. -/
theorem admissible_description_loads (source : String) :
    ((∃ p, ofDescription source = .ok p) ↔ ∀ i line, (lines source)[i]? = some line →
      Admissible ((lines source).take i) line) ∧
    (∀ p, ofDescription source = .ok p → p.Means (lines source)) ∧
    ∀ e, ofDescription source = .error e → ∃ i line, e.line = i + 1 ∧
      (lines source)[i]? = some line ∧ ¬ Admissible ((lines source).take i) line ∧
      (∀ j < i, ∀ earlier, (lines source)[j]? = some earlier →
        Admissible ((lines source).take j) earlier) ∧
      ∀ other, (lines other).take e.line = (lines source).take e.line →
        ofDescription other = .error e := by
  refine ⟨⟨?_, ?_⟩, fun p loaded => ?_, fun e failed => ?_⟩
  · rintro ⟨p, loaded⟩
    exact (obeyLines_ok means_nothing loaded).2
  · intro admissible
    cases loaded : ofDescription source with
    | ok p => exact ⟨p, rfl⟩
    | error e =>
      obtain ⟨i, line, _, here, refused, _⟩ := obeyLines_error means_nothing loaded
      exact absurd (admissible i line here) refused
  · exact (obeyLines_ok means_nothing loaded).1
  · obtain ⟨i, line, place, here, refused, earlier, fixed⟩ :=
      obeyLines_error means_nothing failed
    rw [Nat.add_comm] at place
    refine ⟨i, line, place, here, refused, earlier, fun other agree => ?_⟩
    rw [place] at agree
    exact fixed (Text.lines other) agree

def oneWord : String :=
  "terminals a\n# The only word.\nnonterminals S\nproduction S -> a\nshift 0 a 1\nreduce 1 eof +0\nfinal 1\n"

/-- The sixth line enters another action for the same state and symbol as the fifth one; the last
line would be refused as well. -/
def clashing : String :=
  "terminals a\n\nnonterminals S\nproduction S -> a\nshift 0 a 1\ngoto 00 a 2 # again\nfinal x"

theorem oneWord_loads_and_clashing_fails :
    (∃ p, ofDescription oneWord = .ok p ∧ p.Means (lines oneWord)) ∧
    ∃ e, ofDescription clashing = .error e ∧ e.line = 6 ∧
      ¬ Admissible ((lines clashing).take 5) ["goto", "00", "a", "2"] := by
  constructor
  · have loads : (ofDescription oneWord).isOk = true := by decide +kernel
    cases loaded : ofDescription oneWord with
    | ok p => exact ⟨p, rfl, (admissible_description_loads oneWord).2.1 p loaded⟩
    | error e =>
      rw [loaded] at loads
      cases loads
  · have blamed : (match ofDescription clashing with
        | .error e => e.line
        | .ok _ => 0) = 6 := by decide +kernel
    cases failed : ofDescription clashing with
    | ok p =>
      rw [failed] at blamed
      cases blamed
    | error e =>
      rw [failed] at blamed
      have sixthLine : e.line = 6 := blamed
      obtain ⟨i, line, place, here, refused, _⟩ :=
        (admissible_description_loads clashing).2.2 e failed
      obtain rfl : i = 5 := by omega
      have sixth : (lines clashing)[5]? = some ["goto", "00", "a", "2"] := by decide +kernel
      cases sixth.symm.trans here
      exact ⟨e, rfl, sixthLine, refused⟩

end Parser
end Recognizers
