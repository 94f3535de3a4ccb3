import Recognizers.Command.Basic
import Recognizers.Proofs.Description.Meaning
import Recognizers.Proofs.Parser.Renaming
import Recognizers.Proofs.Vocabulary.Translation

/-!
Descriptions that list their names in another order. What was admissible stays so, and two parsers
that mean the same lines differ at most in the numbers of their symbols (`renamed_of_means`), which
nobody sees who gives and gets names.
-/
namespace Recognizers
namespace Description

variable {line other : List String} {before others : List (List String)}

/-- The same line, but for the order of the names if it lists some. -/
inductive Reordered : List String → List String → Prop where
  | same (line : List String) : Reordered line line
  | names {kind : SymbolKind} {names others : List String} (order : others.Perm names) :
      Reordered (kind.keyword :: others) (kind.keyword :: names)

namespace Reordered

theorem declares_iff (reordered : Reordered other line) (kind : SymbolKind) (name : String) :
    Declares other kind name ↔ Declares line kind name := by
  cases reordered with
  | same line => rfl
  | names order => rw [declares_keyword_iff, declares_keyword_iff, order.mem_iff]

theorem production?_eq (reordered : Reordered other line) :
    production? other = production? line := by
  cases reordered with
  | same line => rfl
  | @names kind names others order =>
    have apart : kind.keyword ≠ "production" := by cases kind <;> decide
    rw [production?_of_keyword apart, production?_of_keyword apart]

theorem enters_iff (reordered : Reordered other line) (state : Nat) (name : String)
    (entry : Entry) : Enters other state name entry ↔ Enters line state name entry := by
  cases reordered with
  | same line => rfl
  | @names kind names others order =>
    have apart : kind.keyword ∉ ["shift", "goto", "reduce"] := by cases kind <;> decide
    exact ⟨fun enters => absurd enters.keyword apart, fun enters => absurd enters.keyword apart⟩

theorem finishes_iff (reordered : Reordered other line) (state : Nat) :
    Finishes other state ↔ Finishes line state := by
  cases reordered with
  | same line => rfl
  | @names kind names others order =>
    have apart : kind.keyword ≠ "final" := by cases kind <;> decide
    exact ⟨fun finishes => absurd finishes.keyword apart,
      fun finishes => absurd finishes.keyword apart⟩

end Reordered

theorem exists_mem_iff_of_forall₂ {α β : Type} {R : α → β → Prop} {P : α → Prop} {Q : β → Prop}
    {xs : List α} {ys : List β} (all : List.Forall₂ R xs ys)
    (same : ∀ {x y}, R x y → (P x ↔ Q y)) : (∃ x ∈ xs, P x) ↔ ∃ y ∈ ys, Q y := by
  induction all with
  | nil => simp
  | cons first rest ih => simp [same first, ih]

theorem exists_getElem?_of_forall₂ {α β : Type} {R : α → β → Prop} {xs : List α} {ys : List β}
    (all : List.Forall₂ R xs ys) {i : Nat} {x : α} (here : xs[i]? = some x) :
    ∃ y, ys[i]? = some y ∧ R x y := by
  induction all generalizing i with
  | nil => cases here
  | @cons x' y xs ys first rest ih =>
    cases i with
    | zero =>
      cases here
      exact ⟨y, rfl, first⟩
    | succ i => exact ih here

abbrev ReorderedAll : List (List String) → List (List String) → Prop := List.Forall₂ Reordered

namespace ReorderedAll

variable (reordered : ReorderedAll others before)
include reordered

theorem listed_iff (kind : SymbolKind) (name : String) :
    Listed others kind name ↔ Listed before kind name :=
  or_congr_right (exists_mem_iff_of_forall₂ reordered fun alike => alike.declares_iff kind name)

theorem productions_eq : productions others = productions before := by
  induction reordered with
  | nil => rfl
  | cons first rest ih =>
    simp only [productions, List.filterMap_cons, first.production?_eq] at ih ⊢
    rw [ih]

theorem admissible (admissible : Admissible before line) : Admissible others line := by
  cases admissible with
  | blank => exact .blank
  | lists kinds =>
    exact .lists fun name member kind listed =>
      kinds name member kind ((listed_iff reordered kind name).mp listed)
  | production head known =>
    refine .production ((listed_iff reordered _ _).mpr head) fun name member => ?_
    obtain ⟨kind, listed⟩ := known name member
    exact ⟨kind, (listed_iff reordered kind name).mpr listed⟩
  | @enters _ state name entry entered known made agrees =>
    obtain ⟨kind, listed⟩ := known
    refine .enters entered ⟨kind, (listed_iff reordered kind name).mpr listed⟩ ?_ ?_
    · rw [productions_eq reordered]
      exact made
    · intro earlier member entry' enters
      obtain ⟨line', member', enters'⟩ := (exists_mem_iff_of_forall₂ reordered fun alike =>
        alike.enters_iff state name entry').mp ⟨earlier, member, enters⟩
      exact agrees line' member' entry' enters'
  | final numbers => exact .final numbers

end ReorderedAll

theorem admissible_names_iff {kind : SymbolKind} {names : List String} :
    Admissible before (kind.keyword :: names) ↔
      ∀ name ∈ names, ∀ other, Listed before other name → other = kind := by
  refine ⟨fun admissible => ?_, .lists⟩
  generalize same : kind.keyword :: names = line at admissible
  cases admissible with
  | blank => cases same
  | @lists kind' names' kinds =>
    obtain ⟨keyword, rfl⟩ := List.cons.inj same
    obtain rfl : kind = kind' := by
      cases kind <;> cases kind' <;> first | rfl | exact absurd keyword (by decide)
    exact kinds
  | production head known => exact absurd (List.cons.inj same).1 (by cases kind <;> decide)
  | enters entered known made agrees =>
    rw [← same] at entered
    exact absurd entered.keyword (by cases kind <;> decide)
  | final numbers => exact absurd (List.cons.inj same).1 (by cases kind <;> decide)

theorem Reordered.admissible (reordered : Reordered other line)
    (admissible : Admissible before line) : Admissible before other := by
  cases reordered with
  | same line => exact admissible
  | names order =>
    rw [admissible_names_iff] at admissible ⊢
    exact fun name member => admissible name (order.mem_iff.mp member)

end Description

namespace Parser
open Description

variable {p q : Parser} {source other : String} {said others : List (List String)}

theorem Means.reordered (reordered : ReorderedAll others said) (means : q.Means others) :
    q.Means said := by
  refine ⟨?_, means.eof, ?_, ?_, ?_, ?_⟩
  · intro kind name
    rw [means.names, reordered.listed_iff]
  · rw [← reordered.productions_eq]
    exact means.productions
  · intro line member state name entry enters
    obtain ⟨line', member', enters'⟩ := (exists_mem_iff_of_forall₂ reordered fun alike =>
      alike.enters_iff state name entry).mpr ⟨line, member, enters⟩
    exact means.entered line' member' state name entry enters'
  · intro state symbol action acts
    obtain ⟨line', member', name, entry, enters', found⟩ := means.actions state symbol action acts
    obtain ⟨line, member, enters⟩ := (exists_mem_iff_of_forall₂ reordered fun alike =>
      alike.enters_iff state name entry).mp ⟨line', member', enters'⟩
    exact ⟨line, member, name, entry, enters, found⟩
  · intro state
    rw [means.finals]
    exact exists_mem_iff_of_forall₂ reordered fun alike => alike.finishes_iff state

theorem loads_of_reordered (reordered : ReorderedAll (lines other) (lines source))
    (loaded : ofDescription source = .ok p) :
    ∃ q, ofDescription other = .ok q ∧ q.Means (lines source) := by
  have admissible := (obeyLines_ok means_nothing loaded).2
  cases again : ofDescription other with
  | ok q => exact ⟨q, rfl, (obeyLines_ok means_nothing again).1.reordered reordered⟩
  | error e =>
    obtain ⟨i, line, _, here, refused, _⟩ := obeyLines_error means_nothing again
    obtain ⟨line', there, alike⟩ := exists_getElem?_of_forall₂ reordered here
    have fine := alike.admissible (admissible i line' there)
    have earlier : ReorderedAll ((lines other).take i) ((lines source).take i) :=
      List.forall₂_take i reordered
    exact absurd (earlier.admissible fine) refused

theorem eq_map_of_forall₂ {α β : Type} {R : α → β → Prop} {S : α → β → Prop} {f : β → β}
    {xs : List α} {ys zs : List β} (first : List.Forall₂ R xs ys) (second : List.Forall₂ S xs zs)
    (same : ∀ {x y z}, R x y → S x z → z = f y) : zs = ys.map f := by
  induction first generalizing zs with
  | nil =>
    cases second
    rfl
  | cons head rest ih =>
    cases second with
    | cons head' rest' => rw [List.map_cons, same head head', ih rest']

theorem writes_translate {v w : Vocabulary} {made : String × List String}
    {rule rule' : Production} (first : v.Writes made rule) (second : w.Writes made rule') :
    rule' = rule.rename (v.translate w) := by
  have left : v.translate w rule.left = rule'.left :=
    Vocabulary.translate_of_find? first.1 second.1
  have right : rule'.right = rule.right.map (v.translate w) :=
    eq_map_of_forall₂ first.2 second.2 fun here there =>
      (Vocabulary.translate_of_find? here there).symm
  rw [Production.rename, left, ← right]
  rfl

theorem renamed_of_means (first : p.Means said) (second : q.Means said) :
    q.grammar.vocabulary.Permutes p.grammar.vocabulary ∧
      q.Renamed (p.grammar.vocabulary.translate q.grammar.vocabulary) p := by
  have permutes : q.grammar.vocabulary.Permutes p.grammar.vocabulary :=
    Vocabulary.permutes_of_has fun kind name =>
      (second.names kind name).trans (first.names kind name).symm
  refine ⟨permutes, permutes.translate_injective, permutes.kind_translate,
    Vocabulary.translate_of_find? first.eof second.eof, ?_, ?_, ?_⟩
  · rw [← Array.toList_inj, Array.toList_map]
    exact eq_map_of_forall₂ first.productions second.productions writes_translate
  · intro state s
    apply Option.ext
    intro action
    have kind := permutes.kind_translate s
    -- A line gave the action in one parser; the same line gave it in the other one, for the symbol
    -- of the same name.
    constructor
    · intro acts
      obtain ⟨line, member, name, entry, enters, found, rfl⟩ := second.actions _ _ _ acts
      obtain ⟨t, found', acts'⟩ := first.entered line member state name entry enters
      obtain rfl : t = s :=
        permutes.translate_injective (Vocabulary.translate_of_find? found' found)
      rw [acts', Entry.action_congr kind]
    · intro acts
      obtain ⟨line, member, name, entry, enters, found, rfl⟩ := first.actions _ _ _ acts
      obtain ⟨t, found', acts'⟩ := second.entered line member state name entry enters
      obtain rfl := Vocabulary.translate_of_find? found found'
      rw [acts', Entry.action_congr kind]
  · apply Std.ExtTreeSet.ext_mem
    intro state
    rw [second.finals, first.finals]

/-- If a description is loaded, then so is every description that lists the same names in another
order within its lines. Whatever tokens the two parsers are given by their names, they refuse the
same unknown one, or take equally long and print the same tree or the same error. -/
theorem reordered_names_parse_alike (reordered : ReorderedAll (lines other) (lines source))
    (loaded : ofDescription source = .ok p) :
    ∃ q, ofDescription other = .ok q ∧
      (∀ (tokens : List String) why, tokens.mapM q.grammar.vocabulary.lookUp = .error why ↔
        tokens.mapM p.grammar.vocabulary.lookUp = .error why) ∧
      ∀ limit tokens, (Command.parseTokens q limit tokens).map (Except.mapError Failure.message) =
        (Command.parseTokens p limit tokens).map (Except.mapError Failure.message) := by
  obtain ⟨q, again, means⟩ := loads_of_reordered reordered loaded
  obtain ⟨permutes, renamed⟩ := renamed_of_means (obeyLines_ok means_nothing loaded).1 means
  refine ⟨q, again, fun tokens why => ?_, fun limit tokens => ?_⟩
  · rw [permutes.lookUpAll_translate]
    cases tokens.mapM p.grammar.vocabulary.lookUp <;> simp [Except.map]
  · have names := permutes.name_translate
    simp only [Command.parseTokens, permutes.lookUpAll_translate]
    cases tokens.mapM p.grammar.vocabulary.lookUp with
    | error e => rfl
    | ok input =>
      simp only [Except.map, renamed.parse]
      rcases p.parse limit input with _ | e | t
      · rfl
      · exact congrArg (fun text => some (Except.error text)) (ParseError.message_rename names e)
      · exact congrArg (fun text => some (Except.ok text)) (ParseTree.drawing_rename names t)

def pairs : String :=
  "terminals a b\nnonterminals S T\nproduction S -> a\nshift 0 a 1\nreduce 1 eof 0\nfinal 1"

def pairsSwapped : String :=
  "terminals b a # The other way round.\nnonterminals T S\nproduction S -> a\nshift 0 a 1\nreduce 1 eof 0\nfinal 1"

theorem pairs_reordered : ReorderedAll (lines pairsSwapped) (lines pairs) := by
  have terminals : Reordered ["terminals", "b", "a"] ["terminals", "a", "b"] :=
    @Reordered.names .terminal _ _ (.swap _ _ _)
  have nonterminals : Reordered ["nonterminals", "T", "S"] ["nonterminals", "S", "T"] :=
    @Reordered.names .nonterminal _ _ (.swap _ _ _)
  have reordered (rest : List (List String)) :
      ReorderedAll (["terminals", "b", "a"] :: ["nonterminals", "T", "S"] :: rest)
        (["terminals", "a", "b"] :: ["nonterminals", "S", "T"] :: rest) :=
    .cons terminals (.cons nonterminals (List.forall₂_same.mpr fun line _ => .same line))
  have all := reordered ((lines pairs).drop 2)
  have swapped : ["terminals", "b", "a"] :: ["nonterminals", "T", "S"] :: (lines pairs).drop 2 =
      lines pairsSwapped := by decide +kernel
  have listed : ["terminals", "a", "b"] :: ["nonterminals", "S", "T"] :: (lines pairs).drop 2 =
      lines pairs := by decide +kernel
  rwa [swapped, listed] at all

theorem pairs_parse_alike : ∃ p q, ofDescription pairs = .ok p ∧
    ofDescription pairsSwapped = .ok q ∧
    p.grammar.vocabulary.find? "b" = some (.terminal 3) ∧
    q.grammar.vocabulary.find? "b" = some (.terminal 2) ∧
    (Command.parseTokens q 20 ["b"]).map (Except.mapError Failure.message) =
      some (.error "no action at symbol #1 (b) in state 0") ∧
    (Command.parseTokens q 20 ["a"]).map (Except.mapError Failure.message) =
      (Command.parseTokens p 20 ["a"]).map (Except.mapError Failure.message) := by
  have first : (ofDescription pairs).toOption.map (fun p => (p.grammar.vocabulary.find? "b",
      (Command.parseTokens p 20 ["b"]).map (Except.mapError Failure.message))) =
      some (some (.terminal 3), some (.error "no action at symbol #1 (b) in state 0")) := by
    simp only [Command.parseTokens, parse, startSymbol, Std.ExtTreeSet.min?_eq_head?_toList]
    decide +kernel
  have second : (ofDescription pairsSwapped).toOption.map
      (fun q => q.grammar.vocabulary.find? "b") = some (some (.terminal 2)) := by
    decide +kernel
  cases loaded : ofDescription pairs with
  | error e =>
    rw [loaded] at first
    cases first
  | ok p =>
    obtain ⟨q, again, _, alike⟩ := reordered_names_parse_alike pairs_reordered loaded
    rw [loaded] at first
    rw [again] at second
    obtain ⟨number, text⟩ := Prod.mk.inj (Option.some.inj first)
    exact ⟨p, q, rfl, again, number, Option.some.inj second, (alike 20 _).trans text, alike 20 _⟩

end Parser
end Recognizers
