import Recognizers.Vocabulary.Indexed
import Recognizers.Proofs.Vocabulary.Interning

/-!
Names with an index that is changed in place. The index stays the inverse of the lists
(`IndexedVocabulary.Keeps`), whatever is asked of the grammar, and so symbols and names belong to
each other for good (`Grammar.interning_coherent`).
-/
namespace Recognizers
namespace IndexedVocabulary

variable {i : IndexedVocabulary} {name : String} {kind : SymbolKind} {s : Symbol}

theorem declare_of_found (found : i.find? name = some s) :
    i.declare kind name = (if s.kind = kind then .ok s else .error (.kindClash name), i) := by
  rw [declare, found]

theorem declare_of_fresh (fresh : i.find? name = none) :
    i.declare kind name = (.ok (i.add name kind).1, (i.add name kind).2) := by
  rw [declare, fresh]

end IndexedVocabulary

/-- The lists are those of `v`, and the index is their inverse. -/
structure IndexedVocabulary.Keeps (i : IndexedVocabulary) (v : Vocabulary) : Prop where
  terminals : i.terminals.toList = v.terminals
  nonterminals : i.nonterminals.toList = v.nonterminals
  index : ∀ name, i.find? name = v.find? name

namespace IndexedVocabulary.Keeps

variable {i : IndexedVocabulary} {v : Vocabulary} {name : String} {kind : SymbolKind}

theorem name_eq (keeps : i.Keeps v) (s : Symbol) : i.name s = v.name s := by
  cases s with
  | terminal place =>
    rw [IndexedVocabulary.name, Vocabulary.name, ← keeps.terminals, Array.getElem?_toList]
  | nonterminal place =>
    rw [IndexedVocabulary.name, Vocabulary.name, ← keeps.nonterminals, Array.getElem?_toList]

theorem lookUp_eq (keeps : i.Keeps v) : i.lookUp = v.lookUp := by
  funext name
  unfold IndexedVocabulary.lookUp Vocabulary.lookUp
  cases found : v.find? name <;> simp [keeps.index, found]

theorem added (keeps : i.Keeps v) (fresh : v.find? name = none) (kind : SymbolKind) :
    (i.add name kind).1 = v.next kind ∧ (i.add name kind).2.Keeps (v.extend name fresh kind) := by
  obtain ⟨terminals, nonterminals, index⟩ := keeps
  have found : ∀ s other, (i.index.insert name s)[other]? =
      if other = name then some s else v.find? other := by
    intro s other
    simp only [Std.ExtTreeMap.getElem?_insert, Std.LawfulEqCmp.compare_eq_iff_eq, ← index,
      @eq_comm _ other, IndexedVocabulary.find?]
  cases kind with
  | terminal =>
    have next : Symbol.terminal i.terminals.size = v.next .terminal := by
      rw [Vocabulary.next, ← terminals, Array.length_toList]
    refine ⟨next, ?_, nonterminals, ?_⟩
    · simp [IndexedVocabulary.add, Vocabulary.extend, terminals]
    · intro other
      rw [Vocabulary.find?_extend, ← next]
      exact found _ other
  | nonterminal =>
    have next : Symbol.nonterminal i.nonterminals.size = v.next .nonterminal := by
      rw [Vocabulary.next, ← nonterminals, Array.length_toList]
    refine ⟨next, terminals, ?_, ?_⟩
    · simp [IndexedVocabulary.add, Vocabulary.extend, nonterminals]
    · intro other
      rw [Vocabulary.find?_extend, ← next]
      exact found _ other

theorem declared (keeps : i.Keeps v) (kind : SymbolKind) (name : String) :
    Session.Follows Keeps i (v.declare kind name) (i.declare kind name) := by
  unfold Vocabulary.declare
  split
  · rename_i s found
    rw [declare_of_found ((keeps.index name).trans found)]
    split
    · exact .granted keeps
    · exact .refused
  · rename_i fresh
    obtain ⟨next, kept⟩ := keeps.added fresh kind
    rw [declare_of_fresh ((keeps.index name).trans fresh), next]
    exact .granted kept

theorem initial : IndexedVocabulary.initial.Keeps .initial := by
  have empty : Keeps {} ⟨[], [], List.nodup_nil⟩ :=
    ⟨rfl, rfl, fun name => Std.ExtTreeMap.getElem?_empty⟩
  obtain ⟨_, first⟩ := empty.added (rfl : Vocabulary.find? _ "eof" = none) .terminal
  obtain ⟨_, second⟩ := first.added (by decide : Vocabulary.find? _ "null" = none) .terminal
  have steps : IndexedVocabulary.initial =
      ((IndexedVocabulary.add {} "eof" .terminal).2.add "null" .terminal).2 := by
    unfold IndexedVocabulary.initial
    rw [declare_of_fresh (empty.index "eof")]
    exact congrArg Prod.snd (declare_of_fresh ((first.index "null").trans (by decide)))
  rw [steps]
  exact second

end IndexedVocabulary.Keeps

namespace IndexedGrammar

open Grammar (Request Answer Log)

def respond (g : IndexedGrammar) : Request → Except GrammarError Answer × IndexedGrammar
  | .declare kind name => (g.declare kind name).map (Except.map .symbol) id
  | .add left right => (g.add left right).map (Except.map Answer.production) id
  | .addByName left right => (g.addByName left right).map (Except.map Answer.production) id

def after (asked : List Request) : IndexedGrammar := Session.state respond {} asked

def log (asked : List Request) : Log := Session.log respond {} asked

structure Keeps (i : IndexedGrammar) (g : Grammar) : Prop where
  vocabulary : i.vocabulary.Keeps g.vocabulary
  rules : i.rules = g.productions.map fun rule => ⟨rule.left, rule.right⟩

namespace Keeps

variable {i : IndexedGrammar} {g : Grammar}

theorem declared (keeps : i.Keeps g) (kind : SymbolKind) (name : String) :
    Session.Follows Keeps i (g.grant (.declare kind name)) (i.respond (.declare kind name)) := by
  have follows := keeps.vocabulary.declared kind name
  dsimp only [Grammar.grant, IndexedGrammar.respond, IndexedGrammar.declare]
  generalize g.vocabulary.declare kind name = attempt at follows ⊢
  generalize i.vocabulary.declare kind name = reply at follows ⊢
  cases follows with
  | granted kept => exact .granted ⟨kept, keeps.rules⟩
  | refused => exact .refused

theorem added (keeps : i.Keeps g) (left : Symbol) (right : List Symbol) :
    Session.Follows Keeps i (g.add left right) (i.add left right) := by
  cases left with
  | terminal number =>
    rw [Grammar.add, ← keeps.vocabulary.name_eq]
    exact .refused
  | nonterminal head =>
    have size : i.rules.size = g.productions.size := by rw [keeps.rules, Array.size_map]
    rw [Grammar.add, ← size]
    exact .granted ⟨keeps.vocabulary, by simp [keeps.rules, Production.left]⟩

theorem addedByName (keeps : i.Keeps g) (left : String) (right : List String) :
    Session.Follows Keeps i (g.addByName left right) (i.addByName left right) := by
  unfold Grammar.addByName IndexedGrammar.addByName
  rw [keeps.vocabulary.lookUp_eq]
  cases g.vocabulary.lookUp left with
  | error e => exact .refused
  | ok left =>
    cases right.mapM g.vocabulary.lookUp with
    | error e => exact .refused
    | ok right => exact keeps.added left right

theorem responded (keeps : i.Keeps g) (request : Request) :
    Session.Follows Keeps i (g.grant request) (i.respond request) := by
  cases request with
  | declare kind name => exact keeps.declared kind name
  | add left right => exact (keeps.added left right).map Answer.production
  | addByName left right => exact (keeps.addedByName left right).map Answer.production

theorem of_asked (asked : List Request) :
    log asked = Grammar.log asked ∧ (after asked).Keeps (Grammar.after asked) :=
  Session.related (fun request keeps => (keeps.responded request).settled keeps)
    ⟨.initial, Array.map_empty.symm⟩

theorem rule_left (keeps : i.Keeps g) {rule : Rule} (member : rule ∈ i.rules) :
    rule.left.kind = .nonterminal := by
  rw [keeps.rules] at member
  obtain ⟨production, _, rfl⟩ := Array.mem_map.mp member
  rfl

end Keeps
end IndexedGrammar

namespace Grammar

variable {asked : List Request} {request : Request} {e : GrammarError}

theorem after_refused (refused : ((after asked).respond request).1 = .error e) :
    after (asked ++ [request]) = after asked ∧
      IndexedGrammar.after (asked ++ [request]) = IndexedGrammar.after asked := by
  constructor
  · rw [after, Session.state_concat]
    exact Session.settle_refused refused
  · rw [IndexedGrammar.after, Session.state_concat]
    exact ((IndexedGrammar.Keeps.of_asked asked).2.responded request).unchanged refused

/-- Whatever is asked, a symbol that was handed out and its name belong to each other for good, and
so do a production and its number. The symbols of a kind are numbered in the order in which their
names first came, and what is refused changes nothing. -/
theorem interning_coherent (asked : List Request) :
    IndexedGrammar.log asked = log asked ∧ (IndexedGrammar.after asked).Keeps (after asked) ∧
    (∀ kind name s, (.declare kind name, .ok (.symbol s)) ∈ log asked →
      s.kind = kind ∧ ∀ later, (after (asked ++ later)).vocabulary.name s = name ∧
        (after (asked ++ later)).vocabulary.find? name = some s) ∧
    (∀ kind name s other name' t, (.declare kind name, .ok (.symbol s)) ∈ log asked →
      (.declare other name', .ok (.symbol t)) ∈ log asked → (s = t ↔ name = name')) ∧
    (∀ name s, (after asked).vocabulary.find? name = some s →
      (after asked).vocabulary.name s = name ∧
      ∀ later, (after (asked ++ later)).vocabulary.find? name = some s) ∧
    (∀ name, ¬ ((after asked).vocabulary.Has .terminal name ∧
      (after asked).vocabulary.Has .nonterminal name)) ∧
    (∀ kind, (after asked).vocabulary.namesOf kind =
      (Vocabulary.initial.namesOf kind ++ namesGranted kind (log asked)).eraseDups) ∧
    (∀ name s, (after asked).vocabulary.find? name = some s ↔
      ((after asked).vocabulary.namesOf s.kind)[s.number]? = some name) ∧
    ((after asked).vocabulary.find? "eof" = some .eof ∧
      (after asked).vocabulary.find? "null" = some .null) ∧
    (∀ request id, (request, .ok (.production id)) ∈ log asked →
      ∃ rule, request.Asks (after asked).vocabulary rule ∧
        ∀ later, (after (asked ++ later)).production? id = some rule) ∧
    (∀ rule ∈ (IndexedGrammar.after asked).rules, rule.left.kind = .nonterminal) ∧
    ∀ request e, ((after asked).respond request).1 = .error e →
      after (asked ++ [request]) = after asked ∧
      IndexedGrammar.after (asked ++ [request]) = IndexedGrammar.after asked := by
  obtain ⟨logs, keeps⟩ := IndexedGrammar.Keeps.of_asked asked
  have recorded := Recorded.of_log asked
  have reserved : (after asked).Retains {} := after_retains [] asked
  refine ⟨logs, keeps, ?_, fun _ _ _ _ _ _ => symbol_inj, ?_, ?_, recorded.names, ?_,
    ⟨reserved.names rfl, reserved.names (by decide)⟩, ?_, fun _ => keeps.rule_left,
    fun _ _ => after_refused⟩
  · intro kind name s granted
    refine ⟨(recorded.symbols granted).2, fun later => ?_⟩
    have found := find?_of_granted granted later
    exact ⟨Vocabulary.name_of_find? found, found⟩
  · intro name s found
    exact ⟨Vocabulary.name_of_find? found, fun later => (after_retains asked later).names found⟩
  · rintro name ⟨⟨s, found, terminal⟩, t, again, nonterminal⟩
    cases Option.some.inj (found.symm.trans again)
    rw [terminal] at nonterminal
    cases nonterminal
  · intro name s
    rw [Vocabulary.find?_eq_some_iff, Vocabulary.name?_eq]
  · intro request id granted
    obtain ⟨rule, known, asks⟩ := recorded.productions granted
    exact ⟨rule, asks, fun later => (after_retains asked later).productions known⟩

example : log [.declare .nonterminal "S", .declare .terminal "S", .addByName "S" ["a"],
      .addByName "null" [], .addByName "S" ["eof"]] =
    [(.declare .nonterminal "S", .ok (.symbol (.nonterminal 0))),
      (.declare .terminal "S", .error (.kindClash "S")),
      (.addByName "S" ["a"], .error (.unknownSymbol "a")),
      (.addByName "null" [], .error (.terminalLeft "null")),
      (.addByName "S" ["eof"], .ok (.production 0))] := by
  decide +kernel

end Grammar
end Recognizers
