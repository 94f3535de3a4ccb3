import Recognizers.Proofs.Description.Meaning
import Recognizers.Proofs.Parser.Alphabet

/-!
Loaded parsers are closed: every symbol of a production and every column of the table has a name,
and every reduction has its production (`Closed`). What a line adds is made of what was there, so
each line keeps this.
-/
namespace Recognizers
namespace Vocabulary

variable {v w : Vocabulary} {s : Symbol}

/-- The symbol is found by the name that it is shown by. -/
def Interned (v : Vocabulary) (s : Symbol) : Prop := v.find? (v.name s) = some s

instance : Decidable (v.Interned s) := inferInstanceAs (Decidable (_ = _))

theorem interned_of_find? {name : String} (found : v.find? name = some s) : v.Interned s := by
  rw [Interned, name_of_find? found]
  exact found

theorem Extends.name_eq (grown : w.Extends v) (interned : v.Interned s) :
    w.name s = v.name s := name_of_find? (grown interned)

theorem Extends.interned (grown : w.Extends v) (interned : v.Interned s) : w.Interned s :=
  interned_of_find? (grown interned)

end Vocabulary

namespace Parser
open Description

variable {p q : Parser}

structure Closed (p : Parser) : Prop where
  eof : p.grammar.vocabulary.Interned .eof
  productions : ∀ id rule, p.grammar.production? id = some rule →
    ∀ s ∈ rule.left :: rule.right, p.grammar.vocabulary.Interned s
  columns : ∀ state symbol action, p.table.action? state symbol = some action →
    p.grammar.vocabulary.Interned symbol
  reductions : ∀ state symbol id, p.table.action? state symbol = some (.reduce id) →
    id < p.grammar.productions.size

theorem closed_nothing : ({} : Parser).Closed := by
  refine ⟨by decide, ?_, ?_, ?_⟩
  · intro id rule known
    have none : (#[] : Array Production)[id]? = some rule := known
    rw [Array.getElem?_empty] at none
    cases none
  · intro state symbol action found
    rw [Table.action?_empty] at found
    cases found
  · intro state symbol id found
    rw [Table.action?_empty] at found
    cases found

namespace Closed

theorem lists (closed : p.Closed) {kind : SymbolKind} {names : List String}
    {vocabulary : Vocabulary}
    (declared : p.grammar.vocabulary.declareAll kind names = .ok vocabulary) :
    Closed { p with grammar := { p.grammar with vocabulary } } := by
  have grown : vocabulary.Extends p.grammar.vocabulary :=
    (Vocabulary.declareAll_spec declared).2.1
  exact ⟨grown.interned closed.eof,
    fun id rule known s member => grown.interned (closed.productions id rule known s member),
    fun state symbol action found => grown.interned (closed.columns state symbol action found),
    closed.reductions⟩

theorem production (closed : p.Closed) {left : String} {right : List String} {head : Nat}
    {symbols : List Symbol}
    (leftFound : p.grammar.vocabulary.find? left = some (.nonterminal head))
    (rightFound : List.Forall₂ (fun name s => p.grammar.vocabulary.find? name = some s)
      right symbols) :
    Closed
      { p with
        grammar :=
          { p.grammar with
            productions := p.grammar.productions.push { head, right := symbols } } } := by
  refine ⟨closed.eof, ?_, closed.columns, fun state symbol id reduces => ?_⟩
  · intro id rule known s member
    simp only [Grammar.production?, Array.getElem?_push] at known
    split at known
    · cases known
      rcases List.mem_cons.mp member with left | right
      · rw [left]
        exact Vocabulary.interned_of_find? leftFound
      · obtain ⟨name, found⟩ := exists_forall₂_iff.mp ⟨_, List.Forall₂.flip rightFound⟩ s right
        exact Vocabulary.interned_of_find? found
    · exact closed.productions id rule known s member
  · rw [Array.size_push]
    exact Nat.lt_succ_of_lt (closed.reductions state symbol id reduces)

theorem enters (closed : p.Closed) {name : String} {cell : Cell} {action : Action}
    {suits : action.Fits cell.symbol} {table : Table}
    (found : p.grammar.vocabulary.find? name = some cell.symbol)
    (made : ∀ id, action = .reduce id → id < p.grammar.productions.size)
    (accepted : p.table.enter cell action suits = .ok table) : Closed { p with table } := by
  obtain ⟨_, _, entries⟩ := Table.enter_spec accepted
  refine ⟨closed.eof, closed.productions, ?_, ?_⟩
  · intro state symbol other acts
    rw [entries] at acts
    split at acts
    · rename_i here
      rw [here] at found
      exact Vocabulary.interned_of_find? found
    · exact closed.columns state symbol other acts
  · intro state symbol id reduces
    rw [entries] at reduces
    split at reduces
    · exact made id (Option.some.inj reduces)
    · exact closed.reductions state symbol id reduces

theorem final (closed : p.Closed) (states : List Nat) :
    Closed { p with table := states.foldl Table.addFinal p.table } := by
  refine ⟨closed.eof, closed.productions, ?_, ?_⟩
  · intro state symbol action found
    rw [Table.action?_foldl_addFinal] at found
    exact closed.columns state symbol action found
  · intro state symbol id found
    rw [Table.action?_foldl_addFinal] at found
    exact closed.reductions state symbol id found

theorem obeyed (closed : p.Closed) {line : List String} (obeyed : p.Obeyed line q) :
    q.Closed := by
  cases obeyed with
  | blank => exact closed
  | lists declared => exact closed.lists declared
  | production leftFound rightFound => exact closed.production leftFound rightFound
  | @enters line state name entry symbol table entered found made accepted =>
    refine closed.enters found ?_ accepted
    intro id same
    cases entry with
    | move target => cases symbol <;> cases same
    | reduce production =>
      cases same
      exact made id rfl
  | final numbers => exact closed.final _

theorem obeyLines (closed : p.Closed) {number : Nat} {texts : List (List Char)}
    (loaded : p.obeyLines number texts = .ok q) : q.Closed := by
  induction texts generalizing p number with
  | nil =>
    cases loaded
    exact closed
  | cons text rest ih =>
    rw [obeyLines_cons] at loaded
    split at loaded
    · rename_i next line
      exact ih (closed.obeyed (obeyLine_eq_ok_iff.mp line)) loaded
    · cases loaded

theorem covered (closed : p.Closed) : p.Over p.grammar.vocabulary.Interned :=
  ⟨closed.eof, fun known => closed.productions _ _ known _ List.mem_cons_self⟩

theorem production_isSome (closed : p.Closed) {state id : Nat} {symbol : Symbol}
    (reduces : p.table.action? state symbol = some (.reduce id)) :
    (p.grammar.production? id).isSome := by
  rw [Grammar.production?, Array.getElem?_eq_getElem (closed.reductions state symbol id reduces)]
  rfl

end Closed

/-- A loaded parser is closed, and its columns hold actions that suit them. Whatever tokens found by
their names it parses, it misses no production, and the symbols of the tree or of the error are found
by the names that they are shown by: to name the nameless symbols would change neither text. -/
theorem loaded_parser_closed {source : String} (loaded : ofDescription source = .ok p) :
    p.Closed ∧
      (∀ id rule, p.grammar.production? id = some rule → rule.left.kind = .nonterminal) ∧
      (∀ state symbol target,
        (p.table.action? state symbol = some (.shift target) → symbol.kind = .terminal) ∧
        (p.table.action? state symbol = some (.goto target) → symbol.kind = .nonterminal)) ∧
      ∀ limit input r, (∀ s ∈ input, ∃ name, p.grammar.vocabulary.lookUp name = .ok s) →
        p.parse limit input = some r →
        (∀ id, r ≠ .error (.unknownProduction id)) ∧
        (∀ t, r = .ok t →
          (∀ i n, t.arena.node? i = some n → p.grammar.vocabulary.Interned n.symbol) ∧
          ∀ w, w.Extends p.grammar.vocabulary →
            t.drawing w = t.drawing p.grammar.vocabulary) ∧
        ∀ e, r = .error e →
          (∀ s ∈ e.symbols, p.grammar.vocabulary.Interned s) ∧
          ∀ w, w.Extends p.grammar.vocabulary →
            e.message w = e.message p.grammar.vocabulary := by
  have closed : p.Closed := closed_nothing.obeyLines loaded
  refine ⟨closed, fun _ _ _ => rfl, fun state symbol target => ⟨p.table.fits, p.table.fits⟩, ?_⟩
  intro limit input r resolved ended
  have given : ∀ s ∈ input, p.grammar.vocabulary.Interned s := by
    intro s member
    obtain ⟨name, found⟩ := resolved s member
    exact Vocabulary.interned_of_find? (Vocabulary.lookUp_eq_ok_iff.mp found)
  refine ⟨?_, ?_, ?_⟩
  · rintro id rfl
    exact production_never_unknown closed.production_isSome ended id rfl
  · rintro t rfl
    have covered := closed.covered.parsed given ended
    refine ⟨covered, fun w grown => ParseTree.drawing_congr fun i n found => ?_⟩
    exact grown.name_eq (covered i n found)
  · rintro e rfl
    have covered := closed.covered.failed given ended
    exact ⟨covered, fun w grown => ParseError.message_congr fun s member =>
      grown.name_eq (covered s member)⟩

/-- A description that enters an action before there is a production, and lists names after
everything else. -/
def lateNames : String :=
  "terminals a\nshift 0 a 1\nnonterminals S\nproduction S -> a\nreduce 1 eof 0\nfinal 1\nterminals b\nproduction S -> b"

theorem lateNames_closed : ∃ p, ofDescription lateNames = .ok p ∧ p.Closed ∧
    (∃ t, p.parse 20 [.terminal 2] = some (.ok t) ∧
      t.drawing p.grammar.vocabulary = "|S\n|-a\n" ∧
      ∀ i n, t.arena.node? i = some n → p.grammar.vocabulary.Interned n.symbol) ∧
    p.parse 20 [.terminal 3] = some (.error (.noAction 1 (.terminal 3) 0)) ∧
      p.grammar.vocabulary.Interned (.terminal 3) := by
  have names : (ofDescription lateNames).toOption.map (fun p =>
      (p.grammar.vocabulary.find? "a", p.grammar.vocabulary.find? "b")) =
      some (some (.terminal 2), some (.terminal 3)) := by decide +kernel
  have results : (ofDescription lateNames).toOption.map (fun p =>
      [[.terminal 2], [.terminal 3]].map fun input =>
        (p.parse 20 input).map (Except.map (·.drawing p.grammar.vocabulary))) =
      some [some (.ok "|S\n|-a\n"), some (.error (.noAction 1 (.terminal 3) 0))] := by
    simp only [parse, startSymbol, Std.ExtTreeSet.min?_eq_head?_toList]
    decide +kernel
  cases loaded : ofDescription lateNames with
  | error e =>
    rw [loaded] at names
    cases names
  | ok p =>
    rw [loaded] at names results
    obtain ⟨a, b⟩ := Prod.mk.inj (Option.some.inj names)
    obtain ⟨parsed, failed⟩ := List.cons.inj (Option.some.inj results)
    obtain ⟨closed, _, _, parses⟩ := loaded_parser_closed loaded
    have resolved {name : String} {s : Symbol} (found : p.grammar.vocabulary.find? name = some s) :
        ∀ t ∈ [s], ∃ name, p.grammar.vocabulary.lookUp name = .ok t := by
      intro t member
      rw [List.mem_singleton.mp member]
      exact ⟨name, Vocabulary.lookUp_eq_ok_iff.mpr found⟩
    obtain ⟨r, ended, drawn⟩ := Option.map_eq_some_iff.mp parsed
    obtain ⟨s, stopped, missed⟩ := Option.map_eq_some_iff.mp (List.cons.inj failed).1
    cases r with
    | error e => cases drawn
    | ok t =>
      cases s with
      | ok t => cases missed
      | error e =>
        cases missed
        have tree := ((parses 20 _ _ (resolved a) ended).2.1 t rfl).1
        have error := ((parses 20 _ _ (resolved b) stopped).2.2 _ rfl).1
        exact ⟨p, rfl, closed, ⟨t, ended, Except.ok.inj drawn, tree⟩, stopped,
          error _ (List.mem_singleton_self _)⟩

end Parser
end Recognizers
