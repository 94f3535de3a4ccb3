import Recognizers.Description.Basic
import Recognizers.Proofs.Description.Lines
import Recognizers.Proofs.Vocabulary.Names

/-!
What a line does to a parser that obeys it. `Obeyed` has a constructor for each kind of line, with
all that has to be found for it; a parser obeys a line exactly in one of these ways
(`obeyLine_eq_ok_iff`).
-/
namespace Recognizers

theorem bind_eq_ok_iff {ε α β : Type} {x : Except ε α} {f : α → Except ε β} {b : β} :
    x >>= f = .ok b ↔ ∃ a, x = .ok a ∧ f a = .ok b := by
  cases x with
  | error e => exact ⟨nofun, nofun⟩
  | ok a => exact ⟨fun same => ⟨a, rfl, same⟩, fun ⟨_, found, same⟩ => by cases found; exact same⟩

theorem mapError_eq_ok_iff {ε δ α : Type} {x : Except ε α} {f : ε → δ} {a : α} :
    x.mapError f = .ok a ↔ x = .ok a := by
  cases x with
  | error e => exact ⟨nofun, nofun⟩
  | ok b => simp [Except.mapError]

theorem mapM_eq_ok_iff {ε α β : Type} {f : α → Except ε β} {xs : List α} {ys : List β} :
    xs.mapM f = .ok ys ↔ List.Forall₂ (fun x y => f x = .ok y) xs ys := by
  induction xs generalizing ys with
  | nil => cases ys <;> simp [pure, Except.pure]
  | cons x xs ih =>
    rw [List.mapM_cons, bind_eq_ok_iff]
    constructor
    · rintro ⟨y, first, rest⟩
      obtain ⟨later, found, same⟩ := bind_eq_ok_iff.mp rest
      cases same
      exact .cons first (ih.mp found)
    · intro all
      cases all with
      | @cons _ y _ later first rest =>
        exact ⟨y, first, bind_eq_ok_iff.mpr ⟨later, ih.mpr rest, rfl⟩⟩

theorem exists_forall₂_iff {α β : Type} {R : α → β → Prop} {xs : List α} :
    (∃ ys, List.Forall₂ R xs ys) ↔ ∀ x ∈ xs, ∃ y, R x y := by
  induction xs with
  | nil => simp
  | cons x xs ih =>
    rw [List.forall_mem_cons, ← ih]
    constructor
    · rintro ⟨ys, all⟩
      cases all with
      | cons first rest => exact ⟨⟨_, first⟩, _, rest⟩
    · rintro ⟨⟨y, first⟩, ys, rest⟩
      exact ⟨y :: ys, .cons first rest⟩

theorem Vocabulary.lookUp_eq_ok_iff {v : Vocabulary} {name : String} {s : Symbol} :
    v.lookUp name = .ok s ↔ v.find? name = some s := by
  unfold lookUp
  cases v.find? name <;> simp

theorem Directive.number_eq_ok_iff {word : String} {n : Nat} :
    number word = .ok n ↔ Text.number? word = some n := by
  unfold number
  cases Text.number? word <;> simp

theorem Description.Entry.action_fits (entry : Entry) (symbol : Symbol) :
    (entry.action symbol).Fits symbol := by
  cases entry with
  | move target => exact Action.move_fits target symbol
  | reduce production => trivial

namespace Parser
open Description

variable {p q : Parser} {line : List String}

inductive Obeyed (p : Parser) : List String → Parser → Prop where
  | blank : Obeyed p [] p
  | lists {kind : SymbolKind} {names : List String} {vocabulary : Vocabulary}
      (declared : p.grammar.vocabulary.declareAll kind names = .ok vocabulary) :
      Obeyed p (kind.keyword :: names) { p with grammar := { p.grammar with vocabulary } }
  | production {left : String} {right : List String} {head : Nat} {symbols : List Symbol}
      (leftFound : p.grammar.vocabulary.find? left = some (.nonterminal head))
      (rightFound : List.Forall₂ (fun name s => p.grammar.vocabulary.find? name = some s)
        right symbols) :
      Obeyed p ("production" :: left :: "->" :: right)
        { p with
          grammar :=
            { p.grammar with productions := p.grammar.productions.push { head, right := symbols } } }
  | enters {line : List String} {state : Nat} {name : String} {entry : Entry} {symbol : Symbol}
      {table : Table} (entered : Enters line state name entry)
      (found : p.grammar.vocabulary.find? name = some symbol)
      (made : ∀ production, entry = .reduce production →
        production < p.grammar.productions.size)
      (accepted : p.table.enter ⟨state, symbol⟩ (entry.action symbol) (entry.action_fits symbol) =
        .ok table) : Obeyed p line { p with table }
  | final {words : List String} {states : List Nat}
      (numbers : List.Forall₂ (fun word state => Text.number? word = some state) words states) :
      Obeyed p ("final" :: words) { p with table := states.foldl Table.addFinal p.table }

theorem declare_eq_ok_iff {kind : SymbolKind} {names : List String} :
    Directive.declare p kind names = .ok q ↔ ∃ vocabulary,
      p.grammar.vocabulary.declareAll kind names = .ok vocabulary ∧
        q = { p with grammar := { p.grammar with vocabulary } } := by
  simp only [Directive.declare, bind_eq_ok_iff, mapError_eq_ok_iff, Vocabulary.declareAll, pure,
    Except.pure, Except.ok.injEq]
  exact exists_congr fun _ => and_congr_right fun _ => eq_comm

theorem apply_production_eq_ok_iff {left : String} {right : List String} :
    (Directive.production left right).apply p = .ok q ↔ ∃ head symbols,
      p.grammar.vocabulary.find? left = some (.nonterminal head) ∧
        List.Forall₂ (fun name s => p.grammar.vocabulary.find? name = some s) right symbols ∧
        q = { p with
              grammar :=
                { p.grammar with
                  productions := p.grammar.productions.push { head, right := symbols } } } := by
  simp only [Directive.apply, bind_eq_ok_iff, mapError_eq_ok_iff, Grammar.addByName,
    Vocabulary.lookUp_eq_ok_iff, mapM_eq_ok_iff]
  constructor
  · rintro ⟨⟨id, grammar⟩, ⟨s, leftFound, symbols, rightFound, added⟩, same⟩
    cases s with
    | terminal number => cases added
    | nonterminal head =>
      cases added
      cases same
      exact ⟨head, symbols, leftFound, rightFound, rfl⟩
  · rintro ⟨head, symbols, leftFound, rightFound, rfl⟩
    exact ⟨_, ⟨_, leftFound, symbols, rightFound, rfl⟩, rfl⟩

theorem apply_move_eq_ok_iff {state name target : String} :
    (Directive.move state name target).apply p = .ok q ↔ ∃ symbol source goal table,
      p.grammar.vocabulary.find? name = some symbol ∧ Text.number? state = some source ∧
        Text.number? target = some goal ∧ p.table.enterMove source symbol goal = .ok table ∧
        q = { p with table } := by
  simp only [Directive.apply, bind_eq_ok_iff, mapError_eq_ok_iff, Vocabulary.lookUp_eq_ok_iff,
    Directive.number_eq_ok_iff, pure, Except.pure, Except.ok.injEq]
  constructor
  · rintro ⟨symbol, found, source, first, goal, second, table, accepted, rfl⟩
    exact ⟨symbol, source, goal, table, found, first, second, accepted, rfl⟩
  · rintro ⟨symbol, source, goal, table, found, first, second, accepted, rfl⟩
    exact ⟨symbol, found, source, first, goal, second, table, accepted, rfl⟩

theorem apply_reduce_eq_ok_iff {state name production : String} :
    (Directive.reduce state name production).apply p = .ok q ↔ ∃ symbol source id table,
      p.grammar.vocabulary.find? name = some symbol ∧ Text.number? state = some source ∧
        Text.number? production = some id ∧ id < p.grammar.productions.size ∧
        p.table.enterReduction source symbol id = .ok table ∧ q = { p with table } := by
  simp only [Directive.apply, bind_eq_ok_iff, mapError_eq_ok_iff, Vocabulary.lookUp_eq_ok_iff,
    Directive.number_eq_ok_iff]
  constructor
  · rintro ⟨symbol, found, id, second, rest⟩
    by_cases made : id < p.grammar.productions.size
    · have there : (p.grammar.production? id).isNone = false := by simp [Grammar.production?, made]
      simp only [there, Bool.false_eq_true, if_false, bind_eq_ok_iff, mapError_eq_ok_iff,
        Directive.number_eq_ok_iff] at rest
      obtain ⟨source, first, table, accepted, same⟩ := rest
      cases same
      exact ⟨symbol, source, id, table, found, first, second, made, accepted, rfl⟩
    · have there : (p.grammar.production? id).isNone = true := by
        simpa [Grammar.production?] using made
      simp only [there, if_true] at rest
      cases rest
  · rintro ⟨symbol, source, id, table, found, first, second, made, accepted, rfl⟩
    have there : (p.grammar.production? id).isNone = false := by simp [Grammar.production?, made]
    refine ⟨symbol, found, id, second, ?_⟩
    simp only [there, Bool.false_eq_true, if_false, bind_eq_ok_iff, mapError_eq_ok_iff,
      Directive.number_eq_ok_iff]
    exact ⟨source, first, table, accepted, rfl⟩

theorem apply_final_eq_ok_iff {words : List String} :
    (Directive.final words).apply p = .ok q ↔ ∃ states,
      List.Forall₂ (fun word state => Text.number? word = some state) words states ∧
        q = { p with table := states.foldl Table.addFinal p.table } := by
  simp only [Directive.apply, bind_eq_ok_iff, mapM_eq_ok_iff, Directive.number_eq_ok_iff, pure,
    Except.pure, Except.ok.injEq]
  exact exists_congr fun _ => and_congr_right fun _ => eq_comm

theorem obeyed_of_directive {keyword : String} {args : List String} {directive : Directive}
    (read : Directive.read keyword args = .ok directive) (applied : directive.apply p = .ok q) :
    p.Obeyed (keyword :: args) q := by
  unfold Directive.read at read
  split at read
  · rename_i same
    cases read
    obtain ⟨vocabulary, declared, rfl⟩ := declare_eq_ok_iff.mp applied
    have obeyed : p.Obeyed (SymbolKind.terminal.keyword :: args) _ := .lists declared
    exact same ▸ obeyed
  split at read
  · rename_i same
    cases read
    obtain ⟨vocabulary, declared, rfl⟩ := declare_eq_ok_iff.mp applied
    have obeyed : p.Obeyed (SymbolKind.nonterminal.keyword :: args) _ := .lists declared
    exact same ▸ obeyed
  split at read
  · rename_i same
    unfold Directive.readProduction at read
    split at read
    · cases read
      obtain ⟨head, symbols, leftFound, rightFound, rfl⟩ := apply_production_eq_ok_iff.mp applied
      exact same ▸ .production leftFound rightFound
    · cases read
  split at read
  · rename_i moves
    unfold Directive.readMove at read
    split at read
    · cases read
      obtain ⟨symbol, source, goal, table, found, first, second, accepted, rfl⟩ :=
        apply_move_eq_ok_iff.mp applied
      exact .enters (.move moves first second) found nofun accepted
    · cases read
  split at read
  · rename_i same
    unfold Directive.readReduce at read
    split at read
    · cases read
      obtain ⟨symbol, source, id, table, found, first, second, made, accepted, rfl⟩ :=
        apply_reduce_eq_ok_iff.mp applied
      refine same ▸ .enters (.reduce first second) found ?_ accepted
      intro production entered
      cases entered
      exact made
    · cases read
  split at read
  · rename_i same
    cases read
    obtain ⟨states, numbers, rfl⟩ := apply_final_eq_ok_iff.mp applied
    exact same ▸ .final numbers
  · cases read

theorem directive_of_obeyed {keyword : String} {args : List String}
    (obeyed : p.Obeyed (keyword :: args) q) :
    ∃ directive, Directive.read keyword args = .ok directive ∧ directive.apply p = .ok q := by
  cases obeyed with
  | @lists kind names vocabulary declared =>
    cases kind with
    | terminal => exact ⟨.terminals args, rfl, declare_eq_ok_iff.mpr ⟨_, declared, rfl⟩⟩
    | nonterminal => exact ⟨.nonterminals args, rfl, declare_eq_ok_iff.mpr ⟨_, declared, rfl⟩⟩
  | production leftFound rightFound =>
    exact ⟨_, rfl, apply_production_eq_ok_iff.mpr ⟨_, _, leftFound, rightFound, rfl⟩⟩
  | enters entered found made accepted =>
    cases entered with
    | move moves first second =>
      refine ⟨_, ?_, apply_move_eq_ok_iff.mpr ⟨_, _, _, _, found, first, second, accepted, rfl⟩⟩
      rcases moves with rfl | rfl <;> rfl
    | reduce first second =>
      exact ⟨_, rfl, apply_reduce_eq_ok_iff.mpr
        ⟨_, _, _, _, found, first, second, made _ rfl, accepted, rfl⟩⟩
  | final numbers => exact ⟨_, rfl, apply_final_eq_ok_iff.mpr ⟨_, numbers, rfl⟩⟩

theorem obeyLine_eq_ok_iff {text : List Char} :
    p.obeyLine text = .ok q ↔ p.Obeyed (Directive.lineWords text) q := by
  unfold obeyLine
  cases Directive.lineWords text with
  | nil =>
    constructor
    · intro same
      cases same
      exact .blank
    · intro obeyed
      cases obeyed with
      | blank => rfl
      | enters entered => cases entered
  | cons keyword args =>
    simp only [bind_eq_ok_iff, mapError_eq_ok_iff]
    constructor
    · rintro ⟨directive, read, applied⟩
      exact obeyed_of_directive read applied
    · exact directive_of_obeyed

end Parser
end Recognizers
