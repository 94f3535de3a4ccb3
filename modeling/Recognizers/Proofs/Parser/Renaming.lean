import Recognizers.Parser.Basic
import Recognizers.Proofs.Tree.Renaming

/-!
Parsers that differ in their symbols alone. The parser compares symbols with each other and with the
end of the input, and looks at nothing else in them, so an injective map that keeps the end of the
input takes every run to a run.
-/
namespace Recognizers

variable {relabel : Symbol → Symbol}

namespace ParseError

def rename (relabel : Symbol → Symbol) : ParseError → ParseError
  | noAction position symbol state => noAction position (relabel symbol) state
  | incomplete residual => incomplete (residual.map relabel)
  | e => e

theorem message_rename {v w : Vocabulary} (names : ∀ s, w.name (relabel s) = v.name s)
    (e : ParseError) : (e.rename relabel).message w = e.message v := by
  unfold message
  cases e with
  | noAction position symbol state => simp only [rename, names]
  | incomplete residual => simp only [rename, List.map_map, Function.comp_def, names]
  | noFinalState => rfl
  | noStartSymbol state => rfl
  | stackUnderflow production needed available => rfl
  | unknownProduction production => rfl

end ParseError

namespace Tape

def rename (relabel : Symbol → Symbol) (t : Tape) : Tape :=
  { t with symbols := t.symbols.map relabel }

theorem look_rename (eof : relabel .eof = .eof) (t : Tape) :
    (t.rename relabel).look = relabel t.look := by
  simp only [look, rename, Array.getElem?_map]
  cases t.symbols[t.cursor]? with
  | none => exact eof.symm
  | some symbol => rfl

theorem rename_writeBack (eof : relabel .eof = .eof) (t : Tape) (symbol : Symbol) :
    (t.writeBack symbol).rename relabel = (t.rename relabel).writeBack (relabel symbol) := by
  rcases t with ⟨symbols, cursor, prepended⟩
  cases cursor with
  | zero => simp [rename, writeBack]
  | succ place => simp [rename, writeBack, eof]

theorem endsWith_rename (injective : Function.Injective relabel) (t : Tape) (symbol : Symbol) :
    (t.rename relabel).endsWith (relabel symbol) = t.endsWith symbol := by
  have here : t.symbols[t.cursor]?.map relabel = some (relabel symbol) ↔
      t.symbols[t.cursor]? = some symbol := by
    rw [← Option.map_some, (Option.map_injective injective).eq_iff]
  simp only [endsWith, rename, Array.size_map, Array.getElem?_map, here]

end Tape

def Config.rename (relabel : Symbol → Symbol) (c : Config) : Config where
  states := c.states
  forest := c.forest.rename relabel
  tape := c.tape.rename relabel

namespace Production

def rename (relabel : Symbol → Symbol) (rule : Production) : Production where
  head := (relabel rule.left).number
  right := rule.right.map relabel

theorem left_rename (kinds : ∀ s, (relabel s).kind = s.kind) (rule : Production) :
    (rule.rename relabel).left = relabel rule.left := by
  have kind := kinds rule.left
  cases same : relabel rule.left with
  | terminal number =>
    rw [same] at kind
    cases kind
  | nonterminal number => rw [left, rename, same, Symbol.number]

theorem arity_rename (rule : Production) : (rule.rename relabel).arity = rule.arity :=
  List.length_map relabel

end Production

namespace Parser

variable {p q : Parser}

structure Renamed (relabel : Symbol → Symbol) (q p : Parser) : Prop where
  injective : Function.Injective relabel
  kinds : ∀ s, (relabel s).kind = s.kind
  eof : relabel .eof = .eof
  productions : q.grammar.productions = p.grammar.productions.map (Production.rename relabel)
  actions : ∀ state s, q.table.action? state (relabel s) = p.table.action? state s
  finals : q.table.finals = p.table.finals

def renameResult {α : Type} (relabel : Symbol → Symbol) (rename : α → α)
    (result : Except ParseError α) : Except ParseError α :=
  (result.map rename).mapError (ParseError.rename relabel)

theorem finish_rename (f : Forest) :
    finish (f.rename relabel) = renameResult relabel (ParseTree.rename relabel) (finish f) := by
  simp only [finish, Forest.single?_rename, Forest.symbols_rename]
  cases f.single? <;> rfl

namespace Renamed

theorem production? (renamed : q.Renamed relabel p) (id : Nat) :
    q.grammar.production? id = (p.grammar.production? id).map (Production.rename relabel) := by
  rw [Grammar.production?, renamed.productions, Array.getElem?_map, Grammar.production?]

theorem startSymbol (renamed : q.Renamed relabel p) :
    q.startSymbol = renameResult relabel relabel p.startSymbol := by
  simp only [Parser.startSymbol, renamed.finals]
  cases p.table.finals.min? with
  | none => rfl
  | some state =>
    have same := renamed.actions state .eof
    rw [renamed.eof] at same
    simp only [same]
    rcases p.table.action? state .eof with _ | ⟨target⟩ | ⟨target⟩ | ⟨id⟩
    · rfl
    · rfl
    · rfl
    · simp only [renamed.production?]
      cases p.grammar.production? id with
      | none => rfl
      | some rule => exact congrArg Except.ok (Production.left_rename renamed.kinds rule)

theorem action? (renamed : q.Renamed relabel p) (c : Config) :
    q.action? (c.rename relabel) = p.action? c := by
  rw [Parser.action?, Config.rename, Tape.look_rename renamed.eof]
  exact renamed.actions c.state c.tape.look

theorem act (renamed : q.Renamed relabel p) (c : Config) (action : Action) :
    q.act (c.rename relabel) action =
      renameResult relabel (Config.rename relabel) (p.act c action) := by
  cases action with
  | shift target =>
    simp only [Parser.act, Config.rename, Tape.look_rename renamed.eof, ← Forest.rename_grow]
    rfl
  | goto target => rfl
  | reduce id =>
    have available : (c.rename relabel).available = c.available := rfl
    simp only [Parser.act, reduce, renamed.production?, available]
    cases p.grammar.production? id with
    | none => rfl
    | some rule =>
      simp only [Option.map_some, Production.arity_rename, Production.left_rename renamed.kinds]
      split
      · simp only [Config.rename, ← Forest.rename_join, ← Tape.rename_writeBack renamed.eof]
        rfl
      · rfl

theorem step (renamed : q.Renamed relabel p) (c : Config) :
    q.step (c.rename relabel) = renameResult relabel (Config.rename relabel) (p.step c) := by
  simp only [Parser.step, renamed.action?]
  cases p.action? c with
  | none =>
    have look : (c.rename relabel).tape.look = relabel c.tape.look :=
      Tape.look_rename renamed.eof c.tape
    simp only [look]
    rfl
  | some action => exact renamed.act c action

theorem run (renamed : q.Renamed relabel p) (goal : Symbol) (limit : Nat) (c : Config) :
    q.run (relabel goal) limit (c.rename relabel) =
      (p.run goal limit c).map (renameResult relabel (ParseTree.rename relabel)) := by
  induction limit generalizing c with
  | zero => rfl
  | succ limit ih =>
    have ends : (c.rename relabel).tape.endsWith (relabel goal) = c.tape.endsWith goal :=
      Tape.endsWith_rename renamed.injective c.tape goal
    simp only [Parser.run, ends, renamed.step]
    split
    · exact congrArg some (finish_rename c.forest)
    · cases p.step c with
      | ok next => exact ih next
      | error e => rfl

theorem parse (renamed : q.Renamed relabel p) (limit : Nat) (input : List Symbol) :
    q.parse limit (input.map relabel) =
      (p.parse limit input).map (renameResult relabel (ParseTree.rename relabel)) := by
  have start : Config.start (input.map relabel) = (Config.start input).rename relabel := by
    simp [Config.start, Config.rename, Tape.ofList, Tape.rename, Forest.rename, Forest.empty,
      Arena.rename, Arena.empty]
  simp only [Parser.parse, renamed.startSymbol]
  cases p.startSymbol with
  | ok goal =>
    rw [start]
    exact renamed.run goal limit (.start input)
  | error e => rfl

end Renamed

end Parser
end Recognizers
