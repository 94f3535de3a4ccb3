import Recognizers.Proofs.Parser.Accounts
import Recognizers.Proofs.Parser.Stopping
import Recognizers.Proofs.Parser.Termination
import Recognizers.Proofs.Table.Entries

/-!
Parsing with more productions and a fuller table. Every turn that succeeds is taken as before
(`Extends.step`), and so is one that pops too much. Only a missing action or a missing production can
be made up for.
-/
namespace Recognizers

namespace Grammar

def attempt (g : Grammar) (left : Symbol) (right : List Symbol) : Grammar :=
  match g.add left right with
  | .ok (_, next) => next
  | .error _ => g

def attemptAll (g : Grammar) (additions : List (Symbol × List Symbol)) : Grammar :=
  additions.foldl (fun g addition => g.attempt addition.1 addition.2) g

structure Extends (h g : Grammar) : Prop where
  productions : ∀ {id : Nat} {rule : Production},
    g.production? id = some rule → h.production? id = some rule
  vocabulary : h.vocabulary = g.vocabulary

theorem Extends.refl (g : Grammar) : g.Extends g := ⟨id, rfl⟩

theorem Extends.trans {f g h : Grammar} (later : h.Extends g) (first : g.Extends f) :
    h.Extends f :=
  ⟨fun known => later.productions (first.productions known),
    later.vocabulary.trans first.vocabulary⟩

theorem attempt_extends (g : Grammar) (left : Symbol) (right : List Symbol) :
    (g.attempt left right).Extends g := by
  cases left with
  | terminal number => exact .refl g
  | nonterminal head =>
    refine ⟨?_, rfl⟩
    intro id rule known
    obtain ⟨old, _⟩ := Array.getElem?_eq_some_iff.mp known
    have last : id ≠ g.productions.size := Nat.ne_of_lt old
    simp only [attempt, add, production?, Array.getElem?_push, if_neg last]
    exact known

theorem attemptAll_extends (g : Grammar) (additions : List (Symbol × List Symbol)) :
    (g.attemptAll additions).Extends g := by
  induction additions generalizing g with
  | nil => exact .refl g
  | cons addition additions ih => exact (ih _).trans (attempt_extends g addition.1 addition.2)

end Grammar

namespace Parser

/-- Results that neither a missing action nor a missing production brought about. -/
def Settled : Except ParseError ParseTree → Prop
  | .ok _ => True
  | .error (.incomplete _) => True
  | .error (.stackUnderflow ..) => True
  | .error _ => False

structure Extends (q p : Parser) : Prop where
  grammar : q.grammar.Extends p.grammar
  table : q.table.Extends p.table

namespace Extends

variable {p q : Parser} {goal : Symbol} {limit : Nat} {c d : Config}

theorem act (extended : q.Extends p) {action : Action} (taken : p.act c action = .ok d) :
    q.act c action = .ok d := by
  cases act_effect taken with
  | shift target => rfl
  | goto target => rfl
  | reduce id rule known enough =>
    simp only [Parser.act, reduce, extended.grammar.productions known, enough, if_true]

theorem step (extended : q.Extends p) (stepped : p.step c = .ok d) : q.step c = .ok d := by
  obtain ⟨action, chosen, taken⟩ := step_eq_ok stepped
  rw [step_of_action (extended.table.actions chosen)]
  exact extended.act taken

theorem stackUnderflow (extended : q.Extends p) {id : Nat} {rule : Production}
    (chosen : p.action? c = some (.reduce id)) (known : p.grammar.production? id = some rule)
    (short : ¬ rule.arity ≤ c.available) :
    q.step c = .error (.stackUnderflow id rule.arity c.available) := by
  rw [step_of_action (extended.table.actions chosen)]
  simp only [Parser.act, reduce, extended.grammar.productions known, short, if_false]

theorem run (extended : q.Extends p) {r : Except ParseError ParseTree}
    (ended : p.run goal limit c = some r) (settled : Settled r) :
    q.run goal limit c = some r := by
  induction limit generalizing c with
  | zero => cases ended
  | succ limit ih =>
    simp only [Parser.run] at ended ⊢
    split
    · rename_i finished
      simpa only [finished, if_true] using ended
    · rename_i unfinished
      rw [if_neg unfinished] at ended
      cases stepped : p.step c with
      | ok next =>
        rw [stepped] at ended
        rw [extended.step stepped]
        exact ih ended
      | error e =>
        rw [stepped] at ended
        cases ended
        cases step_failure stepped with
        | missing none => cases settled
        | unknown id chosen none => cases settled
        | underflow id rule chosen known short => rw [extended.stackUnderflow chosen known short]

theorem startSymbol (extended : q.Extends p) (started : p.startSymbol = .ok goal) :
    q.startSymbol = .ok goal := by
  unfold Parser.startSymbol at started
  split at started
  · cases started
  · rename_i state least
    split at started
    · rename_i id reduces
      split at started
      · rename_i rule known
        refine startSymbol_of_final ?_ (extended.table.actions reduces)
          (extended.grammar.productions known) (Except.ok.inj started)
        rw [extended.table.finals, least]
      · cases started
    · cases started

end Extends

variable {p : Parser} {limit : Nat} {input : List Symbol}

theorem parse_started {r : Except ParseError ParseTree} (ended : p.parse limit input = some r)
    (settled : Settled r) : ∃ goal, p.startSymbol = .ok goal := by
  cases started : p.startSymbol with
  | ok goal => exact ⟨goal, rfl⟩
  | error e =>
    simp only [parse, started] at ended
    cases ended
    rcases startSymbol_eq_error started with rfl | ⟨_, rfl⟩ | ⟨_, _, _, _, rfl⟩ <;> cases settled

def attemptAll (p : Parser) (entries : List Table.Entry)
    (additions : List (Symbol × List Symbol)) : Parser :=
  { grammar := p.grammar.attemptAll additions, table := p.table.attemptAll entries }

theorem attemptAll_extends (p : Parser) (entries : List Table.Entry)
    (additions : List (Symbol × List Symbol)) : (p.attemptAll entries additions).Extends p :=
  ⟨p.grammar.attemptAll_extends additions, p.table.attemptAll_extends entries⟩

/-- Whatever is tried on the table and added to the grammar, a parse that returned a tree, was
incomplete or popped too much does so again, with the same tree or the same error, and the names
in the error are the same. -/
theorem settled_parse_stays (entries : List Table.Entry) (additions : List (Symbol × List Symbol))
    {r : Except ParseError ParseTree} (ended : p.parse limit input = some r)
    (settled : Settled r) :
    (p.attemptAll entries additions).parse limit input = some r ∧
      (p.attemptAll entries additions).grammar.vocabulary = p.grammar.vocabulary := by
  have extended := p.attemptAll_extends entries additions
  obtain ⟨goal, started⟩ := parse_started ended settled
  rw [parse_of_start started] at ended
  rw [parse_of_start (extended.startSymbol started)]
  exact ⟨extended.run ended settled, extended.grammar.vocabulary⟩

/-- The first entry is refused by each of the three parsers below, the second one accepted. -/
def furtherEntries : List Table.Entry := [.move 2 .eof 9, .reduction 2 (.terminal 7) 5]

def furtherAdditions : List (Symbol × List Symbol) :=
  [(.terminal 2, []), (.nonterminal 4, [.null])]

theorem settled_parses_stay :
    (∃ t, chained.parse 20 [.terminal 2] = some (.ok t) ∧
      (chained.attemptAll furtherEntries furtherAdditions).parse 20 [.terminal 2] =
        some (.ok t)) ∧
    (rightRecursive.attemptAll furtherEntries furtherAdditions).parse 20
      [.terminal 2, .terminal 2] = some (.error (.incomplete [.terminal 2, .nonterminal 0])) ∧
    (shallow.attemptAll furtherEntries furtherAdditions).parse 20 [.terminal 2] =
      some (.error (.stackUnderflow 0 3 2)) := by
  have tree := parse_of_start chained_start 20 [.terminal 2]
  have underflow : shallow.parse 20 [.terminal 2] = some (.error (.stackUnderflow 0 3 2)) :=
    parse_of_start shallow_start 20 _
  exact ⟨⟨_, tree, (settled_parse_stays furtherEntries furtherAdditions tree trivial).1⟩,
    (settled_parse_stays furtherEntries furtherAdditions rightRecursive_incomplete trivial).1,
    (settled_parse_stays furtherEntries furtherAdditions underflow trivial).1⟩

end Parser
end Recognizers
