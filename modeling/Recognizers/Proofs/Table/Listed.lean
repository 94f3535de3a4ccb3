import Recognizers.Proofs.Parser.History

/-!
Tables written down as lists. What such a table does is found in its lists, so a property of all
its entries is one of finitely many.
-/
namespace Recognizers

theorem Action.reduce_fits (production : Nat) (symbol : Symbol) :
    (reduce production).Fits symbol := trivial

namespace Table

theorem action?_empty (state : Nat) (symbol : Symbol) : empty.action? state symbol = none :=
  Std.ExtTreeMap.getElem?_empty

theorem action?_insert (t : Table) {cell : Cell} {action : Action} (suits : action.Fits cell.symbol)
    (state : Nat) (symbol : Symbol) :
    (t.insert cell action suits).action? state symbol =
      if cell = ⟨state, symbol⟩ then some action else t.action? state symbol := by
  simp only [action?, insert, Std.ExtTreeMap.getElem?_insert]
  by_cases same : cell = ⟨state, symbol⟩
  · simp [same]
  · have distinct : compare cell ⟨state, symbol⟩ ≠ .eq := fun tie => same (Cell.eq_of_compare tie)
    simp [same, distinct]

def Moves (t : Table) (state : Nat) (symbol : Symbol) (target : Nat) : Prop :=
  t.action? state symbol = some (.shift target) ∨ t.action? state symbol = some (.goto target)

def ReducesOnTerminals (t : Table) : Prop :=
  ∀ state symbol id, t.action? state symbol = some (.reduce id) → symbol.kind = .terminal

/-- The table with some moves, reductions and final states; an earlier entry of a list wins. -/
def ofLists (moves reductions : List (Cell × Nat)) (finals : List Nat) : Table :=
  finals.foldr (fun state t => t.addFinal state)
    (moves.foldr
      (fun m t => t.insert m.1 (.move m.2 m.1.symbol) (Action.move_fits m.2 m.1.symbol))
      (reductions.foldr
        (fun r t => t.insert r.1 (.reduce r.2) (Action.reduce_fits r.2 r.1.symbol)) empty))

theorem action?_foldr_addFinal (t : Table) (finals : List Nat) (state : Nat) (symbol : Symbol) :
    (finals.foldr (fun state t => t.addFinal state) t).action? state symbol =
      t.action? state symbol := by
  induction finals with
  | nil => rfl
  | cons final finals ih => exact ih

theorem mem_of_action?_ofLists {moves reductions : List (Cell × Nat)} {finals : List Nat}
    {state : Nat} {symbol : Symbol} {action : Action}
    (found : (ofLists moves reductions finals).action? state symbol = some action) :
    (∃ target, (⟨state, symbol⟩, target) ∈ moves ∧ action = .move target symbol) ∨
      ∃ id, (⟨state, symbol⟩, id) ∈ reductions ∧ action = .reduce id := by
  rw [ofLists, action?_foldr_addFinal] at found
  induction moves with
  | cons m moves ih =>
    rw [List.foldr_cons, action?_insert] at found
    split at found
    · rename_i here
      refine .inl ⟨m.2, ?_, by rw [← Option.some.inj found, here]⟩
      rw [← here]
      exact List.mem_cons_self
    · rcases ih found with ⟨target, member, same⟩ | later
      · exact .inl ⟨target, List.mem_cons_of_mem m member, same⟩
      · exact .inr later
  | nil =>
    induction reductions with
    | nil =>
      rw [List.foldr_nil, List.foldr_nil, action?_empty] at found
      cases found
    | cons r reductions ih =>
      rw [List.foldr_nil, List.foldr_cons, action?_insert] at found
      split at found
      · rename_i here
        refine .inr ⟨r.2, ?_, (Option.some.inj found).symm⟩
        rw [← here]
        exact List.mem_cons_self
      · rcases ih found with ⟨target, member, _⟩ | ⟨id, member, same⟩
        · cases member
        · exact .inr ⟨id, List.mem_cons_of_mem r member, same⟩

theorem mem_of_moves_ofLists {moves reductions : List (Cell × Nat)} {finals : List Nat}
    {state target : Nat} {symbol : Symbol}
    (moved : (ofLists moves reductions finals).Moves state symbol target) :
    (⟨state, symbol⟩, target) ∈ moves := by
  rcases moved with found | found
  all_goals
    rcases mem_of_action?_ofLists found with ⟨entered, member, same⟩ | ⟨id, _, same⟩
    · cases symbol <;> cases same
      exact member
    · cases same

theorem mem_of_reduce_ofLists {moves reductions : List (Cell × Nat)} {finals : List Nat}
    {state id : Nat} {symbol : Symbol}
    (found : (ofLists moves reductions finals).action? state symbol = some (.reduce id)) :
    (⟨state, symbol⟩, id) ∈ reductions := by
  rcases mem_of_action?_ofLists found with ⟨target, _, same⟩ | ⟨entered, member, same⟩
  · cases symbol <;> cases same
  · cases same
    exact member

theorem reducesOnTerminals_ofLists {moves reductions : List (Cell × Nat)} {finals : List Nat}
    (terminals : ∀ r ∈ reductions, r.1.symbol.kind = .terminal) :
    (ofLists moves reductions finals).ReducesOnTerminals :=
  fun _ _ _ found => terminals _ (mem_of_reduce_ofLists found)

theorem action?_ofLists_eq_none {moves reductions : List (Cell × Nat)} {finals : List Nat}
    {symbol : Symbol} (unmoved : ∀ m ∈ moves, m.1.symbol ≠ symbol)
    (unreduced : ∀ r ∈ reductions, r.1.symbol ≠ symbol) (state : Nat) :
    (ofLists moves reductions finals).action? state symbol = none := by
  cases found : (ofLists moves reductions finals).action? state symbol with
  | none => rfl
  | some action =>
    rcases mem_of_action?_ofLists found with ⟨target, member, _⟩ | ⟨id, member, _⟩
    · exact absurd rfl (unmoved _ member)
    · exact absurd rfl (unreduced _ member)

theorem unshifted_ofLists {moves reductions : List (Cell × Nat)} {finals : List Nat}
    {symbol : Symbol} (unmoved : ∀ m ∈ moves, m.1.symbol ≠ symbol) (state target : Nat) :
    (ofLists moves reductions finals).action? state symbol ≠ some (.shift target) :=
  fun found => unmoved _ (mem_of_moves_ofLists (.inl found)) rfl

theorem finals_foldr_addFinal (t : Table) (finals : List Nat) :
    (finals.foldr (fun state t => t.addFinal state) t).finals =
      finals.foldr (fun state s => s.insert state) t.finals := by
  induction finals with
  | nil => rfl
  | cons final finals ih => exact congrArg (·.insert final) ih

theorem finals_ofLists (moves reductions : List (Cell × Nat)) (finals : List Nat) :
    (ofLists moves reductions finals).finals =
      finals.foldr (fun state s => s.insert state) ∅ := by
  rw [ofLists, finals_foldr_addFinal]
  induction moves with
  | cons m moves ih => exact ih
  | nil =>
    induction reductions with
    | nil => rfl
    | cons r reductions ih => exact ih

theorem min?_finals_ofLists (moves reductions : List (Cell × Nat)) (finals : List Nat) :
    (ofLists moves reductions finals).finals.min? = finals.min? := by
  rw [finals_ofLists]
  induction finals with
  | nil => exact Std.ExtTreeSet.min?_empty
  | cons final finals ih =>
    rw [List.foldr_cons, Std.ExtTreeSet.min?_insert, List.min?_cons, ih]
    cases finals.min? with
    | none => rfl
    | some least =>
      simp only [Option.elim_some, Nat.compare_eq_lt]
      congr 1
      split <;> omega

end Table

namespace Parser

def endmarkedMoves : List (Cell × Nat) :=
  [(⟨0, .nonterminal 1⟩, 1), (⟨1, .terminal 2⟩, 2), (⟨2, .eof⟩, 3), (⟨3, .nonterminal 2⟩, 4),
    (⟨0, .terminal 3⟩, 5), (⟨5, .eof⟩, 6), (⟨6, .terminal 3⟩, 7)]

def endmarkedReductions : List (Cell × Nat) :=
  [(⟨0, .terminal 2⟩, 1), (⟨3, .eof⟩, 2), (⟨4, .eof⟩, 0), (⟨7, .eof⟩, 3)]

/-- The rules `S -> E a eof B`, `E ->`, `B ->` and `S -> b eof b` with `a`, `b` the terminals 2
and 3 and `S`, `E`, `B` the non-terminals 0 to 2. Their words hold an end of input. -/
def endmarked : Parser where
  grammar :=
    { productions := #[⟨0, [.nonterminal 1, .terminal 2, .eof, .nonterminal 2]⟩, ⟨1, []⟩, ⟨2, []⟩,
        ⟨0, [.terminal 3, .eof, .terminal 3]⟩] }
  table := .ofLists endmarkedMoves endmarkedReductions [4, 7]

theorem endmarked_start : endmarked.startSymbol = .ok (.nonterminal 0) :=
  startSymbol_of_final (Table.min?_finals_ofLists _ _ _) rfl rfl rfl

end Parser
end Recognizers
