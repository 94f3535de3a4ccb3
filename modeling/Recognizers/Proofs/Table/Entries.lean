import Recognizers.Proofs.Table.Listed

/-!
Tables under further entries. An entry is accepted where nothing different stands, and a refused
one changes nothing, so whatever is tried on a table, its actions stay as they are
(`attemptAll_extends`).
-/
namespace Recognizers
namespace Table

inductive Entry where
  | move (state : Nat) (symbol : Symbol) (target : Nat)
  | reduction (state : Nat) (symbol : Symbol) (production : Nat)
deriving DecidableEq

def Entry.enter (t : Table) : Entry → Except Conflict Table
  | move state symbol target => t.enterMove state symbol target
  | reduction state symbol production => t.enterReduction state symbol production

def attempt (t : Table) (entry : Entry) : Table :=
  match entry.enter t with
  | .ok next => next
  | .error _ => t

def attemptAll (t : Table) (entries : List Entry) : Table := entries.foldl attempt t

structure Extends (u t : Table) : Prop where
  actions : ∀ {state : Nat} {symbol : Symbol} {action : Action},
    t.action? state symbol = some action → u.action? state symbol = some action
  finals : u.finals = t.finals

theorem Extends.refl (t : Table) : t.Extends t := ⟨id, rfl⟩

theorem Extends.trans {t u v : Table} (later : v.Extends u) (first : u.Extends t) : v.Extends t :=
  ⟨fun found => later.actions (first.actions found), later.finals.trans first.finals⟩

theorem insert_extends {t : Table} {cell : Cell} {action : Action}
    (suits : action.Fits cell.symbol) (free : t.entries[cell]? = none) :
    (t.insert cell action suits).Extends t := by
  refine ⟨?_, rfl⟩
  intro state symbol kept found
  rw [action?_insert]
  split
  · rename_i here
    have none : t.action? state symbol = none := by rw [action?, ← here, free]
    rw [none] at found
    cases found
  · exact found

theorem enter_extends {t next : Table} {cell : Cell} {action : Action}
    {suits : action.Fits cell.symbol} (entered : t.enter cell action suits = .ok next) :
    next.Extends t := by
  unfold enter at entered
  split at entered
  · split at entered
    · cases entered
      exact .refl t
    · cases entered
  · rename_i free
    cases entered
    exact insert_extends suits free

theorem attempt_extends (t : Table) (entry : Entry) : (t.attempt entry).Extends t := by
  unfold attempt
  split
  · rename_i next entered
    cases entry with
    | move state symbol target => exact enter_extends entered
    | reduction state symbol production => exact enter_extends entered
  · exact .refl t

theorem attemptAll_extends (t : Table) (entries : List Entry) :
    (t.attemptAll entries).Extends t := by
  induction entries generalizing t with
  | nil => exact .refl t
  | cons entry entries ih => exact (ih (t.attempt entry)).trans (attempt_extends t entry)

theorem enter_ok_of_agrees {t : Table} {cell : Cell} {action : Action}
    {suits : action.Fits cell.symbol}
    (agrees : ∀ existing, t.action? cell.state cell.symbol = some existing → existing = action) :
    ∃ next, t.enter cell action suits = .ok next := by
  unfold enter
  split
  · rename_i existing found
    exact ⟨t, if_pos (agrees existing found)⟩
  · exact ⟨_, rfl⟩

theorem enter_spec {t next : Table} {cell : Cell} {action : Action}
    {suits : action.Fits cell.symbol} (entered : t.enter cell action suits = .ok next) :
    (∀ existing, t.action? cell.state cell.symbol = some existing → existing = action) ∧
      next.finals = t.finals ∧
      ∀ state symbol, next.action? state symbol =
        if cell = ⟨state, symbol⟩ then some action else t.action? state symbol := by
  unfold enter at entered
  split at entered
  · rename_i existing found
    split at entered
    · rename_i same
      subst same
      cases entered
      refine ⟨fun other again => Option.some.inj (again.symm.trans found), rfl, ?_⟩
      intro state symbol
      split
      · rename_i here
        rw [here] at found
        exact found
      · rfl
    · cases entered
  · rename_i free
    cases entered
    refine ⟨fun other again => ?_, rfl, action?_insert t suits⟩
    rw [action?, free] at again
    cases again

theorem action?_foldl_addFinal (t : Table) (states : List Nat) (state : Nat) (symbol : Symbol) :
    (states.foldl addFinal t).action? state symbol = t.action? state symbol := by
  induction states generalizing t with
  | nil => rfl
  | cons first states ih => exact ih (t.addFinal first)

theorem mem_finals_foldl_addFinal (t : Table) (states : List Nat) (state : Nat) :
    state ∈ (states.foldl addFinal t).finals ↔ state ∈ t.finals ∨ state ∈ states := by
  induction states generalizing t with
  | nil => simp
  | cons first states ih =>
    have added : state ∈ (t.addFinal first).finals ↔ state = first ∨ state ∈ t.finals := by
      rw [addFinal, Std.ExtTreeSet.mem_insert, Std.LawfulEqCmp.compare_eq_iff_eq, eq_comm]
    rw [List.foldl_cons, ih, added, List.mem_cons, or_left_comm, or_assoc]

end Table
end Recognizers
