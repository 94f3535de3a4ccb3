import Recognizers.Table.Rows
import Recognizers.Proofs.Table.Requests

/-!
Rows that are changed in place. They answer as a table does and hold the same, with no row empty
(`RowTable.Keeps.of_asked`), and so what is known of tables under any requests is known of them
(`Table.history_decides`).
-/
namespace Recognizers
namespace RowTable

open Table (Request)

def respond (t : RowTable) : Request → Except Conflict Unit × RowTable
  | .enter (.move state symbol target) => t.enterMove state symbol target
  | .enter (.reduction state symbol production) => t.enterReduction state symbol production
  | .final state => (.ok (), t.addFinal state)

theorem respond_enter (r : RowTable) (entry : Table.Entry) :
    r.respond (.enter entry) = r.enter entry.cell entry.action := by
  cases entry <;> rfl

def after (asked : List Request) : RowTable := Session.state respond {} asked

def log (asked : List Request) : List (Request × Except Conflict Unit) :=
  Session.log respond {} asked

structure Keeps (r : RowTable) (t : Table) : Prop where
  actions : ∀ state symbol, r.action? state symbol = t.action? state symbol
  occupied : ∀ {state : Nat} {row : Row}, r.rows[state]? = some row → row ≠ ∅
  finals : r.finals = t.finals

def row (r : RowTable) (state : Nat) : Row := r.rows[state]?.getD ∅

theorem action?_eq (r : RowTable) (state : Nat) (symbol : Symbol) :
    r.action? state symbol = (r.row state)[symbol]? := by
  unfold action? row
  cases r.rows[state]? with
  | none => exact Std.ExtTreeMap.getElem?_empty.symm
  | some row => rfl

theorem exists_of_ne_empty {row : Row} (occupied : row ≠ ∅) :
    ∃ (symbol : Symbol) (action : Action), row[symbol]? = some action := by
  obtain ⟨symbol, member⟩ := not_forall_not.mp
    (mt Std.ExtTreeMap.eq_empty_iff_forall_not_mem.mpr occupied)
  exact ⟨symbol, row[symbol], Std.ExtTreeMap.getElem?_eq_some_getElem member⟩

theorem getElem?_putRow (r : RowTable) (state place : Nat) (row : Row) :
    (r.putRow state row).rows[place]? =
      if state = place then some row else r.rows[place]? := by
  simp [putRow, Std.ExtTreeMap.getElem?_insert]

theorem putRow_putRow (r : RowTable) (state : Nat) (first second : Row) :
    (r.putRow state first).putRow state second = r.putRow state second := by
  have rows : (r.rows.insert state first).insert state second = r.rows.insert state second := by
    apply Std.ExtTreeMap.ext_getElem?
    intro place
    simp only [Std.ExtTreeMap.getElem?_insert]
    split <;> rfl
  rw [putRow, putRow, putRow, rows]

variable {r s : RowTable} {cell : Cell} {existing action : Action}

theorem enter_of_other (found : r.action? cell.state cell.symbol = some existing)
    (other : existing ≠ action) : r.enter cell action = (.error ⟨cell, existing, action⟩, r) := by
  unfold action? at found
  unfold enter openRow
  cases there : r.rows[cell.state]? with
  | none => simp [there] at found
  | some row =>
    rw [there, Option.bind_some] at found
    simp [found, other, Option.filter_some]

/-- The row that is made before the check stays where an action comes into it. -/
theorem enter_of_agrees
    (agrees : ∀ existing, r.action? cell.state cell.symbol = some existing → existing = action) :
    r.enter cell action =
      (.ok (), r.putRow cell.state ((r.row cell.state).insert cell.symbol action)) := by
  have free : ((r.row cell.state)[cell.symbol]?).filter (· ≠ action) = none := by
    rw [← action?_eq, Option.filter_eq_none_iff]
    intro existing found
    simp [agrees existing found]
  unfold row at free ⊢
  unfold enter openRow
  cases there : r.rows[cell.state]? with
  | none => simp [putRow_putRow]
  | some row =>
    rw [there, Option.getD_some] at free
    simp only [free, Option.getD_some]

namespace Keeps

variable {t u : Table} {suits : action.Fits cell.symbol} {conflict : Conflict}

theorem start : Keeps {} .empty where
  actions := by simp [action?, Table.action?, Table.empty]
  occupied := by simp
  finals := rfl

theorem row_kept (first : r.Keeps t) (second : s.Keeps t) {state : Nat} {row : Row}
    (found : r.rows[state]? = some row) :
    s.rows[state]? = some row := by
  have same : ∀ symbol : Symbol, row[symbol]? = (s.row state)[symbol]? := by
    intro symbol
    rw [← action?_eq, second.actions, ← first.actions, action?, found, Option.bind_some]
  -- An action of the row is an action of `s`, which therefore has a row for the state too.
  obtain ⟨symbol, action, there⟩ := exists_of_ne_empty (first.occupied found)
  rw [Std.ExtTreeMap.ext_getElem? same] at there ⊢
  unfold RowTable.row at there ⊢
  cases kept : s.rows[state]? with
  | none => simp [kept] at there
  | some row => rfl

theorem unique (first : r.Keeps t) (second : s.Keeps t) : r = s := by
  have rows : r.rows = s.rows := by
    apply Std.ExtTreeMap.ext_getElem?
    intro state
    apply Option.ext
    intro row
    exact ⟨first.row_kept second, second.row_kept first⟩
  have finals : r.finals = s.finals := first.finals.trans second.finals.symm
  cases r
  cases s
  cases rows
  cases finals
  rfl

theorem refused (keeps : r.Keeps t) (refused : t.enter cell action suits = .error conflict) :
    r.enter cell action = (.error conflict, r) := by
  obtain ⟨existing, found, other, rfl⟩ := Table.enter_eq_error_iff.mp refused
  exact enter_of_other ((keeps.actions _ _).trans found) other

theorem entered (keeps : r.Keeps t) (done : t.enter cell action suits = .ok u) :
    ∃ s, r.enter cell action = (.ok (), s) ∧ s.Keeps u := by
  obtain ⟨agrees, finals, actions⟩ := Table.enter_spec done
  refine ⟨_, enter_of_agrees fun existing found => agrees existing ?_, ?_, ?_, ?_⟩
  · rw [← keeps.actions, found]
  · intro state symbol
    rw [actions, ← keeps.actions, action?_eq, action?_eq, row, getElem?_putRow]
    by_cases here : cell.state = state
    · subst here
      obtain ⟨_, column⟩ := cell
      simp [Std.ExtTreeMap.getElem?_insert]
    · rw [if_neg here, if_neg (mt (congrArg Cell.state) here)]
      rfl
  · intro state row found
    rw [getElem?_putRow] at found
    split at found
    · cases found
      exact Std.ExtTreeMap.insert_ne_empty
    · exact keeps.occupied found
  · exact keeps.finals.trans finals.symm

theorem responded (keeps : r.Keeps t) (request : Request) :
    Session.Follows Keeps r (t.grant request) (r.respond request) := by
  cases request with
  | final state =>
    exact .granted ⟨keeps.actions, keeps.occupied, congrArg (·.insert state) keeps.finals⟩
  | enter entry =>
    rw [respond_enter, Table.grant]
    cases done : entry.enter t with
    | ok u =>
      obtain ⟨s, entered, kept⟩ := keeps.entered (entry.enter_eq t ▸ done)
      rw [entered]
      exact .granted kept
    | error conflict =>
      rw [keeps.refused (entry.enter_eq t ▸ done)]
      exact .refused

theorem of_asked (asked : List Request) :
    log asked = Table.log asked ∧ (after asked).Keeps (Table.after asked) :=
  Session.related (fun request keeps => (keeps.responded request).settled keeps) start

end Keeps
end RowTable

namespace Table

variable {asked : List Request} {request : Request} {conflict : Conflict}

theorem after_refused (refused : ((after asked).respond request).1 = .error conflict) :
    after (asked ++ [request]) = after asked ∧
      RowTable.after (asked ++ [request]) = RowTable.after asked := by
  constructor
  · rw [after, Session.state_concat]
    exact Session.settle_refused refused
  · rw [RowTable.after, Session.state_concat]
    exact ((RowTable.Keeps.of_asked asked).2.responded request).unchanged refused

/-- Whatever was asked, an entry is refused just where a different one was granted earlier, and the
refusal names that one and changes nothing. Nothing is refused just if the requests agree, and then
their order and number do not matter. -/
theorem history_decides (asked : List Request) :
    RowTable.log asked = log asked ∧ (RowTable.after asked).Keeps (after asked) ∧
    (∀ request conflict, ((after asked).respond request).1 = .error conflict ↔
      ∃ entry earlier, request = .enter entry ∧ (.enter earlier, .ok ()) ∈ log asked ∧
        earlier.cell = entry.cell ∧ earlier.action ≠ entry.action ∧
        conflict = ⟨entry.cell, earlier.action, entry.action⟩) ∧
    (∀ request conflict, ((after asked).respond request).1 = .error conflict →
      after (asked ++ [request]) = after asked ∧
      RowTable.after (asked ++ [request]) = RowTable.after asked) ∧
    (AllGranted asked ↔ Agree asked) ∧
    (AllGranted asked → ∀ again, (∀ request, request ∈ again ↔ request ∈ asked) →
      AllGranted again ∧ after again = after asked ∧
      RowTable.after again = RowTable.after asked) ∧
    (∀ (state : Nat) (row : Row), (RowTable.after asked).rows[state]? = some row → row ≠ ∅) ∧
    ∀ state symbol action, (after asked).action? state symbol = some action →
      (symbol.kind = .terminal → ∃ number, action = .shift number ∨ action = .reduce number) ∧
      (symbol.kind = .nonterminal → ∃ number, action = .goto number ∨ action = .reduce number) := by
  obtain ⟨logs, keeps⟩ := RowTable.Keeps.of_asked asked
  refine ⟨logs, keeps, fun _ _ => asked_eq_error_iff, fun _ _ => after_refused,
    ⟨Agree.of_granted, Agree.granted⟩, ?_, fun _ _ => keeps.occupied, fun _ _ _ => fits_column⟩
  intro granted again members
  have regranted := ((Agree.of_granted granted).same_members members).granted
  have same := after_eq_of_members granted regranted members
  exact ⟨regranted, same, (same ▸ (RowTable.Keeps.of_asked again).2).unique keeps⟩

example : log [.enter (.move 0 .eof 1), .enter (.reduction 0 .eof 7), .final 3,
      .enter (.move 0 .eof 1)] =
    [(.enter (.move 0 .eof 1), .ok ()),
      (.enter (.reduction 0 .eof 7), .error ⟨⟨0, .eof⟩, .shift 1, .reduce 7⟩),
      (.final 3, .ok ()), (.enter (.move 0 .eof 1), .ok ())] := by
  decide +kernel

end Table
end Recognizers
