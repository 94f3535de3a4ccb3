import Recognizers.Proofs.Sessions
import Recognizers.Proofs.Table.Entries

/-!
Tables under any requests. The granted entries are what a table holds (`Recorded.of_log`), so an
entry is refused exactly where a different one was granted before (`asked_eq_error_iff`), and
requests that are all granted make the same table in any order (`after_eq_of_members`).
-/
namespace Recognizers
namespace Table

namespace Entry

def cell : Entry → Cell
  | move state symbol _ => ⟨state, symbol⟩
  | reduction state symbol _ => ⟨state, symbol⟩

def action : Entry → Action
  | move _ symbol target => .move target symbol
  | reduction _ _ production => .reduce production

theorem suits (entry : Entry) : entry.action.Fits entry.cell.symbol := by
  cases entry with
  | move state symbol target => exact Action.move_fits target symbol
  | reduction state symbol production => trivial

theorem enter_eq (entry : Entry) (t : Table) :
    entry.enter t = t.enter entry.cell entry.action entry.suits := by
  cases entry <;> rfl

end Entry

inductive Request where
  | enter (entry : Entry)
  | final (state : Nat)
deriving DecidableEq

def grant (t : Table) : Request → Except Conflict (Unit × Table)
  | .enter entry => (entry.enter t).map (Prod.mk ())
  | .final state => .ok ((), t.addFinal state)

def respond (t : Table) (request : Request) : Except Conflict Unit × Table :=
  Session.settle t (t.grant request)

def after (asked : List Request) : Table := Session.state respond empty asked

def log (asked : List Request) : List (Request × Except Conflict Unit) :=
  Session.log respond empty asked

variable {t u : Table} {entry : Entry} {request : Request} {conflict : Conflict}
  {asked again : List Request}

theorem ext_of_content (actions : ∀ cell : Cell,
    t.action? cell.state cell.symbol = u.action? cell.state cell.symbol)
    (finals : t.finals = u.finals) : t = u := by
  have entries : t.entries = u.entries := Std.ExtTreeMap.ext_getElem? fun cell => actions cell
  cases t
  cases u
  cases entries
  cases finals
  rfl

theorem enter_eq_error_iff {cell : Cell} {action : Action} {suits : action.Fits cell.symbol} :
    t.enter cell action suits = .error conflict ↔
      ∃ existing, t.action? cell.state cell.symbol = some existing ∧ existing ≠ action ∧
        conflict = ⟨cell, existing, action⟩ := by
  unfold enter
  split
  · rename_i existing found
    have here : t.action? cell.state cell.symbol = some existing := found
    by_cases same : existing = action
    · simp [here, same]
    · simp [here, same, @eq_comm Conflict]
  · rename_i free
    have here : t.action? cell.state cell.symbol = none := free
    simp [here]

theorem respond_eq_error_iff : (t.respond request).1 = .error conflict ↔
    ∃ entry existing, request = .enter entry ∧
      t.action? entry.cell.state entry.cell.symbol = some existing ∧ existing ≠ entry.action ∧
      conflict = ⟨entry.cell, existing, entry.action⟩ := by
  rw [respond, Session.settle_eq_error_iff]
  cases request with
  | final state => simp [grant]
  | enter entry =>
    have failed : t.grant (.enter entry) = .error conflict ↔ entry.enter t = .error conflict := by
      rw [grant]
      cases entry.enter t <;> simp [Except.map]
    rw [failed, entry.enter_eq, enter_eq_error_iff]
    constructor
    · rintro ⟨existing, found, apart, rfl⟩
      exact ⟨entry, existing, rfl, found, apart, rfl⟩
    · rintro ⟨_, existing, ⟨⟩, found, apart, rfl⟩
      exact ⟨existing, found, apart, rfl⟩

/-- The table holds what was granted, and nothing else. -/
structure Recorded (t : Table) (log : List (Request × Except Conflict Unit)) : Prop where
  action_iff : ∀ {cell : Cell} {action : Action},
    t.action? cell.state cell.symbol = some action ↔
      ∃ entry, (.enter entry, .ok ()) ∈ log ∧ entry.cell = cell ∧ entry.action = action
  final_iff : ∀ {state : Nat}, state ∈ t.finals ↔ (.final state, .ok ()) ∈ log

namespace Recorded

variable {log : List (Request × Except Conflict Unit)}

theorem start : empty.Recorded [] where
  action_iff := by simp [action?, empty]
  final_iff := by simp [empty]

theorem refused (recorded : t.Recorded log) (request : Request) :
    t.Recorded (log ++ [(request, .error conflict)]) where
  action_iff := by simp [recorded.action_iff]
  final_iff := by simp [recorded.final_iff]

theorem entered (recorded : t.Recorded log) (done : entry.enter t = .ok u) :
    u.Recorded (log ++ [(.enter entry, .ok ())]) := by
  rw [entry.enter_eq] at done
  obtain ⟨agrees, finals, actions⟩ := enter_spec done
  have grown : ∀ other : Entry,
      (Request.enter other, Except.ok ()) ∈ log ++ [(Request.enter entry, Except.ok ())] ↔
        (Request.enter other, Except.ok ()) ∈ log ∨ other = entry := by
    simp
  constructor
  · intro cell action
    simp only [grown]
    rw [actions]
    by_cases here : entry.cell = cell
    · subst here
      rw [if_pos rfl]
      constructor
      · intro same
        exact ⟨entry, .inr rfl, rfl, Option.some.inj same⟩
      · rintro ⟨other, old | rfl, there, rfl⟩
        · rw [agrees other.action (recorded.action_iff.mpr ⟨other, old, there, rfl⟩)]
        · rfl
    · rw [if_neg here, recorded.action_iff]
      constructor
      · rintro ⟨other, old, there, same⟩
        exact ⟨other, .inl old, there, same⟩
      · rintro ⟨other, old | rfl, there, same⟩
        · exact ⟨other, old, there, same⟩
        · exact absurd there here
  · intro state
    rw [finals, recorded.final_iff]
    simp

theorem marked (recorded : t.Recorded log) (state : Nat) :
    (t.addFinal state).Recorded (log ++ [(.final state, .ok ())]) where
  action_iff := by
    intro cell action
    rw [show (t.addFinal state).action? = t.action? from rfl, recorded.action_iff]
    simp
  final_iff := by
    intro other
    rw [addFinal, Std.ExtTreeSet.mem_insert, Std.LawfulEqCmp.compare_eq_iff_eq,
      recorded.final_iff]
    simp [or_comm, eq_comm]

theorem step (recorded : t.Recorded log) (request : Request) :
    (t.respond request).2.Recorded (log ++ [(request, (t.respond request).1)]) := by
  cases request with
  | final state => exact recorded.marked state
  | enter entry =>
    rw [respond, grant]
    cases done : entry.enter t with
    | ok next => exact recorded.entered done
    | error conflict => exact recorded.refused (.enter entry)

theorem of_log (asked : List Request) : (after asked).Recorded (Table.log asked) := by
  induction asked using List.reverseRecOn with
  | nil => exact start
  | append_singleton asked request ih =>
    rw [after, Table.log, Session.state_concat, Session.log_concat]
    exact ih.step request

end Recorded

/-- No place is asked to hold two different actions. -/
def Agree (asked : List Request) : Prop :=
  ∀ one other : Entry, .enter one ∈ asked → .enter other ∈ asked → one.cell = other.cell →
    one.action = other.action

def AllGranted (asked : List Request) : Prop :=
  ∀ request answer, (request, answer) ∈ log asked → answer = .ok ()

theorem AllGranted.mem_log_iff (granted : AllGranted asked) :
    (request, .ok ()) ∈ log asked ↔ request ∈ asked := by
  constructor
  · exact Session.asked_of_mem_log
  · intro member
    obtain ⟨answer, logged⟩ := Session.exists_mem_log respond empty member
    rwa [granted request answer logged] at logged

theorem Agree.of_granted (granted : AllGranted asked) : Agree asked := by
  intro one other first second same
  have recorded := Recorded.of_log asked
  have found := recorded.action_iff.mpr ⟨one, granted.mem_log_iff.mpr first, rfl, rfl⟩
  have again := recorded.action_iff.mpr ⟨other, granted.mem_log_iff.mpr second, rfl, rfl⟩
  rw [same, again] at found
  exact (Option.some.inj found).symm

theorem Agree.granted (agree : Agree asked) : AllGranted asked := by
  rintro request (conflict | ⟨⟨⟩⟩) logged
  · -- A refusal needs an entry that was granted before and differs, so the two do not agree.
    obtain ⟨before, later, rfl, refused⟩ := Session.mem_log_iff.mp logged
    obtain ⟨entry, existing, rfl, found, apart, _⟩ := respond_eq_error_iff.mp refused
    obtain ⟨earlier, member, same, rfl⟩ := (Recorded.of_log before).action_iff.mp found
    have before : Request.enter earlier ∈ before := Session.asked_of_mem_log member
    exact absurd (agree earlier entry (by simp [before]) (by simp) same) apart
  · rfl

theorem Agree.same_members (agree : Agree asked)
    (members : ∀ request, request ∈ again ↔ request ∈ asked) : Agree again := by
  intro one other first second
  exact agree one other ((members _).mp first) ((members _).mp second)

theorem after_eq_of_members (granted : AllGranted asked) (regranted : AllGranted again)
    (members : ∀ request, request ∈ again ↔ request ∈ asked) : after again = after asked := by
  have first := Recorded.of_log asked
  have second := Recorded.of_log again
  apply ext_of_content
  · intro cell
    apply Option.ext
    intro action
    rw [first.action_iff, second.action_iff]
    simp only [granted.mem_log_iff, regranted.mem_log_iff, members]
  · apply Std.ExtTreeSet.ext_mem
    intro state
    rw [first.final_iff, second.final_iff, granted.mem_log_iff, regranted.mem_log_iff, members]

theorem asked_eq_error_iff : ((after asked).respond request).1 = .error conflict ↔
    ∃ entry earlier, request = .enter entry ∧ (.enter earlier, .ok ()) ∈ log asked ∧
      earlier.cell = entry.cell ∧ earlier.action ≠ entry.action ∧
      conflict = ⟨entry.cell, earlier.action, entry.action⟩ := by
  rw [respond_eq_error_iff]
  simp only [(Recorded.of_log asked).action_iff]
  constructor
  · rintro ⟨entry, _, rfl, ⟨earlier, granted, here, rfl⟩, other, rfl⟩
    exact ⟨entry, earlier, rfl, granted, here, other, rfl⟩
  · rintro ⟨entry, earlier, rfl, granted, here, other, rfl⟩
    exact ⟨entry, earlier.action, rfl, ⟨earlier, granted, here, rfl⟩, other, rfl⟩

theorem fits_column {state : Nat} {symbol : Symbol} {action : Action}
    (found : t.action? state symbol = some action) :
    (symbol.kind = .terminal → ∃ number, action = .shift number ∨ action = .reduce number) ∧
      (symbol.kind = .nonterminal → ∃ number, action = .goto number ∨ action = .reduce number) := by
  have suits : action.Fits symbol := t.fits found
  cases action with
  | shift target =>
    have kind : symbol.kind = .terminal := suits
    simp [kind]
  | goto target =>
    have kind : symbol.kind = .nonterminal := suits
    simp [kind]
  | reduce production => exact ⟨fun _ => ⟨production, .inr rfl⟩, fun _ => ⟨production, .inr rfl⟩⟩

end Table
end Recognizers
