import Mathlib.Data.List.Forall2
import Recognizers.Description.Directive
import Recognizers.Table.Basic
import Recognizers.Text.Numeral

/-!
What the lines of a description say, each line a list of words, without a parser that obeys them.
Whether a line may stand where it does depends on the words of the lines before it alone
(`Admissible`).
-/
namespace Recognizers

def SymbolKind.keyword : SymbolKind → String
  | terminal => "terminals"
  | nonterminal => "nonterminals"

namespace Description

def lines (source : String) : List (List String) := (Text.lines source).map Directive.lineWords

def Declares (line : List String) (kind : SymbolKind) (name : String) : Prop :=
  ∃ names, line = kind.keyword :: names ∧ name ∈ names

/-- Listed under a kind by one of the lines; `eof` and `null` are terminals from the start. -/
def Listed (before : List (List String)) (kind : SymbolKind) (name : String) : Prop :=
  (kind = .terminal ∧ name ∈ ["eof", "null"]) ∨ ∃ line ∈ before, Declares line kind name

def production? : List String → Option (String × List String)
  | "production" :: left :: "->" :: right => some (left, right)
  | _ => none

def productions (before : List (List String)) : List (String × List String) :=
  before.filterMap production?

inductive Entry where
  | move (target : Nat)
  | reduce (production : Nat)
deriving DecidableEq

/-- A move over a terminal is a shift and one over a non-terminal a goto. -/
def Entry.action (entry : Entry) (symbol : Symbol) : Action :=
  match entry with
  | move target => .move target symbol
  | reduce production => .reduce production

theorem Entry.action_inj {entry other : Entry} {symbol : Symbol}
    (same : other.action symbol = entry.action symbol) : other = entry := by
  cases entry <;> cases other <;> cases symbol <;>
    simp_all [action, Action.move, Symbol.kind]

theorem Entry.action_congr {entry : Entry} {s t : Symbol} (kind : s.kind = t.kind) :
    entry.action s = entry.action t := by
  cases entry with
  | move target => simp only [action, Action.move, kind]
  | reduce production => rfl

inductive Enters : List String → Nat → String → Entry → Prop where
  | move {keyword first name second : String} {state target : Nat}
      (moves : keyword = "shift" ∨ keyword = "goto") (source : Text.number? first = some state)
      (goal : Text.number? second = some target) :
      Enters [keyword, first, name, second] state name (.move target)
  | reduce {first name second : String} {state production : Nat}
      (source : Text.number? first = some state)
      (made : Text.number? second = some production) :
      Enters ["reduce", first, name, second] state name (.reduce production)

def Finishes (line : List String) (state : Nat) : Prop :=
  ∃ words, line = "final" :: words ∧ ∃ word ∈ words, Text.number? word = some state

/-- A line that may follow the given ones. -/
inductive Admissible (before : List (List String)) : List String → Prop where
  | blank : Admissible before []
  | lists {kind : SymbolKind} {names : List String}
      (kinds : ∀ name ∈ names, ∀ other, Listed before other name → other = kind) :
      Admissible before (kind.keyword :: names)
  | production {left : String} {right : List String} (head : Listed before .nonterminal left)
      (known : ∀ name ∈ right, ∃ kind, Listed before kind name) :
      Admissible before ("production" :: left :: "->" :: right)
  | enters {line : List String} {state : Nat} {name : String} {entry : Entry}
      (entered : Enters line state name entry) (known : ∃ kind, Listed before kind name)
      (made : ∀ production, entry = .reduce production → production < (productions before).length)
      (agrees : ∀ earlier ∈ before, ∀ other, Enters earlier state name other → other = entry) :
      Admissible before line
  | final {words : List String}
      (numbers : ∀ word ∈ words, ∃ state, Text.number? word = some state) :
      Admissible before ("final" :: words)

section

variable {word name : String} {args : List String} {kind : SymbolKind} {state : Nat} {entry : Entry}

theorem Declares.keyword (lists : Declares (word :: args) kind name) : word = kind.keyword := by
  obtain ⟨names, same, _⟩ := lists
  exact (List.cons.inj same).1

theorem declares_keyword_iff {kind' : SymbolKind} {names : List String} :
    Declares (kind.keyword :: names) kind' name ↔ kind' = kind ∧ name ∈ names := by
  constructor
  · intro lists
    have same := lists.keyword
    obtain ⟨others, line, member⟩ := lists
    rw [(List.cons.inj line).2]
    refine ⟨?_, member⟩
    cases kind <;> cases kind' <;> first | rfl | exact absurd same (by decide)
  · rintro ⟨rfl, member⟩
    exact ⟨names, rfl, member⟩

theorem Enters.keyword (enters : Enters (word :: args) state name entry) :
    word ∈ ["shift", "goto", "reduce"] := by
  cases enters with
  | move moves source goal => rcases moves with rfl | rfl <;> decide
  | reduce source made => decide

theorem Finishes.keyword (finishes : Finishes (word :: args) state) : word = "final" := by
  obtain ⟨words, same, _⟩ := finishes
  exact (List.cons.inj same).1

theorem finishes_final_iff {words : List String} :
    Finishes ("final" :: words) state ↔ ∃ word ∈ words, Text.number? word = some state := by
  constructor
  · rintro ⟨others, same, finishes⟩
    rw [(List.cons.inj same).2]
    exact finishes
  · intro finishes
    exact ⟨words, rfl, finishes⟩

theorem production?_of_keyword (other : word ≠ "production") :
    production? (word :: args) = none := by
  unfold production?
  split
  · rename_i same
    exact absurd (List.cons.inj same).1 other
  · rfl

theorem Enters.unique {line : List String} {name' : String} {state' : Nat} {entry' : Entry}
    (enters : Enters line state name entry) (again : Enters line state' name' entry') :
    state' = state ∧ name' = name ∧ entry' = entry := by
  cases enters with
  | move moves source goal =>
    cases again with
    | move _ source' goal' =>
      rw [source] at source'
      rw [goal] at goal'
      cases source'
      cases goal'
      exact ⟨rfl, rfl, rfl⟩
    | reduce _ _ => exact absurd moves (by decide)
  | reduce source made =>
    cases again with
    | move moves _ _ => exact absurd moves (by decide)
    | reduce source' made' =>
      rw [source] at source'
      rw [made] at made'
      cases source'
      cases made'
      exact ⟨rfl, rfl, rfl⟩

theorem Enters.apart {line : List String} (enters : Enters line state name entry) :
    (∀ kind name, ¬ Declares line kind name) ∧ production? line = none ∧
      ∀ state, ¬ Finishes line state := by
  cases line with
  | nil => cases enters
  | cons word args =>
    have keyword := enters.keyword
    refine ⟨fun kind name lists => ?_, production?_of_keyword ?_, fun state finishes => ?_⟩
    · rw [lists.keyword] at keyword
      exact absurd keyword (by cases kind <;> decide)
    · rintro rfl
      exact absurd keyword (by decide)
    · rw [finishes.keyword] at keyword
      exact absurd keyword (by decide)

end

end Description
end Recognizers
