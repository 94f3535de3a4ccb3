import Recognizers.Table.Matrix
import Recognizers.Proofs.Description.Closure
import Recognizers.Proofs.Text.Words

/-!
The text of a table, read back: its lines, the cells between the tabs of a line, the columns by the
names in the heading. No name of a loaded parser holds a blank, so neither a line nor a cell is
split within a name, and the text alone tells what the table does (`ofText_matrix`).
-/
namespace Recognizers

inductive Mark where
  | accept
  | act (action : Action)
deriving DecidableEq

namespace Mark

def number (digits : List Char) : Nat := Nat.ofDigitChars 10 digits 0

def action? : List Char → Option Action
  | 's' :: digits => some (.shift (number digits))
  | 'g' :: digits => some (.goto (number digits))
  | 'r' :: digits => some (.reduce (number digits))
  | _ => none

def ofCell (cell : List Char) : Option Mark :=
  if cell = "acc".toList then some accept else (action? cell).map act

end Mark

/-- What the text of a table says: the names over its columns and, for each line below them, the
state and what is in its cells. -/
structure Reading where
  names : List String
  rows : List (Nat × List (Option Mark))
deriving DecidableEq

namespace Reading

/-- A heading whose first cell is empty, and lines whose first cell is a state. Every line ends with
a line feed. -/
def ofText (text : String) : Reading :=
  match (Text.lines text).dropLast.map (List.splitOn '\t') with
  | [] => { names := [], rows := [] }
  | heading :: rows =>
    { names := heading.tail.map String.ofList
      rows := rows.map fun cells => (Mark.number (cells.headD []), cells.tail.map Mark.ofCell) }

def states (r : Reading) : List Nat := r.rows.map Prod.fst

def mark? (r : Reading) (state : Nat) (name : String) : Option Mark :=
  (r.rows.lookup state).bind fun marks => ((r.names.zip marks).lookup name).join

end Reading

namespace Action

def letter : Action → Char
  | shift _ => 's'
  | goto _ => 'g'
  | reduce _ => 'r'

def number : Action → Nat
  | shift target => target
  | goto target => target
  | reduce production => production

theorem toList_text (action : Action) :
    action.text.toList = action.letter :: (toString action.number).toList := by
  cases action <;> exact String.toList_append

theorem unbroken_text (action : Action) : Text.Unbroken action.text.toList := by
  intro c member
  rw [action.toList_text] at member
  rcases List.mem_cons.mp member with rfl | digit
  · cases action <;> rfl
  · exact Text.unbroken_toString action.number c digit

end Action

namespace Mark

theorem number_toString (n : Nat) : number (toString n).toList = n := by
  rw [number, Nat.toString_eq_ofList_toDigits, String.toList_ofList, Nat.ofDigitChars_ten_toDigits]

theorem action?_text (action : Action) : action? action.text.toList = some action := by
  rw [action.toList_text]
  cases action with
  | shift target => exact congrArg (some ∘ Action.shift) (number_toString target)
  | goto target => exact congrArg (some ∘ Action.goto) (number_toString target)
  | reduce production => exact congrArg (some ∘ Action.reduce) (number_toString production)

theorem ofCell_text (action : Action) : ofCell action.text.toList = some (act action) := by
  have other : action.text.toList ≠ "acc".toList := by
    intro same
    have found := action?_text action
    rw [same] at found
    cases found
  rw [ofCell, if_neg other, action?_text, Option.map_some]

end Mark

def Symbol.Before (s t : Symbol) : Prop :=
  (s.kind = .terminal ∧ t.kind = .nonterminal) ∨ (s.kind = t.kind ∧ s.number < t.number)

theorem Symbol.before_of_compare {s t : Symbol} (less : compare s t = .lt) : s.Before t := by
  have order : compareLex (compareOn rank) (compareOn number) s t = .lt := less
  simp only [compareLex, compareOn, Ordering.then_eq_lt, Nat.compare_eq_lt, Nat.compare_eq_eq]
    at order
  cases s <;> cases t <;> simp_all [Before, rank, kind, number]

namespace Table

variable {t : Table} {v : Vocabulary} {state : Nat} {symbol : Symbol}

theorem mem_ofList_keys {β : Type} [Ord β] [Std.TransOrd β] [Std.LawfulEqOrd β] [DecidableEq β]
    {part : Cell → β} {b : β} :
    b ∈ (Std.ExtTreeSet.ofList (t.entries.keys.map part)).toList ↔
      ∃ state symbol, part ⟨state, symbol⟩ = b ∧
        ∃ action, t.action? state symbol = some action := by
  rw [Std.ExtTreeSet.mem_toList, Std.ExtTreeSet.mem_ofList, List.contains_iff_mem, List.mem_map]
  constructor
  · rintro ⟨cell, member, rfl⟩
    rw [Std.ExtTreeMap.mem_keys] at member
    exact ⟨cell.state, cell.symbol, rfl, _, Std.ExtTreeMap.getElem?_eq_some_getElem member⟩
  · rintro ⟨state, symbol, rfl, action, acts⟩
    refine ⟨⟨state, symbol⟩, ?_, rfl⟩
    rw [Std.ExtTreeMap.mem_keys, Std.ExtTreeMap.mem_iff_isSome_getElem?]
    exact Option.isSome_of_eq_some acts

theorem mem_states : state ∈ t.states ↔ ∃ symbol action, t.action? state symbol = some action := by
  rw [states, mem_ofList_keys]
  constructor
  · rintro ⟨_, symbol, rfl, acts⟩
    exact ⟨symbol, acts⟩
  · rintro ⟨symbol, acts⟩
    exact ⟨state, symbol, rfl, acts⟩

theorem mem_symbols :
    symbol ∈ t.symbols ↔ ∃ state action, t.action? state symbol = some action := by
  rw [symbols, mem_ofList_keys]
  constructor
  · rintro ⟨state, _, rfl, acts⟩
    exact ⟨state, acts⟩
  · rintro ⟨state, acts⟩
    exact ⟨state, symbol, rfl, acts⟩

theorem states_ascending (t : Table) : t.states.Pairwise (· < ·) :=
  Std.ExtTreeSet.ordered_toList.imp Nat.compare_eq_lt.mp

theorem symbols_ordered (t : Table) : t.symbols.Pairwise Symbol.Before :=
  Std.ExtTreeSet.ordered_toList.imp Symbol.before_of_compare

theorem symbols_nodup (t : Table) : t.symbols.Nodup := by
  refine t.symbols_ordered.imp fun before same => ?_
  subst same
  rcases before with ⟨terminal, nonterminal⟩ | ⟨_, less⟩
  · exact absurd (terminal.symm.trans nonterminal) (by decide)
  · exact Nat.lt_irrefl _ less

def mark? (t : Table) (state : Nat) (symbol : Symbol) : Option Mark :=
  (t.action? state symbol).map fun action =>
    if symbol = .eof ∧ state ∈ t.finals then .accept else .act action

theorem ofCell_cellText (t : Table) (state : Nat) (symbol : Symbol) :
    Mark.ofCell (t.cellText state symbol).toList = t.mark? state symbol := by
  rw [cellText, mark?]
  cases t.action? state symbol with
  | none => rfl
  | some action =>
    by_cases accepts : symbol = .eof ∧ state ∈ t.finals
    · simp only [if_pos accepts, Option.map_some]
      rfl
    · simp only [if_neg accepts, Option.map_some]
      exact Mark.ofCell_text action

theorem unbroken_cellText (t : Table) (state : Nat) (symbol : Symbol) :
    Text.Unbroken (t.cellText state symbol).toList := by
  rw [cellText]
  split
  · decide
  · split
    · decide
    · exact Action.unbroken_text _

def cells (t : Table) (v : Vocabulary) : List (List String) :=
  ("" :: t.symbols.map v.name) ::
    t.states.map fun state => toString state :: t.symbols.map (t.cellText state)

theorem unbroken_cells (unbroken : ∀ s ∈ t.symbols, Text.Unbroken (v.name s).toList) :
    ∀ row ∈ t.cells v, ∀ cell ∈ row, Text.Unbroken cell.toList := by
  intro row inside cell member
  rcases List.mem_cons.mp inside with rfl | below
  · rcases List.mem_cons.mp member with rfl | name
    · decide
    · obtain ⟨s, column, rfl⟩ := List.mem_map.mp name
      exact unbroken s column
  · obtain ⟨state, _, rfl⟩ := List.mem_map.mp below
    rcases List.mem_cons.mp member with rfl | text
    · exact Text.unbroken_toString state
    · obtain ⟨s, _, rfl⟩ := List.mem_map.mp text
      exact t.unbroken_cellText state s

theorem matrix_eq (t : Table) (v : Vocabulary) :
    t.matrix v = String.join ((t.cells v).map fun row => "\t".intercalate row ++ "\n") := by
  rw [cells, List.map_cons, String.join_cons, List.map_map]
  rfl

theorem split_matrix (unbroken : ∀ s ∈ t.symbols, Text.Unbroken (v.name s).toList) :
    (Text.lines (t.matrix v)).dropLast.map (List.splitOn '\t') =
      (t.cells v).map (List.map String.toList) := by
  have occupied : ∀ row ∈ t.cells v, row ≠ [] := by
    intro row inside
    rcases List.mem_cons.mp inside with rfl | below
    · exact List.cons_ne_nil _ _
    · obtain ⟨state, _, rfl⟩ := List.mem_map.mp below
      exact List.cons_ne_nil _ _
  rw [matrix_eq, Text.split_cells (unbroken_cells unbroken) occupied]

def reading (t : Table) (v : Vocabulary) : Reading where
  names := t.symbols.map v.name
  rows := t.states.map fun state => (state, t.symbols.map (t.mark? state))

theorem ofCell_cells (t : Table) (state : Nat) :
    ((t.symbols.map (t.cellText state)).map String.toList).map Mark.ofCell =
      t.symbols.map (t.mark? state) := by
  rw [List.map_map, List.map_map]
  exact List.map_congr_left fun s _ => t.ofCell_cellText state s

theorem ofText_matrix (unbroken : ∀ s ∈ t.symbols, Text.Unbroken (v.name s).toList) :
    Reading.ofText (t.matrix v) = t.reading v := by
  have names : ((t.symbols.map v.name).map String.toList).map String.ofList =
      t.symbols.map v.name := by
    rw [List.map_map, List.map_map]
    exact List.map_congr_left fun s _ => String.ofList_toList
  have rows : ((t.states.map fun state => toString state :: t.symbols.map (t.cellText state)).map
      (List.map String.toList)).map (fun cells =>
        (Mark.number (cells.headD []), cells.tail.map Mark.ofCell)) =
      t.states.map fun state => (state, t.symbols.map (t.mark? state)) := by
    rw [List.map_map, List.map_map]
    refine List.map_congr_left fun state _ => ?_
    exact Prod.ext (Mark.number_toString state) (t.ofCell_cells state)
  rw [Reading.ofText, split_matrix unbroken, cells, List.map_cons]
  exact congrArg₂ Reading.mk names rows

theorem states_reading (t : Table) (v : Vocabulary) : (t.reading v).states = t.states := by
  rw [Reading.states, reading, List.map_map]
  exact List.map_id t.states

theorem lookup_map {α κ β : Type} [BEq κ] [LawfulBEq κ] {key : α → κ} (value : α → β)
    {all : List α} {a : α} (member : a ∈ all) (only : ∀ b ∈ all, key b = key a → b = a) :
    (all.map fun b => (key b, value b)).lookup (key a) = some (value a) := by
  induction all with
  | nil => cases member
  | cons b rest ih =>
    rw [List.map_cons, List.lookup_cons]
    by_cases same : key b = key a
    · rw [only b List.mem_cons_self same, beq_self_eq_true]
    · have later : a ∈ rest := by
        rcases List.mem_cons.mp member with rfl | later
        · exact absurd rfl same
        · exact later
      rw [beq_false_of_ne (Ne.symm same)]
      exact ih later fun c inside => only c (List.mem_cons_of_mem b inside)

theorem lookup_map_eq_none {α κ β : Type} [BEq κ] [LawfulBEq κ] {key : α → κ} {value : α → β}
    {all : List α} {k : κ} (absent : ∀ b ∈ all, key b ≠ k) :
    (all.map fun b => (key b, value b)).lookup k = none := by
  rw [List.lookup_eq_none_iff]
  intro pair member
  obtain ⟨b, inside, rfl⟩ := List.mem_map.mp member
  exact bne_iff_ne.mpr (absent b inside).symm

theorem mark?_eq_none (idle : t.action? state symbol = none) : t.mark? state symbol = none := by
  rw [mark?, idle, Option.map_none]

theorem lookup_column (named : ∀ s ∈ t.symbols, v.Interned s) {name : String}
    (found : v.find? name = some symbol) (state : Nat) :
    (((t.symbols.map v.name).zip (t.symbols.map (t.mark? state))).lookup name).join =
      t.mark? state symbol := by
  rw [List.zip_map']
  have only : ∀ s ∈ t.symbols, v.name s = name → s = symbol := by
    rintro s member rfl
    exact Option.some.inj ((named s member).symm.trans found)
  by_cases column : symbol ∈ t.symbols
  · obtain rfl := Vocabulary.name_of_find? found
    rw [lookup_map (t.mark? state) column only, Option.join_some]
  · have idle : t.action? state symbol = none := by
      rw [Option.eq_none_iff_forall_ne_some]
      exact fun action acts => column (mem_symbols.mpr ⟨state, action, acts⟩)
    have absent : ∀ s ∈ t.symbols, v.name s ≠ name :=
      fun s member same => column (only s member same ▸ member)
    rw [lookup_map_eq_none absent, mark?_eq_none idle]
    rfl

theorem mark?_reading (named : ∀ s ∈ t.symbols, v.Interned s) {name : String}
    (found : v.find? name = some symbol) (state : Nat) :
    (t.reading v).mark? state name = t.mark? state symbol := by
  rw [Reading.mark?]
  by_cases inside : state ∈ t.states
  · have line : (t.reading v).rows.lookup state = some (t.symbols.map (t.mark? state)) :=
      @lookup_map _ _ _ _ _ id _ _ _ inside fun _ _ same => same
    rw [line, Option.bind_some]
    exact lookup_column named found state
  · have idle : t.action? state symbol = none := by
      rw [Option.eq_none_iff_forall_ne_some]
      exact fun action acts => inside (mem_states.mpr ⟨symbol, action, acts⟩)
    have missing : (t.reading v).rows.lookup state = none :=
      @lookup_map_eq_none _ _ _ _ _ id _ _ _ fun other member same => inside (same ▸ member)
    rw [missing, Option.bind_none, mark?_eq_none idle]

end Table

namespace Parser

open Description

variable {p : Parser} {source : String}

theorem solid_of_listed {kind : SymbolKind} {name : String}
    (listed : Listed (lines source) kind name) : Text.Solid name.toList := by
  rcases listed with ⟨_, reserved⟩ | ⟨line, member, names, rfl, inside⟩
  · rcases List.mem_pair.mp reserved with rfl | rfl <;> decide
  · obtain ⟨text, _, same⟩ := List.mem_map.mp member
    have said : name ∈ Directive.lineWords text := by
      rw [same]
      exact List.mem_cons_of_mem _ inside
    exact Text.solid_of_mem_words said

theorem solid_of_interned (loaded : ofDescription source = .ok p) {s : Symbol}
    (interned : p.grammar.vocabulary.Interned s) :
    Text.Solid (p.grammar.vocabulary.name s).toList := by
  have means : p.Means (lines source) := (obeyLines_ok means_nothing loaded).1
  exact solid_of_listed ((means.names s.kind _).mp ⟨s, interned, rfl⟩)

/-- The text of the table of a loaded parser tells what the table does: the states that act,
ascending, the names on which some state acts, and what each state does on each name. -/
theorem matrix_reads_back (loaded : ofDescription source = .ok p) :
    ∃ reading, Reading.ofText (p.table.matrix p.grammar.vocabulary) = reading ∧
      (reading.states.Pairwise (· < ·) ∧ ∀ state, state ∈ reading.states ↔
        ∃ symbol action, p.table.action? state symbol = some action) ∧
      (reading.names.Nodup ∧ ∀ name, name ∈ reading.names ↔
        ∃ symbol, p.grammar.vocabulary.find? name = some symbol ∧
          ∃ state action, p.table.action? state symbol = some action) ∧
      (∃ symbols : List Symbol, symbols.Pairwise Symbol.Before ∧
        reading.names.map p.grammar.vocabulary.find? = symbols.map some) ∧
      (∀ row ∈ reading.rows, row.2.length = reading.names.length) ∧
      ∀ state name symbol, p.grammar.vocabulary.find? name = some symbol →
        reading.mark? state name = (p.table.action? state symbol).map fun action =>
          if symbol = .eof ∧ state ∈ p.table.finals then .accept else .act action := by
  have closed : p.Closed := closed_nothing.obeyLines loaded
  have named : ∀ s ∈ p.table.symbols, p.grammar.vocabulary.Interned s := by
    intro s member
    obtain ⟨state, action, acts⟩ := Table.mem_symbols.mp member
    exact closed.columns state s action acts
  refine ⟨p.table.reading p.grammar.vocabulary, ?_, ⟨?_, ?_⟩, ⟨?_, ?_⟩, ⟨p.table.symbols, ?_, ?_⟩,
    ?_, ?_⟩
  · exact Table.ofText_matrix fun s member => (solid_of_interned loaded (named s member)).unbroken
  · rw [Table.states_reading]
    exact p.table.states_ascending
  · intro state
    rw [Table.states_reading, Table.mem_states]
  · refine p.table.symbols_nodup.map_on fun s member u again same => ?_
    exact Option.some.inj ((named s member).symm.trans (same ▸ named u again))
  · intro name
    constructor
    · intro member
      obtain ⟨s, column, rfl⟩ := List.mem_map.mp member
      exact ⟨s, named s column, Table.mem_symbols.mp column⟩
    · rintro ⟨s, found, acts⟩
      exact List.mem_map.mpr ⟨s, Table.mem_symbols.mpr acts, Vocabulary.name_of_find? found⟩
  · exact p.table.symbols_ordered
  · rw [Table.reading, List.map_map]
    exact List.map_congr_left named
  · intro row member
    obtain ⟨state, _, rfl⟩ := List.mem_map.mp member
    rw [Table.reading, List.length_map, List.length_map]
  · intro state name symbol found
    exact Table.mark?_reading named found state

theorem oneWord_reads_back : ∃ p a, ofDescription oneWord = .ok p ∧
    p.table.matrix p.grammar.vocabulary = "\teof\ta\n0\t\ts1\n1\tacc\t\n" ∧
    p.grammar.vocabulary.find? "a" = some a ∧ p.table.action? 0 a = some (.shift 1) := by
  have written : (ofDescription oneWord).toOption.map (fun p =>
      (p.table.matrix p.grammar.vocabulary, p.grammar.vocabulary.find? "a")) =
      some ("\teof\ta\n0\t\ts1\n1\tacc\t\n", some (.terminal 2)) := by decide +kernel
  cases loaded : ofDescription oneWord with
  | error e =>
    rw [loaded] at written
    cases written
  | ok p =>
    rw [loaded] at written
    obtain ⟨text, a⟩ := Prod.mk.inj (Option.some.inj written)
    obtain ⟨reading, read, _, _, _, _, marks⟩ := matrix_reads_back loaded
    have seen := marks 0 "a" _ a
    rw [← read, text] at seen
    have shift : (Reading.ofText "\teof\ta\n0\t\ts1\n1\tacc\t\n").mark? 0 "a" =
        some (.act (.shift 1)) := by decide +kernel
    obtain ⟨action, acts, same⟩ := Option.map_eq_some_iff.mp (seen.symm.trans shift)
    have terminal : Symbol.terminal 2 ≠ .eof := by decide
    rw [if_neg fun accepts => terminal accepts.1] at same
    cases same
    exact ⟨p, _, rfl, text, a, acts⟩

end Parser
end Recognizers
