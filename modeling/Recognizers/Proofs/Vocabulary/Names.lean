import Mathlib.Data.List.Nodup
import Recognizers.Vocabulary

/-!
Names and symbols. A name is found exactly at the symbol that goes by it, so no two names share a
symbol (`find?_eq_some_iff`). Declaring names keeps the symbols of the old ones; it succeeds
exactly when none of the names is of the other kind (`declareAll_ok`, `declareAll_spec`).
-/
namespace Recognizers

theorem idxOf?_eq_some_iff_getElem? {names : List String} (distinct : names.Nodup) {name : String}
    {place : Nat} : names.idxOf? name = some place ↔ names[place]? = some name := by
  rw [List.idxOf?_eq_some_iff, List.getElem?_eq_some_iff]
  constructor
  · rintro ⟨inside, here, _⟩
    exact ⟨inside, here⟩
  · rintro ⟨inside, here⟩
    refine ⟨inside, here, fun earlier before again => ?_⟩
    have same : earlier = place := (distinct.getElem_inj_iff).mp (again.trans here.symm)
    omega

namespace Vocabulary

variable {v w : Vocabulary} {kind : SymbolKind} {name other : String} {names : List String}
  {s : Symbol}

/-- The name of its own that a symbol has. -/
def name? (v : Vocabulary) : Symbol → Option String
  | .terminal place => v.terminals[place]?
  | .nonterminal place => v.nonterminals[place]?

theorem name_eq (v : Vocabulary) (s : Symbol) : v.name s = (v.name? s).getD "?" := by
  cases s <;> rfl

theorem find?_eq_some_iff : v.find? name = some s ↔ v.name? s = some name := by
  obtain ⟨terminals, nonterminals, apart⟩ := List.nodup_append.mp v.distinct
  unfold find?
  cases s with
  | terminal place =>
    rw [name?, ← idxOf?_eq_some_iff_getElem? terminals]
    split
    · rename_i found
      simp [found]
    · rename_i missing
      simp [missing]
  | nonterminal place =>
    rw [name?, ← idxOf?_eq_some_iff_getElem? nonterminals]
    split
    · rename_i there found
      rw [idxOf?_eq_some_iff_getElem? terminals] at found
      have absent : v.nonterminals.idxOf? name = none := by
        rw [List.idxOf?_eq_none_iff]
        intro member
        exact apart name (List.mem_of_getElem? found) name member rfl
      simp [absent]
    · simp

theorem name_of_find? (found : v.find? name = some s) : v.name s = name := by
  rw [name_eq, find?_eq_some_iff.mp found, Option.getD_some]

theorem find?_inj (found : v.find? name = some s) (again : v.find? other = some s) :
    name = other := (name_of_find? found).symm.trans (name_of_find? again)

def Has (v : Vocabulary) (kind : SymbolKind) (name : String) : Prop :=
  ∃ s, v.find? name = some s ∧ s.kind = kind

def namesOf (v : Vocabulary) : SymbolKind → List String
  | .terminal => v.terminals
  | .nonterminal => v.nonterminals

theorem name?_eq (v : Vocabulary) (s : Symbol) : v.name? s = (v.namesOf s.kind)[s.number]? := by
  cases s <;> rfl

theorem has_iff_mem : v.Has kind name ↔ name ∈ v.namesOf kind := by
  constructor
  · rintro ⟨s, found, rfl⟩
    rw [find?_eq_some_iff, name?_eq] at found
    exact List.mem_of_getElem? found
  · intro member
    obtain ⟨place, here⟩ := List.mem_iff_getElem?.mp member
    cases kind with
    | terminal => exact ⟨.terminal place, find?_eq_some_iff.mpr here, rfl⟩
    | nonterminal => exact ⟨.nonterminal place, find?_eq_some_iff.mpr here, rfl⟩

def Extends (w v : Vocabulary) : Prop :=
  ∀ {name : String} {s : Symbol}, v.find? name = some s → w.find? name = some s

theorem getElem?_concat (names : List String) (name : String) (place : Nat) :
    (names ++ [name])[place]? = if place = names.length then some name else names[place]? := by
  split
  · rename_i last
    rw [last, List.getElem?_concat_length]
  · rename_i other
    rcases Nat.lt_or_gt_of_ne other with inside | beyond
    · exact List.getElem?_append_left inside
    · rw [List.getElem?_eq_none (by simp; omega), List.getElem?_eq_none (by omega)]

theorem name?_extend (fresh : v.find? name = none) (s : Symbol) :
    (v.extend name fresh kind).name? s = if s = v.next kind then some name else v.name? s := by
  cases kind <;> cases s <;> simp [extend, name?, next, getElem?_concat]

theorem name?_next (v : Vocabulary) (kind : SymbolKind) : v.name? (v.next kind) = none := by
  cases kind <;> simp [next, name?]

theorem kind_next (v : Vocabulary) (kind : SymbolKind) : (v.next kind).kind = kind := by
  cases kind <;> rfl

theorem find?_extend (fresh : v.find? name = none) :
    (v.extend name fresh kind).find? other =
      if other = name then some (v.next kind) else v.find? other := by
  apply Option.ext
  intro s
  rw [find?_eq_some_iff, name?_extend]
  by_cases new : s = v.next kind
  · rw [if_pos new, new]
    split
    · rename_i here
      simp [here]
    · rename_i apart
      rw [find?_eq_some_iff, name?_next]
      simp [Ne.symm apart]
  · rw [if_neg new, ← find?_eq_some_iff]
    split
    · rename_i here
      simp [here, fresh, Ne.symm new]
    · rfl

inductive Declared (v : Vocabulary) (kind : SymbolKind) (name : String) : Vocabulary → Prop where
  | found {s : Symbol} (here : v.find? name = some s) (same : s.kind = kind) :
    Declared v kind name v
  | added (fresh : v.find? name = none) : Declared v kind name (v.extend name fresh kind)

theorem declared_of_ok {s : Symbol} (declared : v.declare kind name = .ok (s, w)) :
    v.Declared kind name w := by
  unfold declare at declared
  split at declared
  · rename_i found
    split at declared
    · rename_i same
      cases declared
      exact .found found same
    · cases declared
  · rename_i fresh
    cases declared
    exact .added fresh

theorem declare_ok_of_kinds (kinds : ∀ other, v.Has other name → other = kind) :
    ∃ s w, v.declare kind name = .ok (s, w) := by
  unfold declare
  split
  · rename_i s found
    exact ⟨s, v, if_pos (kinds s.kind ⟨s, found, rfl⟩)⟩
  · exact ⟨_, _, rfl⟩

namespace Declared

theorem kinds (declared : v.Declared kind name w) : ∀ other, v.Has other name → other = kind := by
  rintro other ⟨t, there, rfl⟩
  cases declared with
  | found here same => rw [← same, Option.some.inj (there.symm.trans here)]
  | added fresh =>
    rw [fresh] at there
    cases there

theorem grown (declared : v.Declared kind name w) : w.Extends v := by
  intro old s found
  cases declared with
  | found here same => exact found
  | added fresh =>
    rw [find?_extend, if_neg ?_, found]
    rintro rfl
    rw [fresh] at found
    cases found

theorem has_iff (declared : v.Declared kind name w) {kind' : SymbolKind} {name' : String} :
    w.Has kind' name' ↔ v.Has kind' name' ∨ (kind' = kind ∧ name' = name) := by
  cases declared with
  | @found s here same =>
    constructor
    · exact .inl
    · rintro (old | ⟨rfl, rfl⟩)
      · exact old
      · exact ⟨s, here, same⟩
  | added fresh =>
    simp only [Has, find?_extend]
    by_cases new : name' = name
    · simp [new, fresh, kind_next, eq_comm]
    · simp [new]

end Declared

def declareAll (v : Vocabulary) (kind : SymbolKind) (names : List String) :
    Except GrammarError Vocabulary :=
  names.foldlM (fun v name => (v.declare kind name).map Prod.snd) v

theorem declareAll_cons (name : String) (names : List String) :
    v.declareAll kind (name :: names) =
      match v.declare kind name with
      | .ok (_, next) => next.declareAll kind names
      | .error e => .error e := by
  rw [declareAll, List.foldlM_cons]
  cases v.declare kind name <;> rfl

theorem declareAll_ok (kinds : ∀ name ∈ names, ∀ other, v.Has other name → other = kind) :
    ∃ w, v.declareAll kind names = .ok w := by
  induction names generalizing v with
  | nil => exact ⟨v, rfl⟩
  | cons name names ih =>
    obtain ⟨s, next, declared⟩ := declare_ok_of_kinds (kinds name List.mem_cons_self)
    rw [declareAll_cons, declared]
    apply ih
    intro later member other has
    rcases (declared_of_ok declared).has_iff.mp has with old | ⟨same, _⟩
    · exact kinds later (List.mem_cons_of_mem name member) other old
    · exact same

theorem declareAll_spec (declared : v.declareAll kind names = .ok w) :
    (∀ name ∈ names, ∀ other, v.Has other name → other = kind) ∧ w.Extends v ∧
      ∀ kind' name', w.Has kind' name' ↔ v.Has kind' name' ∨ (kind' = kind ∧ name' ∈ names) := by
  induction names generalizing v with
  | nil =>
    cases declared
    exact ⟨nofun, fun found => found, by simp⟩
  | cons name names ih =>
    rw [declareAll_cons] at declared
    split at declared
    · rename_i s next first
      have one := declared_of_ok first
      obtain ⟨kinds, grown, has_iff⟩ := ih declared
      refine ⟨?_, fun found => grown (one.grown found), ?_⟩
      · intro later member other has
        rcases List.mem_cons.mp member with rfl | member
        · exact one.kinds other has
        · exact kinds later member other (one.has_iff.mpr (.inl has))
      · intro kind' name'
        rw [has_iff, one.has_iff, List.mem_cons, and_or_left, or_assoc]
    · cases declared

end Vocabulary
end Recognizers
