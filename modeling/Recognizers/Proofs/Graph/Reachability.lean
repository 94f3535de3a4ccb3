import Mathlib.Data.List.Nodup
import Mathlib.Data.List.Sort
import Mathlib.Logic.Relation
import Recognizers.Graph.Visit

/-!
What a search through a graph comes to. It comes to the states that can be reached over edges and to
no others, whatever cycles there are; if one of them does not exist, it has no result
(`explore_spec`).
-/
namespace Recognizers
namespace Graph

variable {g : Graph} {start p q : Nat} {s : State} {es : List Edge}

def Step (g : Graph) (p q : Nat) : Prop := ∃ s, g.state? p = some s ∧ q ∈ s.targets

def Reaches (g : Graph) : Nat → Nat → Prop := Relation.ReflTransGen g.Step

/-- A state can be reached that does not exist. -/
def Dangles (g : Graph) (start : Nat) : Prop := ∃ q, g.Reaches start q ∧ g.size ≤ q

theorem state?_eq_none_iff : g.state? q = none ↔ g.size ≤ q := Array.getElem?_eq_none_iff

theorem lt_size (found : g.state? q = some s) : q < g.size :=
  (Array.getElem?_eq_some_iff.mp found).1

theorem step_iff (found : g.state? p = some s) : g.Step p q ↔ ∃ e ∈ s.edges, e.target = q := by
  constructor
  · rintro ⟨t, again, target⟩
    cases Option.some.inj (found.symm.trans again)
    obtain ⟨e, edge, same⟩ := List.mem_map.mp target
    exact ⟨e, Std.ExtTreeSet.mem_toList.mp edge, same⟩
  · rintro ⟨e, edge, same⟩
    exact ⟨s, found, List.mem_map.mpr ⟨e, Std.ExtTreeSet.mem_toList.mpr edge, same⟩⟩

theorem reaches_closed {P : Nat → Prop} (first : P start)
    (closed : ∀ {p q}, P p → g.Step p q → P q) (reaches : g.Reaches start q) : P q := by
  induction reaches with
  | refl => exact first
  | tail _ step ih => exact closed ih step

def Met (g : Graph) (fresh : Std.ExtTreeSet Nat) (q : Nat) : Prop := q < g.size ∧ q ∉ fresh

/-- What is met and what is still to do cover the start and all that the met states lead to. -/
structure Covers (g : Graph) (start : Nat) (fresh : Std.ExtTreeSet Nat) (todo : List Nat) :
    Prop where
  first : g.Met fresh start ∨ start ∈ todo
  closed : ∀ {p q}, g.Met fresh p → g.Step p q → g.Met fresh q ∨ q ∈ todo
  sound : ∀ {q}, g.Met fresh q ∨ q ∈ todo → g.Reaches start q

namespace Covers

variable {fresh : Std.ExtTreeSet Nat} {rest : List Nat}

theorem initial (g : Graph) (start : Nat) : g.Covers start (.ofList g.indices) [start] := by
  have none : ∀ q, ¬ g.Met (.ofList g.indices) q := by
    simp [Met, indices]
  refine ⟨.inr List.mem_cons_self, fun met => absurd met (none _), ?_⟩
  rintro q (met | pending)
  · exact absurd met (none q)
  · cases List.mem_singleton.mp pending
    exact .refl

theorem expanded (covers : g.Covers start fresh (q :: rest)) (found : g.state? q = some s) :
    g.Covers start (fresh.erase q) (s.targets ++ rest) := by
  have met_iff : ∀ {p}, g.Met (fresh.erase q) p ↔ p = q ∨ g.Met fresh p := by
    intro p
    rw [Met, Met, Std.ExtTreeSet.mem_erase, Ne, Std.LawfulEqCmp.compare_eq_iff_eq, not_and_or,
      not_not]
    constructor
    · rintro ⟨inside, same | new⟩
      · exact .inl same.symm
      · exact .inr ⟨inside, new⟩
    · rintro (rfl | ⟨inside, new⟩)
      · exact ⟨lt_size found, .inl rfl⟩
      · exact ⟨inside, .inr new⟩
  have moved : ∀ {p}, g.Met fresh p ∨ p ∈ q :: rest →
      g.Met (fresh.erase q) p ∨ p ∈ s.targets ++ rest := by
    rintro p (old | pending)
    · exact .inl (met_iff.mpr (.inr old))
    · rcases List.mem_cons.mp pending with same | later
      · exact .inl (met_iff.mpr (.inl same))
      · exact .inr (List.mem_append_right _ later)
  have here : g.Reaches start q := covers.sound (.inr List.mem_cons_self)
  refine ⟨moved covers.first, ?_, ?_⟩
  · intro p r met step
    rcases met_iff.mp met with rfl | old
    · obtain ⟨t, again, target⟩ := step
      cases Option.some.inj (found.symm.trans again)
      exact .inr (List.mem_append_left _ target)
    · exact moved (covers.closed old step)
  · rintro p (met | pending)
    · rcases met_iff.mp met with rfl | old
      · exact here
      · exact covers.sound (.inl old)
    · rcases List.mem_append.mp pending with target | later
      · exact here.tail ⟨s, found, target⟩
      · exact covers.sound (.inr (List.mem_cons_of_mem q later))

theorem skipped (covers : g.Covers start fresh (q :: rest)) (met : g.Met fresh q) :
    g.Covers start fresh rest := by
  have moved : ∀ {p}, g.Met fresh p ∨ p ∈ q :: rest → g.Met fresh p ∨ p ∈ rest := by
    rintro p (old | pending)
    · exact .inl old
    · rcases List.mem_cons.mp pending with rfl | later
      · exact .inl met
      · exact .inr later
  refine ⟨moved covers.first, fun old step => moved (covers.closed old step), ?_⟩
  rintro p (old | later)
  · exact covers.sound (.inl old)
  · exact covers.sound (.inr (List.mem_cons_of_mem q later))

theorem complete (covers : g.Covers start fresh []) : g.Reaches start q ↔ g.Met fresh q := by
  have settled : ∀ {p}, g.Met fresh p ∨ p ∈ [] → g.Met fresh p := by simp
  constructor
  · exact reaches_closed (settled covers.first) fun met step => settled (covers.closed met step)
  · exact fun met => covers.sound (.inl met)

end Covers

theorem explore_spec {fresh : Std.ExtTreeSet Nat} {todo : List Nat}
    (covers : g.Covers start fresh todo) :
    (g.explore fresh todo = none ∧ g.Dangles start) ∨
      ∃ rest, g.explore fresh todo = some rest ∧
        ∀ q, g.Reaches start q ↔ g.Met rest q := by
  fun_induction explore g fresh todo with
  | case1 fresh => exact .inr ⟨fresh, rfl, fun q => covers.complete⟩
  | case2 fresh q rest missing =>
    exact .inl ⟨rfl, q, covers.sound (.inr List.mem_cons_self), state?_eq_none_iff.mp missing⟩
  | case3 fresh q rest s found new ih => exact ih (covers.expanded found)
  | case4 fresh q rest s found met ih => exact ih (covers.skipped ⟨lt_size found, met⟩)

theorem not_dangles_of_lt (inside : ∀ q, g.Reaches start q → q < g.size) : ¬ g.Dangles start := by
  rintro ⟨q, reaches, outside⟩
  exact absurd (inside q reaches) (Nat.not_lt.mpr outside)

theorem reachable?_spec (g : Graph) (start : Nat) :
    (g.reachable? start = none ∧ g.Dangles start) ∨
      ∃ states, g.reachable? start = some states ∧ states.Pairwise (· < ·) ∧
        (∀ q, q ∈ states ↔ g.Reaches start q) ∧ ¬ g.Dangles start := by
  unfold reachable?
  rcases explore_spec (Covers.initial g start) with ⟨none, dangles⟩ | ⟨rest, some, reaches⟩
  · exact .inl ⟨by rw [none]; rfl, dangles⟩
  · refine .inr ⟨g.indices.filter (· ∉ rest), by rw [some]; rfl, ?_, ?_, ?_⟩
    · exact List.Pairwise.filter _ List.pairwise_lt_range
    · intro q
      rw [reaches]
      simp [Met, indices]
    · exact not_dangles_of_lt fun q reached => ((reaches q).mp reached).1

theorem not_dangles_of_targets (first : start < g.size) (known : ∀ q ∈ g.targets, q < g.size) :
    ¬ g.Dangles start := by
  apply not_dangles_of_lt
  intro q reaches
  refine reaches_closed (P := (· < g.size)) first ?_ reaches
  rintro p r _ ⟨s, found, target⟩
  exact known r (targets_subset found target)

theorem reachable?_of_mem_iff {states : List Nat} (sound : ¬ g.Dangles start)
    (ascending : states.Pairwise (· < ·)) (mem_iff : ∀ q, q ∈ states ↔ g.Reaches start q) :
    g.reachable? start = some states := by
  rcases reachable?_spec g start with ⟨_, dangles⟩ | ⟨found, same, sorted, reaches, _⟩
  · exact absurd dangles sound
  · rw [same, sorted.eq_of_mem_iff ascending fun q => (reaches q).trans (mem_iff q).symm]

theorem reachable?_of_all (sound : ¬ g.Dangles start) (all : ∀ q, q < g.size → g.Reaches start q) :
    g.reachable? start = some (List.range g.size) := by
  apply reachable?_of_mem_iff sound List.pairwise_lt_range
  intro q
  rw [List.mem_range]
  exact ⟨all q, fun reaches => Nat.lt_of_not_ge fun outside => sound ⟨q, reaches, outside⟩⟩

end Graph
end Recognizers
