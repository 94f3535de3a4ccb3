import Recognizers.Proofs.Graph.Reachability

/-!
The walk with a stack comes to exactly what can be reached, shows every edge of it once, and has no
result where a state is reached that does not exist (`visit_settled`).
-/
namespace Recognizers
namespace Graph

namespace Frontier

variable {f : Frontier} {p q : Nat} {done ps : List Nat}

/-- The states that were met are those that were expanded and those that are pending, each once. -/
structure Tidy (done : List Nat) (f : Frontier) : Prop where
  nodup : (done ++ f.pending).Nodup
  mem_iff : ∀ {q}, q ∈ f.met ↔ q ∈ done ++ f.pending

theorem mem_meet : q ∈ (f.meet p).met ↔ q = p ∨ q ∈ f.met := by
  unfold meet
  split
  · rename_i old
    constructor
    · exact .inr
    · rintro (rfl | met)
      · exact old
      · exact met
  · rw [Std.ExtTreeSet.mem_insert, Std.LawfulEqCmp.compare_eq_iff_eq, eq_comm]

theorem mem_meetAll : q ∈ (f.meetAll ps).met ↔ q ∈ ps ∨ q ∈ f.met := by
  induction ps generalizing f with
  | nil => simp [meetAll]
  | cons p ps ih =>
    have rest : q ∈ (f.meetAll (p :: ps)).met ↔ q ∈ ps ∨ q ∈ (f.meet p).met := ih
    rw [rest, mem_meet, List.mem_cons, or_left_comm, or_assoc]

theorem Tidy.meet (tidy : f.Tidy done) (p : Nat) : (f.meet p).Tidy done := by
  by_cases old : p ∈ f.met
  · rw [Frontier.meet, if_pos old]
    exact tidy
  · have apart : p ∉ done ++ f.pending := mt tidy.mem_iff.mpr old
    have moved : (done ++ p :: f.pending).Perm (p :: (done ++ f.pending)) := List.perm_middle
    constructor
    · rw [Frontier.meet, if_neg old]
      exact moved.nodup_iff.mpr (List.nodup_cons.mpr ⟨apart, tidy.nodup⟩)
    · intro q
      rw [mem_meet, tidy.mem_iff, Frontier.meet, if_neg old, moved.mem_iff, List.mem_cons]

theorem Tidy.meetAll (tidy : f.Tidy done) (ps : List Nat) : (f.meetAll ps).Tidy done := by
  induction ps generalizing f with
  | nil => exact tidy
  | cons p ps ih => exact ih (tidy.meet p)

end Frontier

variable {g : Graph} {start q : Nat} {s : State} {done rest : List Nat}
  {met : Std.ExtTreeSet Nat} {f : Frontier}

/-- What is met can be reached, and what the expanded states lead to is met. -/
structure Expands (g : Graph) (start : Nat) (done : List Nat) (f : Frontier) : Prop where
  tidy : f.Tidy done
  first : start ∈ f.met
  closed : ∀ {p}, p ∈ done → ∃ s, g.state? p = some s ∧ ∀ q ∈ s.targets, q ∈ f.met
  sound : ∀ {q}, q ∈ f.met → g.Reaches start q

namespace Expands

theorem initial (g : Graph) (start : Nat) : g.Expands start [] ⟨{start}, [start]⟩ := by
  have single : ∀ {q}, q ∈ ({start} : Std.ExtTreeSet Nat) ↔ q = start := by
    intro q
    rw [Std.ExtTreeSet.singleton_eq_insert, Std.ExtTreeSet.mem_insert,
      Std.LawfulEqCmp.compare_eq_iff_eq]
    simp [eq_comm]
  refine ⟨⟨List.nodup_singleton start, ?_⟩, single.mpr rfl, nofun, ?_⟩
  · intro q
    rw [single, List.nil_append, List.mem_singleton]
  · intro q member
    cases single.mp member
    exact .refl

theorem step (expands : g.Expands start done ⟨met, q :: rest⟩) (found : g.state? q = some s) :
    g.Expands start (done ++ [q]) (Frontier.meetAll ⟨met, rest⟩ s.targets) := by
  have moved : Frontier.Tidy (done ++ [q]) ⟨met, rest⟩ := by
    refine ⟨?_, fun {p} => ?_⟩
    · simpa using expands.tidy.nodup
    · simpa using expands.tidy.mem_iff
  have here : q ∈ met := expands.tidy.mem_iff.mpr (by simp)
  refine ⟨moved.meetAll s.targets, Frontier.mem_meetAll.mpr (.inr expands.first), ?_, ?_⟩
  · intro p member
    rcases List.mem_append.mp member with old | new
    · obtain ⟨t, known, kept⟩ := expands.closed old
      exact ⟨t, known, fun r target => Frontier.mem_meetAll.mpr (.inr (kept r target))⟩
    · cases List.mem_singleton.mp new
      exact ⟨s, found, fun r target => Frontier.mem_meetAll.mpr (.inl target)⟩
  · intro r member
    rcases Frontier.mem_meetAll.mp member with target | old
    · exact (expands.sound here).tail ⟨s, found, target⟩
    · exact expands.sound old

theorem reaches_iff (expands : g.Expands start done ⟨met, []⟩) : g.Reaches start q ↔ q ∈ done := by
  have all : ∀ {p}, p ∈ met ↔ p ∈ done := by
    intro p
    rw [expands.tidy.mem_iff, List.append_nil]
  constructor
  · refine reaches_closed (all.mp expands.first) ?_
    rintro p r member ⟨s, found, target⟩
    obtain ⟨t, known, kept⟩ := expands.closed member
    cases Option.some.inj (found.symm.trans known)
    exact all.mp (kept r target)
  · exact fun member => expands.sound (all.mpr member)

theorem not_dangles (expands : g.Expands start done ⟨met, []⟩) : ¬ g.Dangles start := by
  apply not_dangles_of_lt
  intro q reaches
  obtain ⟨s, found, _⟩ := expands.closed (expands.reaches_iff.mp reaches)
  exact lt_size found

end Expands

section

variable {σ : Type} {onEdge : σ → Nat → Edge → Option σ} {seen : σ}

def showAll (onEdge : σ → Nat → Edge → Option σ) (calls : List (Nat × Edge)) (seen : σ) :
    Option σ :=
  calls.foldlM (fun seen call => onEdge seen call.1 call.2) seen

theorem showAll_append (first later : List (Nat × Edge)) :
    showAll onEdge (first ++ later) seen = (showAll onEdge first seen).bind (showAll onEdge later) :=
  List.foldlM_append

theorem visitFrom_unknown (missing : g.state? q = none) :
    visitFrom onEdge g ⟨met, q :: rest⟩ seen = none := by
  rw [visitFrom]
  split
  · rfl
  · rename_i s found
    rw [missing] at found
    cases found

theorem visitFrom_known (found : g.state? q = some s) :
    visitFrom onEdge g ⟨met, q :: rest⟩ seen = (showAll onEdge (g.edgesFrom q) seen).bind
      (visitFrom onEdge g (Frontier.meetAll ⟨met, rest⟩ s.targets)) := by
  have shown : showAll onEdge (g.edgesFrom q) seen = s.edges.toList.foldlM (onEdge · q ·) seen := by
    rw [showAll, edgesFrom, found, List.foldlM_map]
  rw [visitFrom]
  split
  · rename_i missing
    rw [found] at missing
    cases missing
  · rename_i t again
    cases Option.some.inj (found.symm.trans again)
    rw [shown]
    split
    · rename_i none
      rw [expand_eq, Option.map_eq_none_iff] at none
      rw [none]
      rfl
    · rename_i next last some
      rw [expand_eq, Option.map_eq_some_iff] at some
      obtain ⟨_, some, same⟩ := some
      cases same
      rw [some]
      rfl

end

theorem visitFrom_settled (expands : g.Expands start done f) :
    (g.Dangles start ∧ ∀ (σ : Type) (onEdge : σ → Nat → Edge → Option σ) seen,
      visitFrom onEdge g f seen = none) ∨
    ∃ later met, g.Expands start (done ++ later) ⟨met, []⟩ ∧
      ∀ (σ : Type) (onEdge : σ → Nat → Edge → Option σ) seen, visitFrom onEdge g f seen =
        (showAll onEdge (later.flatMap g.edgesFrom) seen).map (met, ·) := by
  -- The function that is shown the edges is chosen last: the states do not hang on it.
  induction left : g.remaining f using Nat.strongRecOn generalizing f done with
  | ind n ih =>
    obtain ⟨met, pending⟩ := f
    cases pending with
    | nil =>
      refine .inr ⟨[], met, by simpa using expands, fun σ onEdge seen => ?_⟩
      rw [visitFrom]
      rfl
    | cons q rest =>
      cases found : g.state? q with
      | none =>
        have here : q ∈ met := expands.tidy.mem_iff.mpr (by simp)
        exact .inl ⟨⟨q, expands.sound here, state?_eq_none_iff.mp found⟩,
          fun σ onEdge seen => visitFrom_unknown found⟩
      | some s =>
        have fewer : g.remaining (Frontier.meetAll ⟨met, rest⟩ s.targets) < n :=
          left ▸ remaining_expand found
        rcases ih _ fewer (expands.step found) rfl with ⟨dangles, none⟩ | ⟨later, last, settled, goes⟩
        · refine .inl ⟨dangles, fun σ onEdge seen => ?_⟩
          rw [visitFrom_known found, funext (none σ onEdge)]
          cases showAll onEdge (g.edgesFrom q) seen <;> rfl
        · refine .inr ⟨q :: later, last, by simpa using settled, fun σ onEdge seen => ?_⟩
          rw [visitFrom_known found, funext (goes σ onEdge), List.flatMap_cons, showAll_append]
          cases showAll onEdge (g.edgesFrom q) seen <;> rfl

theorem mem_edgesFrom {p : Nat} {e : Edge} :
    (q, e) ∈ g.edgesFrom p ↔ p = q ∧ ∃ s, g.state? q = some s ∧ e ∈ s.edges := by
  unfold edgesFrom
  cases found : g.state? p with
  | none =>
    constructor
    · nofun
    · rintro ⟨rfl, s, known, _⟩
      rw [found] at known
      cases known
  | some s =>
    rw [List.mem_map]
    constructor
    · rintro ⟨e, member, same⟩
      cases same
      exact ⟨rfl, s, found, Std.ExtTreeSet.mem_toList.mp member⟩
    · rintro ⟨rfl, t, known, member⟩
      cases Option.some.inj (found.symm.trans known)
      exact ⟨e, Std.ExtTreeSet.mem_toList.mpr member, rfl⟩

theorem reachable?_of_closed {states : List Nat} (sound : ¬ g.Dangles start)
    (ascending : states.Pairwise (· < ·)) (first : start ∈ states)
    (closed : ∀ p ∈ states, ∀ call ∈ g.edgesFrom p, call.2.target ∈ states)
    (reached : ∀ q ∈ states, g.Reaches start q) : g.reachable? start = some states := by
  apply reachable?_of_mem_iff sound ascending
  intro q
  refine ⟨reached q, reaches_closed first ?_⟩
  intro p r member step
  have ⟨s, found, _⟩ := step
  obtain ⟨e, edge, rfl⟩ := (step_iff found).mp step
  exact closed p member (p, e) (mem_edgesFrom.mpr ⟨rfl, s, found, edge⟩)

theorem mem_flatMap_edgesFrom {e : Edge} : (q, e) ∈ done.flatMap g.edgesFrom ↔
    q ∈ done ∧ ∃ s, g.state? q = some s ∧ e ∈ s.edges := by
  rw [List.mem_flatMap]
  constructor
  · rintro ⟨p, member, here⟩
    obtain ⟨rfl, edge⟩ := mem_edgesFrom.mp here
    exact ⟨member, edge⟩
  · rintro ⟨member, edge⟩
    exact ⟨q, member, mem_edgesFrom.mpr ⟨rfl, edge⟩⟩

theorem nodup_edgesFrom (g : Graph) (q : Nat) : (g.edgesFrom q).Nodup := by
  unfold edgesFrom
  cases g.state? q with
  | none => exact List.nodup_nil
  | some s =>
    refine List.Nodup.map (fun a b same => (Prod.mk.inj same).2) ?_
    refine s.edges.distinct_toList.imp ?_
    rintro a b apart rfl
    exact apart Std.ReflCmp.compare_self

/-- The states a walk comes to, and the edges that it shows. -/
structure Tour (g : Graph) (start : Nat) (met : Std.ExtTreeSet Nat) (calls : List (Nat × Edge)) :
    Prop where
  mem_met : ∀ q, q ∈ met ↔ g.Reaches start q
  once : calls.Nodup
  mem_calls : ∀ q e, (q, e) ∈ calls ↔
    g.Reaches start q ∧ ∃ s, g.state? q = some s ∧ e ∈ s.edges

theorem Expands.tour (expands : g.Expands start done ⟨met, []⟩) :
    g.Tour start met (done.flatMap g.edgesFrom) where
  mem_met := by
    intro q
    rw [expands.reaches_iff, expands.tidy.mem_iff, List.append_nil]
  once := by
    have apart : done.Nodup := by simpa using expands.tidy.nodup
    refine List.nodup_flatMap.mpr ⟨fun q _ => g.nodup_edgesFrom q, apart.imp ?_⟩
    rintro p r different ⟨q, e⟩ first second
    exact different ((mem_edgesFrom.mp first).1.trans (mem_edgesFrom.mp second).1.symm)
  mem_calls := by
    intro q e
    rw [expands.reaches_iff, mem_flatMap_edgesFrom]

theorem visit_settled (g : Graph) (start : Nat) :
    (g.Dangles start ∧ ∀ (σ : Type) (onEdge : σ → Nat → Edge → Option σ) seen,
      visit onEdge g start seen = none) ∨
    (¬ g.Dangles start ∧ ∃ met calls, g.Tour start met calls ∧
      ∀ (σ : Type) (onEdge : σ → Nat → Edge → Option σ) seen,
        visit onEdge g start seen = (showAll onEdge calls seen).map (met, ·)) := by
  rcases visitFrom_settled (Expands.initial g start) with dangling | ⟨later, met, settled, goes⟩
  · exact .inl dangling
  · exact .inr ⟨settled.not_dangles, met, _, settled.tour, goes⟩

end Graph
end Recognizers
