import Recognizers.Proofs.Graph.Reachability

/-!
Paths to accepting states, and chains that spell a text. From the first state of a chain only its own
states can be reached (`Chained.reaches_iff`), and the one path to an accepting state spells the text
(`Chained.accepts_iff`). A literal adds such a chain (`chained_append`).
-/
namespace Recognizers
namespace Graph

variable {g h : Graph} {p q first : Nat} {label : String} {labels : List String} {cs : List Char}

inductive Path (g : Graph) : Nat → List String → Nat → Prop where
  | here (q : Nat) : Path g q [] q
  | step {p q : Nat} {s : State} {e : Edge} {labels : List String} (found : g.state? p = some s)
      (edge : e ∈ s.edges) (rest : Path g e.target labels q) : Path g p (e.label :: labels) q

def Accepts (g : Graph) (p : Nat) (labels : List String) : Prop :=
  ∃ q s, g.Path p labels q ∧ g.state? q = some s ∧ s.accepting = true

theorem accepts_nil : g.Accepts p [] ↔ ∃ s, g.state? p = some s ∧ s.accepting = true := by
  constructor
  · rintro ⟨_, s, path, found, accepting⟩
    cases path
    exact ⟨s, found, accepting⟩
  · rintro ⟨s, found, accepting⟩
    exact ⟨p, s, .here p, found, accepting⟩

theorem accepts_cons : g.Accepts p (label :: labels) ↔ ∃ s e, g.state? p = some s ∧ e ∈ s.edges ∧
    e.label = label ∧ g.Accepts e.target labels := by
  constructor
  · rintro ⟨q, t, path, last, accepting⟩
    cases path with
    | @step _ _ s e _ found edge rest => exact ⟨s, e, found, edge, rfl, q, t, rest, last, accepting⟩
  · rintro ⟨s, e, found, edge, rfl, q, t, rest, last, accepting⟩
    exact ⟨q, t, .step found edge rest, last, accepting⟩

/-- From the state at `first`, the edges spell the text over the states behind it, each of which has
just the edge to the next one; only the last one accepts. -/
def Chained (g : Graph) : Nat → List Char → Prop
  | first, [] => ∃ s, g.state? first = some s ∧ s.accepting = true ∧ ∀ e, e ∉ s.edges
  | first, c :: cs =>
    (∃ s, g.state? first = some s ∧ s.accepting = false ∧
      ∀ e, e ∈ s.edges ↔ e = ⟨String.singleton c, first + 1⟩) ∧ Chained g (first + 1) cs

namespace Chained

theorem kept (chained : g.Chained first cs)
    (same : ∀ q, first ≤ q → q ≤ first + cs.length → h.state? q = g.state? q) :
    h.Chained first cs := by
  induction cs generalizing first with
  | nil =>
    obtain ⟨s, found, last⟩ := chained
    exact ⟨s, (same first (Nat.le_refl _) (Nat.le_refl _)).trans found, last⟩
  | cons c cs ih =>
    obtain ⟨⟨s, found, only⟩, later⟩ := chained
    refine ⟨⟨s, (same first (Nat.le_refl _) (Nat.le_add_right _ _)).trans found, only⟩, ih later ?_⟩
    intro q above below
    apply same q
    · omega
    · rw [List.length_cons]
      omega

theorem inside (chained : g.Chained first cs) : first + cs.length < g.size := by
  induction cs generalizing first with
  | nil =>
    obtain ⟨s, found, _⟩ := chained
    exact lt_size found
  | cons c cs ih =>
    have later := ih chained.2
    rw [List.length_cons]
    omega

theorem accepting_iff (chained : g.Chained first cs) {s : State} (found : g.state? q = some s)
    (above : first ≤ q) (below : q ≤ first + cs.length) :
    s.accepting = true ↔ q = first + cs.length := by
  induction cs generalizing first with
  | nil =>
    obtain ⟨t, here, accepting, _⟩ := chained
    have only : q = first := Nat.le_antisymm below above
    rw [only] at found
    cases here.symm.trans found
    exact iff_of_true accepting only
  | cons c cs ih =>
    obtain ⟨⟨t, here, waiting, _⟩, later⟩ := chained
    rw [List.length_cons] at below ⊢
    rcases Nat.eq_or_lt_of_le above with rfl | beyond
    · cases here.symm.trans found
      rw [waiting]
      exact iff_of_false Bool.false_ne_true (by omega)
    · rw [ih later beyond (by omega)]
      omega

theorem accepts_iff (chained : g.Chained first cs) :
    g.Accepts first labels ↔ labels = cs.map String.singleton := by
  induction cs generalizing first labels with
  | nil =>
    obtain ⟨s, found, accepting, none⟩ := chained
    cases labels with
    | nil => simp [accepts_nil, found, accepting]
    | cons label labels => simp [accepts_cons, found, none]
  | cons c cs ih =>
    obtain ⟨⟨s, found, waiting, only⟩, later⟩ := chained
    cases labels with
    | nil => simp [accepts_nil, found, waiting]
    | cons label labels =>
      rw [accepts_cons, List.map_cons, List.cons.injEq, ← ih later]
      constructor
      · rintro ⟨t, e, again, edge, rfl, rest⟩
        cases Option.some.inj (found.symm.trans again)
        cases (only e).mp edge
        exact ⟨rfl, rest⟩
      · rintro ⟨rfl, rest⟩
        exact ⟨s, _, found, (only _).mpr rfl, rfl, rest⟩

theorem reaches_iff (chained : g.Chained first cs) :
    g.Reaches first q ↔ first ≤ q ∧ q ≤ first + cs.length := by
  induction cs generalizing first with
  | nil =>
    obtain ⟨s, found, _, none⟩ := chained
    have stuck : ∀ r, ¬ g.Step first r := by
      intro r step
      obtain ⟨e, edge, _⟩ := (step_iff found).mp step
      exact none e edge
    rw [Reaches, Relation.ReflTransGen.cases_head_iff]
    simp only [stuck, false_and, exists_false, or_false, List.length_nil, Nat.add_zero]
    omega
  | cons c cs ih =>
    obtain ⟨⟨s, found, _, only⟩, later⟩ := chained
    have next : ∀ r, g.Step first r ↔ r = first + 1 := by
      intro r
      simp only [step_iff found, only, exists_eq_left, eq_comm]
    have rest : g.Reaches (first + 1) q ↔ first + 1 ≤ q ∧ q ≤ first + 1 + cs.length := ih later
    rw [Reaches, Relation.ReflTransGen.cases_head_iff]
    simp only [next, exists_eq_left, List.length_cons]
    rw [← Reaches, rest]
    omega

end Chained

theorem state?_update_self {f : State → State} : (g.update q f).state? q = (g.state? q).map f := by
  rw [update, state?, state?, Array.getElem?_modify, if_pos rfl]

theorem state?_update_of_ne {f : State → State} (apart : p ≠ q) :
    (g.update p f).state? q = g.state? q := by
  rw [update, state?, state?, Array.getElem?_modify, if_neg apart]

theorem size_update {f : State → State} : (g.update q f).size = g.size := Array.size_modify

theorem size_append (more : List State) :
    ({ states := g.states ++ more } : Graph).size = g.size + more.length := by
  rw [size, ← Array.length_toList, Array.toList_appendList, List.length_append]
  rfl

theorem state?_append (more : List State) :
    ({ states := g.states ++ more } : Graph).state? q = (g.states.toList ++ more)[q]? := by
  rw [state?, ← Array.getElem?_toList, Array.toList_appendList]

theorem state?_append_left {more : List State} (inside : q < g.size) :
    ({ states := g.states ++ more } : Graph).state? q = g.state? q := by
  rw [state?_append, List.getElem?_append_left inside, Array.getElem?_toList]
  rfl

theorem state?_append_right {more : List State} :
    ({ states := g.states ++ more } : Graph).state? (g.size + q) = more[q]? := by
  have behind : g.states.toList.length ≤ g.size + q := by simp [size]
  rw [state?_append, List.getElem?_append_right behind]
  simp [size]

theorem chained_of_states (names : Supply)
    (found : ∀ i, i ≤ cs.length → g.state? (first + i) = (Draft.chain names first cs)[i]?) :
    g.Chained first cs := by
  induction cs generalizing first names with
  | nil => exact ⟨_, found 0 (Nat.le_refl 0), rfl, by simp⟩
  | cons c cs ih =>
    refine ⟨⟨_, found 0 (Nat.zero_le _), rfl, ?_⟩, ih (names.advance 1) ?_⟩
    · intro e
      rw [Std.ExtTreeSet.singleton_eq_insert, Std.ExtTreeSet.mem_insert,
        Std.LawfulEqCmp.compare_eq_iff_eq]
      simp [eq_comm]
    · intro i below
      rw [Nat.add_assoc, Nat.add_comm 1 i]
      exact found (i + 1) (Nat.succ_le_succ below)

theorem chained_append (names : Supply) (cs : List Char) :
    ({ states := g.states ++ Draft.chain names g.size cs } : Graph).Chained g.size cs :=
  chained_of_states names fun _ _ => state?_append_right

end Graph
end Recognizers
