import Recognizers.Graph.Dot

/-!
Graphs gone through from a state with a stack of states that are still to be expanded. Every edge is
shown on the way to a function that carries what was seen so far. There is no result if that function
has none, or if a state is to be expanded that does not exist.
-/
namespace Recognizers
namespace Graph

structure Frontier where
  met : Std.ExtTreeSet Nat
  pending : List Nat

def Frontier.meet (f : Frontier) (q : Nat) : Frontier :=
  if q ∈ f.met then f else { met := f.met.insert q, pending := q :: f.pending }

def Frontier.meetAll (f : Frontier) (qs : List Nat) : Frontier := qs.foldl Frontier.meet f

def targets (g : Graph) : List Nat := g.states.toList.flatMap State.targets

/-- How many states can still be expanded at most. -/
def remaining (g : Graph) (f : Frontier) : Nat :=
  (Std.ExtTreeSet.ofList g.targets \ f.met).size + f.pending.length

theorem targets_subset {g : Graph} {q : Nat} {s : State} (found : g.state? q = some s) :
    s.targets ⊆ g.targets := by
  intro target member
  exact List.mem_flatMap.mpr ⟨s, Array.mem_toList_iff.mpr (Array.mem_of_getElem? found), member⟩

theorem remaining_meet {g : Graph} {f : Frontier} {q : Nat} (known : q ∈ g.targets) :
    g.remaining (f.meet q) ≤ g.remaining f := by
  unfold Frontier.meet
  split
  · exact Nat.le_refl _
  · rename_i new
    have rest : Std.ExtTreeSet.ofList g.targets \ f.met.insert q =
        (Std.ExtTreeSet.ofList g.targets \ f.met).erase q := by
      apply Std.ExtTreeSet.ext_mem
      intro k
      simp only [Std.ExtTreeSet.mem_diff_iff, Std.ExtTreeSet.mem_insert, Std.ExtTreeSet.mem_erase]
      grind
    have here : q ∈ Std.ExtTreeSet.ofList g.targets \ f.met := by
      simp [Std.ExtTreeSet.mem_diff_iff, known, new]
    have fewer := size_erase_lt here
    simp only [remaining, rest, List.length_cons]
    omega

theorem remaining_meetAll {g : Graph} {f : Frontier} {qs : List Nat} (known : qs ⊆ g.targets) :
    g.remaining (f.meetAll qs) ≤ g.remaining f := by
  induction qs generalizing f with
  | nil => exact Nat.le_refl _
  | cons q qs ih =>
    obtain ⟨first, later⟩ := List.cons_subset.mp known
    exact Nat.le_trans (ih later) (remaining_meet first)

theorem remaining_expand {g : Graph} {met : Std.ExtTreeSet Nat} {q : Nat} {rest : List Nat}
    {s : State} (found : g.state? q = some s) :
    g.remaining (Frontier.meetAll ⟨met, rest⟩ s.targets) < g.remaining ⟨met, q :: rest⟩ := by
  have bounded : g.remaining (Frontier.meetAll ⟨met, rest⟩ s.targets) ≤ g.remaining ⟨met, rest⟩ :=
    remaining_meetAll (targets_subset found)
  simp only [remaining, List.length_cons] at bounded ⊢
  omega

section

variable {σ : Type} (onEdge : σ → Nat → Edge → Option σ)

def expand (q : Nat) : List Edge → Frontier → σ → Option (Frontier × σ)
  | [], f, seen => some (f, seen)
  | e :: es, f, seen => (onEdge seen q e).bind (expand q es (f.meet e.target))

theorem expand_eq (q : Nat) (es : List Edge) (f : Frontier) (seen : σ) :
    expand onEdge q es f seen =
      (es.foldlM (onEdge · q ·) seen).map (f.meetAll (es.map Edge.target), ·) := by
  induction es generalizing f seen with
  | nil => rfl
  | cons e es ih =>
    rw [expand, List.foldlM_cons]
    cases onEdge seen q e with
    | none => rfl
    | some shown => exact ih (f.meet e.target) shown

def visitFrom (g : Graph) (f : Frontier) (seen : σ) : Option (Std.ExtTreeSet Nat × σ) :=
  match f with
  | ⟨met, []⟩ => some (met, seen)
  | ⟨met, q :: rest⟩ =>
    match _found : g.state? q with
    | none => none
    | some s =>
      match _expanded : expand onEdge q s.edges.toList ⟨met, rest⟩ seen with
      | none => none
      | some (next, last) => visitFrom g next last
termination_by g.remaining f
decreasing_by
  rw [expand_eq, Option.map_eq_some_iff] at _expanded
  obtain ⟨_, _, same⟩ := _expanded
  cases same
  exact remaining_expand _found

def visit (g : Graph) (start : Nat) (seen : σ) : Option (Std.ExtTreeSet Nat × σ) :=
  visitFrom onEdge g { met := {start}, pending := [start] } seen

end

def addLine (g : Graph) (lines : Std.ExtTreeSet String) (q : Nat) (e : Edge) :
    Option (Std.ExtTreeSet String) := do
  let source ← g.state? q
  let target ← g.state? e.target
  some (lines.insert (edgeLine source.serial e.label target.serial))

end Graph
end Recognizers
