import Mathlib.Data.List.Basic
import Recognizers.Graph.Workspace
import Recognizers.Proofs.Sessions

/-!
Workspaces under any requests. A request that is granted adds a supply or a graph, takes one name,
puts states behind those that a graph has, or changes a graph but not its serials (`Granted`). So
states keep their serials, whatever is asked later (`after_retains`).
-/
namespace Recognizers

namespace Supply

variable (s : Supply) (m n : Nat)

def upcoming (count : Nat) : List String := (List.range' s.issued count).map s.nameAt

def given : List String := (List.range s.issued).map s.nameAt

theorem upcoming_succ : s.upcoming (n + 1) = s.next :: (s.advance 1).upcoming n := by
  rw [upcoming, List.range'_succ]
  rfl

theorem given_advance : (s.advance n).given = s.given ++ s.upcoming n := by
  have split : List.range (s.issued + n) = List.range s.issued ++ List.range' s.issued n := by
    rw [List.range_eq_range', List.range_eq_range', ← List.range'_append_1, Nat.zero_add]
  rw [given, given, upcoming, ← List.map_append, ← split]
  rfl

end Supply

namespace Graph

variable {g : Graph} {q : Nat}

def serials (g : Graph) : List String := g.states.toList.map State.serial

theorem length_serials : g.serials.length = g.size := by
  rw [serials, List.length_map, Array.length_toList]
  rfl

theorem getElem?_serials : g.serials[q]? = (g.state? q).map State.serial := by
  rw [serials, List.getElem?_map, Array.getElem?_toList]
  rfl

theorem serials_append (states : List State) :
    serials { states := g.states ++ states } = g.serials ++ states.map State.serial := by
  simp [serials]

theorem serials_update {f : State → State} (kept : ∀ s, (f s).serial = s.serial) :
    (g.update q f).serials = g.serials := by
  apply List.ext_getElem?
  intro p
  rw [getElem?_serials, getElem?_serials, update, state?, state?, Array.getElem?_modify]
  split
  · rw [Option.map_map, show State.serial ∘ f = State.serial from funext kept]
  · rfl

end Graph

namespace Draft

theorem length_chain (names : Supply) (first : Nat) (text : List Char) :
    (chain names first text).length = text.length + 1 := by
  induction text generalizing names first with
  | nil => rfl
  | cons c text ih => simp [chain, ih]

theorem serials_chain (names : Supply) (first : Nat) (text : List Char) :
    (chain names first text).map State.serial = names.upcoming (text.length + 1) := by
  induction text generalizing names first with
  | nil => rfl
  | cons c text ih =>
    rw [chain, List.map_cons, ih, List.length_cons, Supply.upcoming_succ names (text.length + 1)]

end Draft

namespace Workspace

inductive Request where
  | supply (nameAt : Nat → String)
  | graph (supply : Nat)
  | name (supply : Nat)
  | state (graph : Nat)
  | literal (graph : Nat) (text : String)
  | edge (graph source : Nat) (label : String) (target : Nat)
  | accept (graph q : Nat) (accepting : Bool)

inductive Answer where
  | number (k : Nat)
  | name (text : String)
  | state (q : Nat)
  | fragment (f : Fragment)
  | done
deriving DecidableEq

def grant (w : Workspace) : Request → Option (Answer × Workspace)
  | .supply nameAt => some (.number w.supplies.size, w.addSupply { nameAt })
  | .graph supply => some (.number w.graphs.size, w.addGraph supply)
  | .name supply => (w.draw supply).map fun (text, next) => (.name text, next)
  | .state graph => do
    let g ← w.graph? graph
    let next ← w.addState graph
    some (.state g.size, next)
  | .literal graph text => do
    let g ← w.graph? graph
    let next ← w.addLiteral graph text
    some (.fragment (g.nextLiteral text), next)
  | .edge graph source label target => (w.addEdge graph source label target).map (.done, ·)
  | .accept graph q accepting => (w.accept graph q accepting).map (.done, ·)

/-- A request that has no result changes nothing. -/
def respond (w : Workspace) (request : Request) : Option Answer × Workspace :=
  match w.grant request with
  | some (answer, next) => (some answer, next)
  | none => (none, w)

abbrev Log := List (Request × Option Answer)

def after (asked : List Request) : Workspace := Session.state respond {} asked

def log (asked : List Request) : Log := Session.log respond {} asked

variable {w next : Workspace} {request : Request} {answer : Answer} {k number : Nat} {g h : Graph}
  {s : Supply} {states : List State} {asked : List Request}

inductive Makes (k first : Nat) : Request → Answer → Prop where
  | state : Makes k first (.state k) (.state first)
  | literal {text : String} :
      Makes k first (.literal k text) (.fragment ⟨first, first + text.length⟩)

inductive Granted (w : Workspace) : Request → Answer → Workspace → Prop where
  | supply {nameAt : Nat → String} :
      Granted w (.supply nameAt) (.number w.supplies.size) (w.addSupply { nameAt })
  | graph {supply : Nat} :
      Granted w (.graph supply) (.number w.graphs.size) (w.addGraph supply)
  | name {k : Nat} {s : Supply} (known : w.supply? k = some s) :
      Granted w (.name k) (.name s.next)
        { w with supplies := w.supplies.setIfInBounds k (s.advance 1) }
  | made {request : Request} {answer : Answer} {k number : Nat} {g : Graph} {s : Supply}
      {states : List State} (makes : Makes k g.size request answer)
      (found : w.graphs[k]? = some (number, g)) (known : w.supply? number = some s)
      (named : states.map State.serial = s.upcoming states.length) :
      Granted w request answer
        { supplies := w.supplies.setIfInBounds number (s.advance states.length)
          graphs := w.graphs.setIfInBounds k (number, { states := g.states ++ states }) }
  | changed {request : Request} {k number : Nat} {g h : Graph}
      (found : w.graphs[k]? = some (number, g)) (same : h.serials = g.serials) :
      Granted w request .done { w with graphs := w.graphs.setIfInBounds k (number, h) }

namespace Granted

theorem of_extend {f : Draft → Draft} (makes : ∀ g, w.graph? k = some g → Makes k g.size request answer)
    (extended : w.extend k f = some next)
    (appends : ∀ g s, ∃ states, f { graph := g, names := s } = Draft.append { graph := g, names := s } states ∧
      states.map State.serial = s.upcoming states.length) :
    Granted w request answer next := by
  simp only [extend, Option.bind_eq_some_iff, Option.bind_eq_bind] at extended
  obtain ⟨⟨number, g⟩, found, s, known, same⟩ := extended
  obtain ⟨states, appended, named⟩ := appends g s
  rw [appended] at same
  cases same
  exact .made (makes g (by rw [graph?, found]; rfl)) found known named

theorem of_change {q : Nat} {f : Graph → Graph} (changed : w.change k q f = some next)
    (kept : ∀ g, (f g).serials = g.serials) : Granted w request .done next := by
  simp only [change, Option.bind_eq_some_iff, Option.bind_eq_bind] at changed
  obtain ⟨⟨number, g⟩, found, same⟩ := changed
  split at same
  · cases same
    exact .changed found (kept g)
  · cases same

theorem of_grant (granted : w.grant request = some (answer, next)) :
    Granted w request answer next := by
  cases request with
  | supply nameAt =>
    cases granted
    exact .supply
  | graph supply =>
    cases granted
    exact .graph
  | name supply =>
    simp only [grant, draw, Option.map_map, Option.map_eq_some_iff] at granted
    obtain ⟨s, known, same⟩ := granted
    cases same
    exact .name known
  | state graph =>
    simp only [grant, Option.bind_eq_some_iff, Option.bind_eq_bind] at granted
    obtain ⟨g, found, _, added, same⟩ := granted
    cases same
    refine of_extend ?_ added fun g s => ⟨_, rfl, rfl⟩
    intro h again
    cases found.symm.trans again
    exact .state
  | literal graph text =>
    simp only [grant, Option.bind_eq_some_iff, Option.bind_eq_bind] at granted
    obtain ⟨g, found, _, added, same⟩ := granted
    cases same
    refine of_extend ?_ added fun g s => ⟨_, rfl, ?_⟩
    · intro h again
      cases found.symm.trans again
      exact .literal
    · rw [Draft.serials_chain, Draft.length_chain]
  | edge graph source label target =>
    obtain ⟨_, changed, same⟩ := Option.map_eq_some_iff.mp granted
    cases same
    exact of_change changed fun g => Graph.serials_update fun _ => rfl
  | accept graph q accepting =>
    obtain ⟨_, changed, same⟩ := Option.map_eq_some_iff.mp granted
    cases same
    exact of_change changed fun g => Graph.serials_update fun _ => rfl

end Granted

structure Retains (next w : Workspace) : Prop where
  serials : ∀ {k number : Nat} {g : Graph}, w.graphs[k]? = some (number, g) →
    ∃ h, next.graphs[k]? = some (number, h) ∧ g.serials <+: h.serials

namespace Retains

theorem refl (w : Workspace) : w.Retains w := ⟨fun {_ _ g} found => ⟨g, found, List.prefix_rfl⟩⟩

theorem trans {v : Workspace} (later : next.Retains w) (first : w.Retains v) : next.Retains v := by
  refine ⟨fun found => ?_⟩
  obtain ⟨h, known, begins⟩ := first.serials found
  obtain ⟨i, last, continues⟩ := later.serials known
  exact ⟨i, last, begins.trans continues⟩

theorem of_graphs_eq (same : next.graphs = w.graphs) : next.Retains w :=
  ⟨fun {_ _ g} found => ⟨g, same ▸ found, List.prefix_rfl⟩⟩

theorem of_set (found : w.graphs[k]? = some (number, g)) (begins : g.serials <+: h.serials)
    (changed : next.graphs = w.graphs.setIfInBounds k (number, h)) : next.Retains w := by
  refine ⟨fun {j other i} known => ?_⟩
  by_cases here : k = j
  · subst here
    cases Option.some.inj (found.symm.trans known)
    obtain ⟨inside, _⟩ := Array.getElem?_eq_some_iff.mp found
    exact ⟨h, by rw [changed, Array.getElem?_setIfInBounds_self_of_lt inside], begins⟩
  · exact ⟨i, by rw [changed, Array.getElem?_setIfInBounds_ne here, known], List.prefix_rfl⟩

theorem of_granted (granted : Granted w request answer next) : next.Retains w := by
  cases granted with
  | supply => exact of_graphs_eq rfl
  | graph =>
    refine ⟨fun {k number g} found => ⟨g, ?_, List.prefix_rfl⟩⟩
    obtain ⟨inside, _⟩ := Array.getElem?_eq_some_iff.mp found
    rw [addGraph, Array.getElem?_push, if_neg (Nat.ne_of_lt inside), found]
  | name known => exact of_graphs_eq rfl
  | made makes found known named =>
    refine of_set found ?_ rfl
    rw [Graph.serials_append]
    exact List.prefix_append _ _
  | changed found same => exact of_set found (same ▸ List.prefix_rfl) rfl

end Retains

theorem respond_retains (w : Workspace) (request : Request) : (w.respond request).2.Retains w := by
  unfold respond
  split
  · rename_i granted
    exact .of_granted (.of_grant granted)
  · exact .refl w

theorem after_concat (asked : List Request) (request : Request) :
    after (asked ++ [request]) = ((after asked).respond request).2 :=
  Session.state_concat respond {} asked request

theorem after_retains (asked later : List Request) :
    (after (asked ++ later)).Retains (after asked) := by
  induction later using List.reverseRecOn with
  | nil =>
    rw [List.append_nil]
    exact .refl _
  | append_singleton later request ih =>
    rw [← List.append_assoc, after_concat]
    exact (respond_retains _ request).trans ih

end Workspace
end Recognizers
