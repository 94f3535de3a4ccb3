import Mathlib.Data.List.Nodup
import Recognizers.Proofs.Graph.Requests
import Recognizers.Proofs.Serial.Codes

/-!
Who has which name of a supply. Its names are handed out in their order, one to each request that
draws and one to each state that is made (`handed_eq`), and they stay with those to whom they were
handed out (`held_perm`).
-/
namespace Recognizers

theorem flatMap_set_perm {α β : Type} {f : α → List β} {new : List β} {a b : α} {l : List α} {i : Nat}
    (found : l[i]? = some a) (grown : f b = f a ++ new) :
    ((l.set i b).flatMap f).Perm (l.flatMap f ++ new) := by
  induction l generalizing i with
  | nil => cases found
  | cons c l ih =>
    cases i with
    | zero =>
      cases found
      rw [List.set_cons_zero, List.flatMap_cons, List.flatMap_cons, grown, List.append_assoc,
        List.append_assoc]
      exact List.perm_append_comm.append_left _
    | succ i =>
      rw [List.set_cons_succ, List.flatMap_cons, List.flatMap_cons, List.append_assoc]
      exact (ih found).append_left _

namespace Workspace

def serialsFrom (k : Nat) : Nat × Graph → List String
  | (number, g) => if number = k then g.serials else []

def held (w : Workspace) (k : Nat) : List String := w.graphs.toList.flatMap (serialsFrom k)

def drawnBy (k : Nat) : Request × Option Answer → List String
  | (.name supply, some (.name text)) => if supply = k then [text] else []
  | _ => []

def drawn (k : Nat) (asked : List Request) : List String := (log asked).flatMap (drawnBy k)

def serialsSince (w : Workspace) (k graph first : Nat) : List String :=
  ((w.graphs[graph]?).elim [] (serialsFrom k)).drop first

/-- The names of supply `k` that a request is handed: the one that it draws, or the serials of the
states that it makes. -/
def taken (k : Nat) (w : Workspace) (request : Request) : List String :=
  match request, w.respond request with
  | .name supply, (some (.name text), _) => if supply = k then [text] else []
  | .state graph, (some (.state q), next) => next.serialsSince k graph q
  | .literal graph _, (some (.fragment f), next) => next.serialsSince k graph f.first
  | _, _ => []

def givenBy (w : Workspace) (k : Nat) : List String := (w.supply? k).elim [] Supply.given

def handed (k : Nat) (asked : List Request) : List String :=
  (Session.log (fun w request => (taken k w request, (w.respond request).2)) {} asked).flatMap
    Prod.snd

variable {w next : Workspace} {request : Request} {answer : Answer} {j k number : Nat} {g h : Graph}
  {s : Supply} {states : List State} {asked : List Request} {new : List String}

theorem handed_concat (k : Nat) (asked : List Request) (request : Request) :
    handed k (asked ++ [request]) = handed k asked ++ taken k (after asked) request := by
  rw [handed, Session.log_concat, List.flatMap_append, List.flatMap_singleton]
  rfl

theorem drawn_concat (k : Nat) (asked : List Request) (request : Request) :
    drawn k (asked ++ [request]) =
      drawn k asked ++ drawnBy k (request, ((after asked).respond request).1) := by
  rw [drawn, log, Session.log_concat, List.flatMap_append, List.flatMap_singleton]
  rfl

theorem taken_made (makes : Makes j g.size request answer)
    (answered : w.respond request = (some answer, next))
    (found : next.graphs[j]? = some (number, { states := g.states ++ states })) :
    taken k w request = if number = k then states.map State.serial else [] := by
  have since : next.serialsSince k j g.size =
      if number = k then states.map State.serial else [] := by
    rw [serialsSince, found, Option.elim_some, serialsFrom]
    split
    · rw [Graph.serials_append, ← Graph.length_serials, List.drop_left]
    · exact List.drop_nil
  cases makes with
  | state => simpa only [taken, answered] using since
  | literal => simpa only [taken, answered] using since

theorem taken_done (answered : w.respond request = (some .done, next)) :
    taken k w request = [] := by
  cases request <;> simp only [taken, answered]

theorem taken_none (answered : w.respond request = (none, next)) : taken k w request = [] := by
  cases request <;> simp only [taken, answered]

theorem givenBy_advance {n : Nat} (known : w.supply? number = some s)
    (counted : next.supplies = w.supplies.setIfInBounds number (s.advance n)) :
    next.givenBy k = w.givenBy k ++ if number = k then s.upcoming n else [] := by
  rw [givenBy, givenBy, supply?, counted]
  by_cases here : number = k
  · subst here
    obtain ⟨inside, _⟩ := Array.getElem?_eq_some_iff.mp known
    rw [Array.getElem?_setIfInBounds_self_of_lt inside, known, if_pos rfl]
    exact s.given_advance n
  · rw [Array.getElem?_setIfInBounds_ne here, if_neg here, List.append_nil]
    rfl

theorem givenBy_addSupply (nameAt : Nat → String) :
    (w.addSupply { nameAt }).givenBy k = w.givenBy k := by
  rw [givenBy, givenBy, supply?, supply?, addSupply, Array.getElem?_push]
  split
  · rename_i last
    rw [last, Array.getElem?_size]
    rfl
  · rfl

theorem held_changed (found : w.graphs[j]? = some (number, g))
    (changed : next.graphs = w.graphs.setIfInBounds j (number, h))
    (grown : h.serials = g.serials ++ new) :
    (next.held k).Perm (w.held k ++ if number = k then new else []) := by
  rw [held, changed, Array.toList_setIfInBounds]
  refine flatMap_set_perm (a := (number, g)) (by rw [Array.getElem?_toList, found]) ?_
  rw [serialsFrom, serialsFrom]
  split
  · exact grown
  · rfl

theorem held_addGraph (supply : Nat) : (w.addGraph supply).held k = w.held k := by
  have nothing : serialsFrom k (supply, {}) = [] := ite_self []
  rw [held, addGraph, Array.toList_push, List.flatMap_append, List.flatMap_singleton, nothing,
    List.append_nil]
  rfl

/-- What a request is handed is counted by the supply, and it is held or was given back. -/
theorem handed_respond (w : Workspace) (k : Nat) (request : Request) :
    (w.respond request).2.givenBy k = w.givenBy k ++ taken k w request ∧
      ((w.respond request).2.held k ++ drawnBy k (request, (w.respond request).1)).Perm
        (w.held k ++ taken k w request) := by
  cases result : w.grant request with
  | none =>
    have answered : w.respond request = (none, w) := by rw [respond, result]
    have nothing : drawnBy k (request, none) = [] := by cases request <;> rfl
    rw [taken_none answered, answered, nothing, List.append_nil]
    exact ⟨rfl, .rfl⟩
  | some reply =>
    obtain ⟨answer, next⟩ := reply
    have answered : w.respond request = (some answer, next) := by rw [respond, result]
    rw [answered]
    cases Granted.of_grant result with
    | supply => exact ⟨(givenBy_addSupply _).trans (List.append_nil _).symm, .rfl⟩
    | graph => exact ⟨(List.append_nil _).symm, by rw [held_addGraph]; exact .rfl⟩
    | @name number s known =>
      have drew : taken k w (.name number) = if number = k then s.upcoming 1 else [] := by
        simp only [taken, answered]
        rfl
      rw [drew]
      exact ⟨givenBy_advance known rfl, .rfl⟩
    | @made _ _ j number g s states makes found known named =>
      obtain ⟨inside, _⟩ := Array.getElem?_eq_some_iff.mp found
      have took := taken_made (k := k) makes answered (Array.getElem?_setIfInBounds_self_of_lt inside)
      have nothing : drawnBy k (request, some answer) = [] := by cases makes <;> rfl
      rw [took, nothing, List.append_nil, named]
      refine ⟨givenBy_advance known rfl, ?_⟩
      rw [← named]
      exact held_changed found rfl (Graph.serials_append states)
    | changed found same =>
      have nothing : drawnBy k (request, some .done) = [] := by cases request <;> rfl
      rw [taken_done answered, nothing]
      refine ⟨(List.append_nil _).symm, ?_⟩
      simpa using held_changed (k := k) found rfl (same.trans (List.append_nil _).symm)

theorem handed_eq (k : Nat) (asked : List Request) :
    handed k asked = (after asked).givenBy k := by
  induction asked using List.reverseRecOn with
  | nil => rfl
  | append_singleton asked request ih =>
    rw [handed_concat, ih, after_concat]
    exact (handed_respond _ k request).1.symm

theorem held_perm (k : Nat) (asked : List Request) :
    ((after asked).held k ++ drawn k asked).Perm (handed k asked) := by
  induction asked using List.reverseRecOn with
  | nil => exact .rfl
  | append_singleton asked request ih =>
    have step := List.perm_iff_count.mp (handed_respond (after asked) k request).2
    rw [after_concat, drawn_concat, handed_concat]
    rw [List.perm_iff_count] at ih ⊢
    intro name
    have before := ih name
    have here := step name
    simp only [List.count_append] at before here ⊢
    omega

theorem Retains.serial_eq (retains : next.Retains w) {q : Nat} {x : State}
    (found : w.graphs[j]? = some (number, g)) (state : g.state? q = some x) :
    ∃ h y, next.graphs[j]? = some (number, h) ∧ h.state? q = some y ∧ y.serial = x.serial := by
  obtain ⟨h, known, begins⟩ := retains.serials found
  have here : g.serials[q]? = some x.serial := by rw [Graph.getElem?_serials, state, Option.map_some]
  have still : h.serials[q]? = some x.serial := by
    obtain ⟨more, same⟩ := begins
    rw [← same, List.getElem?_append_left (List.getElem?_eq_some_iff.mp here).1, here]
  rw [Graph.getElem?_serials] at still
  obtain ⟨y, later, same⟩ := Option.map_eq_some_iff.mp still
  exact ⟨h, y, known, later, same⟩

theorem given_eq_codes (serial : s.nameAt = Serial.code) (few : s.issued < 2 ^ 64 - 1) :
    s.given = (List.range s.issued).map fun n => Serial.codeAt n.toUInt64 := by
  rw [Supply.given, serial]
  apply List.map_congr_left
  intro n member
  have issued : n < s.issued := List.mem_range.mp member
  have inside : n + 1 < 2 ^ 64 := by omega
  have same : n.toUInt64.toNat = n := UInt64.toNat_ofNat_of_lt' (Nat.lt_of_succ_lt inside)
  rw [Serial.codeAt_eq (by rw [same]; exact inside), same]

theorem handed_eq_given (known : (after asked).supply? k = some s) : handed k asked = s.given := by
  rw [handed_eq, givenBy, known, Option.elim_some]

theorem nodup_handed (known : (after asked).supply? k = some s) (serial : s.nameAt = Serial.code) :
    (handed k asked).Nodup := by
  rw [handed_eq_given known, Supply.given, serial]
  exact List.nodup_range.map Serial.code_injective

theorem serials_sublist_held (found : w.graphs[j]? = some (k, g)) :
    g.serials.Sublist (w.held k) := by
  have here : (k, g) ∈ w.graphs.toList := Array.mem_toList_iff.mpr (Array.mem_of_getElem? found)
  have own : serialsFrom k (k, g) = g.serials := if_pos rfl
  rw [← own]
  exact List.sublist_flatten_of_mem (List.mem_map_of_mem here)

/-- A graph of a workspace whose states took their serials from a supply of serial codes. -/
def Coded (asked : List Request) (g : Graph) : Prop :=
  ∃ (j k : Nat) (s : Supply), (after asked).graphs[j]? = some (k, g) ∧
    (after asked).supply? k = some s ∧ s.nameAt = Serial.code

namespace Coded

theorem nodup_serials (coded : Coded asked g) : g.serials.Nodup := by
  obtain ⟨j, k, s, found, known, serial⟩ := coded
  have apart := (held_perm k asked).nodup_iff.mpr (nodup_handed known serial)
  exact (List.nodup_append.mp apart).1.sublist (serials_sublist_held found)

theorem exists_code (coded : Coded asked g) {name : String} (member : name ∈ g.serials) :
    ∃ n, name = Serial.code n := by
  obtain ⟨j, k, s, found, known, serial⟩ := coded
  have held : name ∈ (after asked).held k := (serials_sublist_held found).subset member
  have given := (held_perm k asked).subset (List.mem_append_left _ held)
  rw [handed_eq_given known, Supply.given, serial] at given
  obtain ⟨n, _, rfl⟩ := List.mem_map.mp given
  exact ⟨n, rfl⟩

end Coded

/-- However graphs that share a supply of serial codes are built in turn, and codes are drawn from it
in between, the codes are handed out in their order, as a counter of 64 bits gives them, and it
counts them. Each of them is the serial of one state of one of the graphs or was given back once.
States keep their serials for ever. -/
theorem serials_in_creation_order (asked : List Request) {k : Nat} {s : Supply}
    (known : (after asked).supply? k = some s) (serial : s.nameAt = Serial.code)
    (few : s.issued < 2 ^ 64 - 1) :
    handed k asked = (List.range s.issued).map (fun n => Serial.codeAt n.toUInt64) ∧
    s.issued.toUInt64.toNat = (handed k asked).length ∧
    ((after asked).held k ++ drawn k asked).Perm (handed k asked) ∧
    ((after asked).held k ++ drawn k asked).Nodup ∧
    ∀ (later : List Request) {j number : Nat} {g : Graph} {q : Nat} {x : State},
      (after asked).graphs[j]? = some (number, g) → g.state? q = some x →
      ∃ h y, (after (asked ++ later)).graphs[j]? = some (number, h) ∧ h.state? q = some y ∧
        y.serial = x.serial := by
  have all := handed_eq_given known
  refine ⟨all.trans (given_eq_codes serial few), ?_, held_perm k asked, ?_, ?_⟩
  · rw [all, Supply.given, List.length_map, List.length_range]
    have inside : s.issued < 2 ^ 64 := by omega
    exact UInt64.toNat_ofNat_of_lt' inside
  · exact (held_perm k asked).nodup_iff.mpr (nodup_handed known serial)
  · intro later j number g q x found state
    exact (after_retains asked later).serial_eq found state

/-- Two graphs on one supply, built in turn. The seventh request fails. -/
def sharing : List Request :=
  [.supply Serial.code, .graph 0, .graph 0, .state 0, .literal 1 "if", .name 0,
    .edge 1 9 "x" 0, .edge 0 0 "x" 7, .state 0, .accept 1 3 false, .literal 0 ""]

theorem sharing_in_creation_order :
    ∃ s, (after sharing).supply? 0 = some s ∧ s.nameAt = Serial.code ∧ s.issued = 7 ∧
      handed 0 sharing = (List.range 7).map (fun n => Serial.codeAt n.toUInt64) ∧
      ((after sharing).held 0 ++ drawn 0 sharing).Nodup ∧
      (after sharing).held 0 = ["a", "f", "g", "b", "c", "d"] ∧ drawn 0 sharing = ["e"] := by
  have known : (after sharing).supply? 0 = some { nameAt := Serial.code, issued := 7 } := rfl
  obtain ⟨order, _, _, apart, _⟩ := serials_in_creation_order sharing known rfl (by decide)
  exact ⟨_, known, rfl, rfl, order, apart, by decide +kernel, by decide +kernel⟩

end Workspace
end Recognizers
