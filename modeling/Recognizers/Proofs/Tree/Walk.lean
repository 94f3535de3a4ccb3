import Recognizers.Proofs.Parser.Accepted
import Recognizers.Proofs.Tree.Checked

/-!
The walk over a tree is the visit of its inner nodes by recursion (`visit`), whatever the visitor
does: what is on the list of the walk is done one after the other (`walkFrom_eq`). The visits that
are made on the way (`tour`) nest, and each inner node is entered once and left once.
-/
namespace Recognizers

universe u

/-- The nodes that are open after some visits, the latest one first, if `opened` are open before
them. Only the latest one can be left. -/
def openAfter (opened : List Nat) : List Visit → Option (List Nat)
  | [] => some opened
  | .enter i :: later => openAfter (i :: opened) later
  | .leave i :: later =>
    match opened with
    | [] => none
    | j :: below => if i = j then openAfter below later else none

namespace Visitor

variable {ε σ : Type}

def perform {m : Type → Type u} (v : Visitor m) : Visit → m Unit
  | .enter i => v.enter i
  | .leave i => v.leave i

inductive Accepts (v : Visitor (ExceptT ε (StateM σ))) : σ → List Visit → σ → Prop where
  | nil {s : σ} : Accepts v s [] s
  | cons {s next last : σ} {visit : Visit} {later : List Visit}
      (first : (v.perform visit).run.run s = (.ok (), next)) (others : Accepts v next later last) :
      Accepts v s (visit :: later) last

theorem run_bind (x y : ExceptT ε (StateM σ) Unit) (s : σ) : (x >>= fun _ => y).run.run s =
    match x.run.run s with
    | (.ok (), next) => y.run.run next
    | (.error e, after) => (.error e, after) := by
  rw [ExceptT.run_bind, StateT.run_bind]
  cases x.run.run s with
  | mk answer next => cases answer <;> rfl

theorem perform_settled (v : Visitor (ExceptT ε (StateM σ))) (s : σ) (visits : List Visit) :
    (∃ last, v.Accepts s visits last ∧
      (forM visits v.perform : ExceptT ε (StateM σ) Unit).run.run s = (.ok (), last)) ∨
    ∃ seen visit later before e after, visits = seen ++ visit :: later ∧
      v.Accepts s seen before ∧ (v.perform visit).run.run before = (.error e, after) ∧
      (forM visits v.perform : ExceptT ε (StateM σ) Unit).run.run s = (.error e, after) := by
  induction visits generalizing s with
  | nil => exact .inl ⟨s, .nil, rfl⟩
  | cons visit later ih =>
    have unfolded : (forM (visit :: later) v.perform : ExceptT ε (StateM σ) Unit).run.run s =
        match (v.perform visit).run.run s with
        | (.ok (), next) => (forM later v.perform : ExceptT ε (StateM σ) Unit).run.run next
        | (.error e, after) => (.error e, after) := by
      rw [List.forM_cons, run_bind]
    cases first : (v.perform visit).run.run s with
    | mk answer next =>
      rw [first] at unfolded
      cases answer with
      | error e => exact .inr ⟨[], visit, later, s, e, next, rfl, .nil, first, unfolded⟩
      | ok =>
        rcases ih next with ⟨last, accepts, all⟩ |
          ⟨seen, refused, rest, before, e, after, rfl, accepts, fails, all⟩
        · exact .inl ⟨last, .cons first accepts, unfolded.trans all⟩
        · exact .inr ⟨visit :: seen, refused, rest, before, e, after, rfl, .cons first accepts,
            fails, unfolded.trans all⟩

end Visitor

namespace Arena

variable {m : Type → Type u} [Monad m] [LawfulMonad m] {v : Visitor m} {a : Arena} {i : Nat}

def isInner (a : Arena) (i : Nat) : Bool := (a.node? i).any (!·.isLeaf)

theorem isInner_eq (a : Arena) (i : Nat) : a.isInner i = !(a.node? i).all (·.isLeaf) := by
  unfold isInner
  cases a.node? i <;> simp

theorem lt_of_inner (inner : a.isInner i = true) : i < a.size := by
  unfold isInner at inner
  cases found : a.node? i with
  | none =>
    rw [found] at inner
    cases inner
  | some n => exact lt_of_node found

theorem children_of_not_inner (other : a.isInner i = false) : a.children i = [] := by
  unfold isInner at other
  unfold children
  cases found : a.node? i with
  | none => rfl
  | some n =>
    rw [found, Option.any_some] at other
    exact Node.children_of_isLeaf (by simpa using other)

/-- A visit by recursion. Only inner nodes are visited. -/
def visit {m : Type → Type u} [Monad m] (a : Arena) (v : Visitor m) (i : Nat) : m Unit :=
  if a.isInner i then do
    v.enter i
    forM ((a.children i).filter a.isInner).attach fun c => visit a v c.val
    v.leave i
  else pure ()
termination_by i
decreasing_by exact a.children_lt (List.mem_of_mem_filter c.property)

def tour (a : Arena) (i : Nat) : List Visit :=
  if a.isInner i then
    .enter i :: ((a.children i).attach.flatMap fun c => tour a c.val) ++ [.leave i]
  else []
termination_by i
decreasing_by exact a.children_lt c.property

theorem visit_eq (a : Arena) (v : Visitor m) (i : Nat) : a.visit v i =
    if a.isInner i then do
      v.enter i
      forM ((a.children i).filter a.isInner) (a.visit v)
      v.leave i
    else pure () := by
  have listed := List.forM_map (l := ((a.children i).filter a.isInner).attach)
    (g := Subtype.val) (f := a.visit v)
  rw [List.attach_map_subtype_val] at listed
  rw [visit, listed]

theorem tour_eq (a : Arena) (i : Nat) : a.tour i =
    if a.isInner i then .enter i :: (a.children i).flatMap a.tour ++ [.leave i] else [] := by
  rw [tour, List.flatMap_subtype (fun _ _ => rfl), List.unattach_attach]

theorem tour_of_inner (inner : a.isInner i = true) :
    a.tour i = .enter i :: (a.children i).flatMap a.tour ++ [.leave i] := by
  rw [tour_eq, if_pos inner]

theorem tour_of_not_inner (other : a.isInner i = false) : a.tour i = [] := by
  rw [tour_eq, other]
  rfl

theorem forM_inner {nodes : List Nat}
    (same : ∀ c ∈ nodes, a.visit v c = forM (a.tour c) v.perform) :
    forM (nodes.filter a.isInner) (a.visit v) = forM (nodes.flatMap a.tour) v.perform := by
  induction nodes with
  | nil => rfl
  | cons c cs ih =>
    obtain ⟨first, later⟩ := List.forall_mem_cons.mp same
    rw [List.flatMap_cons, List.forM_append, ← first, ← ih later]
    cases inner : a.isInner c with
    | true => rw [List.filter_cons_of_pos inner, List.forM_cons]
    | false =>
      rw [List.filter_cons_of_neg (by simp [inner]), visit_eq, inner]
      simp

theorem visit_eq_tour (a : Arena) (v : Visitor m) (i : Nat) :
    a.visit v i = forM (a.tour i) v.perform := by
  induction i using a.children_induct with
  | index i ih =>
    rw [visit_eq]
    cases inner : a.isInner i with
    | true =>
      rw [tour_of_inner inner, if_pos rfl, forM_inner ih]
      simp only [List.cons_append, List.forM_cons, List.forM_append, List.forM_nil, Visitor.perform,
        bind_pure_unit]
    | false =>
      rw [tour_of_not_inner inner]
      rfl

def Classed (a : Arena) : Prop :=
  ∀ i n, a.node? i = some n → (n.symbol.kind = .nonterminal ↔ n.isLeaf = false)

theorem Classed.innerChildren_eq (classed : a.Classed) (i : Nat) :
    a.innerChildren i = (a.children i).filter a.isInner := by
  apply List.filter_congr
  intro c _
  unfold isInner
  cases found : a.node? c with
  | none => rfl
  | some n =>
    have same := classed c n found
    cases shape : n.isLeaf <;> simp [shape, same]

def todo (a : Arena) (v : Visitor m) : Visit → m Unit
  | .enter i => a.visit v i
  | .leave i => v.leave i

theorem walkFrom_eq (classed : a.Classed) (v : Visitor m) (pending : List Visit) :
    a.walkFrom v pending = forM pending (a.todo v) := by
  fun_induction walkFrom a v pending with
  | case1 => rfl
  | case2 i rest ih => rw [ih, List.forM_cons, todo]
  | case3 i rest leaf ih =>
    have other : a.isInner i = false := by rw [isInner_eq, leaf, Bool.not_true]
    rw [ih, List.forM_cons, todo, visit_eq, other]
    simp
  | case4 i rest inner ih =>
    have inner : a.isInner i = true := by simp [isInner_eq, inner]
    rw [ih, classed.innerChildren_eq, List.forM_append, List.forM_map, List.forM_cons,
      List.forM_cons, todo, visit_eq, inner]
    simp [todo]

theorem openAfter_tours {nodes : List Nat} {opened : List Nat} {rest : List Visit}
    (closed : ∀ c ∈ nodes, ∀ opened rest,
      openAfter opened (a.tour c ++ rest) = openAfter opened rest) :
    openAfter opened (nodes.flatMap a.tour ++ rest) = openAfter opened rest := by
  induction nodes with
  | nil => rfl
  | cons c cs ih =>
    obtain ⟨first, later⟩ := List.forall_mem_cons.mp closed
    rw [List.flatMap_cons, List.append_assoc, first, ih later]

theorem openAfter_tour (a : Arena) (i : Nat) (opened : List Nat) (rest : List Visit) :
    openAfter opened (a.tour i ++ rest) = openAfter opened rest := by
  induction i using a.children_induct generalizing opened rest with
  | index i ih =>
    cases inner : a.isInner i with
    | true =>
      rw [tour_of_inner inner, List.append_assoc, List.cons_append, openAfter,
        openAfter_tours ih, List.singleton_append, openAfter,
        if_pos rfl]
    | false => rw [tour_of_not_inner inner, List.nil_append]

theorem count_tour {call : Nat → Visit} (either : call = .enter ∨ call = .leave) (a : Arena)
    (i j : Nat) :
    (a.tour i).count (call j) = ((a.postorder i).filter a.isInner).count j := by
  induction i using a.children_induct with
  | index i ih =>
    rw [postorder_eq, List.filter_append, List.filter_flatMap, List.count_append]
    cases inner : a.isInner i with
    | true =>
      have ends : [Visit.enter i].count (call j) + [Visit.leave i].count (call j) =
          ([i].filter a.isInner).count j := by
        rcases either with rfl | rfl <;> simp [inner, List.count_singleton]
      have below : ((a.children i).flatMap a.tour).count (call j) =
          ((a.children i).flatMap fun c => (a.postorder c).filter a.isInner).count j := by
        rw [List.count_flatMap, List.count_flatMap]
        congr 1
        exact List.map_congr_left ih
      rw [tour_of_inner inner, ← below, ← ends, List.count_append, ← List.singleton_append,
        List.count_append]
      omega
    | false =>
      rw [tour_of_not_inner inner, children_of_not_inner inner,
        List.filter_cons_of_neg (by simp [inner])]
      rfl

end Arena

theorem openAfter_append {opened : List Nat} (visits later : List Visit) :
    openAfter opened (visits ++ later) = (openAfter opened visits).bind (openAfter · later) := by
  fun_induction openAfter opened visits with
  | case1 => rfl
  | case2 opened i visits ih => exact ih
  | case3 => rfl
  | case4 i visits below ih => rw [List.cons_append, openAfter, if_pos rfl, ih]
  | case5 i visits j below apart => rw [List.cons_append, openAfter, if_neg apart, Option.bind_none]

theorem left_or_open {opened remaining : List Nat} {visits : List Visit} {i : Nat}
    (after : openAfter opened visits = some remaining) (member : i ∈ opened) :
    i ∈ remaining ∨ .leave i ∈ visits := by
  fun_induction openAfter opened visits with
  | case1 =>
    cases after
    exact .inl member
  | case2 opened j visits ih =>
    exact (ih after (List.mem_cons_of_mem j member)).imp_right (List.mem_cons_of_mem _)
  | case3 => cases after
  | case4 j visits below ih =>
    rcases List.mem_cons.mp member with rfl | earlier
    · exact .inr List.mem_cons_self
    · exact (ih after earlier).imp_right (List.mem_cons_of_mem _)
  | case5 => cases after

theorem not_left_of_open {visits later : List Visit} {i : Nat} {opened : List Nat}
    (nested : openAfter [] (visits ++ later) = some []) (after : openAfter [] visits = some opened)
    (once : (visits ++ later).count (.leave i) ≤ 1) (member : i ∈ opened) :
    .leave i ∉ visits := by
  intro left
  rw [openAfter_append, after, Option.bind_some] at nested
  rcases left_or_open nested member with none | again
  · cases none
  · rw [List.count_append] at once
    have first := List.count_pos_iff.mpr left
    have second := List.count_pos_iff.mpr again
    omega

namespace ParseTree

def tour (t : ParseTree) : List Visit := t.arena.tour t.root

theorem walk_eq_visit {m : Type → Type u} [Monad m] [LawfulMonad m] (t : ParseTree)
    (classed : t.arena.Classed) (v : Visitor m) : t.walk v = t.arena.visit v t.root := by
  rw [walk, Arena.walkFrom_eq classed, List.forM_cons, List.forM_nil, bind_pure_unit]
  rfl

end ParseTree

namespace Parser

variable {p : Parser} {limit : Nat} {input : List Symbol} {t : ParseTree}

theorem classed_of_parsed (parsed : p.parse limit input = some (.ok t)) : t.arena.Classed := by
  obtain ⟨goal, past, last, accepted⟩ := parse_accepted parsed
  intro i n found
  have formed : n.Formed p.grammar :=
    (leads_built accepted.ended.leads).formed (accepted.arena ▸ found)
  cases formed with
  | leaf shape unmade terminal => simp [shape, terminal]
  | inner id rule shape made known left count => simp [shape, left, Production.left, Symbol.kind]

theorem count_tour_of_parsed (parsed : p.parse limit input = some (.ok t)) {call : Nat → Visit}
    (either : call = .enter ∨ call = .leave) (i : Nat) :
    t.tour.count (call i) = if t.arena.isInner i then 1 else 0 := by
  obtain ⟨goal, past, last, accepted⟩ := parse_accepted parsed
  have orderly := (leads_built accepted.ended.leads).orderly
  have all : t.arena.postorder t.root = List.range t.arena.size := by
    rw [accepted.arena]
    exact orderly.postorder_root accepted.roots
  rw [ParseTree.tour, Arena.count_tour either, all]
  cases inner : t.arena.isInner i with
  | true =>
    have known := List.mem_range.mpr (Arena.lt_of_inner inner)
    rw [List.count_filter inner, List.count_eq_one_of_mem List.nodup_range known, if_pos rfl]
  | false =>
    rw [if_neg Bool.false_ne_true, List.count_eq_zero]
    intro member
    rw [List.of_mem_filter member] at inner
    cases inner

/-- The walk over the tree of a parse is its visit by recursion. The visits nest, and each inner
node is entered once and left once. If a visitor fails, then it has accepted just the visits before
the one that fails, and the nodes that are open there have not been left. -/
theorem walk_visits_recursively (parsed : p.parse limit input = some (.ok t)) :
    (∀ (m : Type → Type u) [Monad m] [LawfulMonad m] (v : Visitor m),
      t.walk v = t.arena.visit v t.root) ∧
    openAfter [] t.tour = some [] ∧
    (∀ i, t.tour.count (.enter i) = (if t.arena.isInner i then 1 else 0) ∧
      t.tour.count (.leave i) = if t.arena.isInner i then 1 else 0) ∧
    ∀ (ε σ : Type) (v : Visitor (ExceptT ε (StateM σ))) (s : σ),
      (∃ last, v.Accepts s t.tour last ∧ (t.walk v).run.run s = (.ok (), last)) ∨
      ∃ seen refused rest before e after opened, t.tour = seen ++ refused :: rest ∧
        v.Accepts s seen before ∧ (v.perform refused).run.run before = (.error e, after) ∧
        (t.walk v).run.run s = (.error e, after) ∧
        openAfter [] seen = some opened ∧ ∀ i ∈ opened, .leave i ∉ seen := by
  have classed := classed_of_parsed parsed
  have nested : openAfter [] t.tour = some [] := by
    have closed := t.arena.openAfter_tour t.root [] []
    rwa [List.append_nil] at closed
  have counted := fun i => And.intro (count_tour_of_parsed parsed (.inl rfl) i)
    (count_tour_of_parsed parsed (.inr rfl) i)
  refine ⟨fun m _ _ v => t.walk_eq_visit classed v, nested, counted, fun ε σ v s => ?_⟩
  rw [t.walk_eq_visit classed, Arena.visit_eq_tour]
  rcases v.perform_settled s t.tour with all |
    ⟨seen, refused, rest, before, e, after, parts, accepts, fails, result⟩
  · exact .inl all
  · refine .inr ⟨seen, refused, rest, before, e, after, ?_⟩
    rw [parts] at nested
    cases opened : openAfter [] seen with
    | none =>
      rw [openAfter_append, opened] at nested
      cases nested
    | some nodes =>
      refine ⟨nodes, parts, accepts, fails, result, rfl, fun i member => ?_⟩
      have once : (seen ++ refused :: rest).count (.leave i) ≤ 1 := by
        rw [← parts, (counted i).2]
        split <;> decide
      exact not_left_of_open nested opened once member

def stopAt (refused : Visit) : Visitor (ExceptT Visit (StateM (List Visit))) :=
  let record (visit : Visit) : ExceptT Visit (StateM (List Visit)) Unit :=
    if visit = refused then throw visit else modify (· ++ [visit])
  { enter := fun i => record (.enter i), leave := fun i => record (.leave i) }

theorem endmarked_walk : ∃ t, endmarked.parse 20 [.terminal 2] = some (.ok t) ∧
    t.tour.count (.leave 4) = 1 ∧ t.tour.count (.enter 1) = 0 ∧
    (t.walk (stopAt (.enter 3))).run.run [] =
      (.error (.enter 3), [.enter 4, .enter 0, .leave 0]) := by
  obtain ⟨t, parsed, tour, inner, leaf⟩ : ∃ t,
      endmarked.parse 20 [.terminal 2] = some (.ok t) ∧
      t.tour = [.enter 4, .enter 0, .leave 0, .enter 3, .leave 3, .leave 4] ∧
      t.arena.isInner 4 = true ∧ t.arena.isInner 1 = false :=
    ⟨_, parse_of_start endmarked_start 20 _, by decide +kernel, rfl, rfl⟩
  obtain ⟨walked, _, counted, _⟩ := walk_visits_recursively parsed
  refine ⟨t, parsed, by rw [(counted 4).2, if_pos inner], by rw [(counted 1).1, leaf]; rfl, ?_⟩
  rw [walked, Arena.visit_eq_tour, ← ParseTree.tour, tour]
  rfl

end Parser
end Recognizers
