import Mathlib.Algebra.GroupWithZero.Nat
import Recognizers.Command.Basic
import Recognizers.Proofs.Graph.Chains
import Recognizers.Proofs.Graph.NodeLines

/-!
The automaton of a list of keywords. The chains that hang from its start state stay apart from each other,
and no character is labelled like the edges to them (`null_ne_singleton`), so its words are just the
keywords and the text that is drawn declares all its states (`keywords_language`).
-/
namespace Recognizers
namespace Graph

variable {g : Graph} {root : Nat} {d : Draft} {heads : List (Nat × String)} {labels : List String}
  {q : Nat} {word : String}

abbrev null : String := Vocabulary.initial.name .null

theorem null_ne_singleton (c : Char) : String.singleton c ≠ null := by
  intro same
  have lengths := congrArg String.length same
  rw [String.length_singleton] at lengths
  exact absurd lengths (by decide)

/-- The labels of a path, those of the empty word left out, in a row. -/
def spelled (labels : List String) : String := String.join (labels.filter (· ≠ null))

theorem join_singletons (word : String) :
    String.join (word.toList.map String.singleton) = word := by
  apply String.toList_inj.mp
  simp [List.flatMap_map]

theorem spelled_keyword (word : String) :
    spelled (null :: word.toList.map String.singleton) = word := by
  have kept : ∀ label ∈ word.toList.map String.singleton, decide (label ≠ null) = true := by
    intro label member
    obtain ⟨c, _, rfl⟩ := List.mem_map.mp member
    exact decide_eq_true (null_ne_singleton c)
  rw [spelled, List.filter_cons_of_neg (by simp), List.filter_eq_self.mpr kept, join_singletons]

/-- The state `root` leads by the empty word to the chains of these words, and nowhere else. -/
structure Hangs (g : Graph) (root : Nat) (heads : List (Nat × String)) : Prop where
  entry : ∃ s, g.state? root = some s ∧ s.accepting = false ∧
    ∀ e, e ∈ s.edges ↔ ∃ head ∈ heads, e = ⟨null, head.1⟩
  chained : ∀ head ∈ heads, g.Chained head.1 head.2.toList
  above : ∀ head ∈ heads, root < head.1
  covered : ∀ q, q < g.size → q = root ∨ ∃ head ∈ heads, head.1 ≤ q ∧ q ≤ head.1 + head.2.length

theorem size_addKeyword :
    (d.addKeyword root word).graph.size = d.graph.size + (word.length + 1) := by
  rw [Draft.addKeyword, addEdge, size_update]
  rw [Draft.addLiteral, Draft.append, size_append, Draft.length_chain, String.length_toList]

theorem size_addKeywords {words : List String} : (d.addKeywords root words).graph.size =
    d.graph.size + (words.map fun word => word.length + 1).sum := by
  induction words generalizing d with
  | nil => rfl
  | cons word words ih =>
    have later : (d.addKeywords root (word :: words)).graph.size =
        (d.addKeyword root word).graph.size + (words.map fun word => word.length + 1).sum := ih
    rw [later, size_addKeyword, List.map_cons, List.sum_cons, Nat.add_assoc]

namespace Hangs

theorem accepts_iff (hangs : g.Hangs root heads) : g.Accepts root labels ↔
    ∃ head ∈ heads, labels = null :: head.2.toList.map String.singleton := by
  obtain ⟨s, found, waiting, only⟩ := hangs.entry
  cases labels with
  | nil => simp [accepts_nil, found, waiting]
  | cons label labels =>
    rw [accepts_cons]
    constructor
    · rintro ⟨t, e, again, edge, rfl, rest⟩
      cases Option.some.inj (found.symm.trans again)
      obtain ⟨head, member, rfl⟩ := (only e).mp edge
      exact ⟨head, member, by rw [(hangs.chained head member).accepts_iff.mp rest]⟩
    · rintro ⟨head, member, same⟩
      obtain ⟨rfl, rfl⟩ := List.cons.inj same
      exact ⟨s, ⟨null, head.1⟩, found, (only _).mpr ⟨head, member, rfl⟩, rfl,
        (hangs.chained head member).accepts_iff.mpr rfl⟩

theorem language (hangs : g.Hangs root heads) :
    (∃ labels, g.Accepts root labels ∧ spelled labels = word) ↔ word ∈ heads.map Prod.snd := by
  rw [List.mem_map]
  constructor
  · rintro ⟨labels, accepts, rfl⟩
    obtain ⟨head, member, rfl⟩ := hangs.accepts_iff.mp accepts
    exact ⟨head, member, (spelled_keyword head.2).symm⟩
  · rintro ⟨head, member, rfl⟩
    exact ⟨_, hangs.accepts_iff.mpr ⟨head, member, rfl⟩, spelled_keyword head.2⟩

theorem reaches (hangs : g.Hangs root heads) (inside : q < g.size) : g.Reaches root q := by
  rcases hangs.covered q inside with rfl | ⟨head, member, within⟩
  · exact .refl
  · obtain ⟨s, found, _, only⟩ := hangs.entry
    have step : g.Step root head.1 :=
      (step_iff found).mpr ⟨⟨null, head.1⟩, (only _).mpr ⟨head, member, rfl⟩, rfl⟩
    have chained := hangs.chained head member
    rw [← String.length_toList] at within
    exact .head step (chained.reaches_iff.mpr within)

theorem not_dangles (hangs : g.Hangs root heads) : ¬ g.Dangles root := by
  obtain ⟨s, found, _, only⟩ := hangs.entry
  apply not_dangles_of_lt
  intro q reaches
  rw [Reaches, Relation.ReflTransGen.cases_head_iff] at reaches
  rcases reaches with rfl | ⟨r, step, rest⟩
  · exact lt_size found
  · obtain ⟨e, edge, rfl⟩ := (step_iff found).mp step
    obtain ⟨head, member, rfl⟩ := (only e).mp edge
    have chained := hangs.chained head member
    exact Nat.lt_of_le_of_lt (chained.reaches_iff.mp rest).2 chained.inside

theorem start : (Draft.addState { names := .serial }).graph.Hangs 0 [] := by
  refine ⟨⟨{ serial := Supply.serial.next }, rfl, rfl, by simp⟩, nofun, nofun,
    fun q inside => .inl ?_⟩
  exact Nat.lt_one_iff.mp inside

theorem addKeyword (hangs : d.graph.Hangs root heads) (word : String) :
    (d.addKeyword root word).graph.Hangs root (heads ++ [(d.graph.size, word)]) := by
  obtain ⟨s, found, waiting, only⟩ := hangs.entry
  have inside : root < d.graph.size := lt_size found
  have chained := chained_append (g := d.graph) d.names word.toList
  refine ⟨⟨{ s with edges := s.edges.insert ⟨null, (d.graph.nextLiteral word).first⟩ }, ?_,
    waiting, ?_⟩, ?_, ?_, ?_⟩
  · rw [Draft.addKeyword, addEdge, state?_update_self]
    rw [Draft.addLiteral, Draft.append, state?_append_left inside, found]
    rfl
  · intro e
    rw [Std.ExtTreeSet.mem_insert, Std.LawfulEqCmp.compare_eq_iff_eq, only]
    simp [nextLiteral, or_comm, eq_comm]
  · intro head member
    rcases List.mem_append.mp member with old | new
    · refine (hangs.chained head old).kept fun q above below => ?_
      have known : q < d.graph.size := Nat.lt_of_le_of_lt below (hangs.chained head old).inside
      have apart : root ≠ q := Nat.ne_of_lt (Nat.lt_of_lt_of_le (hangs.above head old) above)
      exact (state?_update_of_ne apart).trans (state?_append_left known)
    · cases List.mem_singleton.mp new
      refine chained.kept fun q above _ => ?_
      exact state?_update_of_ne (Nat.ne_of_lt (Nat.lt_of_lt_of_le inside above))
  · intro head member
    rcases List.mem_append.mp member with old | new
    · exact hangs.above head old
    · cases List.mem_singleton.mp new
      exact inside
  · intro q below
    by_cases known : q < d.graph.size
    · rcases hangs.covered q known with here | ⟨head, member, within⟩
      · exact .inl here
      · exact .inr ⟨head, List.mem_append_left _ member, within⟩
    · refine .inr ⟨_, List.mem_append_right _ List.mem_cons_self, Nat.le_of_not_lt known, ?_⟩
      rw [size_addKeyword] at below
      exact Nat.le_of_lt_succ below

theorem addKeywords (hangs : d.graph.Hangs root heads) (words : List String) :
    ∃ heads', (d.addKeywords root words).graph.Hangs root heads' ∧
      heads'.map Prod.snd = heads.map Prod.snd ++ words := by
  induction words generalizing d heads with
  | nil => exact ⟨heads, hangs, (List.append_nil _).symm⟩
  | cons word words ih =>
    obtain ⟨heads', later, same⟩ := ih (hangs.addKeyword word)
    refine ⟨heads', later, ?_⟩
    rw [same, List.map_append, List.append_assoc]
    rfl

theorem keywords (words : List String) :
    ∃ heads, (Graph.keywords words).Hangs 0 heads ∧ heads.map Prod.snd = words :=
  start.addKeywords words

end Hangs

theorem size_keywords (words : List String) :
    (keywords words).size = 1 + (words.map fun word => word.length + 1).sum := by
  rw [keywords, size_addKeywords]
  rfl

def Lettered (s : State) : Prop :=
  Serial.IsWord s.serial ∧ ∀ e ∈ s.edges, e.label = null ∨ ∃ c, e.label = String.singleton c

theorem lettered_chain {names : Supply} (words : ∀ n, Serial.IsWord (names.nameAt n)) (first : Nat)
    (text : List Char) : ∀ s ∈ Draft.chain names first text, Lettered s := by
  induction text generalizing names first with
  | nil =>
    rw [Draft.chain, List.forall_mem_singleton]
    exact ⟨words names.issued, by simp⟩
  | cons c text ih =>
    rw [Draft.chain, List.forall_mem_cons]
    have later : ∀ n, Serial.IsWord ((names.advance 1).nameAt n) := words
    refine ⟨⟨words names.issued, ?_⟩, ih later (first + 1)⟩
    intro e edge
    rw [Std.ExtTreeSet.singleton_eq_insert, Std.ExtTreeSet.mem_insert,
      Std.LawfulEqCmp.compare_eq_iff_eq] at edge
    rcases edge with rfl | none
    · exact .inr ⟨c, rfl⟩
    · simp at none

theorem Lettered.insert {s : State} (lettered : Lettered s) (target : Nat) :
    Lettered { s with edges := s.edges.insert ⟨null, target⟩ } := by
  refine ⟨lettered.1, fun e edge => ?_⟩
  rw [Std.ExtTreeSet.mem_insert, Std.LawfulEqCmp.compare_eq_iff_eq] at edge
  rcases edge with rfl | old
  · exact .inl rfl
  · exact lettered.2 e old

theorem forall_update {P : State → Prop} {f : State → State} (all : ∀ s ∈ g.states.toList, P s)
    (changed : ∀ s, P s → P (f s)) : ∀ s ∈ (g.update q f).states.toList, P s := by
  intro s member
  rw [update, Array.toList_modify] at member
  obtain ⟨p, found⟩ := List.mem_iff_getElem?.mp member
  rw [List.getElem?_modify] at found
  obtain ⟨t, old, rfl⟩ := Option.map_eq_some_iff.mp found
  have known := all t (List.mem_of_getElem? old)
  split
  · exact changed t known
  · exact known

theorem lettered_addKeyword (words : ∀ n, Serial.IsWord (d.names.nameAt n))
    (lettered : ∀ s ∈ d.graph.states.toList, Lettered s) (word : String) :
    ∀ s ∈ (d.addKeyword root word).graph.states.toList, Lettered s := by
  have longer : ∀ s ∈ (d.addLiteral word).graph.states.toList, Lettered s := by
    rw [Draft.addLiteral, Draft.append, Array.toList_appendList, List.forall_mem_append]
    exact ⟨lettered, lettered_chain words _ _⟩
  exact forall_update longer fun s known => known.insert _

theorem lettered_addKeywords (coded : ∀ n, Serial.IsWord (d.names.nameAt n))
    (lettered : ∀ s ∈ d.graph.states.toList, Lettered s) (words : List String) :
    ∀ s ∈ (d.addKeywords root words).graph.states.toList, Lettered s := by
  induction words generalizing d with
  | nil => exact lettered
  | cons word words ih => exact ih coded (lettered_addKeyword coded lettered word)

theorem lettered_keywords (words : List String) :
    ∀ s ∈ (keywords words).states.toList, Lettered s := by
  have first : Lettered { serial := Serial.code 0 } := ⟨Serial.isWord_code 0, by simp⟩
  have start : ∀ s ∈ (Draft.addState { names := .serial }).graph.states.toList, Lettered s :=
    List.forall_mem_singleton.mpr first
  have coded : ∀ n, Serial.IsWord ((Draft.addState { names := .serial }).names.nameAt n) :=
    Serial.isWord_code
  exact lettered_addKeywords coded start words

theorem Lettered.declaredStates_edgeLine {s t : State} {e : Edge} (lettered : Lettered s)
    (other : Lettered t) (edge : e ∈ s.edges) :
    declaredStates ("    " ++ edgeLine s.serial e.label t.serial ++ ";") = [] := by
  apply Recognizers.declaredStates_edgeLine lettered.1 other.1
  rcases lettered.2 e edge with named | ⟨c, named⟩
  · rw [named]
    exact .inl (by decide)
  · rw [named]
    by_cases feed : c = '\n'
    · exact .inr (by rw [feed]; rfl)
    · exact .inl (by simpa [eq_comm] using feed)

/-- The words on the paths from the start state to accepting states are just the keywords, the labels of
the empty word left out. All states can be reached, so the text that the command prints declares each of
them: the start state, and for each keyword one more than it has characters. -/
theorem keywords_language (words : List String) :
    (∀ word,
      (∃ labels, (keywords words).Accepts 0 labels ∧ spelled labels = word) ↔ word ∈ words) ∧
    (∀ q, (keywords words).Reaches 0 q ↔ q < (keywords words).size) ∧
    ∃ text lines, (∀ files limit, Command.run files limit (.nfa words) = some (.ok text)) ∧
      (keywords words).edgeLines? 0 = some lines ∧
      text = r"digraph nfa {" ++ "\n" ++ "    rankdir=LR;\n" ++
        String.join ((keywords words).states.toList.map fun s => "    " ++ s.serial ++ " [shape=" ++
          (if s.accepting then "doublecircle" else "circle") ++ "];\n") ++
        String.join (lines.map fun line => "    " ++ line ++ ";\n") ++ r"}" ++ "\n" ∧
      declaredStates text = (keywords words).states.toList.map (fun s => (s.serial, s.accepting)) ∧
      (declaredStates text).length = 1 + (words.map fun word => word.length + 1).sum := by
  obtain ⟨heads, hangs, same⟩ := Hangs.keywords words
  have known : ∀ q, (keywords words).Reaches 0 q ↔ q < (keywords words).size := fun q =>
    ⟨fun reaches => Nat.lt_of_not_ge fun outside => hangs.not_dangles ⟨q, reaches, outside⟩,
      hangs.reaches⟩
  have found := reachable?_of_all hangs.not_dangles fun q => hangs.reaches
  obtain ⟨lines, listed⟩ : ∃ lines, (keywords words).edgeLines? 0 = some lines :=
    ⟨_, edgeLines?_eq found⟩
  have drawing := dot?_eq found listed
  rw [filterMap_state?] at drawing
  have lettered := lettered_keywords words
  have quiet : ∀ line ∈ lines, declaredStates ("    " ++ line ++ ";") = [] := by
    intro line member
    obtain ⟨s, source, e, edge, t, target, rfl⟩ :=
      edge_of_mem_edgeLines? hangs.not_dangles listed member
    exact (lettered s source).declaredStates_edgeLine (lettered t target) edge
  have states := declaredStates_digraph (fun s member => (lettered s member).1) quiet
  refine ⟨fun word => ?_, known, _, lines, fun files limit => ?_, listed, digraph_eq _ _, states, ?_⟩
  · rw [hangs.language, same]
  · rw [Command.run, drawing]
    rfl
  · rw [states, List.length_map, Array.length_toList]
    exact size_keywords words

end Graph
end Recognizers
