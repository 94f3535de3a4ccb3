import Recognizers.Proofs.Parser.Accepted

/-!
The symbols that a parse meets. They come from the input, from the left sides of productions and
from the end of the input, so what holds of all of these holds of every symbol on the tape and in
the forest (`Over.leads`), and in the end of those in the tree or the error.
-/
namespace Recognizers

variable {P : Symbol → Prop}

namespace Arena

def Over (a : Arena) (P : Symbol → Prop) : Prop :=
  ∀ i n, a.node? i = some n → P n.symbol

theorem Over.leaf {a : Arena} (covered : a.Over P) {symbol : Symbol} (new : P symbol) :
    (a.leaf symbol).Over P := by
  intro i n found
  rw [node?_leaf] at found
  split at found
  · cases found
    exact new
  · exact covered i n found

theorem Over.inner {a : Arena} (covered : a.Over P) {symbol : Symbol} (new : P symbol)
    {production : Nat} {children : List Nat} (known : ∀ c ∈ children, c < a.size) :
    (a.inner symbol production children known).Over P := by
  intro i n found
  rw [node?_inner] at found
  split at found
  · cases found
    exact new
  · obtain ⟨m, old, same⟩ := Option.map_eq_some_iff.mp found
    have kept : n.symbol = m.symbol := by
      rw [← same]
      split <;> rfl
    rw [kept]
    exact covered i m old

theorem node?_of_mem_outlineFrom {a : Arena} {pending : List (Nat × Nat)} {placed : Placed}
    (member : placed ∈ a.outlineFrom pending) : a.node? placed.index = some placed.node := by
  fun_induction outlineFrom a pending with
  | case1 => cases member
  | case2 depth i rest missing ih => exact ih member
  | case3 depth i rest node found ih =>
    rcases List.mem_cons.mp member with here | later
    · rw [here]
      exact found
    · exact ih later

end Arena

theorem Forest.mem_symbols {f : Forest} {symbol : Symbol} (member : symbol ∈ f.symbols) :
    ∃ i n, f.arena.node? i = some n ∧ n.symbol = symbol := by
  obtain ⟨n, root, same⟩ := List.mem_map.mp member
  obtain ⟨i, _, found⟩ := List.mem_filterMap.mp root
  exact ⟨i, n, found, same⟩

namespace Tape

theorem mem_writeBack {t : Tape} {symbol s : Symbol} (member : s ∈ (t.writeBack symbol).symbols) :
    s ∈ t.symbols ∨ s = symbol ∨ s = .eof := by
  rcases t with ⟨symbols, cursor, prepended⟩
  cases cursor with
  | zero =>
    rcases Array.mem_append.mp member with new | old
    · exact .inr (.inl (Array.mem_singleton.mp new))
    · exact .inl old
  | succ place =>
    rcases Array.mem_or_eq_of_mem_setIfInBounds member with filled | new
    · rcases Array.mem_append.mp filled with old | gap
      · exact .inl old
      · exact .inr (.inr (Array.mem_replicate.mp gap).2)
    · exact .inr (.inl new)

theorem look_mem_or_eof (t : Tape) : t.look ∈ t.symbols ∨ t.look = .eof := by
  unfold look
  cases here : t.symbols[t.cursor]? with
  | none => exact .inr rfl
  | some s => exact .inl (Array.mem_of_getElem? here)

end Tape

structure Config.Over (c : Config) (P : Symbol → Prop) : Prop where
  nodes : c.forest.arena.Over P
  symbols : ∀ s ∈ c.tape.symbols, P s

def ParseError.symbols : ParseError → List Symbol
  | noAction _ symbol _ => [symbol]
  | incomplete residual => residual
  | _ => []

namespace Parser

variable {p : Parser} {goal : Symbol} {input : List Symbol} {limit : Nat} {c d : Config}
  {past : List (Turn Config)}

structure Over (p : Parser) (P : Symbol → Prop) : Prop where
  eof : P .eof
  left : ∀ {id : Nat} {rule : Production}, p.grammar.production? id = some rule → P rule.left

namespace Over

theorem look (covered : p.Over P) (now : c.Over P) : P c.tape.look := by
  rcases c.tape.look_mem_or_eof with held | ended
  · exact now.symbols _ held
  · rw [ended]
    exact covered.eof

theorem start (given : ∀ s ∈ input, P s) : (Config.start input).Over P := by
  refine ⟨?_, fun s member => given s (List.mem_toArray.mp member)⟩
  intro i n found
  have empty : (#[] : Array Node)[i]? = some n := found
  rw [Array.getElem?_empty] at empty
  cases empty

theorem act (covered : p.Over P) (now : c.Over P) {action : Action}
    (taken : p.act c action = .ok d) : d.Over P := by
  cases act_effect taken with
  | shift target => exact ⟨now.nodes.leaf (covered.look now), now.symbols⟩
  | goto target => exact ⟨now.nodes, now.symbols⟩
  | reduce id rule known enough =>
    refine ⟨now.nodes.inner (covered.left known) fun i member =>
      c.forest.known i (Forest.mem_of_taken member), fun s member => ?_⟩
    rcases Tape.mem_writeBack member with old | new | gap
    · exact now.symbols s old
    · rw [new]
      exact covered.left known
    · rw [gap]
      exact covered.eof

theorem leads (covered : p.Over P) (given : ∀ s ∈ input, P s)
    (leads : p.Leads (.start input) past d) : d.Over P := by
  induction leads with
  | start => exact start given
  | turn before chosen taken ih => exact covered.act ih taken

theorem parsed (covered : p.Over P) (given : ∀ s ∈ input, P s) {t : ParseTree}
    (parsed : p.parse limit input = some (.ok t)) : t.arena.Over P := by
  obtain ⟨goal, past, last, accepted⟩ := parse_accepted parsed
  rw [accepted.arena]
  exact (covered.leads given accepted.ended.leads).nodes

theorem failed (covered : p.Over P) (given : ∀ s ∈ input, P s) {e : ParseError}
    (failed : p.parse limit input = some (.error e)) : ∀ s ∈ e.symbols, P s := by
  rcases parse_eq_error failed with unstarted | ⟨goal, past, last, _, ended, residual | stopped⟩
  · rcases startSymbol_eq_error unstarted with rfl | ⟨_, rfl⟩ | ⟨_, _, _, _, rfl⟩ <;> nofun
  · intro s member
    rw [residual] at member
    obtain ⟨i, n, found, same⟩ := Forest.mem_symbols member
    rw [← same]
    exact (covered.leads given ended.leads).nodes i n found
  · cases step_failure stopped with
    | missing none =>
      intro s member
      rw [List.mem_singleton.mp member]
      exact covered.look (covered.leads given ended.leads)
    | unknown id chosen none => nofun
    | underflow id rule chosen known short => nofun

end Over

theorem production_never_unknown
    (made : ∀ {state id : Nat} {symbol : Symbol}, p.table.action? state symbol = some (.reduce id) →
      (p.grammar.production? id).isSome) {e : ParseError}
    (failed : p.parse limit input = some (.error e)) (id : Nat) : e ≠ .unknownProduction id := by
  have known {state id : Nat} {symbol : Symbol}
      (reduces : p.table.action? state symbol = some (.reduce id))
      (missing : p.grammar.production? id = none) : False := by
    have there := made reduces
    rw [missing] at there
    cases there
  rintro rfl
  rcases parse_eq_error failed with unstarted | ⟨_, _, _, _, _, residual | stopped⟩
  · rcases startSymbol_eq_error unstarted with same | ⟨_, same⟩ | ⟨_, _, reduces, missing, same⟩
    · cases same
    · cases same
    · exact known reduces missing
  · cases residual
  · cases step_failure stopped with
    | unknown id chosen missing => exact known chosen missing

end Parser

section

variable {v w : Vocabulary}

theorem ParseTree.drawing_congr {t : ParseTree}
    (same : t.arena.Over fun s => w.name s = v.name s) : t.drawing w = t.drawing v := by
  unfold drawing
  congr 1
  apply List.map_congr_left
  intro placed member
  rw [same _ _ (Arena.node?_of_mem_outlineFrom member)]

theorem ParseError.message_congr {e : ParseError}
    (same : ∀ s ∈ e.symbols, w.name s = v.name s) : e.message w = e.message v := by
  unfold message
  cases e with
  | noAction position symbol state => simp only [same symbol (List.mem_singleton_self symbol)]
  | incomplete residual =>
    have names : residual.map w.name = residual.map v.name := List.map_congr_left same
    simp only [names]
  | noFinalState => rfl
  | noStartSymbol state => rfl
  | stackUnderflow production needed available => rfl
  | unknownProduction production => rfl

end

end Recognizers
