import Recognizers.Proofs.Sessions
import Recognizers.Proofs.Description.Obedience

/-!
Grammars under any requests. What a grammar grants it keeps: a name stays with its symbol and a
production with its number whatever is asked later (`after_retains`), and the lists of names are the
granted names in the order in which they first came (`Recorded.of_log`).
-/
namespace Recognizers

theorem map_eq_ok_iff {ε α β : Type} {x : Except ε α} {f : α → β} {b : β} :
    x.map f = .ok b ↔ ∃ a, x = .ok a ∧ f a = b := by
  cases x <;> simp [Except.map]

namespace Grammar

inductive Request where
  | declare (kind : SymbolKind) (name : String)
  | add (left : Symbol) (right : List Symbol)
  | addByName (left : String) (right : List String)
deriving DecidableEq

inductive Answer where
  | symbol (s : Symbol)
  | production (id : Nat)
deriving DecidableEq

def grant (g : Grammar) : Request → Except GrammarError (Answer × Grammar)
  | .declare kind name =>
    (g.vocabulary.declare kind name).map fun (s, vocabulary) => (.symbol s, { g with vocabulary })
  | .add left right => (g.add left right).map fun (id, next) => (.production id, next)
  | .addByName left right =>
    (g.addByName left right).map fun (id, next) => (.production id, next)

def respond (g : Grammar) (request : Request) : Except GrammarError Answer × Grammar :=
  Session.settle g (g.grant request)

abbrev Log := List (Request × Except GrammarError Answer)

def after (asked : List Request) : Grammar := Session.state respond {} asked

def log (asked : List Request) : Log := Session.log respond {} asked

variable {g h : Grammar} {request : Request} {answer : Answer} {e : GrammarError}
  {asked : List Request}

inductive Granted (g : Grammar) : Request → Answer → Grammar → Prop where
  | found {kind : SymbolKind} {name : String} {s : Symbol}
      (here : g.vocabulary.find? name = some s) (same : s.kind = kind) :
      Granted g (.declare kind name) (.symbol s) g
  | named {kind : SymbolKind} {name : String} (fresh : g.vocabulary.find? name = none) :
      Granted g (.declare kind name) (.symbol (g.vocabulary.next kind))
        { g with vocabulary := g.vocabulary.extend name fresh kind }
  | added {head : Nat} {right : List Symbol} :
      Granted g (.add (.nonterminal head) right) (.production g.productions.size)
        { g with productions := g.productions.push { head, right } }
  | addedByName {left : String} {right : List String} {head : Nat} {symbols : List Symbol}
      (leftFound : g.vocabulary.find? left = some (.nonterminal head))
      (rightFound : List.Forall₂ (fun name s => g.vocabulary.find? name = some s) right symbols) :
      Granted g (.addByName left right) (.production g.productions.size)
        { g with productions := g.productions.push { head, right := symbols } }

theorem Granted.of_add {left : Symbol} {right : List Symbol} {id : Nat}
    (added : g.add left right = .ok (id, h)) : Granted g (.add left right) (.production id) h := by
  cases left with
  | terminal number => cases added
  | nonterminal head =>
    cases added
    exact .added

theorem Granted.of_grant (granted : g.grant request = .ok (answer, h)) :
    Granted g request answer h := by
  cases request with
  | declare kind name =>
    obtain ⟨⟨s, vocabulary⟩, declared, same⟩ := map_eq_ok_iff.mp granted
    cases same
    unfold Vocabulary.declare at declared
    split at declared
    · rename_i here
      split at declared
      · rename_i kind
        cases declared
        exact .found here kind
      · cases declared
    · rename_i fresh
      cases declared
      exact .named fresh
  | add left right =>
    obtain ⟨⟨id, next⟩, added, same⟩ := map_eq_ok_iff.mp granted
    cases same
    exact .of_add added
  | addByName left right =>
    obtain ⟨⟨id, next⟩, added, same⟩ := map_eq_ok_iff.mp granted
    cases same
    simp only [addByName, bind_eq_ok_iff, Vocabulary.lookUp_eq_ok_iff, mapM_eq_ok_iff] at added
    obtain ⟨s, leftFound, symbols, rightFound, added⟩ := added
    cases Granted.of_add added with
    | added => exact .addedByName leftFound rightFound

/-- `h` has the names and the productions of `g` for the same symbols and numbers, and perhaps
more. -/
structure Retains (h g : Grammar) : Prop where
  names : h.vocabulary.Extends g.vocabulary
  productions : ∀ {id : Nat} {rule : Production},
    g.production? id = some rule → h.production? id = some rule

namespace Retains

theorem refl (g : Grammar) : g.Retains g := ⟨id, id⟩

theorem trans {f : Grammar} (later : h.Retains g) (first : g.Retains f) : h.Retains f :=
  ⟨fun found => later.names (first.names found),
    fun known => later.productions (first.productions known)⟩

theorem push (g : Grammar) (rule : Production) :
    Retains { g with productions := g.productions.push rule } g := by
  refine ⟨id, fun {id old} known => ?_⟩
  obtain ⟨inside, _⟩ := Array.getElem?_eq_some_iff.mp known
  rw [production?, Array.getElem?_push, if_neg (Nat.ne_of_lt inside)]
  exact known

theorem of_granted (granted : Granted g request answer h) : h.Retains g := by
  cases granted with
  | found here same => exact refl g
  | named fresh => exact ⟨(Vocabulary.Declared.added fresh).grown, id⟩
  | added => exact push g _
  | addedByName leftFound rightFound => exact push g _

end Retains

theorem respond_retains (g : Grammar) (request : Request) :
    (g.respond request).2.Retains g := by
  unfold respond
  cases granted : g.grant request with
  | ok result => exact .of_granted (.of_grant granted)
  | error e => exact .refl g

theorem after_retains (asked later : List Request) :
    (after (asked ++ later)).Retains (after asked) := by
  induction later using List.reverseRecOn with
  | nil =>
    rw [List.append_nil]
    exact .refl _
  | append_singleton later request ih =>
    rw [← List.append_assoc, after, Session.state_concat]
    exact (respond_retains _ request).trans ih

def Request.Asks (v : Vocabulary) (rule : Production) : Request → Prop
  | .declare _ _ => False
  | .add left right => rule.left = left ∧ rule.right = right
  | .addByName left right => v.find? left = some rule.left ∧
      List.Forall₂ (fun name s => v.find? name = some s) right rule.right

theorem Request.Asks.grown {v w : Vocabulary} {rule : Production} (grown : w.Extends v)
    (asks : request.Asks v rule) : request.Asks w rule := by
  cases request with
  | declare kind name => exact asks
  | add left right => exact asks
  | addByName left right => exact ⟨grown asks.1, asks.2.imp fun _ _ found => grown found⟩

def namesGranted (kind : SymbolKind) (log : Log) : List String :=
  log.filterMap fun
    | (.declare asked name, .ok _) => if asked = kind then some name else none
    | _ => none

theorem namesGranted_concat (kind : SymbolKind) (log : Log) (request : Request)
    (answer : Except GrammarError Answer) :
    namesGranted kind (log ++ [(request, answer)]) =
      namesGranted kind log ++ namesGranted kind [(request, answer)] :=
  List.filterMap_append

structure Recorded (g : Grammar) (log : Log) : Prop where
  names : ∀ kind, g.vocabulary.namesOf kind =
    (Vocabulary.initial.namesOf kind ++ namesGranted kind log).eraseDups
  symbols : ∀ {kind : SymbolKind} {name : String} {s : Symbol},
    (.declare kind name, .ok (.symbol s)) ∈ log →
      g.vocabulary.find? name = some s ∧ s.kind = kind
  productions : ∀ {request : Request} {id : Nat}, (request, .ok (.production id)) ∈ log →
    ∃ rule, g.production? id = some rule ∧ request.Asks g.vocabulary rule

theorem namesOf_extend {v : Vocabulary} {name : String} {kind : SymbolKind}
    (fresh : v.find? name = none) (other : SymbolKind) :
    (v.extend name fresh kind).namesOf other =
      v.namesOf other ++ if kind = other then [name] else [] := by
  cases kind <;> cases other <;> simp [Vocabulary.extend, Vocabulary.namesOf]

theorem eraseDups_concat (names : List String) (name : String) :
    (names ++ [name]).eraseDups =
      names.eraseDups ++ if name ∈ names then [] else [name] := by
  rw [List.eraseDups_append, List.cons_removeAll]
  by_cases listed : name ∈ names <;> simp [listed, List.eraseDups_cons]

namespace Recorded

variable {log : Log}

theorem start : Recorded {} [] where
  names := by
    intro kind
    cases kind <;> decide
  symbols := nofun
  productions := nofun

theorem refused (recorded : g.Recorded log) (request : Request) :
    g.Recorded (log ++ [(request, .error e)]) where
  names := by
    intro kind
    have none : namesGranted kind [(request, Except.error e)] = [] := by cases request <;> rfl
    rw [namesGranted_concat, none, List.append_nil]
    exact recorded.names kind
  symbols := by
    intro kind name s member
    exact recorded.symbols (by simpa using member)
  productions := by
    intro request id member
    exact recorded.productions (by simpa using member)

theorem names_declared (recorded : g.Recorded log) (asked kind : SymbolKind) (name : String) :
    (Vocabulary.initial.namesOf kind ++
        namesGranted kind (log ++ [(.declare asked name, .ok answer)])).eraseDups =
      g.vocabulary.namesOf kind ++
        if asked = kind ∧ name ∉ g.vocabulary.namesOf kind then [name] else [] := by
  have last : namesGranted kind [(.declare asked name, .ok answer)] =
      if asked = kind then [name] else [] := by
    unfold namesGranted
    by_cases same : asked = kind <;> simp [same]
  rw [namesGranted_concat, last, recorded.names kind, ← List.append_assoc]
  by_cases same : asked = kind
  · rw [if_pos same, eraseDups_concat]
    by_cases listed : name ∈ Vocabulary.initial.namesOf kind ++ namesGranted kind log
    · rw [if_pos listed, if_neg fun both => both.2 (List.mem_eraseDups.mpr listed)]
    · rw [if_neg listed, if_pos ⟨same, mt List.mem_eraseDups.mp listed⟩]
  · rw [if_neg same, if_neg fun both => same both.1, List.append_nil, List.append_nil]

theorem names_granted (recorded : g.Recorded log) (granted : Granted g request answer h)
    (kind : SymbolKind) : h.vocabulary.namesOf kind =
      (Vocabulary.initial.namesOf kind ++
        namesGranted kind (log ++ [(request, .ok answer)])).eraseDups := by
  cases granted with
  | @found asked name s here same =>
    rw [recorded.names_declared, if_neg, List.append_nil]
    rintro ⟨rfl, missing⟩
    exact missing (Vocabulary.has_iff_mem.mp ⟨s, here, same⟩)
  | @named asked name fresh =>
    have missing : name ∉ g.vocabulary.namesOf kind := by
      intro listed
      obtain ⟨s, found, _⟩ := Vocabulary.has_iff_mem.mpr listed
      rw [fresh] at found
      cases found
    rw [recorded.names_declared, namesOf_extend]
    simp only [missing, not_false_eq_true, and_true]
  | added => exact (recorded.names kind).trans (by simp [namesGranted])
  | addedByName leftFound rightFound =>
    exact (recorded.names kind).trans (by simp [namesGranted])

theorem symbols_granted (recorded : g.Recorded log) (granted : Granted g request answer h)
    {kind : SymbolKind} {name : String} {s : Symbol}
    (member : (.declare kind name, .ok (.symbol s)) ∈ log ++ [(request, .ok answer)]) :
    h.vocabulary.find? name = some s ∧ s.kind = kind := by
  rcases List.mem_append.mp member with old | new
  · obtain ⟨found, same⟩ := recorded.symbols old
    exact ⟨(Retains.of_granted granted).names found, same⟩
  · cases List.mem_singleton.mp new
    cases granted with
    | found here same => exact ⟨here, same⟩
    | named fresh =>
      exact ⟨by rw [Vocabulary.find?_extend, if_pos rfl], Vocabulary.kind_next _ _⟩

theorem productions_granted (recorded : g.Recorded log) (granted : Granted g request answer h)
    {earlier : Request} {id : Nat}
    (member : (earlier, .ok (.production id)) ∈ log ++ [(request, .ok answer)]) :
    ∃ rule, h.production? id = some rule ∧ earlier.Asks h.vocabulary rule := by
  have retains := Retains.of_granted granted
  rcases List.mem_append.mp member with old | new
  · obtain ⟨rule, known, asks⟩ := recorded.productions old
    exact ⟨rule, retains.productions known, asks.grown retains.names⟩
  · cases List.mem_singleton.mp new
    cases granted with
    | added => exact ⟨_, Array.getElem?_push_size, rfl, rfl⟩
    | addedByName leftFound rightFound =>
      exact ⟨_, Array.getElem?_push_size, leftFound, rightFound⟩

theorem step (recorded : g.Recorded log) (request : Request) :
    (g.respond request).2.Recorded (log ++ [(request, (g.respond request).1)]) := by
  unfold respond
  cases result : g.grant request with
  | ok result =>
    have granted := Granted.of_grant result
    exact ⟨recorded.names_granted granted, recorded.symbols_granted granted,
      recorded.productions_granted granted⟩
  | error e => exact recorded.refused request

theorem of_log (asked : List Request) : (after asked).Recorded (Grammar.log asked) := by
  induction asked using List.reverseRecOn with
  | nil => exact start
  | append_singleton asked request ih =>
    rw [after, Grammar.log, Session.state_concat, Session.log_concat]
    exact ih.step request

end Recorded

variable {kind other : SymbolKind} {name name' : String} {s t : Symbol}

theorem log_retained {reply : Except GrammarError Answer}
    (logged : (request, reply) ∈ log asked) (later : List Request) :
    (request, reply) ∈ log (asked ++ later) := by
  rw [log, Session.log_append]
  exact List.mem_append_left _ logged

theorem find?_of_granted (granted : (.declare kind name, .ok (.symbol s)) ∈ log asked)
    (later : List Request) : (after (asked ++ later)).vocabulary.find? name = some s :=
  ((Recorded.of_log _).symbols (log_retained granted later)).1

theorem symbol_inj (granted : (.declare kind name, .ok (.symbol s)) ∈ log asked)
    (again : (.declare other name', .ok (.symbol t)) ∈ log asked) : s = t ↔ name = name' := by
  have first := ((Recorded.of_log asked).symbols granted).1
  have second := ((Recorded.of_log asked).symbols again).1
  constructor
  · rintro rfl
    exact Vocabulary.find?_inj first second
  · rintro rfl
    exact Option.some.inj (first.symm.trans second)

end Grammar
end Recognizers
