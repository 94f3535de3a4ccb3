import Recognizers.Symbol

/-!
The names of symbols. A vocabulary lists the names of the terminals and those of the
non-terminals in the order in which they were declared, so a symbol is a place in one of the two
lists. No name occurs twice. `eof` and `null` are terminals of every vocabulary.
-/
namespace Recognizers

inductive GrammarError where
  | kindClash (name : String)
  | unknownSymbol (name : String)
  | terminalLeft (name : String)
deriving DecidableEq

def GrammarError.message : GrammarError → String
  | kindClash name => "\"" ++ name ++ "\" is already interned as the other kind of symbol"
  | unknownSymbol name => "unknown symbol \"" ++ name ++ "\""
  | terminalLeft name =>
    "the left side of a production must be a non-terminal, got \"" ++ name ++ "\""

structure Vocabulary where
  terminals : List String
  nonterminals : List String
  distinct : (terminals ++ nonterminals).Nodup

namespace Vocabulary

def initial : Vocabulary where
  terminals := ["eof", "null"]
  nonterminals := []
  distinct := by decide

def find? (v : Vocabulary) (name : String) : Option Symbol :=
  match v.terminals.idxOf? name with
  | some k => some (.terminal k)
  | none => (v.nonterminals.idxOf? name).map .nonterminal

/-- A symbol without a name of its own goes by `?`. -/
def name (v : Vocabulary) : Symbol → String
  | .terminal k => v.terminals[k]?.getD "?"
  | .nonterminal k => v.nonterminals[k]?.getD "?"

def lookUp (v : Vocabulary) (name : String) : Except GrammarError Symbol :=
  match v.find? name with
  | some s => .ok s
  | none => .error (.unknownSymbol name)

theorem find?_eq_none {v : Vocabulary} {name : String} (h : v.find? name = none) :
    name ∉ v.terminals ++ v.nonterminals := by
  unfold find? at h
  split at h
  · contradiction
  · rename_i ht
    simp only [Option.map_eq_none_iff, List.idxOf?_eq_none_iff] at h ht
    simp [h, ht]

theorem nodup_of_fresh {v : Vocabulary} {name : String} {names : List String}
    (fresh : v.find? name = none)
    (perm : names.Perm (name :: (v.terminals ++ v.nonterminals))) : names.Nodup :=
  perm.nodup_iff.mpr (List.nodup_cons.mpr ⟨find?_eq_none fresh, v.distinct⟩)

def extend (v : Vocabulary) (name : String) (fresh : v.find? name = none) :
    SymbolKind → Vocabulary
  | .terminal =>
    { terminals := v.terminals ++ [name]
      nonterminals := v.nonterminals
      distinct := nodup_of_fresh fresh (by simp) }
  | .nonterminal =>
    { terminals := v.terminals
      nonterminals := v.nonterminals ++ [name]
      distinct := nodup_of_fresh fresh (by
        rw [← List.append_assoc]; exact List.perm_append_singleton _ _) }

def next (v : Vocabulary) : SymbolKind → Symbol
  | .terminal => .terminal v.terminals.length
  | .nonterminal => .nonterminal v.nonterminals.length

/-- The symbol of a name, which is added if it is new. A name keeps the kind under which it was
first declared. -/
def declare (v : Vocabulary) (kind : SymbolKind) (name : String) :
    Except GrammarError (Symbol × Vocabulary) :=
  match fresh : v.find? name with
  | some s => if s.kind = kind then .ok (s, v) else .error (.kindClash name)
  | none => .ok (v.next kind, v.extend name fresh kind)

end Vocabulary
end Recognizers
