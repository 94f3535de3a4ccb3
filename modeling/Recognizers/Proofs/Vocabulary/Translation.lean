import Mathlib.Data.List.Nodup
import Recognizers.Proofs.Vocabulary.Names

/-!
Vocabularies with the same names, declared in whatever order. Going from the symbols of one to
those of the other by way of the names keeps the kinds, and no two symbols become one; symbols
without names stay what they are, for both vocabularies have equally many names of each kind.
-/
namespace Recognizers
namespace Vocabulary

variable {v w : Vocabulary}

def Permutes (w v : Vocabulary) : Prop := ∀ kind, (w.namesOf kind).Perm (v.namesOf kind)

def translate (v w : Vocabulary) (s : Symbol) : Symbol :=
  match v.name? s with
  | some name => (w.find? name).getD s
  | none => s

theorem nodup_namesOf (v : Vocabulary) (kind : SymbolKind) : (v.namesOf kind).Nodup := by
  obtain ⟨terminals, nonterminals, _⟩ := List.nodup_append.mp v.distinct
  cases kind with
  | terminal => exact terminals
  | nonterminal => exact nonterminals

theorem permutes_of_has (same : ∀ kind name, w.Has kind name ↔ v.Has kind name) : w.Permutes v := by
  intro kind
  rw [List.perm_ext_iff_of_nodup (w.nodup_namesOf kind) (v.nodup_namesOf kind)]
  intro name
  rw [← has_iff_mem, ← has_iff_mem, same]

theorem translate_of_find? {name : String} {s t : Symbol} (here : v.find? name = some s)
    (there : w.find? name = some t) : v.translate w s = t := by
  simp only [translate, find?_eq_some_iff.mp here, there, Option.getD_some]

theorem translate_of_nameless {s : Symbol} (nameless : v.name? s = none) : v.translate w s = s := by
  simp only [translate, nameless]

namespace Permutes

theorem has_iff (permutes : w.Permutes v) {kind : SymbolKind} {name : String} :
    w.Has kind name ↔ v.Has kind name := by
  rw [has_iff_mem, has_iff_mem, (permutes kind).mem_iff]

theorem find?_of_find? (permutes : w.Permutes v) {name : String} {s : Symbol}
    (found : v.find? name = some s) : ∃ t, w.find? name = some t ∧ t.kind = s.kind :=
  permutes.has_iff.mpr ⟨s, found, rfl⟩

theorem kind_translate (permutes : w.Permutes v) (s : Symbol) :
    (v.translate w s).kind = s.kind := by
  cases named : v.name? s with
  | none => rw [translate_of_nameless named]
  | some name =>
    have found := find?_eq_some_iff.mpr named
    obtain ⟨t, again, kind⟩ := permutes.find?_of_find? found
    rw [translate_of_find? found again, kind]

theorem name?_translate (permutes : w.Permutes v) (s : Symbol) :
    w.name? (v.translate w s) = v.name? s := by
  cases named : v.name? s with
  | none =>
    rw [translate_of_nameless named]
    rw [name?_eq, List.getElem?_eq_none_iff] at named ⊢
    rw [(permutes s.kind).length_eq]
    exact named
  | some name =>
    have found := find?_eq_some_iff.mpr named
    obtain ⟨t, again, _⟩ := permutes.find?_of_find? found
    rw [translate_of_find? found again]
    exact find?_eq_some_iff.mp again

theorem find?_translate (permutes : w.Permutes v) (name : String) :
    w.find? name = (v.find? name).map (v.translate w) := by
  cases found : v.find? name with
  | some s =>
    rw [Option.map_some, find?_eq_some_iff, permutes.name?_translate, ← find?_eq_some_iff, found]
  | none =>
    rw [Option.map_none, Option.eq_none_iff_forall_ne_some]
    intro t again
    obtain ⟨s, found', _⟩ := permutes.has_iff.mp ⟨t, again, rfl⟩
    rw [found] at found'
    cases found'

theorem translate_injective (permutes : w.Permutes v) : Function.Injective (v.translate w) := by
  intro s t same
  have names : v.name? s = v.name? t := by
    rw [← permutes.name?_translate, same, permutes.name?_translate]
  cases named : v.name? s with
  | none =>
    rwa [translate_of_nameless named, translate_of_nameless (names.symm.trans named)] at same
  | some name =>
    have first := find?_eq_some_iff.mpr named
    have second := find?_eq_some_iff.mpr (names.symm.trans named)
    exact Option.some.inj (first.symm.trans second)

theorem name_translate (permutes : w.Permutes v) (s : Symbol) :
    w.name (v.translate w s) = v.name s := by
  rw [name_eq, name_eq, permutes.name?_translate]

theorem lookUp_translate (permutes : w.Permutes v) (name : String) :
    w.lookUp name = (v.lookUp name).map (v.translate w) := by
  rw [lookUp, lookUp, permutes.find?_translate]
  cases v.find? name <;> rfl

theorem lookUpAll_translate (permutes : w.Permutes v) (names : List String) :
    names.mapM w.lookUp = (names.mapM v.lookUp).map (List.map (v.translate w)) := by
  induction names with
  | nil => rfl
  | cons name names ih =>
    rw [List.mapM_cons, List.mapM_cons, ih, permutes.lookUp_translate]
    cases v.lookUp name with
    | error e => rfl
    | ok s => cases names.mapM v.lookUp <;> rfl

end Permutes

end Vocabulary
end Recognizers
