import Mathlib.Data.List.Induction
import Mathlib.Data.List.Shortlex
import Recognizers.Proofs.Serial.Codes

/-!
Serial codes are all the words of small letters but the empty one, in order of length and then of
the alphabet. `word` lists the words by their values, the empty one first. A word gains its last
letter as a numeral gains a digit (`word_digit`), and all else follows this recursion.
-/
namespace Recognizers
namespace Serial

variable {front back : List Char} {c d : Char} {p q : Nat}

def word (q : Nat) : List Char := if q = 0 then [] else (lettersRev (q - 1)).reverse

theorem word_zero : word 0 = [] := if_pos rfl

theorem word_digit (q : Nat) {d : Nat} (small : d < 26) :
    word (26 * q + d + 1) = word q ++ [letter d] := by
  have digit : (26 * q + d) % 26 = d := by omega
  have rest : (26 * q + d) / 26 = q := by omega
  rw [word, if_neg (Nat.succ_ne_zero _), Nat.add_sub_cancel, lettersRev_eq, digit, rest,
    List.reverse_cons, word]
  split <;> rfl

theorem exists_digit (some_left : q ≠ 0) : ∃ rest d, d < 26 ∧ q = 26 * rest + d + 1 :=
  ⟨(q - 1) / 26, (q - 1) % 26, Nat.mod_lt _ (by decide), by omega⟩

theorem toList_code (n : Nat) : (code n).toList = word (n + 1) := by
  rw [code, String.toList_ofList, word, if_neg (Nat.succ_ne_zero n), Nat.add_sub_cancel]

theorem letter_digit (small : c.isLower = true) : letter (c.toNat - 97) = c := by
  obtain ⟨low, high⟩ := isLower_iff.mp small
  apply Char.toNat_inj.mp
  rw [toNat_letter (by omega)]
  omega

theorem word_value {letters : List Char} (small : ∀ c ∈ letters, c.isLower = true) :
    word (value letters) = letters := by
  induction letters using List.reverseRecOn with
  | nil => exact word_zero
  | append_singleton front c ih =>
    have last := small c (by simp)
    obtain ⟨low, high⟩ := isLower_iff.mp last
    have start : 'a'.toNat = 97 := rfl
    have digit : value (front ++ [c]) = 26 * value front + (c.toNat - 97) + 1 := by
      rw [value_concat, start]
      omega
    have earlier := ih fun x member => small x (List.mem_append_left _ member)
    rw [digit, word_digit _ (by omega), earlier, letter_digit last]

theorem code_ne_empty (n : Nat) : code n ≠ "" := by
  intro empty
  have letters := toList_code n
  rw [empty, word, if_neg (Nat.succ_ne_zero n), Nat.add_sub_cancel, lettersRev_eq] at letters
  simp at letters

theorem code_number {text : String} (some_letter : text ≠ "") (small : IsWord text) :
    code (number text) = text := by
  have letters := word_value small
  have positive : value text.toList ≠ 0 := by
    intro zero
    rw [zero, word_zero] at letters
    exact some_letter (String.toList_inj.mp letters.symm)
  apply String.toList_inj.mp
  rw [toList_code, number, Nat.sub_add_cancel (Nat.pos_of_ne_zero positive), letters]

theorem shortlex_concat (before : List.Shortlex (· < ·) front back) :
    List.Shortlex (· < ·) (front ++ [c]) (back ++ [d]) := by
  rw [List.shortlex_def, List.length_append, List.length_append]
  rcases List.shortlex_def.mp before with shorter | ⟨even, smaller⟩
  · exact .inl (Nat.add_lt_add_right shorter 1)
  · refine .inr ⟨congrArg (· + 1) even, ?_⟩
    clear before
    induction smaller with
    | nil => cases even
    | rel first => exact .rel first
    | cons later ih => exact .cons (ih (Nat.succ.inj even))

theorem shortlex_last (front : List Char) (smaller : c < d) :
    List.Shortlex (· < ·) (front ++ [c]) (front ++ [d]) := by
  induction front with
  | nil => exact .of_lex rfl (.rel smaller)
  | cons x front ih => exact ih.cons

theorem letter_lt {d e : Nat} (less : d < e) (small : e < 26) : letter d < letter e := by
  rw [Char.lt_def, UInt32.lt_iff_toNat_lt, Char.toNat_val, Char.toNat_val,
    toNat_letter (Nat.lt_trans less small), toNat_letter small]
  exact Nat.add_lt_add_left less 97

theorem word_shortlex (less : p < q) : List.Shortlex (· < ·) (word p) (word q) := by
  induction q using Nat.strongRecOn generalizing p with
  | ind q ih =>
    obtain ⟨back, e, small, rfl⟩ := exists_digit (Nat.ne_zero_of_lt less)
    rw [word_digit back small]
    by_cases none_left : p = 0
    · rw [none_left, word_zero]
      exact .of_length_lt (by simp)
    · obtain ⟨front, d, small', rfl⟩ := exists_digit none_left
      rw [word_digit front small']
      rcases Nat.lt_or_ge front back with before | after
      · exact shortlex_concat (ih back (by omega) before)
      · have even : front = back := by omega
        rw [even]
        exact shortlex_last _ (letter_lt (by omega) small)

/-- The loop that collects the letters of what is left comes to an end after so many rounds. -/
inductive Ends : UInt64 → Nat → Prop where
  | done : Ends 0 0
  | round {left : UInt64} {rounds : Nat} (some_left : left ≠ 0)
      (rest : Ends ((left - 1) / 26) rounds) : Ends left (rounds + 1)

theorem collect_ends (left : UInt64) (letters : Array UInt8) :
    ∃ rounds, Ends left rounds ∧ (collect left letters).size = letters.size + rounds := by
  fun_induction collect left letters with
  | case1 letters => exact ⟨0, .done, rfl⟩
  | case2 left letters some_left ih =>
    obtain ⟨rounds, ends, size⟩ := ih
    refine ⟨rounds + 1, .round some_left ends, ?_⟩
    rw [size, Array.size_push]
    omega

theorem codeAt_ends (count : UInt64) : Ends (count + 1) (codeAt count).length := by
  obtain ⟨rounds, ends, size⟩ := collect_ends (count + 1) #[]
  have letters : (codeAt count).length = rounds := by
    rw [codeAt, String.length_ofList, List.length_map, Array.length_toList, Array.size_reverse,
      size]
    exact Nat.zero_add rounds
  rw [letters]
  exact ends

/-- The codes that a counter of 64 bits hands out before it runs over are the words of small
letters, without the empty one, in shortlex order. The number of a code is read back as a bijective
numeral of base 26 less one. -/
theorem codes_in_shortlex_order :
    (∀ count : UInt64, count.toNat + 1 < 2 ^ 64 →
      Ends (count + 1) (codeAt count).length ∧ codeAt count ≠ "" ∧ IsWord (codeAt count) ∧
        number (codeAt count) = count.toNat) ∧
    (∀ m n : UInt64, n.toNat + 1 < 2 ^ 64 → m < n →
      (codeAt m).length < (codeAt n).length ∨
        ((codeAt m).length = (codeAt n).length ∧ codeAt m < codeAt n)) ∧
    ∀ text, text ≠ "" → IsWord text → number text + 1 < 2 ^ 64 →
      ∃! count : UInt64, count.toNat + 1 < 2 ^ 64 ∧ codeAt count = text := by
  refine ⟨fun count inside => ?_, fun m n inside less => ?_,
    fun text some_letter small inside => ?_⟩
  · refine ⟨codeAt_ends count, ?_⟩
    rw [codeAt_eq inside]
    exact ⟨code_ne_empty _, isWord_code _, number_code _⟩
  · have less := UInt64.lt_iff_toNat_lt.mp less
    rw [codeAt_eq inside, codeAt_eq (by omega)]
    have order := word_shortlex (Nat.add_lt_add_right less 1)
    rw [← toList_code, ← toList_code] at order
    exact List.shortlex_def.mp order
  · have known := code_number some_letter small
    have size : UInt64.size = 2 ^ 64 := rfl
    have there : (UInt64.ofNat (number text)).toNat = number text :=
      UInt64.toNat_ofNat_of_lt' (by omega)
    refine ⟨UInt64.ofNat (number text), ⟨by omega, ?_⟩, ?_⟩
    · rw [codeAt_eq (by omega), there, known]
    · rintro count ⟨inside', same⟩
      rw [codeAt_eq inside'] at same
      rw [← UInt64.toNat_inj, there, ← same, number_code]

theorem codes_around_two_letters :
    (codeAt 701).length < (codeAt 702).length ∧
      number (codeAt 18446744073709551614) = 18446744073709551614 ∧
      ∃! count : UInt64, count.toNat + 1 < 2 ^ 64 ∧ codeAt count = "zz" := by
  obtain ⟨read, ordered, unique⟩ := codes_in_shortlex_order
  refine ⟨?_, ?_, ?_⟩
  · rcases ordered 701 702 (by decide) (by decide) with shorter | ⟨even, _⟩
    · exact shorter
    · exact absurd even (by decide +kernel)
  · exact (read 18446744073709551614 (by decide)).2.2.2
  · have small : ∀ c ∈ "zz".toList, c.isLower = true :=
      List.all_eq_true.mp (by decide)
    exact unique "zz" (by decide) small (by decide)

end Serial
end Recognizers
