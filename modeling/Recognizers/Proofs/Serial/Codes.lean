import Mathlib.Algebra.GroupWithZero.Nat
import Recognizers.Serial.Counter

/-!
Serial codes are words of small letters (`isWord_code`), and no two numbers have the same one, since
the number can be read back (`number_code`). A counter of 64 bits hands them out in this order as
long as it does not run over (`codeAt_eq`).
-/
namespace Recognizers
namespace Serial

variable {n : Nat} {c : Char}

theorem isLower_iff : c.isLower = true ↔ 97 ≤ c.toNat ∧ c.toNat ≤ 122 := by
  have meaning : c.isLower = (decide (c.val ≥ 97) && decide (c.val ≤ 122)) := rfl
  simp [meaning, UInt32.le_iff_toNat_le, ← Char.toNat_val]

theorem toNat_letter {d : Nat} (small : d < 26) : (letter d).toNat = 97 + d := by
  have first : 'a'.toNat = 97 := rfl
  have valid : ('a'.toNat + d).isValidChar := .inl (by omega)
  rw [letter, Char.ofNat, dif_pos valid]
  rfl

theorem isLower_letter {d : Nat} (small : d < 26) : (letter d).isLower = true := by
  rw [isLower_iff, toNat_letter small]
  omega

theorem lettersRev_eq (n : Nat) : lettersRev n =
    letter (n % 26) :: if n / 26 = 0 then [] else lettersRev (n / 26 - 1) := by
  rw [lettersRev]
  by_cases small : n < 26
  · rw [if_pos small, if_pos (Nat.div_eq_of_lt small), Nat.mod_eq_of_lt small]
  · rw [if_neg small, if_neg (by omega)]

theorem isLower_of_mem_lettersRev (member : c ∈ lettersRev n) : c.isLower = true := by
  fun_induction lettersRev n with
  | case1 n small =>
    cases List.mem_singleton.mp member
    exact isLower_letter small
  | case2 n large ih =>
    rcases List.mem_cons.mp member with rfl | later
    · exact isLower_letter (Nat.mod_lt n (by decide))
    · exact ih later

def IsWord (text : String) : Prop := ∀ c ∈ text.toList, c.isLower = true

theorem isWord_code (n : Nat) : IsWord (code n) := by
  intro c member
  rw [code, String.toList_ofList, List.mem_reverse] at member
  exact isLower_of_mem_lettersRev member

theorem value_concat (word : List Char) (c : Char) :
    value (word ++ [c]) = 26 * value word + (c.toNat - 'a'.toNat + 1) := by
  rw [value, List.foldl_append]
  rfl

theorem digit_letter {d : Nat} (small : d < 26) : (letter d).toNat - 'a'.toNat + 1 = d + 1 := by
  have start : 'a'.toNat = 97 := rfl
  rw [toNat_letter small, start]
  omega

theorem digit_lettersRev (n : Nat) : value (lettersRev n).reverse = n + 1 := by
  fun_induction lettersRev n with
  | case1 n small =>
    have only : value [letter n] = 26 * value [] + ((letter n).toNat - 'a'.toNat + 1) :=
      value_concat [] (letter n)
    rw [List.reverse_singleton, only, digit_letter small]
    exact Nat.zero_add _
  | case2 n large ih =>
    rw [List.reverse_cons, value_concat, ih, digit_letter (Nat.mod_lt n (by decide))]
    omega

theorem number_code (n : Nat) : number (code n) = n := by
  rw [number, code, String.toList_ofList, digit_lettersRev]
  rfl

theorem code_injective : Function.Injective code := Function.LeftInverse.injective number_code

theorem ofUInt8_byte {left : UInt64} :
    Char.ofUInt8 (97 + (left % 26).toUInt8) = letter (left.toNat % 26) := by
  have small : left.toNat % 26 < 26 := Nat.mod_lt _ (by decide)
  apply Char.toNat_inj.mp
  rw [toNat_letter small]
  have byte : (97 + (left % 26).toUInt8).toNat = 97 + left.toNat % 26 := by
    simp [UInt8.toNat_add, UInt64.toNat_mod]
    omega
  rw [← byte]
  rfl

theorem collect_eq (left : UInt64) (letters : Array UInt8) :
    (collect left letters).toList.map Char.ofUInt8 = letters.toList.map Char.ofUInt8 ++
      if left = 0 then [] else lettersRev (left.toNat - 1) := by
  fun_induction collect left letters with
  | case1 letters => simp
  | case2 left letters some_left ih =>
    have rest : ((left - 1) / 26).toNat = (left.toNat - 1) / 26 := by
      rw [UInt64.toNat_div, toNat_pred some_left]
      rfl
    have none_iff : (left - 1) / 26 = 0 ↔ (left.toNat - 1) / 26 = 0 := by
      rw [← UInt64.toNat_inj, rest]
      rfl
    rw [ih, if_neg some_left, lettersRev_eq (left.toNat - 1), rest, Array.toList_push,
      List.map_append, List.append_assoc, List.map_singleton, ofUInt8_byte, toNat_pred some_left]
    simp only [none_iff, List.singleton_append]

theorem codeAt_eq {count : UInt64} (inside : count.toNat + 1 < 2 ^ 64) :
    codeAt count = code count.toNat := by
  have next : (count + 1).toNat = count.toNat + 1 := by
    rw [UInt64.toNat_add]
    exact Nat.mod_eq_of_lt inside
  have some_left : count + 1 ≠ 0 := by
    intro zero
    rw [zero] at next
    cases next
  have letters : (collect (count + 1) #[]).toList.map Char.ofUInt8 = lettersRev count.toNat := by
    rw [collect_eq, if_neg some_left, next]
    rfl
  rw [codeAt, code, Array.toList_reverse, List.map_reverse, letters]

example : code 701 = "zz" ∧ codeAt 701 = "zz" ∧ code 702 = "aaa" := by decide +kernel

end Serial
end Recognizers
