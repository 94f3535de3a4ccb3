import Recognizers.Serial

/-!
Serial codes worked out on machine words: the code of the number that a counter of 64 bits stands
at. The letters are collected as bytes, the last one first.
-/
namespace Recognizers
namespace Serial

theorem toNat_pred {left : UInt64} (some_left : left ≠ 0) :
    (left - 1).toNat = left.toNat - 1 := by
  have positive : 1 ≤ left := by
    rw [UInt64.le_iff_toNat_le]
    exact Nat.pos_of_ne_zero fun zero => some_left (UInt64.toNat_inj.mp zero)
  exact UInt64.toNat_sub_of_le left 1 positive

def collect (left : UInt64) (letters : Array UInt8) : Array UInt8 :=
  if left = 0 then letters
  else collect ((left - 1) / 26) (letters.push (97 + ((left - 1) % 26).toUInt8))
termination_by left.toNat
decreasing_by
  rename_i some_left
  have positive : left.toNat ≠ 0 := fun zero => some_left (UInt64.toNat_inj.mp zero)
  rw [UInt64.toNat_div, toNat_pred some_left]
  exact Nat.lt_of_le_of_lt (Nat.div_le_self _ _) (Nat.pred_lt positive)

/-- The code that is handed out when the counter stands at `count`. -/
def codeAt (count : UInt64) : String :=
  String.ofList ((collect (count + 1) #[]).reverse.toList.map Char.ofUInt8)

end Serial
end Recognizers
