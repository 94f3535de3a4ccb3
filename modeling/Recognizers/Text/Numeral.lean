/-!
Decimal numerals of 64 bit: ASCII digits, at least one, which may follow a plus sign. Leading
zeros count for nothing, and a number that needs more than 64 bits is not read.
-/
namespace Recognizers
namespace Text

def digits? (word : List Char) : Option Nat :=
  if word ≠ [] ∧ word.all Char.isDigit then
    let n := Nat.ofDigitChars 10 word 0
    if n < UInt64.size then some n else none
  else none

def number? (word : String) : Option Nat :=
  match word.toList with
  | '+' :: rest => digits? rest
  | digits => digits? digits

end Text
end Recognizers
