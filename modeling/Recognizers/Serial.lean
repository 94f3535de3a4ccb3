/-!
Serial codes: the words over `a`..`z` in order of length and then of the alphabet, numbered
from 0 (`a`, `b`, ..., `z`, `aa`, `ab`, ...). `number` reads a code back as a bijective
numeral of base 26. A `Supply` deals out names one after the other.
-/
namespace Recognizers
namespace Serial

def letter (d : Nat) : Char := Char.ofNat ('a'.toNat + d)

/-- The letters of the `n`-th code, the last one first. -/
def lettersRev (n : Nat) : List Char :=
  if n < 26 then [letter n] else letter (n % 26) :: lettersRev (n / 26 - 1)

def code (n : Nat) : String := String.ofList (lettersRev n).reverse

/-- The value of a word whose letters `a`, ..., `z` count 1, ..., 26. -/
def value (word : List Char) : Nat :=
  word.foldl (fun v c => 26 * v + (c.toNat - 'a'.toNat + 1)) 0

def number (word : String) : Nat := value word.toList - 1

end Serial

structure Supply where
  nameAt : Nat → String
  issued : Nat := 0

namespace Supply

def serial : Supply := { nameAt := Serial.code }

def next (s : Supply) : String := s.nameAt s.issued

def advance (s : Supply) (count : Nat) : Supply := { s with issued := s.issued + count }

end Supply
end Recognizers
