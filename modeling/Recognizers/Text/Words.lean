/-!
Lines and words. Lines end at a line feed and at nothing else; words are set apart by blanks,
the characters that Unicode lists as White_Space.
-/
namespace Recognizers
namespace Text

/-- The ranges of White_Space, first and last code point. -/
def blankRanges : List (Nat × Nat) :=
  [(0x9, 0xD), (0x20, 0x20), (0x85, 0x85), (0xA0, 0xA0), (0x1680, 0x1680), (0x2000, 0x200A),
    (0x2028, 0x2029), (0x202F, 0x202F), (0x205F, 0x205F), (0x3000, 0x3000)]

def isBlank (c : Char) : Bool :=
  blankRanges.any fun (first, last) => first ≤ c.toNat && c.toNat ≤ last

/-- The lines of a text that goes on after `lineRev`, the reverse of what stands before it. -/
def linesFrom (lineRev : List Char) : List Char → List (List Char)
  | [] => [lineRev.reverse]
  | c :: cs => if c = '\n' then lineRev.reverse :: linesFrom [] cs else linesFrom (c :: lineRev) cs

def lines (text : String) : List (List Char) := linesFrom [] text.toList

def finished (wordRev : List Char) : List String :=
  if wordRev = [] then [] else [String.ofList wordRev.reverse]

def wordsFrom (wordRev : List Char) : List Char → List String
  | [] => finished wordRev
  | c :: cs =>
    if isBlank c then finished wordRev ++ wordsFrom [] cs else wordsFrom (c :: wordRev) cs

def words (line : List Char) : List String := wordsFrom [] line

end Text
end Recognizers
