import Recognizers.Text.Unprinted

/-!
Texts between quotation marks. A backslash sets off the quotation mark, the backslash and the
control characters that have a letter; characters without a printed form are given by their
code point in hexadecimal.
-/
namespace Recognizers
namespace Text

def codePoint (c : Char) : String := r"\u{" ++ String.ofList (Nat.toDigits 16 c.toNat) ++ r"}"

def escape (c : Char) : String :=
  match c with
  | '\x00' => "\\0"
  | '\t' => "\\t"
  | '\n' => "\\n"
  | '\r' => "\\r"
  | '"' => "\\\""
  | '\\' => "\\\\"
  | c => if isUnprinted c then codePoint c else String.singleton c

def quote (text : String) : String := "\"" ++ String.join (text.toList.map escape) ++ "\""

end Text
end Recognizers
