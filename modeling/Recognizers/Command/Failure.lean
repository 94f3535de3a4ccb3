import Recognizers.Description.Basic

/-!
How a command fails, and the report of it: a message, then what it was caused by, numbered if
there is more than one cause.
-/
namespace Recognizers

inductive ReadError where
  | notFound
  | isDirectory
  | notUtf8
  | other (text : String)
deriving DecidableEq

def ReadError.message : ReadError → String
  | notFound => "No such file or directory (os error 2)"
  | isDirectory => "Is a directory (os error 21)"
  | notUtf8 => "stream did not contain valid UTF-8"
  | other text => text

inductive Failure where
  | noSubcommand
  | unreadable (file : String) (why : ReadError)
  | badDescription (file : String) (why : DescriptionError)
  | badToken (why : GrammarError)
  | noTree (v : Vocabulary) (why : ParseError)

namespace Failure

def message : Failure → String
  | noSubcommand => "Expected a subcommand, see --help"
  | unreadable file _ => "Couldn't read " ++ file
  | badDescription file _ => "In " ++ file
  | badToken why => why.message
  | noTree v why => why.message v

def causes : Failure → List String
  | unreadable _ why => [why.message]
  | badDescription _ why =>
    match why.cause with
    | .malformed _ => [why.message]
    | .grammar cause => [why.message, cause.message]
    | .conflict _ cause => [why.message, cause.message]
  | _ => []

def causeLines : List String → List String
  | [] => []
  | [cause] => ["", "Caused by:", "    " ++ cause]
  | causes =>
    "" :: "Caused by:" :: causes.mapIdx fun i cause => "    " ++ toString i ++ ": " ++ cause

def report (f : Failure) : String :=
  String.join ((("Error: " ++ f.message) :: causeLines f.causes).map (· ++ "\n"))

end Failure
end Recognizers
