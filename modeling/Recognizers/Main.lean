import Recognizers.Command.Basic

/-!
The program: reads the one file that its arguments name, runs the command and prints.
-/
open Recognizers

def readError : IO.Error → ReadError
  | .noFileOrDirectory .. => .notFound
  | .inappropriateType none .. => .isDirectory
  | .permissionDenied .. => .other "Permission denied (os error 13)"
  | e => .other (toString e)

def readFile (file : String) : IO (Except ReadError String) := do
  match ← (IO.FS.readBinFile file).toBaseIO with
  | .error e => pure (.error (readError e))
  | .ok bytes =>
    match String.fromUTF8? bytes with
    | some text => pure (.ok text)
    | none => pure (.error .notUtf8)

/-- More steps than any parse that ends in practice. -/
def stepLimit : Nat := 1000000000000000

def main (args : List String) : IO UInt32 := do
  let source ← match Command.read args with
    | some (.table file) | some (.parse file _) => readFile file
    | _ => pure (.error .notFound)
  match Command.runArgs (fun _ => source) stepLimit args with
  | some (.ok text) =>
    IO.print text
    pure 0
  | some (.error failure) =>
    IO.eprint failure.report
    pure 1
  | none => pure 1
