import Farmhand.Command.Perform

/-!
# The Program

The outer layer: it reads the files and the environment that a command line asks for, and writes
what the command leaves behind.
-/

namespace Farmhand

namespace Command

/-- Why the operating system does not give a file. Its number for the reason may come with a minus
    sign. -/
def FileError.ofError : IO.Error → FileError
  | .noFileOrDirectory .. => .notFound
  | .inappropriateType _ number _ =>
    if number = 20 || -number = 20 then .notDirectory else .isDirectory
  | .invalidArgument _ number details =>
    if number = 36 || -number = 36 then .nameTooLong else .other details
  | error => .other (toString error)

/-- The text at a path. -/
def readFile (path : String) : IO (Except FileError String) := do
  try
    let bytes ← IO.FS.readBinFile path
    return match String.fromUTF8? bytes with
      | some text => .ok text
      | none => .error .notText
  catch error => return .error (.ofError error)

/-- The texts at some paths. -/
def readFiles (paths : List String) : IO Files := do
  let texts ← paths.mapM fun path => return (path, ← readFile path)
  return fun path => (texts.lookup path).getD (.error .notFound)

end Command

end Farmhand

open Farmhand.Command in
/-- Does what the command line asks for. -/
def main (arguments : List String) : IO UInt32 := do
  let files ← readFiles (paths arguments)
  let env : Environment :=
    { logLevel := ← IO.getEnv "TILESCRIPT_LOG", pacing := ← IO.getEnv "TILESCRIPT_PACING_MS" }
  let output := respond files env arguments
  IO.print output.out
  IO.eprint output.err
  return UInt32.ofNat output.code
