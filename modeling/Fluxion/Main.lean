import Fluxion.CommandLine.Basic

/-!
# The program

Reads the script that the arguments name and prints the outcome of the run.
-/

set_option autoImplicit false

namespace Fluxion

open CommandLine

def readStream (stream : IO.FS.Stream) : IO ByteArray := do
  let mut bytes := ByteArray.empty
  repeat
    let more ← stream.read 65536
    if more.isEmpty then break
    bytes := bytes ++ more
  pure bytes

/-- Opening a path that leads through a file and reading a directory differ only in the code. -/
def readErrorOf : IO.Error → ReadError
  | .noFileOrDirectory .. => .notFound
  | .inappropriateType _ code _ => if code = 21 then .isDirectory else .notDirectory
  | .invalidArgument _ _ "name too long" => .nameTooLong
  | e => .other (toString e)

def readScript (settings : Settings) : IO (Except ReadError (List Char)) := do
  try
    let bytes ←
      match settings.file with
      | some name => IO.FS.readBinFile (String.ofList name)
      | none => readStream (← IO.getStdin)
    pure (decode bytes)
  catch e => pure (.error (readErrorOf e))

end Fluxion

open Fluxion CommandLine in
def main (arguments : List String) : IO UInt32 := do
  let plan := plan (arguments.map String.toList)
  let script ←
    match plan with
    | .run settings => readScript settings
    | _ => pure (.ok [])
  let outcome := plan.outcome fun _ => script
  (← IO.getStdout).putStr (String.ofList outcome.output)
  for record in outcome.log do
    (← IO.getStderr).putStrLn ("DEBUG " ++ record.message)
  for line in outcome.errors do
    (← IO.getStderr).putStrLn line
  pure (UInt32.ofNat outcome.exitCode)
