import Reckon.CommandLine

set_option autoImplicit false

/-!
# The program

Reads files and lines, and writes what the library answers.
-/

namespace Reckon.Main

def fileFault : IO.Error → FileFault
  | .permissionDenied .. => .denied
  | .inappropriateType _ code _ => if code = 21 then .isFolder else .notFolder
  | .invalidArgument .. => .longName
  | _ => .missing

def readFile (name : String) : IO (Except FileFault ByteArray) := do
  try return .ok (← IO.FS.readBinFile name)
  catch fault => return .error (fileFault fault)

partial def readLine (input : IO.FS.Stream) (line : List UInt8) : IO (List UInt8) := do
  match (← input.read 1).toList with
  | [] => return line
  | byte :: _ => if byte = 10 then return line ++ [byte] else readLine input (line ++ [byte])

partial def converse (settings : Settings) (repl : Repl) : IO UInt32 := do
  let output ← IO.getStdout
  output.putStr (repl.prompt settings)
  output.flush
  let line ← readLine (← IO.getStdin) []
  match CommandLine.reading line with
  | .failure =>
    (← IO.getStderr).putStr CommandLine.inputFault
    return 1
  | .line text =>
    let step :=
      if line.isEmpty then repl.endInput settings loopBound
      else repl.feed settings loopBound text
    match step with
    | none => return 1
    | some (after, written) =>
      output.putStr written
      if after.stopped then return 0 else converse settings after

def run (arguments : List String) : IO UInt32 := do
  match CommandLine.Options.ofArguments? arguments with
  | none =>
    (← IO.getStderr).putStrLn "usage: reckon [FILES]... [-r|--repl] [--pretty] [-v|--verbose]"
    return 2
  | some options =>
    let pretty := options.has .pretty
    let mut context := Context.global
    for name in options.files do
      match CommandLine.runFile (Run.faultText pretty) loopBound context name (← readFile name) with
      | none => return 1
      | some (after, output, errors) =>
        context := after
        (← IO.getStdout).putStr output
        (← IO.getStderr).putStr errors
    if options.wantsRepl then converse (.interactive pretty) (.start context) else return 0

end Reckon.Main

def main (arguments : List String) : IO UInt32 :=
  Reckon.Main.run arguments
