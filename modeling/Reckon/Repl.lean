import Reckon.Text.Blank
import Reckon.Transcript

set_option autoImplicit false

/-!
# The read-eval-print loop

Lines are collected until they are no longer open and are then run as one source. Blank lines are
skipped, and `exit` or `quit` stops; both only where a statement begins.
-/

namespace Reckon

structure Repl where
  context : Context
  pending : Option Source
  stopped : Bool

inductive Reading where
  | line (text : String)
  | failure

/-- What a loop leaves behind; `failed` when it ended because a line could not be read. -/
structure Ending where
  output : String
  context : Context
  failed : Bool

namespace Repl

def start (context : Context) : Repl := ⟨context, none, false⟩

def prompt (settings : Settings) (repl : Repl) : String :=
  if repl.pending.isSome then settings.continuation else settings.prompt

def run (settings : Settings) (bound : Nat) (repl : Repl) (source : Source) : Option (Repl × String) := do
  let run ← Run.ofSource bound source repl.context
  return (start run.context, run.transcriptBy settings.write)

def submit (settings : Settings) (bound : Nat) (repl : Repl) (source : Source) : Option (Repl × String) :=
  if source.isOpen then return ({ repl with pending := some source }, "")
  else repl.run settings bound source

def feed (settings : Settings) (bound : Nat) (repl : Repl) (line : String) : Option (Repl × String) :=
  match repl.pending with
  | some source => repl.submit settings bound (source.addLine line)
  | none =>
    -- Only the first line of a source is trimmed and can stop the loop.
    let line := String.ofList (Text.trim line.toList)
    if line = "" then return (repl, "")
    else if line = "exit" ∨ line = "quit" then return ({ repl with stopped := true }, "")
    else repl.submit settings bound ⟨"<stdin>", line⟩

def endInput (settings : Settings) (bound : Nat) (repl : Repl) : Option (Repl × String) :=
  match repl.pending with
  -- An open source is run for its fault.
  | some source => repl.run settings bound source
  | none => return ({ repl with stopped := true }, "")

def read (settings : Settings) (bound : Nat) : List Reading → Repl → Option Ending
  -- The reading that meets the end of input has a prompt as well.
  | [], repl => do
    let (after, output) ← repl.endInput settings bound
    let output := repl.prompt settings ++ output
    return ⟨if after.stopped then output else output ++ after.prompt settings, after.context, false⟩
  | .failure :: _, repl => return ⟨repl.prompt settings, repl.context, true⟩
  | .line text :: rest, repl => do
    let (after, output) ← repl.feed settings bound text
    let output := repl.prompt settings ++ output
    if after.stopped then return ⟨output, after.context, false⟩
    else
      let ending ← read settings bound rest after
      return { ending with output := output ++ ending.output }

end Repl

end Reckon
