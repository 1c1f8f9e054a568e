import Reckon.Folder
import Reckon.Repl

set_option autoImplicit false

/-!
# The command line

Script files run in order in one context, then the read-eval-print loop follows when no file is given
or it is asked for.
-/

namespace Reckon

/-- More rounds than a loop can finish in practice. -/
def loopBound : Nat := Nat.pow 2 62

def Source.ofBytes (name : String) (bytes : ByteArray) : Except FileFault Source :=
  match String.fromUTF8? bytes with
  | some text => return ⟨name, text⟩
  | none => throw .notText

namespace CommandLine

inductive Flag where
  | repl
  | pretty
  | verbose
deriving DecidableEq, Repr

def Flag.ofName? (name : List Char) : Option Flag :=
  if name = ['r', 'e', 'p', 'l'] then some .repl
  else if name = ['p', 'r', 'e', 't', 't', 'y'] then some .pretty
  else if name = ['v', 'e', 'r', 'b', 'o', 's', 'e'] then some .verbose
  else none

def Flag.ofLetter? : Char → Option Flag
  | 'r' => some .repl
  | 'v' => some .verbose
  | _ => none

def classify : List String → Option (List Flag × List String)
  | [] => return ([], [])
  -- Two dashes alone end the options.
  | "--" :: rest => return ([], rest)
  | argument :: rest => do
    let (flags, files) ← classify rest
    match argument.toList with
    | '-' :: '-' :: name => return ((← Flag.ofName? name) :: flags, files)
    -- Letters may share a dash.
    | '-' :: letter :: letters => return ((← (letter :: letters).mapM Flag.ofLetter?) ++ flags, files)
    | _ => return (flags, argument :: files)

structure Options where
  flags : List Flag
  files : List String

def Options.has (options : Options) (flag : Flag) : Bool := options.flags.contains flag

def Options.wantsRepl (options : Options) : Bool := options.files.isEmpty || options.has .repl

def Options.ofArguments? (arguments : List String) : Option Options := do
  let (flags, files) ← classify arguments
  -- No flag may be given twice.
  if flags.Nodup then return ⟨flags, files⟩ else none

structure Outcome where
  exit : Nat
  output : String
  errors : String

/-- The context after a script file, what it writes and what it writes as an error. -/
def runFile (write : Fault Position → String) (bound : Nat) (context : Context) (name : String)
    (bytes : Except FileFault ByteArray) : Option (Context × String × String) :=
  match bytes >>= Source.ofBytes name with
  | .error fault => return (context, "", "Error reading file '" ++ name ++ "': " ++ fault.message ++ "\n")
  | .ok source => do
    let run ← Run.ofSource bound source context
    return (run.context, run.transcriptBy write, "")

def runFiles (write : Fault Position → String) (bound : Nat)
    (contents : String → Except FileFault ByteArray) : List String → Context → Option (Context × String × String)
  | [], context => return (context, "", "")
  | name :: rest, context => do
    let (context, output, errors) ← runFile write bound context name (contents name)
    let (context, moreOutput, moreErrors) ← runFiles write bound contents rest context
    return (context, output ++ moreOutput, errors ++ moreErrors)

def inputFault : String := "Error reading input: " ++ FileFault.notText.message ++ "\n"

def byteLines (bytes : List UInt8) : List (List UInt8) :=
  -- The fold starts without a line, so none follows a final newline.
  bytes.foldr (fun byte rest => if byte = 10 then [] :: rest else Text.extendFirst byte rest) []

def withoutEnding (line : String) : String :=
  String.ofList (line.toList.reverse.dropWhile fun c => c = '\n' ∨ c = '\r').reverse

def reading (line : List UInt8) : Reading :=
  match String.fromUTF8? ⟨line.toArray⟩ with
  | some text => .line (withoutEnding text)
  | none => .failure

def run (bound : Nat) (contents : String → Except FileFault ByteArray) (input : ByteArray)
    (arguments : List String) : Option Outcome :=
  match Options.ofArguments? arguments with
  | none => return ⟨2, "", ""⟩
  | some options => do
    let pretty := options.has .pretty
    let (context, output, errors) ← runFiles (Run.faultText pretty) bound contents options.files .global
    if options.wantsRepl then
      let readings := (byteLines input.toList).map reading
      let ending ← Repl.read (.interactive pretty) bound readings (.start context)
      return ⟨if ending.failed then 1 else 0, output ++ ending.output,
        if ending.failed then errors ++ inputFault else errors⟩
    else return ⟨0, output, errors⟩

end CommandLine

end Reckon
