import Reckon.Fault.Report
import Reckon.Run

set_option autoImplicit false

/-!
# Transcripts

What a run writes: its results that are not null, one on a line, and then its fault. How a fault is
written is left to a function, for which the annotated report is one choice.
-/

namespace Reckon

namespace Run

def faultText (pretty : Bool) (fault : Fault Position) : String :=
  if pretty then fault.report else fault.render ++ "\n"

def transcriptBy (write : Fault Position → String) (run : Run Position) : String :=
  let results := (run.results.filter fun value => !value.isNull).map fun value => value.text ++ "\n"
  let fault :=
    match run.answer with
    | .error fault => write fault
    | .ok _ => ""
  String.join results ++ fault

def transcript (pretty : Bool) (run : Run Position) : String :=
  run.transcriptBy (faultText pretty)

def succeeded {P : Type} (run : Run P) : Bool :=
  match run.answer with
  | .ok _ => true
  | .error _ => false

end Run

structure Settings where
  write : Fault Position → String
  prompt : String
  continuation : String

namespace Settings

def silentBy (write : Fault Position → String) : Settings := ⟨write, "", ""⟩

def silent (pretty : Bool) : Settings := silentBy (Run.faultText pretty)

def interactive (pretty : Bool) : Settings := ⟨Run.faultText pretty, "> ", "... "⟩

end Settings

end Reckon
