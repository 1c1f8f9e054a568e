import Reckon.Evaluation
import Reckon.Program

set_option autoImplicit false

/-!
# Runs

Programs run one after another in a context that is kept between them. Top-level statements are
evaluated one at a time, so that a fault leaves the results before it.
-/

namespace Reckon

/-- What running a program gives: the values of the statements that finished, the last value or a
fault, and the context afterwards. -/
structure Run (P : Type) where
  results : List Value
  answer : Except (Fault P) Value
  context : Context

namespace Run

variable {P : Type}

def refused (fault : Fault P) (context : Context) : Run P := ⟨[], .error fault, context⟩

def statements (bound : Nat) (value : Value) : List (Node P) → Context → Option (Run P)
  | [], context => return ⟨[], .ok value, context.set lastResult value⟩
  | first :: rest, context => do
    match ← (first.evaluateStatement bound).run.run context with
    | (.error fault, after) => return refused fault after
    | (.ok value, after) =>
      let run ← statements bound value rest after
      return { run with results := value :: run.results }

def ofTree [Inhabited P] (bound : Nat) (context : Context) : Option (Node P) → Option (Run P)
  | none => return refused .missingNode context
  | some (.scope _ _ false list) => statements bound .null list context
  -- A tree of any other form is a single statement.
  | some node => statements bound .null [node] context

def ofSource (bound : Nat) (source : Source) (context : Context) : Option (Run Position) :=
  match source.compile with
  | .error fault => return refused fault context
  | .ok program => ofTree bound context (some program)

end Run

end Reckon
