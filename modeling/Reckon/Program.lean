import Reckon.Grammar
import Reckon.Token.Scan

set_option autoImplicit false

/-!
# Programs

A source is compiled to a syntax tree. One that ends where a newline was acceptable is open.
-/

namespace Reckon

namespace Source

def program (source : Source) (limit : Nat) : Except (Fault Position) (Node Position) := do
  Node.ofTokens limit (← source.tokens)

theorem program_of_ok {source : Source} {tokens : List (Token Position)} (scanned : source.tokens = .ok tokens)
    (limit : Nat) : source.program limit = Node.ofTokens limit tokens := by
  rw [program, scanned]
  rfl

theorem program_of_error {source : Source} {fault : Fault Position} (failed : source.tokens = .error fault)
    (limit : Nat) : source.program limit = .error fault := by
  rw [program, failed]
  rfl

def nestingLimit : Nat := 32

def compile (source : Source) : Except (Fault Position) (Node Position) :=
  source.program nestingLimit

def isOpen (source : Source) : Bool :=
  match source.compile with
  | .error fault => fault.isContinuable
  | .ok _ => false

def addLine (source : Source) (line : String) : Source :=
  { source with text := source.text ++ "\n" ++ line }

/-- The source with as many lines added as it needs, and how many lines were asked for. -/
def complete (source : Source) : List String → Source × Nat
  -- Asking in vain counts too.
  | [] => (source, if source.isOpen then 1 else 0)
  | line :: rest =>
    if source.isOpen then
      let (completed, asked) := complete (source.addLine line) rest
      (completed, asked + 1)
    else (source, 0)

end Source

end Reckon
