import Reckon.Token

set_option autoImplicit false

/-!
# Faults

A fault is a cause together with the stretch of text it is found at and, for some, a line of help.
-/

namespace Reckon

inductive Side where
  | left | right | only
deriving DecidableEq, Repr

def Side.name : Side → String
  | left => "left operand"
  | right => "right operand"
  | only => "operand"

inductive Cause where
  | illegalCharacter (c : Char)
  | unexpectedToken (found : String) (expected : List Kind)
  | unexpectedEnd (expected : List Kind)
  | tooDeep (limit : Nat)
  | unsupported (operator : Kind) (operand : String) (side : Side)
  | divisionByZero
  | undefinedVariable (name scope : String)
  | missingNode
deriving DecidableEq, Repr

namespace Cause

def kindList (expected : List Kind) : String :=
  ",".intercalate (expected.map Kind.name)

def message : Cause → String
  | illegalCharacter c => "Illegal character '" ++ c.toString ++ "'"
  | unexpectedToken found expected => "Unexpected token. Expected: " ++ kindList expected ++ " received " ++ found
  | unexpectedEnd expected => "Unexpected end of file. Expected: " ++ kindList expected
  | tooDeep limit => "Nesting depth exceeds maximum of " ++ toString limit ++ " levels"
  | unsupported operator operand side =>
    "Invalid operation. cannot perform operation " ++ operator.name ++ " on " ++ operand ++
      " (" ++ side.name ++ ")"
  | divisionByZero => "Divide by zero error"
  | undefinedVariable name scope => "No variable '" ++ name ++ "' in " ++ scope
  | missingNode => "No node"

/-- Whether to ask for more lines: the text ended where a newline was acceptable. -/
def isContinuable : Cause → Bool
  | unexpectedEnd expected => expected.contains .newline
  | _ => false

end Cause

structure Fault (P : Type) where
  cause : Cause
  span : Span P
  help : Option String
deriving DecidableEq

namespace Fault

variable {P Q : Type}

def map (f : P → Q) (fault : Fault P) : Fault Q :=
  { cause := fault.cause, span := fault.span.map f, help := fault.help }

def isContinuable (fault : Fault P) : Bool := fault.cause.isContinuable

def missingNode [Inhabited P] : Fault P := ⟨.missingNode, default, none⟩

/-- The message with its column, then the line at fault with carets under the span. -/
def render (fault : Fault Position) : String :=
  let start := fault.span.start
  let header := "Error: " ++ fault.cause.message ++ " at col " ++ toString start.column ++ ":\n"
  match start.lineText? with
  -- There is nothing to underline on an empty line.
  | none | some [] => header
  | some line =>
    let width := max 1 (fault.span.stop.column - start.column)
    header ++ String.ofList
      (line ++ '\n' :: List.replicate start.column ' ' ++ List.replicate width '^')

end Fault

end Reckon
