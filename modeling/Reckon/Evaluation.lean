import Reckon.Context
import Reckon.Node
import Reckon.Value.Operation

set_option autoImplicit false

/-!
# Evaluation

Evaluation changes the innermost scope of a context and ends with a value or a fault; what was bound
before a fault stays bound. Loops run up to a bound, and one that needs more has no outcome.
-/

namespace Reckon

/-- From a context to a value or fault and the context left behind; none past the bound on loops. -/
abbrev Evaluation (P α : Type) := ExceptT (Fault P) (StateT Context Option) α

namespace Evaluation

variable {P α : Type}

def inScope (name : String) (inside : Evaluation P α) : Evaluation P α :=
  fun context => do
    let (outcome, after) ← inside (context.child name)
    -- The scope is closed after a fault as well.
    return (outcome, after.leave)

def retrieve (name : String) (span : Span P) : Evaluation P Value := do
  let context : Context ← get
  match context.get? name with
  | some value => return value
  | none => throw ⟨.undefinedVariable name context.name, span, none⟩

def assign (name : String) (value : Value) : Evaluation P Unit :=
  modify fun context => context.set name value

def repeatWhile (condition : Evaluation P Bool) (body : Evaluation P Unit) : Nat → Evaluation P Unit
  | 0 => fun _ => none
  | bound + 1 => do
    if ← condition then
      body
      repeatWhile condition body bound

end Evaluation

namespace Node

variable {P : Type}

open Evaluation

mutual

/-- The value of a node; `bound` limits the rounds of every loop. -/
def evaluate (bound : Nat) : Node P → Evaluation P Value
  | literal _ value => return value
  | binary _ left operator right => do
    let left ← evaluate bound left
    let right ← evaluate bound right
    left.binary operator right
  | unary _ operator operand => do
    let operand ← evaluate bound operand
    operand.unary operator
  | assignment _ name value => do
    let value ← evaluate bound value
    assign name value
    return value
  | retrieval mark name => retrieve name mark.span
  | scope _ name boundary statements =>
    if boundary then inScope name (evaluateAll bound .null statements)
    else evaluateAll bound .null statements
  | choice _ branches => evaluateBranches bound branches
  | whileLoop _ bodyFirst condition body =>
    inScope (if bodyFirst then "do-while" else "while") do
      let round := do
        let _ ← evaluate bound body
      if bodyFirst then round
      repeatWhile (do (← evaluate bound condition).holds condition.span) round bound
      return .null
  | forLoop _ start condition step body =>
    inScope "for" do
      let _ ← evaluate bound start
      let round := do
        let _ ← evaluate bound body
        let _ ← evaluate bound step
      repeatWhile (do (← evaluate bound condition).holds condition.span) round bound
      return .null

/-- Runs statements in order; `value` is what the one before them yielded. -/
def evaluateAll (bound : Nat) (value : Value) : List (Node P) → Evaluation P Value
  | [] => return value
  | first :: rest => do
    let value ← evaluate bound first
    -- A hidden value is not remembered either.
    let value := if first.produces then value else .null
    assign lastResult value
    evaluateAll bound value rest

def evaluateBranches (bound : Nat) : List (Node P × Node P) → Evaluation P Value
  | [] => return .null
  | (condition, body) :: rest => do
    if ← (← evaluate bound condition).holds condition.span then evaluate bound body
    else evaluateBranches bound rest

end

def evaluateStatement (bound : Nat) (node : Node P) : Evaluation P Value :=
  evaluateAll bound .null [node]

end Node

end Reckon
