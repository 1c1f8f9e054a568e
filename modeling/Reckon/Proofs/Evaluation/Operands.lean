import Reckon.Proofs.Evaluation.Outcome
import Reckon.Proofs.Parts

set_option autoImplicit false

/-!
# Operands of operators

Evaluation with the calls of implementations left open. How an implementation is called on null makes no
difference, since no operator that null is an operand of is looked up with success.
-/

namespace Reckon

namespace Value

def unaryOperation? : Value → Kind → Option (Value → Value)
  | boolean _, .not => some fun a => boolean !a.asBoolean
  | number _, .minus => some fun a => number (-a.asNumber)
  | number _, .not => some fun a => number (numberOfInt (signedWord (~~~ word a.asNumber)))
  | _, _ => none

theorem unary?_eq (value : Value) (kind : Kind) :
    value.unary? kind = (value.unaryOperation? kind).map fun operation => operation value := by
  cases value <;> cases kind <;> rfl

structure Calls where
  binary : Operation → Operation
  unary : (Value → Value) → Value → Except Cause Value

/-- Operands other than null are what the implementation is called on. -/
structure Calls.Faithful (calls : Calls) : Prop where
  binary : ∀ operation {left right : Value}, left ≠ null → right ≠ null →
    calls.binary operation left right = operation left right
  unary : ∀ operation {operand : Value}, operand ≠ null → calls.unary operation operand = .ok (operation operand)

variable {P : Type} {calls : Calls}

def binaryBy (calls : Calls) (left : Value) (operator : Token P) (right : Value) : Except (Fault P) Value :=
  match left.operation? operator.kind, right.operation? operator.kind with
  | none, _ => throw (unsupported operator left .left)
  | some _, none => throw (unsupported operator right .right)
  | some operation, some _ =>
    (calls.binary operation left right).mapError fun cause => ⟨cause, operator.span, none⟩

def unaryBy (calls : Calls) (operator : Token P) (operand : Value) : Except (Fault P) Value :=
  match operand.unaryOperation? operator.kind with
  | some operation => (calls.unary operation operand).mapError fun cause => ⟨cause, operator.span, none⟩
  | none => throw (unsupported operator operand .only)

def holdsBy (calls : Calls) (value : Value) (span : Span P) : Except (Fault P) Bool := do
  let answer ← value.binaryBy calls ⟨.equal, none, span⟩ (boolean true)
  return answer.equal (boolean true)

theorem ne_null_of_operation? {value : Value} {kind : Kind} {operation : Operation}
    (found : value.operation? kind = some operation) : value ≠ null := by
  rintro rfl
  cases found

theorem ne_null_of_unaryOperation? {value : Value} {kind : Kind} {operation : Value → Value}
    (found : value.unaryOperation? kind = some operation) : value ≠ null := by
  rintro rfl
  cases found

theorem binaryBy_eq (faithful : calls.Faithful) (left : Value) (operator : Token P) (right : Value) :
    left.binaryBy calls operator right = left.binary operator right := by
  unfold binaryBy binary
  cases one : left.operation? operator.kind with
  | none => rfl
  | some operation =>
    cases two : right.operation? operator.kind with
    | none => rfl
    | some other =>
      dsimp only
      -- Both operands were looked up, so neither is null.
      rw [faithful.binary operation (ne_null_of_operation? one) (ne_null_of_operation? two)]

theorem unaryBy_eq (faithful : calls.Faithful) (operator : Token P) (operand : Value) :
    operand.unaryBy calls operator = operand.unary operator := by
  unfold unaryBy unary
  rw [unary?_eq]
  cases found : operand.unaryOperation? operator.kind with
  | none => rfl
  | some operation =>
    dsimp only [Option.map_some]
    rw [faithful.unary operation (ne_null_of_unaryOperation? found)]
    rfl

theorem holdsBy_eq (faithful : calls.Faithful) (value : Value) (span : Span P) :
    value.holdsBy calls span = value.holds span := by
  unfold holdsBy holds
  rw [binaryBy_eq faithful]

end Value

namespace Node

variable {P : Type}

open Evaluation

section Evaluator

variable (calls : Value.Calls)

mutual

def evaluateBy (bound : Nat) : Node P → Evaluation P Value
  | literal _ value => return value
  | binary _ left operator right => do
    let left ← evaluateBy bound left
    let right ← evaluateBy bound right
    left.binaryBy calls operator right
  | unary _ operator operand => do
    let operand ← evaluateBy bound operand
    operand.unaryBy calls operator
  | assignment _ name value => do
    let value ← evaluateBy bound value
    assign name value
    return value
  | retrieval mark name => retrieve name mark.span
  | scope _ name boundary statements =>
    if boundary then inScope name (evaluateAllBy bound .null statements)
    else evaluateAllBy bound .null statements
  | choice _ branches => evaluateBranchesBy bound branches
  | whileLoop _ bodyFirst condition body =>
    inScope (if bodyFirst then "do-while" else "while") do
      let round := do
        let _ ← evaluateBy bound body
      if bodyFirst then round
      repeatWhile (do (← evaluateBy bound condition).holdsBy calls condition.span) round bound
      return .null
  | forLoop _ start condition step body =>
    inScope "for" do
      let _ ← evaluateBy bound start
      let round := do
        let _ ← evaluateBy bound body
        let _ ← evaluateBy bound step
      repeatWhile (do (← evaluateBy bound condition).holdsBy calls condition.span) round bound
      return .null

def evaluateAllBy (bound : Nat) (value : Value) : List (Node P) → Evaluation P Value
  | [] => return value
  | first :: rest => do
    let value ← evaluateBy bound first
    let value := if first.produces then value else .null
    assign lastResult value
    evaluateAllBy bound value rest

def evaluateBranchesBy (bound : Nat) : List (Node P × Node P) → Evaluation P Value
  | [] => return .null
  | (condition, body) :: rest => do
    if ← (← evaluateBy bound condition).holdsBy calls condition.span then evaluateBy bound body
    else evaluateBranchesBy bound rest

end

end Evaluator

variable {calls : Value.Calls} {bound : Nat}

theorem evaluateAllBy_eq {list : List (Node P)}
    (same : ∀ statement ∈ list, evaluateBy calls bound statement = evaluate bound statement) (value : Value) :
    evaluateAllBy calls bound value list = evaluateAll bound value list := by
  induction list generalizing value with
  | nil => rfl
  | cons first rest ih =>
    obtain ⟨one, others⟩ := List.forall_mem_cons.1 same
    rw [evaluateAllBy, evaluateAll, one]
    simp only [ih others]

theorem evaluateBranchesBy_eq (faithful : calls.Faithful) {list : List (Node P × Node P)}
    (same : ∀ branch ∈ list, evaluateBy calls bound branch.1 = evaluate bound branch.1 ∧
      evaluateBy calls bound branch.2 = evaluate bound branch.2) :
    evaluateBranchesBy calls bound list = evaluateBranches bound list := by
  induction list with
  | nil => rfl
  | cons branch rest ih =>
    obtain ⟨condition, body⟩ := branch
    obtain ⟨⟨test, chosen⟩, others⟩ := List.forall_mem_cons.1 same
    rw [evaluateBranchesBy, evaluateBranches, test, chosen, ih others]
    simp only [Value.holdsBy_eq faithful]

/-- Nothing that is done with null by a call is ever seen. -/
theorem evaluateBy_eq (faithful : calls.Faithful) (bound : Nat) (node : Node P) :
    evaluateBy calls bound node = evaluate bound node := by
  induction node using tree_induction with
  | literal | retrieval => rfl
  | binary mark left operator right one two =>
    rw [evaluateBy, evaluate, one, two]
    simp only [Value.binaryBy_eq faithful]
  | unary mark operator operand ih =>
    rw [evaluateBy, evaluate, ih]
    simp only [Value.unaryBy_eq faithful]
  | assignment mark name value ih => rw [evaluateBy, evaluate, ih]
  | scope mark name boundary statements ih => rw [evaluateBy, evaluate, evaluateAllBy_eq ih]
  | choice mark branches ih => rw [evaluateBy, evaluate, evaluateBranchesBy_eq faithful ih]
  | whileLoop mark bodyFirst condition body test round =>
    rw [evaluateBy, evaluate, test, round]
    simp only [Value.holdsBy_eq faithful]
  | forLoop mark start condition step body first test next round =>
    rw [evaluateBy, evaluate, first, test, next, round]
    simp only [Value.holdsBy_eq faithful]

end Node

end Reckon
