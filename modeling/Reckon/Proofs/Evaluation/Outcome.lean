import Reckon.Evaluation

set_option autoImplicit false

/-!
# Outcomes of evaluations

What each step of an evaluation does to a context. A round of a loop evaluates some nodes in turn.
-/

namespace Reckon

namespace Evaluation

variable {P α β : Type} {context middle after : Context}

def outcome (evaluation : Evaluation P α) (context : Context) : Option (Except (Fault P) α × Context) :=
  evaluation.run.run context

theorem outcome_bind_of_ok {evaluation : Evaluation P α} {value : α} (next : α → Evaluation P β)
    (yields : outcome evaluation context = some (.ok value, middle)) :
    outcome (evaluation >>= next) context = outcome (next value) middle := by
  change (outcome evaluation context >>= fun pair => _) = _
  rw [yields]
  rfl

theorem outcome_bind_of_error {evaluation : Evaluation P α} {fault : Fault P} (next : α → Evaluation P β)
    (fails : outcome evaluation context = some (.error fault, after)) :
    outcome (evaluation >>= next) context = some (.error fault, after) := by
  change (outcome evaluation context >>= fun pair => _) = _
  rw [fails]
  rfl

theorem outcome_bind_of_none {evaluation : Evaluation P α} (next : α → Evaluation P β)
    (endless : outcome evaluation context = none) : outcome (evaluation >>= next) context = none := by
  change (outcome evaluation context >>= fun pair => _) = _
  rw [endless]
  rfl

theorem outcome_bind_eq_some {evaluation : Evaluation P α} {next : α → Evaluation P β}
    {result : Except (Fault P) β} (ends : outcome (evaluation >>= next) context = some (result, after)) :
    (∃ fault, outcome evaluation context = some (.error fault, after) ∧ result = .error fault) ∨
      ∃ value middle, outcome evaluation context = some (.ok value, middle) ∧
        outcome (next value) middle = some (result, after) := by
  cases first : outcome evaluation context with
  | none =>
    rw [outcome_bind_of_none next first] at ends
    cases ends
  | some pair =>
    obtain ⟨one, between⟩ := pair
    cases one with
    | error fault =>
      rw [outcome_bind_of_error next first] at ends
      cases ends
      exact .inl ⟨fault, rfl, rfl⟩
    | ok value =>
      rw [outcome_bind_of_ok next first] at ends
      exact .inr ⟨value, between, rfl, ends⟩

@[simp]
theorem outcome_lift (result : Except (Fault P) α) :
    outcome (liftM result : Evaluation P α) context = some (result, context) := by
  cases result <;> rfl

theorem outcome_retrieve (name : String) (span : Span P) :
    outcome (retrieve name span) context =
      match context.get? name with
      | some value => some (.ok value, context)
      | none => some (.error ⟨.undefinedVariable name context.name, span, none⟩, context) := by
  unfold retrieve
  change outcome (match context.get? name with
    | some value => pure value
    | none => throw ⟨.undefinedVariable name context.name, span, none⟩) context = _
  cases context.get? name <;> rfl

theorem outcome_inScope (name : String) (inside : Evaluation P α) :
    outcome (inScope name inside) context =
      (outcome inside (context.child name)).map fun pair => (pair.1, pair.2.leave) := by
  change (outcome inside (context.child name) >>= fun pair => _) = _
  cases outcome inside (context.child name) <;> rfl

end Evaluation

namespace Node

open Evaluation

variable {P : Type} {bound : Nat}

def test (bound : Nat) (condition : Node P) : Evaluation P Bool := do
  (← evaluate bound condition).holds condition.span

def inTurn (bound : Nat) : List (Node P) → Evaluation P Unit
  | [] => return ()
  | first :: rest => do
    let _ ← evaluate bound first
    inTurn bound rest

def loop (bound : Nat) (pending : List (Node P)) (condition : Node P) (round : List (Node P)) (rounds : Nat) :
    Evaluation P Value := do
  inTurn bound pending
  repeatWhile (test bound condition) (inTurn bound round) rounds
  return .null

theorem evaluate_whileLoop (mark : Mark P) (condition body : Node P) :
    (whileLoop mark false condition body).evaluate bound =
      inScope "while" (loop bound [] condition [body] bound) := rfl

theorem evaluate_doLoop (mark : Mark P) (condition body : Node P) :
    (whileLoop mark true condition body).evaluate bound =
      inScope "do-while" (loop bound [body] condition [body] bound) := rfl

theorem evaluate_forLoop (mark : Mark P) (start condition step body : Node P) :
    (forLoop mark start condition step body).evaluate bound =
      inScope "for" (loop bound [start] condition [body, step] bound) := by
  have first : inTurn bound [start] = (evaluate bound start >>= fun _ => pure ()) := rfl
  unfold loop
  rw [evaluate, first, bind_assoc]
  rfl

theorem loop_cons (first condition : Node P) (rest round : List (Node P)) (rounds : Nat) :
    loop bound (first :: rest) condition round rounds = (do
      let _ ← evaluate bound first
      loop bound rest condition round rounds) := by
  unfold loop
  rw [inTurn, bind_assoc]

theorem loop_succ (condition : Node P) (round : List (Node P)) (rounds : Nat) :
    loop bound [] condition round (rounds + 1) = (do
      if ← test bound condition then loop bound round condition round rounds
      else return .null) := by
  have first : loop bound [] condition round (rounds + 1) =
      (repeatWhile (test bound condition) (inTurn bound round) (rounds + 1) >>= fun _ => pure .null) := rfl
  rw [first, repeatWhile, bind_assoc]
  congr 1
  funext holds
  cases holds with
  | false => rfl
  | true =>
    simp only [if_true, bind_assoc]
    rfl

theorem evaluateBranches_cons (condition body : Node P) (rest : List (Node P × Node P)) :
    evaluateBranches bound ((condition, body) :: rest) = (do
      if ← test bound condition then evaluate bound body
      else evaluateBranches bound rest) := by
  rw [evaluateBranches]
  unfold test
  rw [bind_assoc]

def shown (node : Node P) (value : Value) : Value :=
  if node.produces then value else .null

variable {node : Node P} {context middle after : Context}

theorem evaluateStatement_of_ok {value : Value}
    (yields : outcome (node.evaluate bound) context = some (.ok value, middle)) :
    outcome (node.evaluateStatement bound) context =
      some (.ok (node.shown value), middle.set lastResult (node.shown value)) := by
  unfold evaluateStatement
  rw [evaluateAll, outcome_bind_of_ok _ yields]
  rfl

theorem evaluateStatement_of_error {fault : Fault P}
    (fails : outcome (node.evaluate bound) context = some (.error fault, after)) :
    outcome (node.evaluateStatement bound) context = some (.error fault, after) := by
  unfold evaluateStatement
  rw [evaluateAll, outcome_bind_of_error _ fails]

theorem evaluateStatement_of_none (endless : outcome (node.evaluate bound) context = none) :
    outcome (node.evaluateStatement bound) context = none := by
  unfold evaluateStatement
  rw [evaluateAll, outcome_bind_of_none _ endless]

theorem evaluateStatement_eq_some {result : Except (Fault P) Value}
    (ends : outcome (node.evaluateStatement bound) context = some (result, after)) :
    (∃ fault, outcome (node.evaluate bound) context = some (.error fault, after) ∧ result = .error fault) ∨
      ∃ value middle, outcome (node.evaluate bound) context = some (.ok value, middle) ∧
        result = .ok (node.shown value) ∧ after = middle.set lastResult (node.shown value) := by
  have unfolded := ends
  unfold evaluateStatement at unfolded
  rw [evaluateAll] at unfolded
  obtain ⟨fault, fails, same⟩ | ⟨value, middle, yields, _⟩ := outcome_bind_eq_some unfolded
  · exact .inl ⟨fault, fails, same⟩
  · rw [evaluateStatement_of_ok yields] at ends
    cases ends
    exact .inr ⟨value, middle, yields, rfl, rfl⟩

end Node

end Reckon
