import Reckon.Proofs.Evaluation.Outcome
import Reckon.Proofs.Grammar.Renaming
import Reckon.Proofs.Parts

set_option autoImplicit false

/-!
# Evaluation with renamed positions

Positions are carried into faults and looked at nowhere.
-/

namespace Reckon

variable {P Q α β : Type} {f : P → Q}

namespace Evaluation

def renamed (f : P → Q) (result : Option (Except (Fault P) α × Context)) : Option (Except (Fault Q) α × Context) :=
  result.map fun pair => (pair.1.mapError (Fault.map f), pair.2)

def Renames (f : P → Q) (evaluation : Evaluation P α) (other : Evaluation Q α) : Prop :=
  ∀ context, outcome other context = renamed f (outcome evaluation context)

theorem Renames.bind {evaluation : Evaluation P α} {other : Evaluation Q α} {next : α → Evaluation P β}
    {later : α → Evaluation Q β} (first : Renames f evaluation other)
    (second : ∀ value, Renames f (next value) (later value)) :
    Renames f (evaluation >>= next) (other >>= later) := by
  intro context
  have same := first context
  cases one : outcome evaluation context with
  | none =>
    rw [one] at same
    rw [outcome_bind_of_none next one, outcome_bind_of_none later same]
    rfl
  | some pair =>
    obtain ⟨result, after⟩ := pair
    rw [one] at same
    cases result with
    | error fault =>
      rw [outcome_bind_of_error next one, outcome_bind_of_error later same]
      rfl
    | ok value =>
      rw [outcome_bind_of_ok next one, outcome_bind_of_ok later same]
      exact second value after

theorem renames_pure (value : α) : Renames f (pure value) (pure value) := fun _ => rfl

theorem renames_lift {result : Except (Fault P) α} {other : Except (Fault Q) α}
    (same : other = result.mapError (Fault.map f)) : Renames f (liftM result) (liftM other) := by
  intro context
  subst same
  rw [outcome_lift, outcome_lift]
  rfl

theorem renames_assign (name : String) (value : Value) : Renames f (assign name value) (assign name value) :=
  fun _ => rfl

theorem renames_retrieve (name : String) (span : Span P) :
    Renames f (retrieve name span) (retrieve name (span.map f)) := by
  intro context
  rw [outcome_retrieve, outcome_retrieve]
  cases context.get? name <;> rfl

theorem Renames.inScope {inside : Evaluation P α} {other : Evaluation Q α} (renames : Renames f inside other)
    (name : String) : Renames f (inScope name inside) (inScope name other) := by
  intro context
  rw [outcome_inScope, outcome_inScope, renames]
  cases outcome inside (context.child name) <;> rfl

theorem renames_repeatWhile {condition : Evaluation P Bool} {condition' : Evaluation Q Bool}
    {body : Evaluation P Unit} {body' : Evaluation Q Unit} (test : Renames f condition condition')
    (round : Renames f body body') (bound : Nat) :
    Renames f (repeatWhile condition body bound) (repeatWhile condition' body' bound) := by
  induction bound with
  | zero => exact fun _ => rfl
  | succ bound ih =>
    refine test.bind fun holds => ?_
    cases holds with
    | false => exact renames_pure ()
    | true => exact round.bind fun _ => ih

end Evaluation

namespace Value

theorem binary_map (left : Value) (operator : Token P) (right : Value) :
    left.binary (operator.map f) right = (left.binary operator right).mapError (Fault.map f) := by
  unfold binary
  rw [Token.kind_map]
  split
  · rfl
  · rfl
  · rename_i operation _ _ _
    cases operation left right <;> rfl

theorem unary_map (operator : Token P) (operand : Value) :
    operand.unary (operator.map f) = (operand.unary operator).mapError (Fault.map f) := by
  unfold unary
  rw [Token.kind_map]
  split <;> rfl

theorem holds_map (value : Value) (span : Span P) :
    value.holds (span.map f) = (value.holds span).mapError (Fault.map f) := by
  have same := binary_map (f := f) value ⟨.equal, none, span⟩ (boolean true)
  change value.binary ⟨.equal, none, span.map f⟩ (boolean true) = _ at same
  unfold holds
  rw [same]
  cases value.binary ⟨.equal, none, span⟩ (boolean true) <;> rfl

end Value

namespace Node

open Evaluation

variable {bound : Nat}

theorem produces_map (node : Node P) : (node.map f).produces = node.produces := by
  unfold produces
  rw [mark_map]
  rfl

theorem renames_test {condition : Node P}
    (renames : Renames f (evaluate bound condition) (evaluate bound (condition.map f))) :
    Renames f (test bound condition) (test bound (condition.map f)) := by
  refine renames.bind fun value => renames_lift ?_
  rw [span_map, Value.holds_map]

theorem renames_inTurn {list : List (Node P)}
    (renames : ∀ node ∈ list, Renames f (evaluate bound node) (evaluate bound (node.map f))) :
    Renames f (inTurn bound list) (inTurn bound (list.map (Node.map f))) := by
  induction list with
  | nil => exact renames_pure ()
  | cons first rest ih =>
    obtain ⟨one, others⟩ := List.forall_mem_cons.1 renames
    exact one.bind fun _ => ih others

theorem renames_loop {condition : Node P} {pending round : List (Node P)} {rounds : Nat}
    (test : Renames f (evaluate bound condition) (evaluate bound (condition.map f)))
    (first : ∀ node ∈ pending, Renames f (evaluate bound node) (evaluate bound (node.map f)))
    (again : ∀ node ∈ round, Renames f (evaluate bound node) (evaluate bound (node.map f))) :
    Renames f (loop bound pending condition round rounds)
      (loop bound (pending.map (Node.map f)) (condition.map f) (round.map (Node.map f)) rounds) :=
  (renames_inTurn first).bind fun _ =>
    (renames_repeatWhile (renames_test test) (renames_inTurn again) rounds).bind fun _ => renames_pure Value.null

theorem renames_evaluateAll {list : List (Node P)}
    (renames : ∀ node ∈ list, Renames f (evaluate bound node) (evaluate bound (node.map f))) (value : Value) :
    Renames f (evaluateAll bound value list) (evaluateAll bound value (list.map (Node.map f))) := by
  induction list generalizing value with
  | nil => exact renames_pure value
  | cons first rest ih =>
    obtain ⟨one, others⟩ := List.forall_mem_cons.1 renames
    refine one.bind fun value => ?_
    rw [produces_map]
    exact (renames_assign _ _).bind fun _ => ih others _

theorem renames_evaluateBranches {list : List (Node P × Node P)}
    (renames : ∀ branch ∈ list, Renames f (evaluate bound branch.1) (evaluate bound (branch.1.map f)) ∧
      Renames f (evaluate bound branch.2) (evaluate bound (branch.2.map f))) :
    Renames f (evaluateBranches bound list) (evaluateBranches bound (list.map (mapBranch f))) := by
  induction list with
  | nil => exact renames_pure Value.null
  | cons branch rest ih =>
    obtain ⟨condition, body⟩ := branch
    obtain ⟨⟨test, chosen⟩, others⟩ := List.forall_mem_cons.1 renames
    rw [List.map_cons, mapBranch, evaluateBranches_cons, evaluateBranches_cons]
    refine (renames_test test).bind fun holds => ?_
    cases holds with
    | false => exact ih others
    | true => exact chosen

theorem renames_evaluate (node : Node P) : Renames f (evaluate bound node) (evaluate bound (node.map f)) := by
  induction node using tree_induction with
  | literal mark value => exact renames_pure value
  | binary mark left operator right one two =>
    exact one.bind fun a => two.bind fun b => renames_lift (Value.binary_map a operator b)
  | unary mark operator operand ih => exact ih.bind fun a => renames_lift (Value.unary_map operator a)
  | assignment mark name value ih =>
    exact ih.bind fun a => (renames_assign name a).bind fun _ => renames_pure a
  | retrieval mark name => exact renames_retrieve name mark.span
  | scope mark name boundary statements ih =>
    have all := renames_evaluateAll ih .null
    rw [← mapAll_eq] at all
    cases boundary with
    | false => exact all
    | true => exact all.inScope name
  | choice mark branches ih =>
    have all := renames_evaluateBranches ih
    rw [← mapBranches_eq] at all
    exact all
  | whileLoop mark bodyFirst condition body test ih =>
    have round : ∀ node ∈ [body], Renames f (evaluate bound node) (evaluate bound (node.map f)) :=
      List.forall_mem_singleton.2 ih
    cases bodyFirst with
    | false => exact (renames_loop test (List.forall_mem_nil _) round).inScope "while"
    | true => exact (renames_loop test round round).inScope "do-while"
  | forLoop mark start condition step body first test next ih =>
    have round : ∀ node ∈ [body, step], Renames f (evaluate bound node) (evaluate bound (node.map f)) :=
      List.forall_mem_cons.2 ⟨ih, List.forall_mem_singleton.2 next⟩
    rw [map, evaluate_forLoop, evaluate_forLoop]
    exact (renames_loop test (List.forall_mem_singleton.2 first) round).inScope "for"

theorem renames_evaluateStatement (node : Node P) :
    Renames f (evaluateStatement bound node) (evaluateStatement bound (node.map f)) :=
  renames_evaluateAll (List.forall_mem_singleton.2 (renames_evaluate node)) .null

end Node

end Reckon
