import Reckon.Proofs.Evaluation.Adequacy
import Reckon.Proofs.Parts

set_option autoImplicit false

/-!
# What faults blame

A fault of an evaluation was raised by one of the nodes inside: by an operator, by a name, or by a
condition that is null.
-/

namespace Reckon

open Reckon.Evaluation

variable {P : Type} {fault : Fault P}

namespace Value

theorem operation_fails {value a b : Value} {kind : Kind} {operation : Operation} {cause : Cause}
    (found : value.operation? kind = some operation) (fails : operation a b = .error cause) :
    cause = .divisionByZero ∧ (kind = .divide ∨ kind = .floorDivide) := by
  have divides : ∀ f, division f a b = .error cause → cause = .divisionByZero := by
    intro f fails
    unfold division at fails
    split at fails
    · exact (Except.error.inj fails).symm
    · cases fails
  cases value with
  | null => cases found
  | boolean value =>
    simp only [operation?] at found
    unfold booleanOperation? at found
    split at found <;> cases found <;> cases fails
  | number value =>
    simp only [operation?] at found
    unfold numberOperation? at found
    split at found <;> cases found <;>
      first | exact ⟨divides _ fails, .inl rfl⟩ | exact ⟨divides _ fails, .inr rfl⟩ | cases fails

def Refuses (operator : Token P) (fault : Fault P) : Prop :=
  fault.span = operator.span ∧
    ((∃ operand side, fault.cause = .unsupported operator.kind operand side) ∨
      fault.cause = .divisionByZero ∧ (operator.kind = .divide ∨ operator.kind = .floorDivide))

theorem binary_refuses {left right : Value} {operator : Token P} (fails : left.binary operator right = .error fault) :
    Refuses operator fault := by
  unfold binary at fails
  split at fails
  · cases fails
    exact ⟨rfl, .inl ⟨_, _, rfl⟩⟩
  · cases fails
    exact ⟨rfl, .inl ⟨_, _, rfl⟩⟩
  · rename_i operation _ found _
    cases same : operation left right with
    | ok value =>
      rw [same] at fails
      cases fails
    | error cause =>
      rw [same] at fails
      cases fails
      exact ⟨rfl, .inr (operation_fails found same)⟩

theorem unary_refuses {operand : Value} {operator : Token P} (fails : operand.unary operator = .error fault) :
    Refuses operator fault := by
  unfold unary at fails
  split at fails
  · cases fails
  · cases fails
    exact ⟨rfl, .inl ⟨_, _, rfl⟩⟩

theorem equal_refuses {value : Value} {span : Span P} {truth : Bool}
    (fails : value.binary ⟨.equal, none, span⟩ (boolean truth) = .error fault) :
    fault = ⟨.unsupported .equal "NULL" .left, span, none⟩ := by
  cases value with
  | null =>
    cases fails
    rfl
  | boolean value => cases fails
  | number value => cases fails

end Value

namespace Node

def Untested (fault : Fault P) (condition : Node P) : Prop :=
  fault = ⟨.unsupported .equal "NULL" .left, condition.span, none⟩

/-- A fault of the node itself, not of a node inside it. -/
def Raises (fault : Fault P) : Node P → Prop
  | binary _ _ operator _ | unary _ operator _ => Value.Refuses operator fault
  | retrieval mark name => fault.span = mark.span ∧ ∃ scope, fault.cause = .undefinedVariable name scope
  | node => ∃ condition ∈ node.conditions, Untested fault condition

def Blames (fault : Fault P) (node : Node P) : Prop :=
  ∃ part, Part (fun _ => true) part node ∧ part.Raises fault

variable {node child : Node P}

theorem raises_of_untested {condition : Node P} (member : condition ∈ node.conditions)
    (untested : condition.Untested fault) : node.Raises fault := by
  cases node with
  | binary | unary | retrieval => cases member
  | _ => exact ⟨condition, member, untested⟩

theorem Raises.blames (raises : node.Raises fault) : node.Blames fault := ⟨node, .self, raises⟩

theorem Blames.inside (blames : child.Blames fault) (member : child ∈ node.children) : node.Blames fault := by
  obtain ⟨part, inner, raises⟩ := blames
  exact ⟨part, .inside rfl member inner, raises⟩

end Node

open Reckon.Node

def BlamesTest (fault : Fault P) (condition : Node P) : Prop := condition.Blames fault ∨ condition.Untested fault

theorem BlamesTest.inside {node condition : Node P} (blames : BlamesTest fault condition)
    (tested : condition ∈ node.conditions) (member : condition ∈ node.children) : node.Blames fault :=
  blames.elim (fun inner => inner.inside member) fun untested => (raises_of_untested tested untested).blames

def Task.Blames (fault : Fault P) : Task P → Prop
  | .node tree => tree.Blames fault
  | .statements _ list => ∃ statement ∈ list, statement.Blames fault
  | .test condition => BlamesTest fault condition
  | .branches list => ∃ branch ∈ list, BlamesTest fault branch.1 ∨ branch.2.Blames fault
  | .loop pending condition round =>
    BlamesTest fault condition ∨ ∃ tree ∈ pending ++ round, tree.Blames fault

theorem blames_choice {mark : Mark P} {branches : List (Node P × Node P)}
    (blames : Task.Blames fault (.branches branches)) : (choice mark branches).Blames fault := by
  obtain ⟨branch, member, test | body⟩ := blames
  · exact test.inside (List.mem_map_of_mem member) (condition_mem_children member)
  · exact body.inside (body_mem_children member)

theorem blames_loop {node condition : Node P} {pending round : List (Node P)} (tested : condition ∈ node.conditions)
    (inside : condition :: (pending ++ round) ⊆ node.children)
    (blames : Task.Blames fault (.loop pending condition round)) : node.Blames fault := by
  obtain test | ⟨child, member, inner⟩ := blames
  · exact test.inside tested (inside List.mem_cons_self)
  · exact inner.inside (inside (List.mem_cons_of_mem _ member))

/-- Whatever a task ends with was raised by a node that the task is made of. -/
theorem Yields.blames {task : Task P} {before after : Context} {outcome : Except (Fault P) Value}
    (yields : Yields task before outcome after) (fails : outcome = .error fault) : task.Blames fault := by
  induction yields with
  | literal | retrieval | finished | noBranch | leaves => cases fails
  | assignment => cases fails
  | binary => exact Raises.blames (Value.binary_refuses fails)
  | unary => exact Raises.blames (Value.unary_refuses fails)
  | leftFails _ ih => exact (ih fails).inside (by simp [children])
  | rightFails _ _ _ ih => exact (ih fails).inside (by simp [children])
  | operandFails _ ih | valueFails _ ih => exact (ih fails).inside (by simp [children])
  | undefined =>
    cases fails
    exact Raises.blames ⟨rfl, _, rfl⟩
  | block _ ih | sequence _ ih =>
    obtain ⟨statement, member, inner⟩ := ih fails
    exact inner.inside member
  | choice _ ih => exact blames_choice (ih fails)
  | whileLoop _ ih | doLoop _ ih | forLoop _ ih =>
    exact blames_loop (by simp [conditions]) (by simp [children]) (ih fails)
  | statement _ _ _ _ others =>
    obtain ⟨later, member, inner⟩ := others fails
    exact ⟨later, List.mem_cons_of_mem _ member, inner⟩
  | statementFails _ ih => exact ⟨_, List.mem_cons_self, ih fails⟩
  | test => exact .inr (Value.equal_refuses fails)
  | testFails _ ih => exact .inl (ih fails)
  | taken _ _ _ body => exact ⟨_, List.mem_cons_self, .inr (body fails)⟩
  | passed _ _ _ _ others =>
    obtain ⟨branch, member, inner⟩ := others fails
    exact ⟨branch, List.mem_cons_of_mem _ member, inner⟩
  | branchFails _ ih => exact ⟨_, List.mem_cons_self, .inl (ih fails)⟩
  | perform _ _ _ others =>
    exact (others fails).imp_right fun ⟨child, member, inner⟩ => ⟨child, List.mem_cons_of_mem _ member, inner⟩
  | performFails _ ih => exact .inr ⟨_, List.mem_cons_self, ih fails⟩
  | again _ _ _ others =>
    refine (others fails).imp_right fun ⟨child, member, inner⟩ => ⟨child, ?_, inner⟩
    simpa using member
  | loopFails _ ih => exact .inl (ih fails)

end Reckon
