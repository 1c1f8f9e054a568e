import Reckon.Proofs.Evaluation.Blame
import Reckon.Proofs.Evaluation.Frame

set_option autoImplicit false

/-!
# The last result is always found

A new scope has a last result and no name is ever lost, so that looking up the last result cannot
fail where the innermost scope has one.
-/

namespace Reckon

variable {P : Type}

theorem Value.Refuses.defined {operator : Token P} {fault : Fault P} (refuses : Refuses operator fault)
    (name scope : String) : fault.cause ≠ .undefinedVariable name scope := by
  rcases refuses.2 with ⟨_, _, same⟩ | ⟨same, _⟩ <;> simp [same]

theorem has_inside (context : Context) (name : String) : (context.inside name).has lastResult = true := rfl

theorem Yields.finds_last {task : Task P} {before after : Context} {outcome : Except (Fault P) Value}
    (yields : Yields task before outcome after) (has : before.has lastResult = true) {fault : Fault P}
    (fails : outcome = .error fault) (scope : String) : fault.cause ≠ .undefinedVariable lastResult scope := by
  induction yields with
  | literal | retrieval | finished | noBranch | leaves => cases fails
  | assignment => cases fails
  | binary | test => exact (Value.binary_refuses fails).defined _ _
  | unary => exact (Value.unary_refuses fails).defined _ _
  | leftFails _ one | operandFails _ one | valueFails _ one | statementFails _ one | testFails _ one
  | branchFails _ one | performFails _ one | loopFails _ one => exact one has fails
  | rightFails first _ _ two => exact two (first.keeps.bound _ has) fails
  | @undefined mark name context free =>
    cases fails
    intro same
    injection same with same _
    subst same
    have unbound := free _ (List.mem_cons_self)
    rw [Context.has, Scope.has, unbound] at has
    cases has
  | block _ ih | whileLoop _ ih | doLoop _ ih | forLoop _ ih => exact ih (has_inside _ _) fails
  | sequence _ ih | choice _ ih => exact ih has fails
  | statement first _ _ _ others =>
    refine others ?_ fails
    exact (has_set _ _ _ _).trans (by simp)
  | taken first _ _ others | passed first _ _ _ others | perform first _ _ others | again first _ _ others =>
    exact others (first.keeps.bound _ has) fails

end Reckon
