import Reckon.Proofs.Evaluation.Rules
import Reckon.Proofs.Parts

set_option autoImplicit false

/-!
# Evaluation follows the rules

What evaluation gives under some bound is what the rules say, and what they say is given under every
bound that is large enough.
-/

namespace Reckon

open Reckon.Evaluation

variable {P : Type}

namespace Value

theorem equal_true (answer : Value) : answer.equal (.boolean true) = true ↔ answer = .boolean true := by
  cases answer <;> simp [equal]

theorem equal_false {answer : Value} (other : answer ≠ .boolean true) : answer.equal (.boolean true) = false := by
  rw [← Bool.not_eq_true, equal_true]
  exact other

theorem holds_eq (value : Value) (span : Span P) :
    value.holds span =
      (value.binary ⟨.equal, none, span⟩ (.boolean true)).map fun answer => answer.equal (.boolean true) := by
  unfold holds
  cases value.binary ⟨.equal, none, span⟩ (.boolean true) <;> rfl

end Value

def Tested (condition : Node P) (before : Context) (result : Except (Fault P) Bool) (after : Context) : Prop :=
  match result with
  | .error fault => Yields (.test condition) before (.error fault) after
  | .ok true => Yields (.test condition) before (.ok (.boolean true)) after
  | .ok false => ∃ answer, answer ≠ .boolean true ∧ Yields (.test condition) before (.ok answer) after

section Rules

variable {bound : Nat} {context after : Context} {result : Except (Fault P) Value}

def Follows (bound : Nat) (node : Node P) : Prop :=
  ∀ {context after : Context} {result : Except (Fault P) Value},
    outcome (node.evaluate bound) context = some (result, after) → Yields (.node node) context result after

theorem tested_of_test {condition : Node P} (follows : Follows bound condition) {result : Except (Fault P) Bool}
    (ends : outcome (Node.test bound condition) context = some (result, after)) :
    Tested condition context result after := by
  unfold Node.test at ends
  obtain ⟨fault, fails, rfl⟩ | ⟨value, middle, yields, holds⟩ := outcome_bind_eq_some ends
  · exact .testFails (follows fails)
  · have tested := Yields.test (follows yields)
    rw [Value.holds_eq, outcome_lift] at holds
    obtain ⟨rfl, rfl⟩ := Prod.mk.inj (Option.some.inj holds)
    cases same : value.binary ⟨.equal, none, condition.span⟩ (.boolean true) with
    | error fault =>
      rw [same] at tested
      exact tested
    | ok answer =>
      rw [same] at tested
      change Tested condition context (.ok (answer.equal (.boolean true))) middle
      cases truth : answer.equal (.boolean true) with
      | false => exact ⟨answer, fun same => by simp [same, Value.equal] at truth, tested⟩
      | true =>
        rw [(Value.equal_true answer).1 truth] at tested
        exact tested

theorem yields_statements {list : List (Node P)} (follows : ∀ statement ∈ list, Follows bound statement) {last : Value}
    (ends : outcome (Node.evaluateAll bound last list) context = some (result, after)) :
    Yields (.statements last list) context result after := by
  induction list generalizing last context with
  | nil =>
    cases ends
    exact .finished
  | cons first rest ih =>
    obtain ⟨one, others⟩ := List.forall_mem_cons.1 follows
    rw [Node.evaluateAll] at ends
    obtain ⟨fault, fails, rfl⟩ | ⟨value, middle, yields, more⟩ := outcome_bind_eq_some ends
    · exact .statementFails (one fails)
    · exact .statement (one yields) rfl (ih others more)

theorem yields_branches {list : List (Node P × Node P)}
    (follows : ∀ branch ∈ list, Follows bound branch.1 ∧ Follows bound branch.2)
    (ends : outcome (Node.evaluateBranches bound list) context = some (result, after)) :
    Yields (.branches list) context result after := by
  induction list generalizing context with
  | nil =>
    cases ends
    exact .noBranch
  | cons branch rest ih =>
    obtain ⟨condition, body⟩ := branch
    obtain ⟨⟨test, chosen⟩, others⟩ := List.forall_mem_cons.1 follows
    rw [Node.evaluateBranches_cons] at ends
    obtain ⟨fault, fails, rfl⟩ | ⟨holds, middle, tested, more⟩ := outcome_bind_eq_some ends
    · exact .branchFails (tested_of_test test fails)
    · have tested := tested_of_test test tested
      cases holds with
      | false =>
        obtain ⟨answer, other, tested⟩ := tested
        exact .passed tested other (ih others more)
      | true => exact .taken tested (chosen more)

theorem yields_pending {condition : Node P} {round pending : List (Node P)} {rounds : Nat}
    (done : ∀ {context after result}, outcome (Node.loop bound [] condition round rounds) context = some (result, after) →
      Yields (.loop [] condition round) context result after)
    (follows : ∀ node ∈ pending, Follows bound node)
    (ends : outcome (Node.loop bound pending condition round rounds) context = some (result, after)) :
    Yields (.loop pending condition round) context result after := by
  induction pending generalizing context with
  | nil => exact done ends
  | cons first rest ih =>
    obtain ⟨one, others⟩ := List.forall_mem_cons.1 follows
    rw [Node.loop_cons] at ends
    obtain ⟨fault, fails, rfl⟩ | ⟨value, middle, yields, more⟩ := outcome_bind_eq_some ends
    · exact .performFails (one fails)
    · exact .perform (one yields) (ih others more)

theorem yields_loop {condition : Node P} {round pending : List (Node P)} (test : Follows bound condition)
    (follows : ∀ node ∈ round, Follows bound node) (first : ∀ node ∈ pending, Follows bound node) {rounds : Nat}
    (ends : outcome (Node.loop bound pending condition round rounds) context = some (result, after)) :
    Yields (.loop pending condition round) context result after := by
  induction rounds generalizing pending context after result with
  | zero =>
    refine yields_pending ?_ first ends
    intro context after result ends
    cases ends
  | succ rounds ih =>
    refine yields_pending ?_ first ends
    intro context after result ends
    rw [Node.loop_succ] at ends
    obtain ⟨fault, fails, rfl⟩ | ⟨holds, middle, tested, more⟩ := outcome_bind_eq_some ends
    · exact .loopFails (tested_of_test test fails)
    · have tested := tested_of_test test tested
      cases holds with
      | false =>
        obtain ⟨answer, other, tested⟩ := tested
        cases more
        exact .leaves tested other
      | true => exact .again tested (ih follows more)

theorem exists_inScope {task : Task P} {inside : Evaluation P Value} {name : String}
    (yields : ∀ {after result}, outcome inside (context.child name) = some (result, after) →
      Yields task (context.inside name) result after)
    (ends : outcome (inScope name inside) context = some (result, after)) :
    ∃ own, Yields task (context.inside name) result ⟨own, after.innermost :: after.outer⟩ := by
  rw [outcome_inScope, Option.map_eq_some_iff] at ends
  obtain ⟨⟨result', left⟩, ended, same⟩ := ends
  obtain ⟨rfl, rfl⟩ := Prod.mk.inj same
  have done := yields ended
  obtain ⟨own, outer⟩ := left
  cases done.outer
  exact ⟨own, done⟩

theorem nearest_of_findSome? {name : String} {scopes : List Scope} {value : Value}
    (found : scopes.findSome? (fun scope => scope.get? name) = some value) : Nearest name scopes value := by
  induction scopes with
  | nil => cases found
  | cons scope outer ih =>
    rw [List.findSome?_cons] at found
    cases bound : scope.get? name with
    | none =>
      rw [bound] at found
      exact .further bound (ih found)
    | some other =>
      rw [bound] at found
      cases found
      exact .here bound

theorem follows_node (node : Node P) : Follows bound node := by
  induction node using Node.tree_induction with
  | literal mark value =>
    intro context after result ends
    cases ends
    exact .literal
  | binary mark left operator right one two =>
    intro context after result ends
    rw [Node.evaluate] at ends
    obtain ⟨fault, fails, rfl⟩ | ⟨a, middle, first, others⟩ := outcome_bind_eq_some ends
    · exact .leftFails (one fails)
    · obtain ⟨fault, fails, rfl⟩ | ⟨b, last, second, done⟩ := outcome_bind_eq_some others
      · exact .rightFails (one first) (two fails)
      · rw [outcome_lift] at done
        cases done
        exact .binary (one first) (two second)
  | unary mark operator operand ih =>
    intro context after result ends
    rw [Node.evaluate] at ends
    obtain ⟨fault, fails, rfl⟩ | ⟨a, middle, first, done⟩ := outcome_bind_eq_some ends
    · exact .operandFails (ih fails)
    · rw [outcome_lift] at done
      cases done
      exact .unary (ih first)
  | assignment mark name value ih =>
    intro context after result ends
    rw [Node.evaluate] at ends
    obtain ⟨fault, fails, rfl⟩ | ⟨a, middle, first, done⟩ := outcome_bind_eq_some ends
    · exact .valueFails (ih fails)
    · cases done
      exact .assignment (ih first)
  | retrieval mark name =>
    intro context after result ends
    rw [Node.evaluate, outcome_retrieve] at ends
    cases found : context.get? name with
    | some value =>
      rw [found] at ends
      cases ends
      exact .retrieval (nearest_of_findSome? found)
    | none =>
      rw [found] at ends
      cases ends
      exact .undefined (List.findSome?_eq_none_iff.1 found)
  | scope mark name boundary statements ih =>
    intro context after result ends
    rw [Node.evaluate] at ends
    cases boundary with
    | false => exact .sequence (yields_statements ih ends)
    | true =>
      obtain ⟨own, body⟩ := exists_inScope (yields_statements ih) ends
      exact .block body
  | choice mark branches ih =>
    intro context after result ends
    exact .choice (yields_branches ih ends)
  | whileLoop mark bodyFirst condition body test ih =>
    intro context after result ends
    have round : ∀ node ∈ [body], Follows bound node := List.forall_mem_singleton.2 ih
    cases bodyFirst with
    | false =>
      rw [Node.evaluate_whileLoop] at ends
      obtain ⟨own, rounds⟩ := exists_inScope (yields_loop test round (List.forall_mem_nil _)) ends
      exact .whileLoop rounds
    | true =>
      rw [Node.evaluate_doLoop] at ends
      obtain ⟨own, rounds⟩ := exists_inScope (yields_loop test round round) ends
      exact .doLoop rounds
  | forLoop mark start condition step body first test next ih =>
    intro context after result ends
    have round : ∀ node ∈ [body, step], Follows bound node :=
      List.forall_mem_cons.2 ⟨ih, List.forall_mem_singleton.2 next⟩
    rw [Node.evaluate_forLoop] at ends
    obtain ⟨own, rounds⟩ := exists_inScope (yields_loop test round (List.forall_mem_singleton.2 first)) ends
    exact .forLoop rounds

end Rules

def Task.run (bound rounds : Nat) : Task P → Evaluation P Value
  | .node tree => tree.evaluate bound
  | .statements last list => Node.evaluateAll bound last list
  | .test condition => do
    (← condition.evaluate bound).binary ⟨.equal, none, condition.span⟩ (.boolean true)
  | .branches list => Node.evaluateBranches bound list
  | .loop pending condition round => Node.loop bound pending condition round rounds

/-- The task ends like this under all bounds that are large enough. -/
def Settles (task : Task P) (before : Context) (result : Except (Fault P) Value) (after : Context) : Prop :=
  ∃ least, ∀ bound rounds, least ≤ bound → least ≤ rounds →
    outcome (task.run bound rounds) before = some (result, after)

section Settled

variable {task first second : Task P} {before middle after start last : Context}
  {result one two : Except (Fault P) Value}

theorem settles_of (same : ∀ bound rounds, outcome (task.run bound rounds) before = some (result, after)) :
    Settles task before result after :=
  ⟨0, fun bound rounds _ _ => same bound rounds⟩

theorem Settles.step (settles : Settles first start one last)
    (same : ∀ {bound rounds}, outcome (first.run bound rounds) start = some (one, last) →
      outcome (task.run bound rounds) before = some (result, after)) : Settles task before result after := by
  obtain ⟨least, ends⟩ := settles
  exact ⟨least, fun bound rounds enough plenty => same (ends bound rounds enough plenty)⟩

theorem Settles.steps {start' last' : Context} (settles : Settles first start one last)
    (settles' : Settles second start' two last')
    (same : ∀ {bound rounds}, outcome (first.run bound rounds) start = some (one, last) →
      outcome (second.run bound rounds) start' = some (two, last') →
      outcome (task.run bound rounds) before = some (result, after)) : Settles task before result after := by
  obtain ⟨least, ends⟩ := settles
  obtain ⟨least', ends'⟩ := settles'
  refine ⟨max least least', fun bound rounds enough plenty => same ?_ ?_⟩
  · exact ends bound rounds (Nat.le_trans (Nat.le_max_left _ _) enough) (Nat.le_trans (Nat.le_max_left _ _) plenty)
  · exact ends' bound rounds (Nat.le_trans (Nat.le_max_right _ _) enough) (Nat.le_trans (Nat.le_max_right _ _) plenty)

theorem settles_succ (settles : ∃ least, ∀ bound rounds, least ≤ bound → least ≤ rounds →
      outcome (task.run bound (rounds + 1)) before = some (result, after)) : Settles task before result after := by
  obtain ⟨least, ends⟩ := settles
  refine ⟨least + 1, fun bound rounds enough plenty => ?_⟩
  obtain ⟨fewer, rfl⟩ := Nat.exists_eq_add_of_le' (Nat.le_trans (Nat.le_add_left 1 _) plenty)
  exact ends bound fewer (by omega) (by omega)

end Settled

theorem Nearest.get? {name : String} {context : Context} {value : Value}
    (nearest : Nearest name (context.innermost :: context.outer) value) : context.get? name = some value := by
  unfold Context.get?
  generalize context.innermost :: context.outer = scopes at nearest
  induction nearest with
  | here bound => simp [bound]
  | further free _ ih => simpa [List.findSome?_cons, free] using ih

theorem outcome_test {bound rounds : Nat} {condition : Node P} {context after : Context}
    {result : Except (Fault P) Value}
    (tested : outcome (Task.run bound rounds (.test condition)) context = some (result, after)) :
    outcome (Node.test bound condition) context =
      some (result.map fun answer => answer.equal (.boolean true), after) := by
  unfold Node.test
  obtain ⟨fault, fails, rfl⟩ | ⟨value, middle, yields, done⟩ := outcome_bind_eq_some tested
  · exact outcome_bind_of_error _ fails
  · rw [outcome_lift] at done
    obtain ⟨rfl, rfl⟩ := Prod.mk.inj (Option.some.inj done)
    rw [outcome_bind_of_ok _ yields, Value.holds_eq, outcome_lift]

theorem settles_inScope {task : Task P} {node : Node P} {name : String}
    {own scope : Scope} {outer : List Scope} {before : Context} {result : Except (Fault P) Value}
    (same : ∀ bound, node.evaluate bound = inScope name (task.run bound bound))
    (settles : Settles task (before.inside name) result ⟨own, scope :: outer⟩) :
    Settles (.node node) before result ⟨scope, outer⟩ := by
  obtain ⟨least, ends⟩ := settles
  refine ⟨least, fun bound rounds enough _ => ?_⟩
  have inner : outcome (task.run bound bound) (before.child name) = some (result, ⟨own, scope :: outer⟩) :=
    ends bound bound enough enough
  change outcome (node.evaluate bound) before = _
  rw [same, outcome_inScope, inner]
  rfl

theorem Yields.settles {task : Task P} {before after : Context} {result : Except (Fault P) Value}
    (yields : Yields task before result after) : Settles task before result after := by
  induction yields with
  | literal => exact settles_of fun _ _ => rfl
  | binary _ _ one two =>
    refine one.steps two fun first second => ?_
    refine (outcome_bind_of_ok _ first).trans ((outcome_bind_of_ok _ second).trans ?_)
    exact outcome_lift _
  | leftFails _ one => exact one.step fun fails => outcome_bind_of_error _ fails
  | rightFails _ _ one two =>
    refine one.steps two fun first fails => ?_
    exact (outcome_bind_of_ok _ first).trans (outcome_bind_of_error _ fails)
  | unary _ one =>
    refine one.step fun first => ?_
    exact (outcome_bind_of_ok _ first).trans (outcome_lift _)
  | operandFails _ one => exact one.step fun fails => outcome_bind_of_error _ fails
  | assignment _ one => exact one.step fun first => outcome_bind_of_ok _ first
  | valueFails _ one => exact one.step fun fails => outcome_bind_of_error _ fails
  | retrieval nearest =>
    refine settles_of fun _ _ => ?_
    refine (outcome_retrieve _ _).trans ?_
    rw [nearest.get?]
  | @undefined mark name context free =>
    refine settles_of fun _ _ => ?_
    refine (outcome_retrieve _ _).trans ?_
    have unbound : context.get? name = none := List.findSome?_eq_none_iff.2 free
    rw [unbound]
    rfl
  | block _ ih => exact settles_inScope (fun _ => rfl) ih
  | sequence _ ih => exact ih.step id
  | choice _ ih => exact ih.step id
  | whileLoop _ ih => exact settles_inScope (fun _ => Node.evaluate_whileLoop _ _ _) ih
  | doLoop _ ih => exact settles_inScope (fun _ => Node.evaluate_doLoop _ _ _) ih
  | forLoop _ ih => exact settles_inScope (fun _ => Node.evaluate_forLoop _ _ _ _ _) ih
  | finished => exact settles_of fun _ _ => rfl
  | statement _ shows _ one others =>
    subst shows
    refine one.steps others fun first rest => ?_
    exact (outcome_bind_of_ok _ first).trans rest
  | statementFails _ one => exact one.step fun fails => outcome_bind_of_error _ fails
  | test _ one =>
    refine one.step fun first => ?_
    exact (outcome_bind_of_ok _ first).trans (outcome_lift _)
  | testFails _ one => exact one.step fun fails => outcome_bind_of_error _ fails
  | noBranch => exact settles_of fun _ _ => rfl
  | taken _ _ one chosen =>
    refine one.steps chosen fun tested body => ?_
    simp only [Task.run]
    rw [Node.evaluateBranches_cons, outcome_bind_of_ok _ (outcome_test tested)]
    exact body
  | @passed condition body rest answer _ _ _ _ _ other _ one others =>
    refine one.steps others fun tested more => ?_
    simp only [Task.run]
    rw [Node.evaluateBranches_cons, outcome_bind_of_ok _ (outcome_test tested)]
    simp only [Value.equal_false other, Bool.false_eq_true, if_false]
    exact more
  | branchFails _ one =>
    refine one.step fun tested => ?_
    simp only [Task.run]
    rw [Node.evaluateBranches_cons, outcome_bind_of_error _ (outcome_test tested)]
  | perform _ _ one others =>
    refine one.steps others fun first rest => ?_
    simp only [Task.run]
    rw [Node.loop_cons]
    exact (outcome_bind_of_ok _ first).trans rest
  | performFails _ one =>
    refine one.step fun fails => ?_
    simp only [Task.run]
    rw [Node.loop_cons]
    exact outcome_bind_of_error _ fails
  | again _ _ one others =>
    obtain ⟨least, tested⟩ := one
    obtain ⟨least', ends⟩ := others
    refine settles_succ ⟨max least least', fun bound rounds enough plenty => ?_⟩
    have test := tested bound (rounds + 1) (by omega) (by omega)
    simp only [Task.run]
    rw [Node.loop_succ, outcome_bind_of_ok _ (outcome_test test)]
    exact ends bound rounds (by omega) (by omega)
  | leaves _ other one =>
    obtain ⟨least, tested⟩ := one
    refine settles_succ ⟨least, fun bound rounds enough plenty => ?_⟩
    have test := tested bound (rounds + 1) enough (Nat.le_succ_of_le plenty)
    simp only [Task.run]
    rw [Node.loop_succ, outcome_bind_of_ok _ (outcome_test test)]
    simp only [Value.equal_false other, Bool.false_eq_true, if_false]
    rfl
  | loopFails _ one =>
    obtain ⟨least, tested⟩ := one
    refine settles_succ ⟨least, fun bound rounds enough plenty => ?_⟩
    have test := tested bound (rounds + 1) enough (Nat.le_succ_of_le plenty)
    simp only [Task.run]
    rw [Node.loop_succ, outcome_bind_of_error _ (outcome_test test)]

theorem Yields.unique {task : Task P} {before after after' : Context} {result result' : Except (Fault P) Value}
    (one : Yields task before result after) (two : Yields task before result' after') :
    result = result' ∧ after = after' := by
  obtain ⟨least, ends⟩ := one.settles
  obtain ⟨least', ends'⟩ := two.settles
  have first := ends (max least least') (max least least') (Nat.le_max_left _ _) (Nat.le_max_left _ _)
  have second := ends' (max least least') (max least least') (Nat.le_max_right _ _) (Nat.le_max_right _ _)
  simpa using first.symm.trans second

end Reckon
