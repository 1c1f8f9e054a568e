import Reckon.Proofs.Evaluation.Adequacy

set_option autoImplicit false

/-!
# What evaluation leaves alone

Evaluation changes the innermost scope only, and there only the names that the node writes. This
holds of what is left after a fault as well.
-/

namespace Reckon

open Reckon.Evaluation

variable {P : Type} {before middle after : Context} {names others : String → Prop}

/-- Nothing changes but what these names are bound to in the innermost scope. -/
structure Keeps (names : String → Prop) (before after : Context) : Prop where
  outer : after.outer = before.outer
  name : after.name = before.name
  bound : ∀ name, before.has name = true → after.has name = true
  others : ∀ name, ¬ names name → after.innermost.get? name = before.innermost.get? name

theorem Keeps.refl (names : String → Prop) (context : Context) : Keeps names context context :=
  ⟨rfl, rfl, fun _ has => has, fun _ _ => rfl⟩

theorem Keeps.trans (first : Keeps names before middle) (second : Keeps names middle after) :
    Keeps names before after where
  outer := second.outer.trans first.outer
  name := second.name.trans first.name
  bound := fun name has => second.bound name (first.bound name has)
  others := fun name other => (second.others name other).trans (first.others name other)

theorem Keeps.mono (keeps : Keeps names before after) (more : ∀ name, names name → others name) :
    Keeps others before after :=
  ⟨keeps.outer, keeps.name, keeps.bound, fun name other => keeps.others name fun inside => other (more name inside)⟩

theorem has_set (context : Context) (name key : String) (value : Value) :
    (context.set name value).has key = (decide (key = name) || context.has key) := by
  by_cases same : key = name <;> simp [Context.has, Scope.has, Context.set, Scope.get?_set, same]

theorem keeps_set (context : Context) {name : String} (value : Value) (written : names name) :
    Keeps names context (context.set name value) where
  outer := rfl
  name := rfl
  bound := by
    intro key has
    rw [has_set, has, Bool.or_true]
  others := by
    intro key other
    have differs : key ≠ name := by
      rintro rfl
      exact other written
    simp [Context.set, Scope.get?_set, differs]

def Task.Writes : Task P → String → Prop
  | .node tree, name => tree.Writes name
  | .statements _ list, name => name = lastResult ∨ ∃ statement ∈ list, statement.Writes name
  | .test condition, name => condition.Writes name
  | .branches list, name => ∃ branch ∈ list, branch.1.Writes name ∨ branch.2.Writes name
  | .loop pending condition round, name =>
    condition.Writes name ∨ ∃ node ∈ pending ++ round, node.Writes name

theorem Yields.keeps {task : Task P} {outcome : Except (Fault P) Value}
    (yields : Yields task before outcome after) : Keeps task.Writes before after := by
  induction yields with
  | literal | retrieval | undefined | finished | noBranch => exact .refl _ _
  | binary _ _ one two | rightFails _ _ one two =>
    exact (one.mono fun _ writes => writes.inside rfl (by simp [Node.children])).trans
      (two.mono fun _ writes => writes.inside rfl (by simp [Node.children]))
  | leftFails _ one => exact one.mono fun _ writes => writes.inside rfl (by simp [Node.children])
  | unary _ one | operandFails _ one | valueFails _ one =>
    exact one.mono fun _ writes => writes.inside rfl (by simp [Node.children])
  | assignment _ one =>
    exact (one.mono fun _ writes => writes.inside rfl (by simp [Node.children])).trans
      (keeps_set _ _ (Node.writes_of_boundName? rfl))
  -- What is left behind a scope of its own is the context before it.
  | block body | whileLoop body | doLoop body | forLoop body =>
    cases body.outer
    exact .refl _ _
  | sequence _ ih =>
    refine ih.mono fun name writes => ?_
    rcases writes with rfl | ⟨inner, member, writes⟩
    · exact Node.writes_of_boundName? rfl
    · exact writes.inside rfl member
  | choice _ ih =>
    refine ih.mono fun name writes => ?_
    obtain ⟨branch, member, writes | writes⟩ := writes
    · exact writes.inside rfl (Node.condition_mem_children member)
    · exact writes.inside rfl (Node.body_mem_children member)
  | statement _ _ _ one others =>
    refine (one.mono fun _ writes => Or.inr ⟨_, List.mem_cons_self, writes⟩).trans ?_
    refine (keeps_set _ _ (.inl rfl)).trans (others.mono fun _ writes => ?_)
    exact writes.imp_right fun ⟨inner, member, writes⟩ => ⟨inner, List.mem_cons_of_mem _ member, writes⟩
  | statementFails _ one => exact one.mono fun _ writes => Or.inr ⟨_, List.mem_cons_self, writes⟩
  | test _ ih | testFails _ ih => exact ih
  | taken _ _ one chosen =>
    exact (one.mono fun _ writes => ⟨_, List.mem_cons_self, .inl writes⟩).trans
      (chosen.mono fun _ writes => ⟨_, List.mem_cons_self, .inr writes⟩)
  | passed _ _ _ one others =>
    exact (one.mono fun _ writes => ⟨_, List.mem_cons_self, .inl writes⟩).trans
      (others.mono fun _ ⟨branch, member, writes⟩ => ⟨branch, List.mem_cons_of_mem _ member, writes⟩)
  | branchFails _ one => exact one.mono fun _ writes => ⟨_, List.mem_cons_self, .inl writes⟩
  | perform _ _ one others =>
    exact (one.mono fun _ writes => Or.inr ⟨_, List.mem_cons_self, writes⟩).trans
      (others.mono fun _ writes => writes.imp_right fun ⟨node, member, writes⟩ =>
        ⟨node, List.mem_cons_of_mem _ member, writes⟩)
  | performFails _ one => exact one.mono fun _ writes => Or.inr ⟨_, List.mem_cons_self, writes⟩
  | again _ _ one others =>
    refine (one.mono fun _ writes => Or.inl writes).trans (others.mono fun _ writes => ?_)
    exact writes.imp_right fun ⟨node, member, writes⟩ => ⟨node, by simpa using member, writes⟩
  | leaves _ _ one | loopFails _ one => exact one.mono fun _ writes => Or.inl writes

theorem Yields.unchanged {node : Node P} {outcome : Except (Fault P) Value}
    (yields : Yields (.node node) before outcome after) (own : node.sharesScope = false) : after = before := by
  cases yields with
  | block body | whileLoop body | doLoop body | forLoop body =>
    cases body.outer
    rfl
  | _ => cases own

/-- After a value and after a fault, the outer scopes are as before, no name is lost, and the names that the
node does not write are bound as before. A statement that succeeds binds the last result besides. -/
theorem evaluate_keeps (node : Node P) (bound : Nat) (before after : Context) (result : Except (Fault P) Value) :
    (outcome (node.evaluate bound) before = some (result, after) →
      Keeps node.Writes before after ∧ (node.sharesScope = false → after = before)) ∧
    (outcome (node.evaluateStatement bound) before = some (result, after) →
      match result with
      | .error fault => outcome (node.evaluate bound) before = some (.error fault, after)
      | .ok shown => ∃ value middle, outcome (node.evaluate bound) before = some (.ok value, middle) ∧
          shown = node.shown value ∧ after = middle.set lastResult shown) := by
  constructor
  · intro ends
    have yields := follows_node node ends
    exact ⟨yields.keeps, yields.unchanged⟩
  · intro ends
    obtain ⟨fault, fails, rfl⟩ | ⟨value, middle, yields, rfl, rfl⟩ := Node.evaluateStatement_eq_some ends
    · exact fails
    · exact ⟨value, middle, yields, rfl, rfl⟩

theorem evaluate_keeps_failing :
    let mark : Mark Unit := ⟨.point (), true⟩
    let assigns (name : String) := Node.assignment mark name (.literal mark (.boolean true))
    let round := Node.scope mark "while" false [assigns "y", .retrieval mark "z"]
    let node := Node.binary mark (assigns "x") ⟨.and, none, .point ()⟩ (.whileLoop mark false (.retrieval mark "x") round)
    let before := Context.root "global"
    let after := before.set "x" (.boolean true)
    let fault : Fault Unit := ⟨.undefinedVariable "z" "while", .point (), none⟩
    outcome (node.evaluate 1) before = some (.error fault, after) ∧
      outcome (node.evaluateStatement 1) before = some (.error fault, after) ∧
      Keeps node.Writes before after ∧ outcome (node.evaluate 1) before = some (.error fault, after) := by
  intro mark assigns round node before after fault
  have ends : outcome (node.evaluate 1) before = some (.error fault, after) := rfl
  have states : outcome (node.evaluateStatement 1) before = some (.error fault, after) := rfl
  have keeps := evaluate_keeps node 1 before after (.error fault)
  exact ⟨ends, states, (keeps.1 ends).1, keeps.2 states⟩

end Reckon
