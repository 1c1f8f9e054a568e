import Reckon.Proofs.Evaluation.Agreement
import Reckon.Proofs.Runs

set_option autoImplicit false

/-!
# Hidden values

Whether a statement hides its value decides what is reported for it and what it leaves as the last
result. Two runs that differ in this alone differ in nothing else, unless the last result is looked up.
-/

namespace Reckon

open Reckon.Evaluation

variable {P : Type}

namespace Node

variable {node left right : Node P} {bound : Nat}

def topLevel : Node P → List (Node P)
  | scope _ _ false list => list
  | node => [node]

theorem evaluate_silenced (node : Node P) : node.silenced.evaluate bound = node.evaluate bound := by
  cases node <;> simp [silenced, withMark, evaluate, mark]

theorem evaluate_congr_silenced (same : left.silenced = right.silenced) :
    left.evaluate bound = right.evaluate bound := by
  rw [← evaluate_silenced left, same, evaluate_silenced]

end Node

abbrev Context.AgreeButLast : Context → Context → Prop := Agree (· ≠ lastResult)

theorem Context.Agree.set_last {first second : Context} (agree : AgreeButLast first second) (one two : Value) :
    AgreeButLast (first.set lastResult one) (second.set lastResult two) where
  name := agree.name
  alike := by
    intro name other
    simpa [get?_set, other] using agree.alike name other

section Statements

variable {left right : Node P} {bound : Nat} {first second : Context}

inductive ShowAlike (left right : Node P) :
    Option (Except (Fault P) Value × Context) → Option (Except (Fault P) Value × Context) → Prop where
  | endless : ShowAlike left right none none
  | fails (fault : Fault P) {first second : Context} (agree : Context.AgreeButLast first second) :
    ShowAlike left right (some (.error fault, first)) (some (.error fault, second))
  | yields (value : Value) {first second : Context} (agree : Context.AgreeButLast first second) :
    ShowAlike left right (some (.ok (left.shown value), first)) (some (.ok (right.shown value), second))

theorem evaluateStatement_shows (same : left.silenced = right.silenced) (unseen : ¬ left.Retrieves lastResult)
    (agree : Context.AgreeButLast first second) (bound : Nat) :
    ShowAlike left right (outcome (left.evaluateStatement bound) first)
      (outcome (right.evaluateStatement bound) second) := by
  have looked : Context.Agree left.Retrieves first second := by
    refine agree.mono fun name retrieves => ?_
    rintro rfl
    exact unseen retrieves
  have evaluated := (Node.sees_evaluate left : Node.SeesOnly _ bound left) first second looked
  generalize one : outcome (left.evaluate bound) first = ended at evaluated
  generalize two : outcome (left.evaluate bound) second = ended' at evaluated
  rw [Node.evaluate_congr_silenced same] at two
  cases evaluated with
  | endless =>
    rw [Node.evaluateStatement_of_none one, Node.evaluateStatement_of_none two]
    exact .endless
  | @ends result first' second' kept =>
    cases result with
    | error fault =>
      rw [Node.evaluateStatement_of_error one, Node.evaluateStatement_of_error two]
      exact .fails fault (agree.kept kept)
    | ok value =>
      rw [Node.evaluateStatement_of_ok one, Node.evaluateStatement_of_ok two]
      exact .yields value ((agree.kept kept).set_last _ _)

end Statements

namespace Run

variable {left right : Node P} {first second : List (Node P)} {one two : Run P}

/-- Runs of statements that differ in what they hide: as many results, each the value that both statements have
where it is not hidden, the same fault or none, and contexts that differ at most in the last result. -/
structure AlikeButHidden (first second : List (Node P)) (one two : Run P) : Prop where
  count : one.results.length = two.results.length
  shown : ∀ index < one.results.length, ∃ left right value, first[index]? = some left ∧ second[index]? = some right ∧
    one.results[index]? = some (left.shown value) ∧ two.results[index]? = some (right.shown value)
  faults : ∀ fault, one.answer = .error fault ↔ two.answer = .error fault
  contexts : Context.AgreeButLast one.context two.context

theorem AlikeButHidden.behind (alike : AlikeButHidden first second one two) (left right : Node P) (value : Value) :
    AlikeButHidden (left :: first) (right :: second) (one.behind [left.shown value])
      (two.behind [right.shown value]) where
  count := by simp [Run.behind, alike.count]
  shown := by
    intro index inside
    cases index with
    | zero => exact ⟨left, right, value, rfl, rfl, rfl, rfl⟩
    | succ index => exact alike.shown index (by simpa [Run.behind] using inside)
  faults := alike.faults
  contexts := alike.contexts

theorem statements_show {bound : Nat} (same : first.map Node.silenced = second.map Node.silenced)
    (unseen : ∀ statement ∈ first, ¬ statement.Retrieves lastResult) {before after : Context}
    (agree : Context.AgreeButLast before after) (shown other : Value) :
    Option.Rel (AlikeButHidden first second) (statements bound shown first before)
      (statements bound other second after) := by
  induction first generalizing second before after shown other with
  | nil =>
    obtain rfl := List.map_eq_nil_iff.1 same.symm
    exact .some ⟨rfl, by simp, by simp, agree.set_last _ _⟩
  | cons left rest ih =>
    obtain ⟨right, rest', rfl, one, others⟩ := List.map_eq_cons_iff.1 same.symm
    obtain ⟨here, later⟩ := List.forall_mem_cons.1 unseen
    have statement := evaluateStatement_shows one.symm here agree bound
    generalize ended : outcome (left.evaluateStatement bound) before = end1 at statement
    generalize ended' : outcome (right.evaluateStatement bound) after = end2 at statement
    cases statement with
    | endless =>
      rw [statements_of_none ended, statements_of_none ended']
      exact .none
    | fails fault agree =>
      rw [statements_of_error ended, statements_of_error ended']
      exact .some ⟨rfl, by simp [refused], by simp [refused], agree⟩
    | yields value agree =>
      rw [statements_of_ok ended, statements_of_ok ended']
      have more := ih others.symm later agree (left.shown value) (right.shown value)
      generalize statements bound (left.shown value) rest _ = run at more
      generalize statements bound (right.shown value) rest' _ = run' at more
      cases more with
      | none => exact .none
      | some alike => exact .some (alike.behind left right value)

theorem ofTree_topLevel [Inhabited P] (bound : Nat) (program : Node P) (context : Context) :
    ofTree bound context (some program) = statements bound .null program.topLevel context := by
  cases program with
  | scope _ _ boundary _ => cases boundary <;> rfl
  | _ => rfl

end Run

/-- Under every bound, two programs that differ only in which of their statements hide a value, and look up no last
result outside blocks and loops, both do not end, or give results, faults and contexts that differ only
in the hidden values and the last result. -/
theorem runs_alike_but_hidden [Inhabited P] {first second : Node P} {before after : Context}
    (same : first.topLevel.map Node.silenced = second.topLevel.map Node.silenced)
    (unseen : ∀ statement ∈ first.topLevel, ¬ statement.Retrieves lastResult)
    (agree : Context.AgreeButLast before after) (bound : Nat) :
    Option.Rel (Run.AlikeButHidden first.topLevel second.topLevel) (Run.ofTree bound before (some first))
      (Run.ofTree bound after (some second)) := by
  rw [Run.ofTree_topLevel, Run.ofTree_topLevel]
  exact Run.statements_show same unseen agree .null .null

theorem runs_alike_but_hidden_failing :
    let mark : Mark Unit := ⟨.point (), true⟩
    let hidden : Mark Unit := ⟨.point (), false⟩
    let block (mark : Mark Unit) := Node.scope mark "anonymous" true [.literal mark .null, .retrieval mark lastResult]
    let first := Node.scope mark "program" false
      [.assignment hidden "x" (.literal mark (.boolean true)), .retrieval mark "x", block mark, .retrieval mark "y"]
    let second := Node.scope mark "program" false
      [.assignment mark "x" (.literal mark (.boolean true)), .retrieval hidden "x", block mark, .retrieval mark "y"]
    let before := Context.root "global"
    let after := before.set lastResult (.boolean false)
    let fault : Fault Unit := ⟨.undefinedVariable "y" "global", .point (), none⟩
    let ended (context : Context) (results : List Value) : Run Unit :=
      ⟨results, .error fault, (context.set "x" (.boolean true)).set lastResult .null⟩
    first.topLevel.map Node.silenced = second.topLevel.map Node.silenced ∧
      (∀ statement ∈ first.topLevel, ¬ statement.Retrieves lastResult) ∧ Context.AgreeButLast before after ∧
      Run.ofTree 0 before (some first) = some (ended before [.null, .boolean true, .null]) ∧
      Run.ofTree 0 after (some second) = some (ended after [.boolean true, .null, .null]) ∧
      Option.Rel (Run.AlikeButHidden first.topLevel second.topLevel) (Run.ofTree 0 before (some first))
        (Run.ofTree 0 after (some second)) := by
  intro mark hidden block first second before after fault ended
  have same : first.topLevel.map Node.silenced = second.topLevel.map Node.silenced := rfl
  have agree : Context.AgreeButLast before after :=
    ⟨rfl, fun name other => by simp [after, Context.get?_set, other]⟩
  have unseen : ∀ statement ∈ first.topLevel, ¬ statement.Retrieves lastResult := by
    have simple (name : String) : ¬ (Node.literal mark (.boolean true)).Retrieves name := by
      rw [Node.retrieves_iff]
      simp [Node.retrievedName?, Node.children]
    intro statement member
    rw [Node.retrieves_iff]
    simp only [first, Node.topLevel, List.mem_cons, List.not_mem_nil, or_false] at member
    rcases member with rfl | rfl | rfl | rfl <;>
      simp [block, Node.retrievedName?, Node.children, Node.sharesScope, lastResult, simple]
  exact ⟨same, unseen, agree, rfl, rfl, runs_alike_but_hidden same unseen agree 0⟩

end Reckon
