import Reckon.Proofs.Evaluation.Frame
import Reckon.Proofs.Number.Numerals

set_option autoImplicit false

/-!
# Counting loops

A loop that counts a name up from zero evaluates its body once for each number below its limit, whatever
the body does, unless the body assigns to the name in the scope of the loop or fails.
-/

namespace Reckon

open Reckon.Evaluation

variable {P : Type}

/-- From one test of the condition on: the contexts in which the body is evaluated, how the loop ends and the context
it leaves. -/
inductive Laps (condition body step : Node P) :
    Context → List Context → Except (Fault P) Value → Context → Prop where
  | leaves {answer : Value} {before after : Context} (tested : Yields (.test condition) before (.ok answer) after)
    (other : answer ≠ .boolean true) : Laps condition body step before [] (.ok .null) after
  | testFails {fault : Fault P} {before after : Context} (tested : Yields (.test condition) before (.error fault) after) :
    Laps condition body step before [] (.error fault) after
  | bodyFails {fault : Fault P} {before start after : Context}
    (holds : Yields (.test condition) before (.ok (.boolean true)) start)
    (fails : Yields (.node body) start (.error fault) after) :
    Laps condition body step before [start] (.error fault) after
  | stepFails {a : Value} {fault : Fault P} {before start middle after : Context}
    (holds : Yields (.test condition) before (.ok (.boolean true)) start)
    (done : Yields (.node body) start (.ok a) middle) (fails : Yields (.node step) middle (.error fault) after) :
    Laps condition body step before [start] (.error fault) after
  | again {a b : Value} {result : Except (Fault P) Value} {starts : List Context}
    {before start middle next after : Context}
    (holds : Yields (.test condition) before (.ok (.boolean true)) start)
    (done : Yields (.node body) start (.ok a) middle) (stepped : Yields (.node step) middle (.ok b) next)
    (others : Laps condition body step next starts result after) :
    Laps condition body step before (start :: starts) result after

variable {condition body step : Node P} {before after after' : Context} {starts starts' : List Context}
  {result result' : Except (Fault P) Value}

theorem Laps.unique (one : Laps condition body step before starts result after)
    (two : Laps condition body step before starts' result' after') :
    starts = starts' ∧ result = result' ∧ after = after' := by
  induction one generalizing starts' result' after' with
  | leaves tested other => cases two <;> grind [→ Yields.unique]
  | testFails tested => cases two <;> grind [→ Yields.unique]
  | bodyFails holds fails => cases two <;> grind [→ Yields.unique]
  | stepFails holds done fails => cases two <;> grind [→ Yields.unique]
  | again holds done stepped others ih => cases two <;> grind [→ Yields.unique]

theorem Laps.yields (laps : Laps condition body step before starts result after) :
    Yields (.loop [] condition [body, step]) before result after := by
  induction laps with
  | leaves tested other => exact .leaves tested other
  | testFails tested => exact .loopFails tested
  | bodyFails holds fails => exact .again holds (.performFails fails)
  | stepFails holds done fails => exact .again holds (.perform done (.performFails fails))
  | again holds done stepped _ ih => exact .again holds (.perform done (.perform stepped ih))

/-- The contexts in which a loop evaluates its body, and how the loop ends. -/
inductive Visits : Node P → Context → List Context → Except (Fault P) Value → Prop where
  | startFails {mark : Mark P} {start condition step body : Node P} {fault : Fault P} {context after : Context}
    (fails : Yields (.node start) (context.inside "for") (.error fault) after) :
    Visits (.forLoop mark start condition step body) context [] (.error fault)
  | laps {mark : Mark P} {start condition step body : Node P} {a : Value} {result : Except (Fault P) Value}
    {starts : List Context} {context before after : Context}
    (started : Yields (.node start) (context.inside "for") (.ok a) before)
    (laps : Laps condition body step before starts result after) :
    Visits (.forLoop mark start condition step body) context starts result

variable {loop : Node P} {context : Context}

theorem Visits.unique (one : Visits loop context starts result) (two : Visits loop context starts' result') :
    starts = starts' ∧ result = result' := by
  cases one <;> cases two <;> grind [→ Yields.unique, → Laps.unique]

theorem Visits.yields (visits : Visits loop context starts result) : Yields (.node loop) context result context := by
  cases visits with
  | @startFails _ _ _ _ _ _ _ after fails =>
    obtain ⟨own, outer⟩ := after
    cases fails.outer
    exact .forLoop (.performFails fails)
  | @laps _ _ _ _ _ _ _ _ _ before after started laps =>
    have rounds := Yields.perform started laps.yields
    obtain ⟨own, outer⟩ := after
    cases rounds.outer
    exact .forLoop rounds

/-- An assignment to the name outside blocks and loops of the node's own. -/
def Node.AssignsTo (node : Node P) (name : String) : Prop :=
  ∃ mark value, Node.Part Node.sharesScope (.assignment mark name value) node

theorem Node.assignsTo_iff {node : Node P} {name : String} : node.AssignsTo name ↔
    (∃ mark value, node = .assignment mark name value) ∨
      node.sharesScope = true ∧ ∃ child ∈ node.children, child.AssignsTo name := by
  constructor
  · rintro ⟨mark, value, inner⟩
    cases inner with
    | self => exact .inl ⟨mark, value, rfl⟩
    | inside entered member inner => exact .inr ⟨entered, _, member, mark, value, inner⟩
  · rintro (⟨mark, value, rfl⟩ | ⟨entered, child, member, mark, value, inner⟩)
    · exact ⟨mark, value, .self⟩
    · exact ⟨mark, value, .inside entered member inner⟩

theorem Node.AssignsTo.of_writes {node : Node P} {name : String} (writes : node.Writes name) (other : name ≠ lastResult) :
    node.AssignsTo name := by
  obtain ⟨part, inner, bound⟩ := writes
  cases part with
  | assignment mark key value =>
    obtain rfl : key = name := by simpa [Node.boundName?] using bound
    exact ⟨mark, value, inner⟩
  | scope mark key boundary statements =>
    cases boundary with
    | false => exact absurd (by simpa [Node.boundName?] using bound.symm) other
    | true => cases bound
  | _ => cases bound

def numeral (n : Nat) : Value := .number (Decimal.ofSpelling (Nat.toDigits 10 n)).toFloat

/-- The tree of a loop that counts the name from zero up to the limit, with any marks and this body. -/
inductive CountsTo (name : String) (limit : Nat) (body : Node P) : Node P → Prop where
  | mk {mark set zero below counter top next sum counter' one : Mark P} {less plus : Token P}
    (compares : less.kind = .less) (adds : plus.kind = .plus) :
    CountsTo name limit body (.forLoop mark (.assignment set name (.literal zero (numeral 0)))
      (.binary below (.retrieval counter name) less (.literal top (numeral limit)))
      (.assignment next name (.binary sum (.retrieval counter' name) plus (.literal one (numeral 1)))) body)

theorem truth_test (b : Bool) (span : Span P) :
    (Value.boolean b).binary ⟨.equal, none, span⟩ (.boolean true) = .ok (.boolean b) := by
  cases b <;> rfl

def whole (n : Nat) : Value := .number (numberOfInt n)

theorem numeral_eq {n : Nat} (small : n ≤ 2 ^ 53) : numeral n = whole n := by
  rw [numeral, whole, Decimal.toFloat_toDigits small]

theorem whole_less {operator : Token P} (compares : operator.kind = .less) {a b : Nat} (small : a ≤ 2 ^ 53)
    (small' : b ≤ 2 ^ 53) : (whole a).binary operator (whole b) = .ok (.boolean (decide (a < b))) := by
  simp only [whole, Value.binary, Value.operation?, compares, Value.numberOperation?, Value.comparison, Value.asNumber,
    Except.mapError]
  congr 2
  exact decide_eq_decide.2 (numberOfInt_lt a b small small')

theorem whole_plus {operator : Token P} (adds : operator.kind = .plus) {a b : Nat} (small : a + b ≤ 2 ^ 53) :
    (whole a).binary operator (whole b) = .ok (whole (a + b)) := by
  have sum : numberOfInt a + numberOfInt b = numberOfInt (a + b : Nat) := by
    rw [numberOfInt_add (by omega) (by omega) (by omega), Int.natCast_add]
  simp [whole, Value.binary, Value.operation?, adds, Value.numberOperation?, Value.arithmetic, Value.asNumber, sum,
    Except.mapError]

section Counter

variable {name : String} {k limit : Nat} {body loop : Node P}

def AtCount (name : String) (k : Nat) (context : Context) : Prop :=
  context.innermost.get? name = some (whole k)

theorem AtCount.get? (counted : AtCount name k before) : before.get? name = some (whole k) :=
  Nearest.get? (.here counted)

theorem atCount_bind (context : Context) (name : String) (k : Nat) : AtCount name k (context.bind name (whole k)) := by
  simp [AtCount, Context.bind, Scope.get?_set]

section Trees

variable {mark set counter number : Mark P} {operator : Token P}

theorem yields_below (compares : operator.kind = .less) (small : limit ≤ 2 ^ 53) {k : Nat} {before : Context}
    (inside : k ≤ limit) (counted : AtCount name k before) :
    Yields (.test (.binary mark (.retrieval counter name) operator (.literal number (numeral limit)))) before
      (.ok (.boolean (decide (k < limit)))) before := by
  have value : Yields (.node (.binary mark (.retrieval counter name) operator (.literal number (numeral limit)))) before
      (.ok (.boolean (decide (k < limit)))) before := by
    rw [← whole_less compares (Nat.le_trans inside small) small, ← numeral_eq small]
    exact .binary (.retrieval (.here counted)) .literal
  rw [← truth_test]
  exact .test value

theorem yields_next (adds : operator.kind = .plus) (small : limit ≤ 2 ^ 53) {k : Nat} {before : Context}
    (below : k < limit) (counted : AtCount name k before) :
    Yields (.node (.assignment set name (.binary mark (.retrieval counter name) operator (.literal number (numeral 1)))))
      before (.ok (whole (k + 1))) (before.bind name (whole (k + 1))) := by
  refine .assignment ?_
  rw [← whole_plus adds (by omega), ← numeral_eq (n := 1) (by decide)]
  exact .binary (.retrieval (.here counted)) .literal

end Trees

/-- From `k` on, the body is evaluated with each number below the limit in turn, or with those up to one for which
it fails. -/
structure Counted (name : String) (body : Node P) (k limit : Nat) (starts : List Context)
    (result : Except (Fault P) Value) : Prop where
  counter : ∀ index start, starts[index]? = some start → start.get? name = some (whole (k + index))
  ended : k + starts.length = limit ∧ result = .ok .null ∨
    ∃ complete start fault after, k + complete < limit ∧ starts.length = complete + 1 ∧ starts[complete]? = some start ∧
      Yields (.node body) start (.error fault) after ∧ result = .error fault

theorem Counted.cons {name : String} {body : Node P} {k limit : Nat} {starts : List Context} {start : Context}
    (counted : Counted name body (k + 1) limit starts result) (here : start.get? name = some (whole k)) :
    Counted name body k limit (start :: starts) result where
  counter := by
    intro index other found
    cases index with
    | zero =>
      cases found
      exact here
    | succ index =>
      rw [← Nat.add_assoc, Nat.add_right_comm]
      exact counted.counter index other found
  ended := by
    rcases counted.ended with ⟨all, null⟩ | ⟨complete, last, fault, after, few, count, final, fails, same⟩
    · exact .inl ⟨by simpa [Nat.add_right_comm, Nat.add_assoc] using all, null⟩
    · exact .inr ⟨complete + 1, last, fault, after, by omega, by simp [count], final, fails, same⟩

theorem exists_laps
    (tests : ∀ {k before}, k ≤ limit → AtCount name k before →
      Yields (.test condition) before (.ok (.boolean (decide (k < limit)))) before)
    (steps : ∀ {k before}, k < limit → AtCount name k before →
      Yields (.node step) before (.ok (whole (k + 1))) (before.bind name (whole (k + 1))))
    (unwritten : ¬ body.Writes name) (ends : ∀ context, ∃ result after, Yields (.node body) context result after)
    {left : Nat} (remaining : k + left = limit) (counted : AtCount name k before) :
    ∃ starts result after, Laps condition body step before starts result after ∧
      Counted name body k limit starts result := by
  have tested := tests (by omega) counted
  -- The test, the body and the step take the innermost scope from one number to the next.
  induction left generalizing k before with
  | zero =>
    rw [decide_eq_false (by omega)] at tested
    exact ⟨[], _, _, .leaves tested (by simp), ⟨by simp, .inl ⟨remaining, rfl⟩⟩⟩
  | succ left ih =>
    rw [decide_eq_true (by omega)] at tested
    obtain ⟨result, middle, done⟩ := ends before
    cases result with
    | error fault =>
      refine ⟨[before], _, _, .bodyFails tested done, ⟨?_, .inr ⟨0, before, fault, middle, by omega, rfl, rfl, done, rfl⟩⟩⟩
      intro index start visited
      cases index with
      | zero =>
        cases visited
        exact counted.get?
      | succ index => cases visited
    | ok value =>
      -- The body does not write the counter, so the step finds it as it was.
      have kept : AtCount name k middle := (done.keeps.others name unwritten).trans counted
      have next := atCount_bind middle name (k + 1)
      obtain ⟨starts, result, after, laps, others⟩ := ih (by omega) next (tests (by omega) next)
      exact ⟨before :: starts, result, after, .again tested done (steps (by omega) kept) laps, others.cons counted.get?⟩

theorem exists_visits (counts : CountsTo name limit body loop) (small : limit ≤ 2 ^ 53)
    (unwritten : ¬ body.Writes name) (ends : ∀ context, ∃ result after, Yields (.node body) context result after)
    (context : Context) : ∃ starts result, Visits loop context starts result ∧ Counted name body 0 limit starts result := by
  cases counts with
  | mk compares adds =>
    have started := atCount_bind (context.inside "for") name 0
    rw [← numeral_eq (by decide)] at started
    obtain ⟨starts, result, after, laps, counted⟩ :=
      exists_laps (yields_below compares small) (yields_next adds small) unwritten ends (Nat.zero_add limit) started
    exact ⟨starts, result, .laps (.assignment .literal) laps, counted⟩

end Counter

/-- In every context, a loop that counts a name up to a limit of at most `2 ^ 53` ends, and leaves the context as it was.
Either its body is evaluated once for each number below the limit, in order, and it yields null, or it ends with
the fault of the first evaluation of the body that fails. -/
theorem counting_loop {name : String} {limit : Nat} {body loop : Node P} (counts : CountsTo name limit body loop)
    (small : limit ≤ 2 ^ 53) (named : name ≠ lastResult) (unassigned : ¬ body.AssignsTo name)
    (ends : ∀ context, ∃ bound, (outcome (body.evaluate bound) context).isSome = true) (context : Context) :
    ∃ starts result,
      (∃ least, ∀ bound, least ≤ bound → outcome (loop.evaluate bound) context = some (result, context)) ∧
      (∀ visited ended, Visits loop context visited ended ↔ visited = starts ∧ ended = result) ∧
      (∀ index start, starts[index]? = some start → start.get? name = some (whole index)) ∧
      (starts.length = limit ∧ result = .ok .null ∨
        ∃ complete start fault after, complete < limit ∧ starts.length = complete + 1 ∧ starts[complete]? = some start ∧
          Yields (.node body) start (.error fault) after ∧ result = .error fault) := by
  have unwritten : ¬ body.Writes name := fun writes => unassigned (.of_writes writes named)
  have terminates : ∀ context, ∃ result after, Yields (.node body) context result after := by
    intro context
    obtain ⟨bound, some'⟩ := ends context
    obtain ⟨⟨result, after⟩, ended⟩ := Option.isSome_iff_exists.1 some'
    exact ⟨result, after, follows_node body ended⟩
  obtain ⟨starts, result, visits, counted⟩ := exists_visits counts small unwritten terminates context
  obtain ⟨least, settled⟩ := visits.yields.settles
  refine ⟨starts, result, ⟨least, fun larger enough => settled larger larger enough enough⟩, ?_, ?_, ?_⟩
  · intro visited ended
    constructor
    · exact fun other => other.unique visits
    · rintro ⟨rfl, rfl⟩
      exact visits
  · simpa using counted.counter
  · simpa using counted.ended

theorem counting_loop_block :
    let mark : Mark Unit := ⟨.point (), true⟩
    let token (kind : Kind) : Token Unit := ⟨kind, none, .point ()⟩
    let block := Node.scope mark "anonymous" true [.assignment mark "i" (.literal mark (.boolean true))]
    let body := Node.scope mark "for" false [block, .assignment mark "y" (.literal mark .null)]
    let loop := Node.forLoop mark (.assignment mark "i" (.literal mark (numeral 0)))
      (.binary mark (.retrieval mark "i") (token .less) (.literal mark (numeral 2)))
      (.assignment mark "i" (.binary mark (.retrieval mark "i") (token .plus) (.literal mark (numeral 1)))) body
    let context := Context.root "global"
    CountsTo "i" 2 body loop ∧ 2 ≤ 2 ^ 53 ∧ "i" ≠ lastResult ∧ ¬ body.AssignsTo "i" ∧
      (∀ context, ∃ bound, (outcome (body.evaluate bound) context).isSome = true) ∧
      ∃ starts result,
        (∃ least, ∀ bound, least ≤ bound → outcome (loop.evaluate bound) context = some (result, context)) ∧
        (∀ visited ended, Visits loop context visited ended ↔ visited = starts ∧ ended = result) ∧
        (∀ index start, starts[index]? = some start → start.get? "i" = some (whole index)) ∧
        (starts.length = 2 ∧ result = .ok .null ∨
          ∃ complete start fault after, complete < 2 ∧ starts.length = complete + 1 ∧ starts[complete]? = some start ∧
            Yields (.node body) start (.error fault) after ∧ result = .error fault) := by
  intro mark token block body loop context
  have counts : CountsTo "i" 2 body loop := .mk rfl rfl
  have unassigned : ¬ body.AssignsTo "i" := by
    -- The block is not entered, and the other assignment is to another name.
    have inside : ¬ block.AssignsTo "i" := by
      rw [Node.assignsTo_iff]
      simp [block, Node.sharesScope]
    have plain : ¬ (Node.literal mark .null).AssignsTo "i" := by
      rw [Node.assignsTo_iff]
      simp [Node.children]
    have other : ¬ (Node.assignment mark "y" (.literal mark .null)).AssignsTo "i" := by
      rw [Node.assignsTo_iff]
      simp [Node.children, plain]
    rw [Node.assignsTo_iff]
    simp [body, Node.children, inside, other]
  have ends : ∀ context, ∃ bound, (outcome (body.evaluate bound) context).isSome = true := by
    intro context
    exact ⟨0, rfl⟩
  exact ⟨counts, by decide, by decide, unassigned, ends,
    counting_loop counts (by decide) (by decide) unassigned ends context⟩

end Reckon
