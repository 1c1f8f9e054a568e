import Mathlib.Logic.Relation
import Reckon.Proofs.Evaluation.Frame
import Reckon.Proofs.Names
import Reckon.Proofs.Runs

set_option autoImplicit false

/-!
# Ways to run a program

A program run statement by statement, evaluated as one node, or cut into one program for each statement
ends in the same way and leaves the same context.
-/

namespace Reckon

open Reckon.Evaluation

variable {P : Type} {bound : Nat} {before middle after context : Context}

/-- An assignment in the node has its value and binds it, in the scope that the node is evaluated in. -/
def Node.Assigns (node : Node P) (before after : Context) : Prop :=
  ∃ mark name inner value start, Node.Part Node.sharesScope (.assignment mark name inner) node ∧
    Yields (.node inner) start (.ok value) before ∧ after = before.set name value

theorem Node.Assigns.inside {child node : Node P} (assigns : child.Assigns before after)
    (shares : node.sharesScope = true) (member : child ∈ node.children) : node.Assigns before after := by
  obtain ⟨mark, name, inner, value, start, part, assigned⟩ := assigns
  exact ⟨mark, name, inner, value, start, .inside shares member part, assigned⟩

namespace Task

variable {task sub : Task P}

def nodes : Task P → List (Node P)
  | .node tree => [tree]
  | .statements _ list => list
  | .test condition => [condition]
  | .branches list => list.flatMap fun branch => [branch.1, branch.2]
  | .loop pending condition round => condition :: (pending ++ round)

def isList : Task P → Bool
  | .statements .. => true
  | _ => false

def Assigns (task : Task P) (before after : Context) : Prop :=
  ∃ node ∈ task.nodes, node.Assigns before after

/-- Nothing but an assignment binds a name in the scope that the task is done in. -/
structure Plain (task : Task P) : Prop where
  nodes : ∀ node ∈ task.nodes, ¬ node.Writes lastResult
  single : task.isList = false

structure Inside (sub task : Task P) : Prop where
  nodes : ∀ node ∈ sub.nodes, node ∈ task.nodes ∨
    ∃ outer ∈ task.nodes, outer.sharesScope = true ∧ node ∈ outer.children
  single : sub.isList = false

theorem Inside.child {child node : Node P} (shares : node.sharesScope = true) (member : child ∈ node.children) :
    Inside (.node child) (.node node) where
  nodes := List.forall_mem_singleton.2 (.inr ⟨node, List.mem_singleton_self node, shares, member⟩)
  single := rfl

theorem Inside.part (single : sub.isList = false) (part : sub.nodes ⊆ task.nodes) :
    sub.Inside task :=
  ⟨fun _ member => .inl (part member), single⟩

theorem Inside.plain (inside : sub.Inside task) (plain : task.Plain) : sub.Plain where
  nodes := by
    intro node member writes
    obtain same | ⟨outer, around, shares, child⟩ := inside.nodes node member
    · exact plain.nodes node same writes
    · exact plain.nodes outer around (writes.inside shares child)
  single := inside.single

theorem Inside.assigns (inside : sub.Inside task) (assigns : sub.Assigns before after) : task.Assigns before after := by
  obtain ⟨node, member, assigns⟩ := assigns
  obtain same | ⟨outer, around, shares, child⟩ := inside.nodes node member
  · exact ⟨node, same, assigns⟩
  · exact ⟨outer, around, assigns.inside shares child⟩

open Relation in
theorem Inside.steps (inside : sub.Inside task) (plain : task.Plain)
    (steps : sub.Plain → ReflTransGen sub.Assigns before after) : ReflTransGen task.Assigns before after :=
  ReflTransGen.mono (fun _ _ => inside.assigns) _ _ (steps (inside.plain plain))

end Task

open Relation in
/-- Evaluation changes the scope it happens in by the assignments of the node, one after another. -/
theorem Yields.assigns {task : Task P} {outcome : Except (Fault P) Value} (yields : Yields task before outcome after)
    (plain : task.Plain) : ReflTransGen task.Assigns before after := by
  induction yields with
  | literal | retrieval | undefined | noBranch => exact .refl
  -- A list of statements binds the last result.
  | finished | statement | statementFails => cases plain.single
  | sequence => exact absurd (Node.writes_of_boundName? rfl) (plain.nodes _ (List.mem_singleton_self _))
  | block body | whileLoop body | doLoop body | forLoop body =>
    cases body.outer
    exact .refl
  | assignment yields ih =>
    exact .tail (Task.Inside.steps (.child rfl (by simp [Node.children])) plain ih)
      ⟨_, List.mem_singleton_self _, _, _, _, _, _, .self, yields, rfl⟩
  | leftFails _ one | unary _ one | operandFails _ one | valueFails _ one =>
    exact Task.Inside.steps (.child rfl (by simp [Node.children])) plain one
  | choice _ one =>
    have inside : ∀ {mark branches}, Task.Inside (P := P) (.branches branches) (.node (.choice mark branches)) :=
      ⟨fun _ member => .inr ⟨_, List.mem_singleton_self _, rfl, member⟩, rfl⟩
    exact inside.steps plain one
  | test _ one | testFails _ one | branchFails _ one | performFails _ one | leaves _ _ one | loopFails _ one =>
    exact Task.Inside.steps (.part rfl (by simp [Task.nodes])) plain one
  | binary _ _ one two | rightFails _ _ one two =>
    exact (Task.Inside.steps (.child rfl (by simp [Node.children])) plain one).trans
      (Task.Inside.steps (.child rfl (by simp [Node.children])) plain two)
  | taken _ _ one two | passed _ _ _ one two | perform _ _ one two | again _ _ one two =>
    exact (Task.Inside.steps (.part rfl (by simp [Task.nodes])) plain one).trans
      (Task.Inside.steps (.part rfl (by simp [Task.nodes])) plain two)

theorem Node.Shaped.assigns {node : Node P} (shaped : node.Shaped IsWord false) {result : Except (Fault P) Value}
    (ends : outcome (node.evaluate bound) before = some (result, after)) :
    Relation.ReflTransGen node.Assigns before after := by
  have plain : Task.Plain (.node node) :=
    ⟨List.forall_mem_singleton.2 fun writes => not_isWord_lastResult (shaped.writes rfl writes), rfl⟩
  refine Relation.ReflTransGen.mono ?_ _ _ ((follows_node node ends).assigns plain)
  rintro before after ⟨other, member, assigns⟩
  cases List.mem_singleton.1 member
  exact assigns

theorem Node.evaluateAll_cons (value : Value) (first : Node P) (rest : List (Node P)) :
    Node.evaluateAll bound value (first :: rest) = (do
      let shown ← first.evaluateStatement bound
      Node.evaluateAll bound shown rest) := by
  unfold Node.evaluateStatement
  rw [Node.evaluateAll, Node.evaluateAll, bind_assoc]
  rfl

namespace Run

variable {first : Node P} {list rest : List (Node P)} {value : Value} {run : Run P}

def ended (run : Run P) : Except (Fault P) Value × Context := (run.answer, run.context)

theorem outcome_evaluateAll (some' : list ≠ []) (value : Value) (context : Context) :
    outcome (Node.evaluateAll bound value list) context = (statements bound value list context).map ended := by
  induction list generalizing value context with
  | nil => exact absurd rfl some'
  | cons first rest ih =>
    rw [Node.evaluateAll_cons]
    cases one : outcome (first.evaluateStatement bound) context with
    | none => rw [outcome_bind_of_none _ one, statements_of_none one, Option.map_none]
    | some pair =>
      obtain ⟨result, after⟩ := pair
      cases result with
      | error fault =>
        rw [outcome_bind_of_error _ one, statements_of_error one]
        rfl
      | ok shown =>
        rw [outcome_bind_of_ok _ one, statements_of_ok one, Option.map_map]
        cases rest with
        | nil =>
          rw [statements_nil one]
          rfl
        | cons second others => exact ih (by simp) shown after

theorem statements_remember {shown : Value} (ends : statements bound value list context = some run)
    (finished : run.answer = .ok shown) : run.context.set lastResult shown = run.context := by
  induction list generalizing value context run with
  | nil =>
    cases ends
    cases finished
    exact Context.set_set _ _ _
  | cons first rest ih =>
    obtain ⟨_, _, _, rfl⟩ | ⟨_, _, later, _, more, rfl⟩ := statements_cons_eq_some ends
    · cases finished
    · have kept := ih more finished
      exact kept

/-- A program for each of the nodes, up to the first that fails. -/
def separately [Inhabited P] (bound : Nat) (first : Node P) : List (Node P) → Context → Option (Run P)
  | [], context => ofTree bound context (some first)
  | second :: rest, context =>
    (ofTree bound context (some first)).bind fun run => run.andThen (separately bound second rest)

theorem ofTree_shaped [Inhabited P] {names : String → Prop} {loose : Bool} (shaped : first.Shaped names loose)
    (strict : loose = false) : ofTree bound context (some first) = statements bound .null [first] context := by
  cases shaped with
  | @scope mark name boundary =>
    have own : boundary = true := by simpa using strict
    subst own
    rfl
  | _ => rfl

theorem separately_eq [Inhabited P] {names : String → Prop} (shaped : ∀ node ∈ first :: rest, node.Shaped names false)
    (context : Context) : separately bound first rest context = statements bound .null (first :: rest) context := by
  induction rest generalizing first context with
  | nil => exact ofTree_shaped (shaped first List.mem_cons_self) rfl
  | cons second rest ih =>
    obtain ⟨one, others⟩ := List.forall_mem_cons.1 shaped
    have later : separately bound second rest = statements bound .null (second :: rest) := funext (ih others)
    have cut : statements bound .null ([first] ++ second :: rest) context = _ :=
      statements_append (List.cons_ne_nil first []) (List.cons_ne_nil second rest) .null
    rw [separately, ofTree_shaped one rfl, later]
    exact cut.symm

inductive Finishes (bound : Nat) : List (Node P) → Context → List Value → Context → Prop where
  | none {context : Context} : Finishes bound [] context [] context
  | more {first : Node P} {rest : List (Node P)} {shown : Value} {values : List Value}
    {before middle after : Context} (one : outcome (first.evaluateStatement bound) before = some (.ok shown, middle))
    (others : Finishes bound rest middle values after) : Finishes bound (first :: rest) before (shown :: values) after

/-- A run reports the statements that finished. Behind the last of them it stops, or the next one fails and
leaves the assignments that it made until then. -/
inductive Halts (bound : Nat) (before : Context) : List (Node P) → Run P → Prop where
  | finished {list : List (Node P)} {values : List Value} {value : Value} {after : Context}
    (all : Finishes bound list before (values ++ [value]) after) :
    Halts bound before list ⟨values ++ [value], .ok value, after⟩
  | failed {done rest : List (Node P)} {failing : Node P} {values : List Value} {fault : Fault P}
    {middle after : Context} (earlier : Finishes bound done before values middle)
    (fails : outcome (failing.evaluate bound) middle = some (.error fault, after))
    (assigned : Relation.ReflTransGen failing.Assigns middle after)
    (kept : after.get? lastResult = middle.get? lastResult) :
    Halts bound before (done ++ failing :: rest) ⟨values, .error fault, after⟩

theorem Halts.behind {shown : Value} (one : outcome (first.evaluateStatement bound) before = some (.ok shown, middle))
    (halts : Halts bound middle rest run) : Halts bound before (first :: rest) (run.behind [shown]) := by
  cases halts with
  | @finished _ values value after all =>
    have whole : Finishes bound (first :: rest) before ((shown :: values) ++ [value]) after := .more one all
    exact .finished whole
  | failed earlier fails assigned kept => exact .failed (.more one earlier) fails assigned kept

theorem statements_halt (shaped : ∀ node ∈ list, node.Shaped IsWord false) (some' : list ≠ [])
    (ends : statements bound value list before = some run) : Halts bound before list run := by
  induction list generalizing value before run with
  | nil => exact absurd rfl some'
  | cons first rest ih =>
    obtain ⟨one, others⟩ := List.forall_mem_cons.1 shaped
    obtain ⟨fault, after, fails, rfl⟩ | ⟨shown, after, later, yields, more, rfl⟩ := statements_cons_eq_some ends
    · obtain ⟨_, fails, same⟩ | ⟨_, _, _, same, _⟩ := Node.evaluateStatement_eq_some fails
      · cases same
        have keeps := (follows_node first fails).keeps
        have free : ¬ first.Writes lastResult := fun writes => not_isWord_lastResult (one.writes rfl writes)
        have earlier : Finishes bound ([] : List (Node P)) before [] before := .none
        refine Halts.failed earlier fails (one.assigns fails) ?_
        rw [Context.get?, Context.get?, keeps.outer, List.findSome?_cons, keeps.others lastResult free,
          List.findSome?_cons]
      · cases same
    · cases rest with
      | nil =>
        rw [statements_nil yields] at more
        cases more
        have whole : Finishes bound [first] before ([] ++ [shown]) after := .more yields .none
        exact .finished whole
      | cons second _ => exact .behind yields (ih others (by simp) more)

theorem Finishes.last {values : List Value} (finishes : Finishes bound list before values after) :
    after.get? lastResult = values.getLast?.or (before.get? lastResult) := by
  induction finishes with
  | none => simp
  | more one _ ih =>
    obtain ⟨_, _, same⟩ | ⟨_, _, _, same, rfl⟩ := Node.evaluateStatement_eq_some one
    · cases same
    · cases same
      simp [ih, Context.get?_set, List.getLast?_cons]

theorem Halts.last (halts : Halts bound before list run) :
    run.context.get? lastResult = run.results.getLast?.or (before.get? lastResult) := by
  cases halts with
  | finished all => exact all.last
  | failed earlier _ _ kept => exact kept.trans earlier.last

end Run

/-- A program that is run, the one node of it evaluated, alone or as a statement, and its statements given as
programs of their own agree on the value or fault and on the context left behind, and so on whether they end. -/
theorem ways_agree {source : Source} {program : Node Position} (compiled : source.compile = .ok program) (bound : Nat)
    (context : Context) :
    let ended := (Run.ofTree bound context (some program)).map Run.ended
    outcome (program.evaluate bound) context = ended ∧
    outcome (program.evaluateStatement bound) context = ended ∧
    ∃ first rest, program.children = first :: rest ∧
      Run.separately bound first rest context = Run.ofTree bound context (some program) ∧
      ∀ run, Run.ofTree bound context (some program) = some run →
        Run.Halts bound context (first :: rest) run ∧
        run.context.get? lastResult = run.results.getLast?.or (context.get? lastResult) := by
  obtain ⟨span, first, rest, rfl, shaped⟩ := compile_shaped compiled
  intro ended
  have whole : outcome ((Node.scope ⟨span, true⟩ "global" false (first :: rest)).evaluate bound) context = ended := by
    rw [Node.evaluate]
    exact Run.outcome_evaluateAll (List.cons_ne_nil first rest) .null context
  have halts : ∀ {run}, Run.statements bound .null (first :: rest) context = some run →
      Run.Halts bound context (first :: rest) run := Run.statements_halt shaped (List.cons_ne_nil first rest)
  refine ⟨whole, ?_, first, rest, rfl, Run.separately_eq shaped context, fun run ran => ⟨halts ran, (halts ran).last⟩⟩
  cases ran : Run.statements bound .null (first :: rest) context with
  | none =>
    have same : ended = none := congrArg (Option.map Run.ended) ran
    rw [same] at whole ⊢
    rw [Node.evaluateStatement, Node.evaluateAll, outcome_bind_of_none _ whole]
  | some run =>
    have same : ended = some run.ended := congrArg (Option.map Run.ended) ran
    rw [same] at whole ⊢
    obtain ⟨results, answer, after⟩ := run
    cases answer with
    | error fault => exact Node.evaluateStatement_of_error whole
    | ok value =>
      have kept : after.set lastResult value = after := Run.statements_remember ran rfl
      refine (Node.evaluateStatement_of_ok whole).trans ?_
      change some (Except.ok value, after.set lastResult value) = some (Except.ok value, after)
      rw [kept]

theorem ways_agree_failing :
    let source : Source := ⟨"x", "let a = true\nb"⟩
    ∃ program run, source.compile = .ok program ∧ Run.ofTree 1 .global (some program) = some run ∧
      run.results = [.boolean true] ∧ run.context.has "a" = true ∧
      run.context.get? lastResult = some (.boolean true) ∧
      outcome (program.evaluate 1) .global = some run.ended ∧
      outcome (program.evaluateStatement 1) .global = some run.ended := by
  intro source
  have clean : (blame source.compile).isNone = true := by decide +kernel
  have reported : (Run.ofSource 1 source .global).map (fun run => (run.results, run.context.has "a")) =
      some ([.boolean true], true) := by decide +kernel
  obtain ⟨program, compiled⟩ := blame_eq_none.1 (Option.isNone_iff_eq_none.1 clean)
  rw [Run.ofSource_of_ok compiled] at reported
  obtain ⟨run, ran, same⟩ := Option.map_eq_some_iff.1 reported
  obtain ⟨results, bound⟩ := Prod.mk.inj same
  obtain ⟨whole, single, _, _, _, _, halts⟩ := ways_agree compiled 1 .global
  rw [ran] at whole single
  have last := (halts run ran).2
  rw [results] at last
  exact ⟨program, run, compiled, ran, results, bound, last, whole, single⟩

end Reckon
