import Reckon.Proofs.Evaluation.Adequacy
import Reckon.Proofs.Evaluation.Renaming
import Reckon.Run

set_option autoImplicit false

/-!
# Statements in a row

Statements run one after another give what the first of them give, followed by what the others give
in the context left behind.
-/

namespace Reckon

open Reckon.Evaluation

variable {P Q : Type} {f : P → Q}

theorem Scope.bind_bind (name : String) (value : Value) (bindings : List (String × Value)) :
    bind name value (bind name value bindings) = bind name value bindings := by
  induction bindings with
  | nil => simp [bind]
  | cons first rest ih =>
    by_cases same : name = first.1 <;> simp [bind, same, ih]

theorem Context.set_set (context : Context) (name : String) (value : Value) :
    (context.set name value).set name value = context.set name value := by
  simp [Context.set, Scope.set, Scope.bind_bind]

namespace Run

variable {bound : Nat} {first : Node P} {list rest : List (Node P)} {value shown : Value} {fault : Fault P}
  {context after : Context} {run : Run P}

def map (f : P → Q) (run : Run P) : Run Q :=
  ⟨run.results, run.answer.mapError (Fault.map f), run.context⟩

def behind (results : List Value) (run : Run P) : Run P :=
  { run with results := results ++ run.results }

theorem statements_of_ok (ends : outcome (first.evaluateStatement bound) context = some (.ok shown, after)) :
    statements bound value (first :: rest) context = (statements bound shown rest after).map (behind [shown]) := by
  change (outcome (first.evaluateStatement bound) context >>= fun pair => _) = _
  rw [ends]
  change (statements bound shown rest after >>= fun run => _) = _
  cases statements bound shown rest after <;> rfl

theorem statements_of_error (fails : outcome (first.evaluateStatement bound) context = some (.error fault, after)) :
    statements bound value (first :: rest) context = some (refused fault after) := by
  change (outcome (first.evaluateStatement bound) context >>= fun pair => _) = _
  rw [fails]
  rfl

theorem statements_of_none (endless : outcome (first.evaluateStatement bound) context = none) :
    statements bound value (first :: rest) context = none := by
  change (outcome (first.evaluateStatement bound) context >>= fun pair => _) = _
  rw [endless]
  rfl

theorem statements_nil (yields : outcome (first.evaluateStatement bound) context = some (.ok shown, after)) :
    statements bound shown ([] : List (Node P)) after = some ⟨[], .ok shown, after⟩ := by
  have kept : after.set lastResult shown = after := by
    obtain ⟨_, _, same⟩ | ⟨value, middle, _, same, rfl⟩ := Node.evaluateStatement_eq_some yields
    · cases same
    · cases same
      exact Context.set_set middle lastResult _
  rw [statements, kept]
  rfl

theorem statements_cons_eq_some (ends : statements bound value (first :: rest) context = some run) :
    (∃ fault after, outcome (first.evaluateStatement bound) context = some (.error fault, after) ∧
      run = refused fault after) ∨
    ∃ shown after later, outcome (first.evaluateStatement bound) context = some (.ok shown, after) ∧
      statements bound shown rest after = some later ∧ run = later.behind [shown] := by
  cases one : outcome (first.evaluateStatement bound) context with
  | none =>
    rw [statements_of_none one] at ends
    cases ends
  | some pair =>
    obtain ⟨result, after⟩ := pair
    cases result with
    | error fault =>
      rw [statements_of_error one] at ends
      cases ends
      exact .inl ⟨fault, after, rfl, rfl⟩
    | ok shown =>
      rw [statements_of_ok one] at ends
      obtain ⟨later, more, same⟩ := Option.map_eq_some_iff.1 ends
      exact .inr ⟨shown, after, later, rfl, more, same.symm⟩

theorem evaluateStatement_settles {result : Except (Fault P) Value}
    (ends : outcome (first.evaluateStatement bound) context = some (result, after)) :
    ∃ least, ∀ larger, least ≤ larger →
      outcome (first.evaluateStatement larger) context = some (result, after) := by
  obtain ⟨fault, fails, rfl⟩ | ⟨value, middle, yields, rfl, rfl⟩ := Node.evaluateStatement_eq_some ends
  · obtain ⟨least, settled⟩ := (follows_node first fails).settles
    exact ⟨least, fun larger enough => Node.evaluateStatement_of_error (settled larger larger enough enough)⟩
  · obtain ⟨least, settled⟩ := (follows_node first yields).settles
    exact ⟨least, fun larger enough => Node.evaluateStatement_of_ok (settled larger larger enough enough)⟩

theorem statements_settle (ends : statements bound value list context = some run) :
    ∃ least, ∀ larger, least ≤ larger → statements larger value list context = some run := by
  induction list generalizing value context run with
  | nil => exact ⟨0, fun _ _ => ends⟩
  | cons first rest ih =>
    obtain ⟨fault, after, fails, rfl⟩ | ⟨shown, after, later, yields, more, rfl⟩ := statements_cons_eq_some ends
    · obtain ⟨least, settled⟩ := evaluateStatement_settles fails
      exact ⟨least, fun larger enough => statements_of_error (settled larger enough)⟩
    · obtain ⟨least, settled⟩ := evaluateStatement_settles yields
      obtain ⟨least', settled'⟩ := ih more
      refine ⟨max least least', fun larger enough => ?_⟩
      rw [statements_of_ok (settled larger (by omega)), settled' larger (by omega)]
      rfl

section Sources

variable {source : Source} {program : Node Position}

theorem ofSource_of_error {fault : Fault Position} (failed : source.compile = .error fault) :
    ofSource bound source context = some (refused fault context) := by
  unfold ofSource
  rw [failed]
  rfl

theorem ofSource_of_ok (compiled : source.compile = .ok program) :
    ofSource bound source context = ofTree bound context (some program) := by
  unfold ofSource
  rw [compiled]

theorem ofTree_settles [Inhabited P] {node : Node P} (ends : ofTree bound context (some node) = some run) :
    ∃ least, ∀ larger, least ≤ larger → ofTree larger context (some node) = some run := by
  cases node with
  | scope mark name boundary list =>
    cases boundary with
    | false => exact statements_settle ends
    | true => exact statements_settle ends
  | _ => exact statements_settle ends

theorem ofSource_settles {run : Run Position} (ends : ofSource bound source context = some run) :
    ∃ least, ∀ larger, least ≤ larger → ofSource larger source context = some run := by
  cases compiled : source.compile with
  | error fault =>
    rw [ofSource_of_error compiled] at ends
    exact ⟨0, fun larger _ => (ofSource_of_error compiled).trans ends⟩
  | ok program =>
    rw [ofSource_of_ok compiled] at ends
    obtain ⟨least, settled⟩ := ofTree_settles ends
    exact ⟨least, fun larger enough => (ofSource_of_ok compiled).trans (settled larger enough)⟩

end Sources

theorem statements_more (some' : list ≠ []) (value other : Value) :
    statements bound value list context = statements bound other list context := by
  cases list with
  | nil => exact absurd rfl some'
  | cons first rest => rfl

def andThen (run : Run P) (next : Context → Option (Run P)) : Option (Run P) :=
  match run.answer with
  | .error _ => some run
  | .ok _ => (next run.context).map (behind run.results)

theorem behind_behind (results more : List Value) (run : Run P) :
    (run.behind more).behind results = run.behind (results ++ more) := by
  simp [behind]

theorem andThen_behind (results : List Value) (run : Run P) (next : Context → Option (Run P)) :
    (run.behind results).andThen next = (run.andThen next).map (behind results) := by
  unfold andThen
  change (match run.answer with
    | .error _ => some (run.behind results)
    | .ok _ => (next run.context).map (behind (results ++ run.results))) = _
  cases run.answer with
  | error fault => rfl
  | ok value =>
    have joined : behind results ∘ behind run.results = behind (P := P) (results ++ run.results) :=
      funext (behind_behind results run.results)
    rw [Option.map_map, joined]

theorem statements_append {more : List (Node P)} (some' : list ≠ []) (others : more ≠ []) (value : Value) :
    statements bound value (list ++ more) context =
      (statements bound value list context).bind fun run => run.andThen (statements bound .null more) := by
  induction list generalizing value context with
  | nil => exact absurd rfl some'
  | cons first rest ih =>
    cases one : outcome (first.evaluateStatement bound) context with
    | none => rw [List.cons_append, statements_of_none one, statements_of_none one, Option.bind_none]
    | some pair =>
      obtain ⟨result, after⟩ := pair
      cases result with
      | error fault =>
        rw [List.cons_append, statements_of_error one, statements_of_error one]
        rfl
      | ok shown =>
        rw [List.cons_append, statements_of_ok one, statements_of_ok one]
        cases rest with
        | nil =>
          rw [statements_nil one, List.nil_append, statements_more others shown .null]
          rfl
        | cons second others =>
          rw [ih (by simp), Option.bind_map]
          cases statements bound shown (second :: others) after with
          | none => rfl
          | some run => exact (andThen_behind [shown] run _).symm

theorem map_statements (value : Value) (list : List (Node P)) (context : Context) :
    statements bound value (list.map (Node.map f)) context = (statements bound value list context).map (map f) := by
  induction list generalizing value context with
  | nil => rfl
  | cons first rest ih =>
    have same : outcome ((first.map f).evaluateStatement bound) context = _ :=
      Node.renames_evaluateStatement first context
    cases one : outcome (first.evaluateStatement bound) context with
    | none =>
      rw [one] at same
      rw [List.map_cons, statements_of_none one, statements_of_none same]
      rfl
    | some pair =>
      obtain ⟨result, after⟩ := pair
      rw [one] at same
      cases result with
      | error fault =>
        rw [List.map_cons, statements_of_error one, statements_of_error same]
        rfl
      | ok shown =>
        rw [List.map_cons, statements_of_ok one, statements_of_ok same, ih, Option.map_map, Option.map_map]
        rfl

end Run

end Reckon
