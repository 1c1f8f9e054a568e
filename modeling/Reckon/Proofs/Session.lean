import Reckon.Proofs.Conversation
import Reckon.Proofs.Evaluation.LastResult
import Reckon.Proofs.Names
import Reckon.Proofs.Runs

set_option autoImplicit false

/-!
# Sessions

What holds of the context that is kept between calls, whatever texts they are made on: which names it
binds and to what it binds the last result.
-/

namespace Reckon

open Reckon.Evaluation

structure Ended where
  result : Except (Fault Position) Value
  context : Context

def finished (trace : List Ended) : List Value :=
  trace.filterMap fun ended => ended.result.toOption

def Run.trace (bound : Nat) : List (Node Position) → Context → List Ended
  | [], _ => []
  | first :: rest, context =>
    match outcome (first.evaluateStatement bound) context with
    | none => []
    | some (.error fault, after) => [⟨.error fault, after⟩]
    | some (.ok shown, after) => ⟨.ok shown, after⟩ :: trace bound rest after

def Source.trace (bound : Nat) (source : Source) (context : Context) : List Ended :=
  match source.compile with
  | .error _ => []
  | .ok (.scope _ _ false list) => Run.trace bound list context
  | .ok node => Run.trace bound [node] context

def traceAll (bound : Nat) : List Source → Context → List Ended
  | [], _ => []
  | source :: rest, context =>
    source.trace bound context ++
      match Run.ofSource bound source context with
      | none => []
      | some run => traceAll bound rest run.context

inductive Call where
  -- Executing a source for its value alone is running it.
  | run (source : Source)
  -- Where the source is open, further lines are taken from these.
  | complete (source : Source) (lines : List String)
  | script (write : Fault Position → String) (name : String) (bytes : Except FileFault ByteArray)
  | converse (settings : Settings) (readings : List Reading)

namespace Call

def after (bound : Nat) (context : Context) : Call → Option Context
  | run source => (Run.ofSource bound source context).map Run.context
  | complete source lines => (Run.ofSource bound (source.complete lines).1 context).map Run.context
  | script write name bytes => (CommandLine.runFile write bound context name bytes).map Prod.fst
  | converse settings readings => (Repl.read settings bound readings (.start context)).map Ending.context

def sources : Call → List Source
  | run source => [source]
  | complete source lines => [(source.complete lines).1]
  | script _ name bytes =>
    match bytes >>= Source.ofBytes name with
    | .ok source => [source]
    | .error _ => []
  | converse _ readings => Repl.sources readings none

def trace (bound : Nat) (context : Context) (call : Call) : List Ended :=
  traceAll bound call.sources context

theorem after_eq (bound : Nat) (context : Context) (call : Call) :
    call.after bound context = runAll bound call.sources context := by
  cases call with
  | run source => exact (runAll_singleton source context).symm
  | complete source lines => exact (runAll_singleton _ context).symm
  | script write name bytes =>
    unfold after sources CommandLine.runFile
    dsimp only
    cases bytes >>= Source.ofBytes name with
    | error fault => rfl
    | ok source =>
      refine Eq.trans ?_ (runAll_singleton source context).symm
      change ((Run.ofSource bound source context).bind fun run => _).map Prod.fst = _
      cases Run.ofSource bound source context <;> rfl
  | converse settings readings => exact Repl.follows_readings readings (.start context) rfl

end Call

/-- A context that calls one after another have led to, and how their statements ended. -/
inductive Session : List Ended → Context → Prop where
  | new : Session [] Context.global
  | call {trace : List Ended} {context after : Context} {bound : Nat} (before : Session trace context)
    (call : Call) (ends : call.after bound context = some after) :
    Session (trace ++ call.trace bound context) after

def Grows (before after : Context) : Prop :=
  ∀ name, before.has name = true → after.has name = true

structure Kept (value : Value) (context : Context) : Prop where
  outermost : context.outer = []
  last : context.get? lastResult = some value
  word : ∀ name, context.has name = true → name = lastResult ∨ IsWord name

section Kept

variable {bound : Nat} {value shown : Value} {context before after : Context} {node : Node Position}
  {list : List (Node Position)} {run : Run Position} {source : Source}

theorem get?_outermost (outermost : context.outer = []) (name : String) :
    context.get? name = context.innermost.get? name := by
  simp [Context.get?, outermost]

theorem Kept.has_last (kept : Kept value context) : context.has lastResult = true := by
  have last := kept.last
  rw [get?_outermost kept.outermost] at last
  rw [Context.has, Scope.has, last]
  rfl

theorem Kept.set (kept : Kept value context) (shown : Value) : Kept shown (context.set lastResult shown) where
  outermost := kept.outermost
  last := by
    rw [Context.get?_set]
    simp
  word := by
    intro name has
    rw [has_set] at has
    by_cases same : name = lastResult
    · exact .inl same
    · exact kept.word name (by simpa [same] using has)

theorem Kept.keeps (kept : Kept value before) (shaped : Node.Shaped IsWord false node)
    (keeps : Keeps node.Writes before after) : Kept value after where
  outermost := keeps.outer.trans kept.outermost
  last := by
    have free : ¬ node.Writes lastResult := fun writes => not_isWord_lastResult (shaped.writes rfl writes)
    rw [get?_outermost (keeps.outer.trans kept.outermost), keeps.others _ free, ← get?_outermost kept.outermost]
    exact kept.last
  word := by
    intro name has
    by_cases writes : node.Writes name
    · exact .inr (shaped.writes rfl writes)
    · rw [Context.has, Scope.has, keeps.others _ writes] at has
      exact kept.word name has

theorem kept_statement (kept : Kept value before) (shaped : Node.Shaped IsWord false node)
    {result : Except (Fault Position) Value}
    (ends : outcome (node.evaluateStatement bound) before = some (result, after)) :
    Grows before after ∧ Kept (result.toOption.getD value) after := by
  obtain ⟨fault, fails, rfl⟩ | ⟨value, middle, yields, rfl, rfl⟩ := Node.evaluateStatement_eq_some ends
  · have keeps : Keeps node.Writes before after := (follows_node node fails).keeps
    exact ⟨keeps.bound, kept.keeps shaped keeps⟩
  · have keeps : Keeps node.Writes before middle := (follows_node node yields).keeps
    refine ⟨?_, (kept.keeps shaped keeps).set _⟩
    intro name has
    rw [has_set, keeps.bound name has, Bool.or_true]

theorem Grows.trans {middle : Context} (first : Grows before middle) (second : Grows middle after) :
    Grows before after :=
  fun name has => second name (first name has)

theorem getLastD_append (front back : List Value) (value : Value) :
    (front ++ back).getLastD value = back.getLastD (front.getLastD value) := by
  induction front generalizing value with
  | nil => rfl
  | cons first rest ih => rw [List.cons_append, List.getLastD_cons, List.getLastD_cons, ih]

/-- If it ended with a fault, then not because the last result could not be found. -/
def Ended.FoundLast (ended : Ended) : Prop :=
  ∀ (fault : Fault Position) (scope : String), ended.result = .error fault →
    fault.cause ≠ .undefinedVariable lastResult scope

structure Leads (value : Value) (before : Context) (trace : List Ended) (after : Context) : Prop where
  kept : Kept ((finished trace).getLastD value) after
  grows : Grows before after
  within : ∀ ended ∈ trace, Grows ended.context after
  found : ∀ ended ∈ trace, ended.FoundLast

theorem Leads.trans {middle : Context} {trace more : List Ended} (first : Leads value before trace middle)
    (second : Leads ((finished trace).getLastD value) middle more after) :
    Leads value before (trace ++ more) after where
  kept := by
    rw [finished, List.filterMap_append, getLastD_append]
    exact second.kept
  grows := first.grows.trans second.grows
  within := by
    intro ended member
    rcases List.mem_append.1 member with early | late
    · exact (first.within ended early).trans second.grows
    · exact second.within ended late
  found := List.forall_mem_append.2 ⟨first.found, second.found⟩

theorem leads_refl (kept : Kept value context) : Leads value context [] context :=
  ⟨kept, fun _ has => has, List.forall_mem_nil _, List.forall_mem_nil _⟩

theorem leads_statement (kept : Kept value before) (shaped : Node.Shaped IsWord false node)
    {result : Except (Fault Position) Value}
    (ends : outcome (node.evaluateStatement bound) before = some (result, after)) :
    Leads value before [⟨result, after⟩] after := by
  obtain ⟨grows, kept'⟩ := kept_statement kept shaped ends
  refine ⟨?_, grows, List.forall_mem_singleton.2 fun _ has => has, List.forall_mem_singleton.2 ?_⟩
  · cases result <;> exact kept'
  · rintro fault scope rfl
    obtain ⟨fault, fails, same⟩ | ⟨_, _, _, same, _⟩ := Node.evaluateStatement_eq_some ends
    · cases same
      exact (follows_node node fails).finds_last kept.has_last rfl scope
    · cases same

theorem leads_statements (kept : Kept value before) (shaped : ∀ statement ∈ list, Node.Shaped IsWord false statement)
    (ends : Run.statements bound value list before = some run) :
    run.results = finished (Run.trace bound list before) ∧ Leads value before (Run.trace bound list before) run.context := by
  induction list generalizing value before run with
  | nil =>
    cases ends
    refine ⟨rfl, kept.set value, ?_, List.forall_mem_nil _, List.forall_mem_nil _⟩
    intro name has
    rw [has_set, has, Bool.or_true]
  | cons first rest ih =>
    obtain ⟨one, others⟩ := List.forall_mem_cons.1 shaped
    obtain ⟨fault, after, fails, rfl⟩ | ⟨shown, after, later, yields, more, rfl⟩ := Run.statements_cons_eq_some ends
    · have step := leads_statement kept one fails
      rw [Run.trace, fails]
      exact ⟨rfl, step⟩
    · have step := leads_statement kept one yields
      obtain ⟨results, leads⟩ := ih step.kept others more
      rw [Run.trace, yields]
      exact ⟨congrArg (shown :: ·) results, step.trans leads⟩

theorem leads_ofSource (kept : Kept value before) (ends : Run.ofSource bound source before = some run) :
    run.results = finished (source.trace bound before) ∧ Leads value before (source.trace bound before) run.context := by
  unfold Source.trace
  cases compiled : source.compile with
  | error fault =>
    rw [Run.ofSource_of_error compiled] at ends
    cases ends
    exact ⟨rfl, leads_refl kept⟩
  | ok program =>
    obtain ⟨mark, first, rest, rfl, shaped⟩ := compile_shaped compiled
    rw [Run.ofSource_of_ok compiled] at ends
    -- There is a first statement, so the null that a run starts with is never shown.
    have ends : Run.statements bound value (first :: rest) before = some run := ends
    exact leads_statements kept shaped ends

theorem leads_all {sources : List Source} (kept : Kept value before) (ends : runAll bound sources before = some after) :
    Leads value before (traceAll bound sources before) after := by
  induction sources generalizing value before with
  | nil =>
    cases ends
    exact leads_refl kept
  | cons source rest ih =>
    rw [runAll_cons] at ends
    obtain ⟨run, ran, others⟩ := Option.bind_eq_some_iff.1 ends
    obtain ⟨_, first⟩ := leads_ofSource kept ran
    rw [traceAll, ran]
    exact first.trans (ih first.kept others)

end Kept

section Refused

variable {bound : Nat} {context : Context}

theorem runAll_refused {sources : List Source} (refused : ∀ source ∈ sources, ∃ fault, source.compile = .error fault) :
    runAll bound sources context = some context ∧ traceAll bound sources context = [] := by
  induction sources with
  | nil => exact ⟨rfl, rfl⟩
  | cons source rest ih =>
    obtain ⟨⟨fault, failed⟩, others⟩ := List.forall_mem_cons.1 refused
    obtain ⟨ran, traced⟩ := ih others
    constructor
    · rw [runAll_cons, Run.ofSource_of_error failed]
      exact ran
    · rw [traceAll, Run.ofSource_of_error failed, Source.trace, failed]
      exact traced

end Refused

/-- What holds between the calls of a session: the last result is that of the statement that finished last,
no name is lost that a statement or the start of the session left bound, and no other names but words are. -/
structure Consistent (trace : List Ended) (context : Context) : Prop where
  outermost : context.outer = []
  last : context.get? lastResult = some ((finished trace).getLastD .null)
  builtin : ∀ name ∈ ["true", "false", "null", "pi", "tau", lastResult], context.has name = true
  bound : ∀ ended ∈ trace, ∀ name, ended.context.has name = true → context.has name = true
  word : ∀ name, context.has name = true → name = lastResult ∨ IsWord name
  found : ∀ ended ∈ trace, ended.FoundLast

theorem kept_global : Kept .null Context.global where
  outermost := rfl
  last := rfl
  word := by
    intro name has
    have words : ∀ name ∈ ["true", "false", "null", "pi", "tau"], IsWord name := by decide
    simp only [Context.global, has_set, Bool.or_eq_true, decide_eq_true_eq] at has
    rcases has with rfl | rfl | rfl | rfl | rfl | has
    case inr.inr.inr.inr.inr =>
      by_cases same : name = lastResult
      · exact .inl same
      · simp [Context.has, Context.root, Scope.has, Scope.new, Scope.get?, same] at has
    all_goals exact .inr (words _ (by simp))

theorem leads_session {trace : List Ended} {context : Context} (session : Session trace context) :
    Leads .null Context.global trace context := by
  induction session with
  | new => exact leads_refl kept_global
  | call _ call ends ih =>
    rw [Call.after_eq] at ends
    exact ih.trans (leads_all ih.kept ends)

theorem consistent_of_leads {trace : List Ended} {context : Context}
    (leads : Leads .null Context.global trace context) : Consistent trace context where
  outermost := leads.kept.outermost
  last := leads.kept.last
  builtin := by
    intro name member
    apply leads.grows
    revert name
    decide
  bound := leads.within
  word := leads.kept.word
  found := leads.found

/-- After any calls the context is consistent with how their statements ended. From there on, no call loses
a name, a call whose texts are not compiled changes nothing and running such a text reports nothing, the
results that a run reports are the values of the statements that finish, no node fails to find the last
result, and no program assigns to a name that is not a word, as the name of the last result is. -/
theorem session_consistent {trace : List Ended} {context : Context} (session : Session trace context) :
    Consistent trace context ∧
    (∀ (call : Call) (bound : Nat) (after : Context), call.after bound context = some after →
      ∀ name, context.has name = true → after.has name = true) ∧
    (∀ (call : Call) (bound : Nat), (∀ source ∈ call.sources, ∃ fault, source.compile = .error fault) →
      call.after bound context = some context ∧ call.trace bound context = []) ∧
    (∀ (source : Source) (bound : Nat) (fault : Fault Position), source.compile = .error fault →
      Run.ofSource bound source context = some ⟨[], .error fault, context⟩) ∧
    (∀ (source : Source) (bound : Nat) (run : Run Position), Run.ofSource bound source context = some run →
      run.results = finished (source.trace bound context)) ∧
    (∀ (node : Node Position) (bound : Nat) (after : Context) (result : Except (Fault Position) Value),
      outcome (node.evaluate bound) context = some (result, after) → Ended.FoundLast ⟨result, after⟩) ∧
    (∀ (source : Source) (program : Node Position) (mark : Mark Position) (name : String) (value : Node Position),
      source.compile = .ok program → Node.Part (fun _ => true) (.assignment mark name value) program →
      IsWord name) ∧
    ¬ IsWord lastResult ∧
    ∀ (source : Source) (tokens : List (Token Position)), source.tokens = .ok tokens →
      ∀ token ∈ tokens, token.kind = .last → token.name = lastResult := by
  have leads := leads_session session
  refine ⟨consistent_of_leads leads, ?_, ?_, ?_, ?_, ?_, ?_, not_isWord_lastResult, ?_⟩
  · intro call bound after ends
    rw [Call.after_eq] at ends
    exact (leads_all leads.kept ends).grows
  · intro call bound refused
    rw [Call.after_eq]
    exact runAll_refused refused
  · intro source bound fault failed
    exact Run.ofSource_of_error failed
  · intro source bound run ran
    exact (leads_ofSource leads.kept ran).1
  · intro node bound after result ends fault scope fails
    exact (follows_node node ends).finds_last leads.kept.has_last fails scope
  · intro source program mark name value compiled part
    obtain ⟨_, first, rest, rfl, shaped⟩ := compile_shaped compiled
    exact (Node.Shaped.scope shaped).assigned part
  · intro source tokens scanned token member
    exact (names_of_tokens scanned member).2

theorem session_consistent_conversation :
    let call := Call.converse (.silent false) [.line "let a = true", .line "let last = a", .line "b"]
    let trace := call.trace 1 Context.global
    ∃ after, call.after 1 Context.global = some after ∧ Session trace after ∧ finished trace = [.boolean true] ∧
      Consistent trace after ∧ after.get? lastResult = some (.boolean true) := by
  intro call trace
  have ends : (call.after 1 Context.global).isSome = true := by decide +kernel
  have values : finished trace = [.boolean true] := by decide +kernel
  obtain ⟨after, ended⟩ := Option.isSome_iff_exists.1 ends
  have session := Session.new.call call ended
  rw [List.nil_append] at session
  have consistent := (session_consistent session).1
  have last := consistent.last
  rw [values] at last
  exact ⟨after, ended, session, values, consistent, last⟩

end Reckon
