import Reckon.Proofs.Grammar.Outcome

set_option autoImplicit false

/-!
# Renamed positions

Parsers never look at positions: what they read from tokens with other positions is the same, with
these positions.
-/

namespace Reckon

variable {P Q : Type} {f : P → Q}

namespace Node

@[simp]
theorem span_map (node : Node P) : (node.map f).span = node.span.map f := by
  unfold span
  rw [mark_map]
  rfl

theorem mapAll_eq (statements : List (Node P)) : mapAll f statements = statements.map (map f) := by
  induction statements with
  | nil => rfl
  | cons first rest ih => exact congrArg (first.map f :: ·) ih

def mapBranch (f : P → Q) (branch : Node P × Node P) : Node Q × Node Q := (branch.1.map f, branch.2.map f)

theorem mapBranches_eq (branches : List (Node P × Node P)) :
    mapBranches f branches = branches.map (mapBranch f) := by
  induction branches with
  | nil => rfl
  | cons first rest ih => exact congrArg (mapBranch f first :: ·) ih

theorem map_silenced (node : Node P) : node.silenced.map f = (node.map f).silenced := by
  unfold silenced
  rw [mark_map]
  cases node <;> rfl

theorem map_mkLiteral (value : Value) (span : Span P) :
    (mkLiteral value span).map f = mkLiteral value (span.map f) := rfl

theorem map_mkBinary (left : Node P) (operator : Token P) (right : Node P) :
    (mkBinary left operator right).map f = mkBinary (left.map f) (operator.map f) (right.map f) := by
  unfold mkBinary
  rw [span_map, span_map]
  rfl

theorem map_mkUnary (operator : Token P) (operand : Node P) :
    (mkUnary operator operand).map f = mkUnary (operator.map f) (operand.map f) := by
  unfold mkUnary
  rw [span_map]
  rfl

theorem map_mkAssignment (name : Token P) (value : Node P) :
    (mkAssignment name value).map f = mkAssignment (name.map f) (value.map f) := by
  unfold mkAssignment
  rw [span_map]
  rfl

theorem map_mkRetrieval (name : Token P) : (mkRetrieval name).map f = mkRetrieval (name.map f) := rfl

theorem map_mkScope (name : String) (boundary : Bool) (first : Node P) (rest : List (Node P)) :
    (mkScope name boundary first rest).map f = mkScope name boundary (first.map f) (rest.map (map f)) := by
  have last : ((first.map f) :: rest.map (map f)).getLast (List.cons_ne_nil _ _) =
      ((first :: rest).getLast (List.cons_ne_nil _ _)).map f := by
    rw [← List.getLast_map (f := map f) (by simp)]
    rfl
  change scope _ name boundary (first.map f :: mapAll f rest) = _
  unfold mkScope
  rw [mapAll_eq, last]
  dsimp only
  rw [span_map, span_map]
  rfl

theorem map_mkChoice (start : P) (branches : List (Node P × Node P)) :
    (mkChoice start branches).map f = mkChoice (f start) (branches.map (mapBranch f)) := by
  have stop : ((branches.map (mapBranch f)).getLast?.map fun branch => branch.2.span.stop).getD (f start) =
      f ((branches.getLast?.map fun branch => branch.2.span.stop).getD start) := by
    rw [List.getLast?_map]
    cases branches.getLast? with
    | none => rfl
    | some branch => exact congrArg Span.stop (span_map branch.2)
  change choice _ (mapBranches f branches) = _
  unfold mkChoice
  rw [mapBranches_eq, stop]
  rfl

theorem map_mkWhile (start : P) (bodyFirst : Bool) (condition body : Node P) :
    (mkWhile start bodyFirst condition body).map f =
      mkWhile (f start) bodyFirst (condition.map f) (body.map f) := by
  unfold mkWhile
  rw [span_map, span_map]
  cases bodyFirst <;> rfl

theorem map_mkFor (first : P) (start condition step body : Node P) :
    (mkFor first start condition step body).map f =
      mkFor (f first) (start.map f) (condition.map f) (step.map f) (body.map f) := by
  unfold mkFor
  rw [span_map]
  rfl

end Node

namespace Parser

variable {α β γ δ : Type}

def renamed (f : P → Q) (g : α → β) :
    Except (Fault P) (α × List (Token P)) → Except (Fault Q) (β × List (Token Q))
  | .ok (value, rest) => .ok (g value, rest.map (Token.map f))
  | .error fault => .error (fault.map f)

/-- The second parser does with renamed tokens what the first does with the tokens. -/
def Renames (f : P → Q) (g : α → β) (parser : Parser P α) (other : Parser Q β) : Prop :=
  ∀ stop ahead, outcome other (stop.map f) (ahead.map (Token.map f)) = renamed f g (outcome parser stop ahead)

theorem Renames.bind {g : α → β} {h : γ → δ} {parser : Parser P α} {other : Parser Q β}
    {next : α → Parser P γ} {later : β → Parser Q δ} (first : Renames f g parser other)
    (second : ∀ value, Renames f h (next value) (later (g value))) :
    Renames f h (parser >>= next) (other >>= later) := by
  intro stop ahead
  have same := first stop ahead
  cases read : outcome parser stop ahead with
  | error fault =>
    rw [read] at same
    rw [outcome_bind_of_error next read, outcome_bind_of_error later same]
    rfl
  | ok pair =>
    obtain ⟨value, rest⟩ := pair
    rw [read] at same
    rw [outcome_bind_of_ok next read, outcome_bind_of_ok later same]
    exact second value stop rest

theorem renames_pure {g : α → β} {value : α} {other : β} (same : g value = other) :
    Renames f g (pure value) (pure other) := by
  intro stop ahead
  subst same
  rfl

theorem renames_get : Renames f (List.map (Token.map f)) get get := fun _ _ => rfl

theorem headD_map (ahead : List (Token P)) (stop : Token P) :
    (ahead.map (Token.map f)).headD (stop.map f) = (ahead.headD stop).map f := by
  cases ahead <;> rfl

theorem renames_peek : Renames f (Token.map f) peek peek := by
  intro stop ahead
  rw [outcome_peek, outcome_peek, headD_map]
  rfl

theorem renames_take : Renames f (Token.map f) take take := by
  intro stop ahead
  rw [outcome_take, outcome_take, headD_map, ← List.map_tail]
  rfl

theorem dropWhile_map (kind : Kind → Bool) (ahead : List (Token P)) :
    (ahead.map (Token.map f)).dropWhile (fun token => kind token.kind) =
      (ahead.dropWhile fun token => kind token.kind).map (Token.map f) := by
  rw [List.dropWhile_map]
  rfl

theorem renames_skip (kinds : List Kind) : Renames f id (skip kinds) (skip kinds) := by
  intro stop ahead
  rw [outcome_skip, outcome_skip, dropWhile_map kinds.contains]
  rfl

theorem renames_refuse {g : α → β} (cause : Cause) (help : Option String) :
    Renames f g (refuse cause help) (refuse cause help) := by
  intro stop ahead
  rw [outcome_refuse, outcome_refuse, headD_map]
  rfl

theorem renames_unexpected {g : α → β} (expected : List Kind) (help : Option String) :
    Renames f g (unexpected expected help) (unexpected expected help) := by
  refine renames_peek.bind fun token => ?_
  rw [Token.kind_map, Token.text_map]
  split
  · exact renames_refuse _ _
  · exact renames_refuse _ _

theorem renames_accept? (kinds : List Kind) :
    Renames f (Option.map (Token.map f)) (accept? kinds) (accept? kinds) := by
  refine renames_peek.bind fun token => ?_
  rw [Token.kind_map]
  split
  · exact renames_take.bind fun taken => renames_pure rfl
  · exact renames_pure rfl

theorem renames_acceptPastNewlines? (kinds : List Kind) :
    Renames f (Option.map (Token.map f)) (acceptPastNewlines? kinds) (acceptPastNewlines? kinds) := by
  intro stop ahead
  rw [outcome_acceptPastNewlines?, outcome_acceptPastNewlines?, dropWhile_map (· = .newline)]
  cases ahead.dropWhile fun token => token.kind = .newline with
  | nil => rfl
  | cons token rest =>
    simp only [List.map_cons, Token.kind_map]
    by_cases accepted : kinds.contains token.kind
    · simp only [accepted, if_true]
      rfl
    · simp only [accepted, Bool.false_eq_true, if_false]
      rfl

theorem renames_expect (kind : Kind) (help : Option String) :
    Renames f (Token.map f) (expect kind help) (expect kind help) := by
  refine renames_peek.bind fun token => ?_
  rw [Token.kind_map]
  split
  · exact renames_take
  · exact renames_unexpected _ _

end Parser

namespace Grammar

open Reckon.Parser

variable {deeper : Nested → Parser P (Node P)} {further : Nested → Parser Q (Node Q)}

theorem renames_moreOperands {operators : List Kind} {operand : Parser P (Node P)} {other : Parser Q (Node Q)}
    (renames : Renames f (Node.map f) operand other) (steps : List (Token P)) (left : Node P) :
    Renames f (Node.map f) (moreOperands operators operand steps left)
      (moreOperands operators other (steps.map (Token.map f)) (left.map f)) := by
  induction steps generalizing left with
  | nil => exact renames_pure rfl
  | cons step steps ih =>
    refine (renames_accept? operators).bind fun accepted => ?_
    cases accepted with
    | none => exact renames_pure rfl
    | some operator =>
      refine renames.bind fun right => ?_
      have same := ih (.mkBinary left operator right)
      rw [Node.map_mkBinary] at same
      exact same

theorem renames_operands {operators : List Kind} {operand : Parser P (Node P)} {other : Parser Q (Node Q)}
    (renames : Renames f (Node.map f) operand other) :
    Renames f (Node.map f) (operands operators operand) (operands operators other) :=
  renames.bind fun first => renames_get.bind fun steps => renames_moreOperands renames steps first

theorem renames_factor (inner : ∀ rule, Renames f (Node.map f) (deeper rule) (further rule)) :
    Renames f (Node.map f) (factor deeper) (factor further) := by
  refine renames_peek.bind fun token => ?_
  rw [Token.kind_map]
  split
  · exact renames_take.bind fun taken => renames_pure (Node.map_mkLiteral _ _)
  · exact renames_take.bind fun taken => renames_pure (Node.map_mkRetrieval _)
  · exact renames_take.bind fun taken => renames_pure (Node.map_mkRetrieval _)
  · exact renames_take.bind fun opening => (inner .statement).bind fun tree =>
      (renames_expect _ _).bind fun closing => renames_pure rfl
  · exact inner .negation
  · exact renames_unexpected _ _

theorem renames_comparison (inner : ∀ rule, Renames f (Node.map f) (deeper rule) (further rule)) :
    Renames f (Node.map f) (comparison deeper) (comparison further) := by
  refine renames_peek.bind fun token => ?_
  rw [Token.kind_map]
  split
  · exact inner .complement
  · exact renames_operands (renames_operands (renames_operands (renames_operands (renames_factor inner))))

theorem renames_logical (inner : ∀ rule, Renames f (Node.map f) (deeper rule) (further rule)) :
    Renames f (Node.map f) (logical deeper) (logical further) :=
  renames_operands (renames_comparison inner)

theorem renames_anotherStatement (closing : Kind) :
    Renames f id (anotherStatement closing) (anotherStatement closing) := by
  refine (renames_skip _).bind fun skipped => renames_peek.bind fun next => ?_
  rw [Token.kind_map]
  split
  · exact renames_pure rfl
  · split
    · exact renames_unexpected _ _
    · exact renames_pure rfl

theorem renames_statementEnd (closing : Kind) :
    Renames f id (statementEnd closing) (statementEnd closing) := by
  refine (renames_accept? _).bind fun terminator => ?_
  rw [Option.isSome_map]
  split
  · exact renames_pure rfl
  · refine (renames_accept? _).bind fun line => ?_
    rw [Option.isSome_map]
    split
    · exact renames_pure rfl
    · refine renames_peek.bind fun next => ?_
      rw [Token.kind_map]
      split
      · exact renames_pure rfl
      · exact renames_unexpected _ _

theorem renames_statementList (inner : ∀ rule, Renames f (Node.map f) (deeper rule) (further rule))
    (closing : Kind) (steps : List (Token P)) :
    Renames f (List.map (Node.map f)) (statementList deeper closing steps)
      (statementList further closing (steps.map (Token.map f))) := by
  induction steps with
  | nil => exact (renames_anotherStatement closing).bind fun more => renames_pure rfl
  | cons step steps ih =>
    refine (renames_anotherStatement closing).bind fun more => ?_
    cases more with
    | false => exact renames_pure rfl
    | true =>
      refine (inner .statement).bind fun statement => (renames_statementEnd closing).bind fun hidden =>
        ih.bind fun others => ?_
      apply renames_pure
      cases hidden with
      | false => rfl
      | true => exact congrArg (· :: others.map (Node.map f)) (Node.map_silenced statement)

theorem renames_statements (inner : ∀ rule, Renames f (Node.map f) (deeper rule) (further rule))
    (closing : Kind) :
    Renames f (fun pair => (pair.1.map f, pair.2.map (Node.map f))) (statements deeper closing)
      (statements further closing) := by
  refine renames_get.bind fun steps => (renames_statementList inner closing steps).bind fun list => ?_
  cases list with
  | nil =>
    refine renames_peek.bind fun next => renames_pure ?_
    rw [Node.map_mkLiteral]
    rfl
  | cons first rest => exact renames_pure rfl

theorem renames_block (inner : ∀ rule, Renames f (Node.map f) (deeper rule) (further rule))
    (name : String) (boundary : Bool) :
    Renames f (Node.map f) (block deeper name boundary) (block further name boundary) :=
  (renames_expect _ _).bind fun _ => (renames_statements inner .closeBrace).bind fun (first, rest) =>
    (renames_expect _ _).bind fun _ => renames_pure (Node.map_mkScope name boundary first rest)

theorem renames_letStatement (inner : ∀ rule, Renames f (Node.map f) (deeper rule) (further rule)) :
    Renames f (Node.map f) (letStatement deeper) (letStatement further) :=
  renames_take.bind fun _ => (renames_expect _ _).bind fun name => (renames_expect _ _).bind fun _ =>
    (inner .statement).bind fun value => renames_pure (Node.map_mkAssignment name value)

theorem map_always (word : Token P) : (always word).map f = always (word.map f) :=
  Node.map_mkLiteral _ _

theorem renames_moreThenBranches (inner : ∀ rule, Renames f (Node.map f) (deeper rule) (further rule))
    (steps : List (Token P)) :
    Renames f (List.map (Node.mapBranch f)) (moreThenBranches deeper steps)
      (moreThenBranches further (steps.map (Token.map f))) := by
  induction steps with
  | nil => exact renames_pure rfl
  | cons step steps ih =>
    refine (renames_accept? _).bind fun accepted => ?_
    cases accepted with
    | none => exact renames_pure rfl
    | some word =>
      dsimp only [Option.map_some]
      rw [Token.kind_map]
      split
      · exact (renames_logical inner).bind fun condition => (renames_expect _ _).bind fun _ =>
          (inner .statement).bind fun body => ih.bind fun others => renames_pure rfl
      · refine (inner .statement).bind fun body => renames_pure ?_
        rw [← map_always]
        rfl

theorem renames_thenBranches (inner : ∀ rule, Renames f (Node.map f) (deeper rule) (further rule))
    (condition : Node P) :
    Renames f (List.map (Node.mapBranch f)) (thenBranches deeper condition)
      (thenBranches further (condition.map f)) :=
  renames_take.bind fun _ => (inner .statement).bind fun _ => renames_get.bind fun steps =>
    (renames_moreThenBranches inner steps).bind fun _ => renames_pure rfl

theorem renames_moreBlockBranches (inner : ∀ rule, Renames f (Node.map f) (deeper rule) (further rule))
    (steps : List (Token P)) :
    Renames f (List.map (Node.mapBranch f)) (moreBlockBranches deeper steps)
      (moreBlockBranches further (steps.map (Token.map f))) := by
  induction steps with
  | nil => exact renames_pure rfl
  | cons step steps ih =>
    refine (renames_acceptPastNewlines? _).bind fun accepted => ?_
    cases accepted with
    | none => exact renames_pure rfl
    | some word =>
      dsimp only [Option.map_some]
      rw [Token.kind_map]
      split
      · exact (renames_logical inner).bind fun condition => (renames_block inner _ _).bind fun body =>
          ih.bind fun others => renames_pure rfl
      · refine (renames_block inner _ _).bind fun body => renames_pure ?_
        rw [← map_always]
        rfl

theorem renames_blockBranches (inner : ∀ rule, Renames f (Node.map f) (deeper rule) (further rule))
    (condition : Node P) :
    Renames f (List.map (Node.mapBranch f)) (blockBranches deeper condition)
      (blockBranches further (condition.map f)) :=
  (renames_block inner _ _).bind fun _ => renames_get.bind fun steps =>
    (renames_moreBlockBranches inner steps).bind fun _ => renames_pure rfl

theorem renames_ifStatement (inner : ∀ rule, Renames f (Node.map f) (deeper rule) (further rule)) :
    Renames f (Node.map f) (ifStatement deeper) (ifStatement further) := by
  refine renames_take.bind fun word => (renames_logical inner).bind fun condition =>
    renames_peek.bind fun next => ?_
  rw [Token.kind_map]
  split
  · exact (renames_thenBranches inner condition).bind fun branches =>
      renames_pure (Node.map_mkChoice word.span.start branches)
  · exact (renames_blockBranches inner condition).bind fun branches =>
      renames_pure (Node.map_mkChoice word.span.start branches)
  · exact renames_unexpected _ _

theorem renames_forStatement (inner : ∀ rule, Renames f (Node.map f) (deeper rule) (further rule)) :
    Renames f (Node.map f) (forStatement deeper) (forStatement further) :=
  renames_take.bind fun word => (renames_expect _ _).bind fun _ => (inner .statement).bind fun start =>
    (renames_expect _ _).bind fun _ => (renames_logical inner).bind fun condition =>
      (renames_expect _ _).bind fun _ => (inner .statement).bind fun step =>
        (renames_expect _ _).bind fun _ => (renames_block inner _ _).bind fun body =>
          renames_pure (Node.map_mkFor word.span.start start condition step body)

theorem renames_whileStatement (inner : ∀ rule, Renames f (Node.map f) (deeper rule) (further rule)) :
    Renames f (Node.map f) (whileStatement deeper) (whileStatement further) :=
  renames_take.bind fun word => (renames_logical inner).bind fun condition =>
    (renames_block inner _ _).bind fun body =>
      renames_pure (Node.map_mkWhile word.span.start false condition body)

theorem renames_doStatement (inner : ∀ rule, Renames f (Node.map f) (deeper rule) (further rule)) :
    Renames f (Node.map f) (doStatement deeper) (doStatement further) := by
  refine renames_take.bind fun word => (renames_block inner _ _).bind fun body =>
    (renames_skip _).bind fun skipped => renames_peek.bind fun next => ?_
  rw [Token.kind_map]
  split
  · exact renames_take.bind fun again => (renames_logical inner).bind fun condition =>
      renames_pure (Node.map_mkWhile word.span.start true condition body)
  · exact renames_unexpected _ _

theorem renames_statement (inner : ∀ rule, Renames f (Node.map f) (deeper rule) (further rule)) :
    Renames f (Node.map f) (statement deeper) (statement further) := by
  refine renames_peek.bind fun next => ?_
  rw [Token.kind_map]
  split
  · exact renames_letStatement inner
  · exact renames_ifStatement inner
  · exact renames_forStatement inner
  · exact renames_whileStatement inner
  · exact renames_doStatement inner
  · exact renames_block inner _ _
  · exact renames_logical inner

theorem renames_nested (limit levels : Nat) (rule : Nested) :
    Renames f (Node.map f) (nested limit levels rule) (nested limit levels rule) := by
  induction levels generalizing rule with
  | zero => exact renames_refuse _ _
  | succ levels ih =>
    cases rule with
    | statement => exact renames_statement ih
    | complement =>
      exact renames_take.bind fun operator => (renames_comparison ih).bind fun operand =>
        renames_pure (Node.map_mkUnary operator operand)
    | negation =>
      exact renames_take.bind fun operator => (renames_factor ih).bind fun operand =>
        renames_pure (Node.map_mkUnary operator operand)

theorem renames_program (limit : Nat) :
    Renames f (Node.map f) (program limit) (program limit) :=
  (renames_statements (renames_nested limit limit) .endOfText).bind fun (first, rest) =>
    renames_pure (Node.map_mkScope "global" false first rest)

end Grammar

end Reckon
