import Reckon.Proofs.Grammar.Outcome

set_option autoImplicit false

/-!
# Tidy parsers

A parser leaves a suffix of the tokens ahead of it, and a fault of it stands at one of these tokens
or at the end of the text and says what is wrong with it.
-/

namespace Reckon.Parser

variable {P α β : Type}

/-- What a parser can find wrong with a token. -/
def Rejects (token : Token P) : Cause → Prop
  | .unexpectedToken found _ => token.kind ≠ .endOfText ∧ found = token.text
  | .unexpectedEnd _ => token.kind = .endOfText
  | .tooDeep _ => True
  | _ => False

structure Tidy (parser : Parser P α) : Prop where
  suffix : ∀ {stop : Token P} {ahead rest : List (Token P)} {value : α},
    outcome parser stop ahead = .ok (value, rest) → rest <:+ ahead
  located : ∀ {stop : Token P} {ahead : List (Token P)} {fault : Fault P},
    outcome parser stop ahead = .error fault →
      ∃ token ∈ ahead ++ [stop], fault.span = token.span ∧ Rejects token fault.cause

theorem headD_mem (ahead : List (Token P)) (stop : Token P) : ahead.headD stop ∈ ahead ++ [stop] := by
  cases ahead <;> simp

theorem tidy_pure (value : α) : Tidy (pure value : Parser P α) where
  suffix := by
    intro stop ahead rest result reads
    cases reads
    exact List.suffix_refl ahead
  located := by
    intro stop ahead fault fails
    cases fails

theorem Tidy.bind {parser : Parser P α} {next : α → Parser P β} (first : Tidy parser)
    (second : ∀ value, Tidy (next value)) : Tidy (parser >>= next) where
  suffix := by
    intro stop ahead rest value reads
    obtain ⟨middle, between, one, two⟩ := outcome_bind_eq_ok.1 reads
    exact ((second middle).suffix two).trans (first.suffix one)
  located := by
    intro stop ahead fault fails
    cases one : outcome parser stop ahead with
    | error early =>
      rw [outcome_bind_of_error next one] at fails
      cases fails
      exact first.located one
    | ok pair =>
      obtain ⟨value, between⟩ := pair
      rw [outcome_bind_of_ok next one] at fails
      obtain ⟨token, member, same⟩ := (second value).located fails
      refine ⟨token, ?_, same⟩
      rcases List.mem_append.1 member with inside | last
      · exact List.mem_append_left _ ((first.suffix one).subset inside)
      · exact List.mem_append_right _ last

theorem tidy_of_drop {parser : Parser P α} (value : Token P → List (Token P) → α)
    (count : List (Token P) → Nat)
    (reads : ∀ stop ahead, outcome parser stop ahead = .ok (value stop ahead, ahead.drop (count ahead))) :
    Tidy parser where
  suffix := by
    intro stop ahead rest result done
    rw [reads] at done
    cases done
    exact List.drop_suffix _ _
  located := by
    intro stop ahead fault fails
    rw [reads] at fails
    cases fails

theorem tidy_get : Tidy (get : Parser P (List (Token P))) :=
  tidy_of_drop (fun _ ahead => ahead) (fun _ => 0) fun _ _ => rfl

theorem tidy_peek : Tidy (peek : Parser P (Token P)) :=
  tidy_of_drop (fun stop ahead => ahead.headD stop) (fun _ => 0) fun _ _ => rfl

theorem tidy_take : Tidy (take : Parser P (Token P)) :=
  tidy_of_drop (fun stop ahead => ahead.headD stop) (fun _ => 1) fun stop ahead => by
    rw [outcome_take, List.drop_one]

theorem tidy_skip (kinds : List Kind) : Tidy (skip kinds : Parser P Unit) where
  suffix := by
    intro stop ahead rest value reads
    cases reads
    exact List.dropWhile_suffix _
  located := by
    intro stop ahead fault fails
    cases fails

theorem tidy_tooDeep (limit : Nat) (help : Option String) : Tidy (refuse (.tooDeep limit) help : Parser P α) where
  suffix := by
    intro stop ahead rest value reads
    cases reads
  located := by
    intro stop ahead fault fails
    cases fails
    exact ⟨ahead.headD stop, headD_mem ahead stop, rfl, trivial⟩

theorem tidy_unexpected (expected : List Kind) (help : Option String) :
    Tidy (unexpected expected help : Parser P α) where
  suffix := by
    intro stop ahead rest value reads
    unfold unexpected at reads
    rw [outcome_peek_bind] at reads
    split at reads <;> cases reads
  located := by
    intro stop ahead fault fails
    unfold unexpected at fails
    rw [outcome_peek_bind] at fails
    refine ⟨ahead.headD stop, headD_mem ahead stop, ?_⟩
    split at fails <;> rename_i kind <;> cases fails
    · exact ⟨rfl, kind⟩
    · exact ⟨rfl, kind, rfl⟩

theorem tidy_accept? (kinds : List Kind) : Tidy (accept? kinds : Parser P (Option (Token P))) := by
  refine tidy_peek.bind fun token => ?_
  split
  · exact tidy_take.bind fun taken => tidy_pure _
  · exact tidy_pure _

theorem tidy_expect (kind : Kind) (help : Option String) : Tidy (expect kind help : Parser P (Token P)) := by
  refine tidy_peek.bind fun token => ?_
  split
  · exact tidy_take
  · exact tidy_unexpected _ _

theorem tidy_acceptPastNewlines? (kinds : List Kind) :
    Tidy (acceptPastNewlines? kinds : Parser P (Option (Token P))) where
  suffix := by
    intro stop ahead rest value reads
    rw [outcome_acceptPastNewlines?] at reads
    have behind := List.dropWhile_suffix (l := ahead) fun token => token.kind = Kind.newline
    split at reads
    · cases reads
      exact List.suffix_refl ahead
    · rename_i token later gap
      rw [gap] at behind
      split at reads
      · cases reads
        exact (List.suffix_cons token rest).trans behind
      · cases reads
        exact List.suffix_refl ahead
  located := by
    intro stop ahead fault fails
    rw [outcome_acceptPastNewlines?] at fails
    split at fails
    · cases fails
    · split at fails <;> cases fails

end Reckon.Parser

namespace Reckon.Grammar

open Reckon.Parser

variable {P : Type} {deeper : Nested → Parser P (Node P)}

theorem tidy_moreOperands {operators : List Kind} {operand : Parser P (Node P)} (tidy : Tidy operand)
    (steps : List (Token P)) (left : Node P) : Tidy (moreOperands operators operand steps left) := by
  induction steps generalizing left with
  | nil => exact tidy_pure left
  | cons step steps ih =>
    refine (tidy_accept? operators).bind fun accepted => ?_
    split
    · exact tidy_pure left
    · exact tidy.bind fun right => ih _

theorem tidy_operands {operators : List Kind} {operand : Parser P (Node P)} (tidy : Tidy operand) :
    Tidy (operands operators operand) :=
  tidy.bind fun first => tidy_get.bind fun steps => tidy_moreOperands tidy steps first

theorem tidy_factor (inner : ∀ rule, Tidy (deeper rule)) : Tidy (factor deeper) := by
  refine tidy_peek.bind fun token => ?_
  split
  · exact tidy_take.bind fun taken => tidy_pure _
  · exact tidy_take.bind fun taken => tidy_pure _
  · exact tidy_take.bind fun taken => tidy_pure _
  · exact tidy_take.bind fun opening => (inner .statement).bind fun tree =>
      (tidy_expect _ _).bind fun closing => tidy_pure _
  · exact inner .negation
  · exact tidy_unexpected _ _

theorem tidy_comparison (inner : ∀ rule, Tidy (deeper rule)) : Tidy (comparison deeper) := by
  refine tidy_peek.bind fun token => ?_
  split
  · exact inner .complement
  · exact tidy_operands (tidy_operands (tidy_operands (tidy_operands (tidy_factor inner))))

theorem tidy_logical (inner : ∀ rule, Tidy (deeper rule)) : Tidy (logical deeper) :=
  tidy_operands (tidy_comparison inner)

theorem tidy_anotherStatement (closing : Kind) : Tidy (anotherStatement closing : Parser P Bool) := by
  refine (tidy_skip _).bind fun skipped => tidy_peek.bind fun next => ?_
  split
  · exact tidy_pure _
  · split
    · exact tidy_unexpected _ _
    · exact tidy_pure _

theorem tidy_statementEnd (closing : Kind) : Tidy (statementEnd closing : Parser P Bool) := by
  refine (tidy_accept? _).bind fun terminator => ?_
  split
  · exact tidy_pure _
  · refine (tidy_accept? _).bind fun line => ?_
    split
    · exact tidy_pure _
    · refine tidy_peek.bind fun next => ?_
      split
      · exact tidy_pure _
      · exact tidy_unexpected _ _

theorem tidy_statementList (inner : ∀ rule, Tidy (deeper rule)) (closing : Kind) (steps : List (Token P)) :
    Tidy (statementList deeper closing steps) := by
  induction steps with
  | nil => exact (tidy_anotherStatement closing).bind fun more => tidy_pure _
  | cons step steps ih =>
    refine (tidy_anotherStatement closing).bind fun more => ?_
    split
    · exact (inner .statement).bind fun statement => (tidy_statementEnd closing).bind fun hidden =>
        ih.bind fun others => tidy_pure _
    · exact tidy_pure _

theorem tidy_statements (inner : ∀ rule, Tidy (deeper rule)) (closing : Kind) :
    Tidy (statements deeper closing) := by
  refine tidy_get.bind fun steps => (tidy_statementList inner closing steps).bind fun list => ?_
  split
  · exact tidy_pure _
  · exact tidy_peek.bind fun next => tidy_pure _

theorem tidy_block (inner : ∀ rule, Tidy (deeper rule)) (name : String) (boundary : Bool) :
    Tidy (block deeper name boundary) :=
  (tidy_expect _ _).bind fun _ => (tidy_statements inner .closeBrace).bind fun _ =>
    (tidy_expect _ _).bind fun _ => tidy_pure _

theorem tidy_letStatement (inner : ∀ rule, Tidy (deeper rule)) : Tidy (letStatement deeper) :=
  tidy_take.bind fun _ => (tidy_expect _ _).bind fun _ => (tidy_expect _ _).bind fun _ =>
    (inner .statement).bind fun _ => tidy_pure _

theorem tidy_moreThenBranches (inner : ∀ rule, Tidy (deeper rule)) (steps : List (Token P)) :
    Tidy (moreThenBranches deeper steps) := by
  induction steps with
  | nil => exact tidy_pure _
  | cons step steps ih =>
    refine (tidy_accept? _).bind fun accepted => ?_
    split
    · exact tidy_pure _
    · split
      · exact (tidy_logical inner).bind fun condition => (tidy_expect _ _).bind fun word =>
          (inner .statement).bind fun body => ih.bind fun others => tidy_pure _
      · exact (inner .statement).bind fun body => tidy_pure _

theorem tidy_thenBranches (inner : ∀ rule, Tidy (deeper rule)) (condition : Node P) :
    Tidy (thenBranches deeper condition) :=
  tidy_take.bind fun _ => (inner .statement).bind fun _ => tidy_get.bind fun steps =>
    (tidy_moreThenBranches inner steps).bind fun _ => tidy_pure _

theorem tidy_moreBlockBranches (inner : ∀ rule, Tidy (deeper rule)) (steps : List (Token P)) :
    Tidy (moreBlockBranches deeper steps) := by
  induction steps with
  | nil => exact tidy_pure _
  | cons step steps ih =>
    refine (tidy_acceptPastNewlines? _).bind fun accepted => ?_
    split
    · exact tidy_pure _
    · split
      · exact (tidy_logical inner).bind fun condition => (tidy_block inner _ _).bind fun body =>
          ih.bind fun others => tidy_pure _
      · exact (tidy_block inner _ _).bind fun body => tidy_pure _

theorem tidy_blockBranches (inner : ∀ rule, Tidy (deeper rule)) (condition : Node P) :
    Tidy (blockBranches deeper condition) :=
  (tidy_block inner _ _).bind fun _ => tidy_get.bind fun steps =>
    (tidy_moreBlockBranches inner steps).bind fun _ => tidy_pure _

theorem tidy_ifStatement (inner : ∀ rule, Tidy (deeper rule)) : Tidy (ifStatement deeper) := by
  refine tidy_take.bind fun word => (tidy_logical inner).bind fun condition => tidy_peek.bind fun next => ?_
  split
  · exact (tidy_thenBranches inner condition).bind fun branches => tidy_pure _
  · exact (tidy_blockBranches inner condition).bind fun branches => tidy_pure _
  · exact tidy_unexpected _ _

theorem tidy_forStatement (inner : ∀ rule, Tidy (deeper rule)) : Tidy (forStatement deeper) :=
  tidy_take.bind fun _ => (tidy_expect _ _).bind fun _ => (inner .statement).bind fun _ =>
    (tidy_expect _ _).bind fun _ => (tidy_logical inner).bind fun _ =>
      (tidy_expect _ _).bind fun _ => (inner .statement).bind fun _ =>
        (tidy_expect _ _).bind fun _ => (tidy_block inner _ _).bind fun _ => tidy_pure _

theorem tidy_whileStatement (inner : ∀ rule, Tidy (deeper rule)) : Tidy (whileStatement deeper) :=
  tidy_take.bind fun _ => (tidy_logical inner).bind fun _ =>
    (tidy_block inner _ _).bind fun _ => tidy_pure _

theorem tidy_doStatement (inner : ∀ rule, Tidy (deeper rule)) : Tidy (doStatement deeper) := by
  refine tidy_take.bind fun word => (tidy_block inner _ _).bind fun body => (tidy_skip _).bind fun skipped =>
    tidy_peek.bind fun next => ?_
  split
  · exact tidy_take.bind fun closing => (tidy_logical inner).bind fun condition => tidy_pure _
  · exact tidy_unexpected _ _

theorem tidy_statement (inner : ∀ rule, Tidy (deeper rule)) : Tidy (statement deeper) := by
  refine tidy_peek.bind fun next => ?_
  split
  · exact tidy_letStatement inner
  · exact tidy_ifStatement inner
  · exact tidy_forStatement inner
  · exact tidy_whileStatement inner
  · exact tidy_doStatement inner
  · exact tidy_block inner _ _
  · exact tidy_logical inner

theorem tidy_nested (limit levels : Nat) (rule : Nested) : Tidy (nested limit levels rule : Parser P (Node P)) := by
  induction levels generalizing rule with
  | zero => exact tidy_tooDeep _ _
  | succ levels ih =>
    cases rule with
    | statement => exact tidy_statement ih
    | complement => exact tidy_take.bind fun operator => (tidy_comparison ih).bind fun operand => tidy_pure _
    | negation => exact tidy_take.bind fun operator => (tidy_factor ih).bind fun operand => tidy_pure _

theorem tidy_program (limit : Nat) : Tidy (program limit : Parser P (Node P)) :=
  (tidy_statements (tidy_nested limit limit) .endOfText).bind fun _ => tidy_pure _

end Reckon.Grammar
