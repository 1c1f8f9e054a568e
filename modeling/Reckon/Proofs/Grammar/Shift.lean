import Reckon.Proofs.Grammar.Continued

set_option autoImplicit false

/-!
# Phrases with something else behind them

What stands behind a phrase matters to it only as far as it could go on there. Where another list of
tokens stands behind it that does not go on with it either, the same tokens are the same phrase.
-/

namespace Reckon.Grammar

open Reckon.Parser

variable {P : Type} {before after left ahead : List (Token P)}

/-- What stands behind can be exchanged: the kind ahead stays or goes on with nothing, and no branch comes up. -/
structure Swaps (after left : List (Token P)) : Prop where
  next : nextKind left = nextKind after ∨ nextKind left ∈ .newline :: quiet
  branches : Branches left → Branches after

theorem branches_append {ahead other : List (Token P)} (goes : Branches (before ++ ahead)) (stays : ¬ Branches ahead) :
    Branches (before ++ other) := by
  unfold Branches at goes stays ⊢
  cases split : pastNewlines before with
  | nil =>
    rw [pastNewlines_append_nil split] at goes
    exact absurd goes stays
  | cons token rest =>
    rw [pastNewlines_append_cons split] at goes ⊢
    exact goes

theorem Swaps.append (swaps : Swaps after left) (before : List (Token P)) : Swaps (before ++ after) (before ++ left) where
  next := by
    cases before with
    | nil => exact swaps.next
    | cons token rest => exact .inl rfl
  branches := by
    intro goes
    by_cases branches : Branches left
    · cases split : pastNewlines before with
      | nil =>
        unfold Branches
        rw [pastNewlines_append_nil split]
        exact swaps.branches branches
      | cons token rest =>
        unfold Branches at goes ⊢
        rw [pastNewlines_append_cons split] at goes ⊢
        exact goes
    · exact branches_append goes branches

theorem Swaps.cons (swaps : Swaps after left) (token : Token P) : Swaps (token :: after) (token :: left) :=
  swaps.append [token]

theorem swaps_cons {token : Token P} (other : token.kind ≠ .newline) : Swaps (token :: after) (token :: left) where
  next := .inl rfl
  branches := by
    unfold Branches
    rw [pastNewlines_cons other, pastNewlines_cons other]
    exact id

def Phrase.Closed (after left : List (Token P)) : Phrase P → Prop
  | .sequence .. => nextKind left = nextKind after
  | _ => True

def Phrase.Shifts (phrase : Phrase P) (before after : List (Token P)) : Prop :=
  ∃ taken, before = taken ++ after ∧
    ∀ left, Swaps after left → phrase.Closed after left → Reads phrase (taken ++ left) left

theorem Reads.shifts {phrase : Phrase P} (reads : Reads phrase before after) : phrase.Shifts before after := by
  induction reads with
  | @number token after kind => exact ⟨[token], rfl, fun _ _ _ => .number kind⟩
  | @name token after kind => exact ⟨[token], rfl, fun _ _ _ => .name kind⟩
  | @group opening closing tree before after opens _ closes ih =>
    obtain ⟨taken, rfl, shift⟩ := ih
    refine ⟨opening :: taken ++ [closing], by simp, fun left _ _ => ?_⟩
    have inner := shift (closing :: left) (swaps_cons (by rw [closes]; decide)) trivial
    simpa using Reads.group opens inner closes
  | @negation sign operand before after kind _ ih =>
    obtain ⟨taken, rfl, shift⟩ := ih
    exact ⟨sign :: taken, rfl, fun left swaps _ => .negation kind (shift left swaps trivial)⟩
  | @complement sign operand before after kind _ ih =>
    obtain ⟨taken, rfl, shift⟩ := ih
    exact ⟨sign :: taken, rfl, fun left swaps _ => .complement kind (shift left swaps trivial)⟩
  | fold loose _ _ one two =>
    obtain ⟨taken, rfl, shift⟩ := one
    obtain ⟨more, rfl, others⟩ := two
    refine ⟨taken ++ more, by simp, fun left swaps _ => ?_⟩
    rw [List.append_assoc]
    exact .fold loose (shift _ (swaps.append more) trivial) (others left swaps trivial)
  | @noOperand rank tree after ends =>
    refine ⟨[], rfl, fun left swaps _ => .noOperand ?_⟩
    rcases swaps.next with same | quiet
    · exact same ▸ ends
    · exact operators_apart rank _ quiet
  | @operand rank l r t operator before middle after kind _ _ one two =>
    obtain ⟨taken, rfl, shift⟩ := one
    obtain ⟨more, rfl, others⟩ := two
    refine ⟨operator :: taken ++ more, by simp, fun left swaps _ => ?_⟩
    have first := shift _ (swaps.append more) trivial
    simpa using Reads.operand kind first (others left swaps trivial)
  | expression _ ih =>
    obtain ⟨taken, rfl, shift⟩ := ih
    exact ⟨taken, rfl, fun left swaps _ => .expression (shift left swaps trivial)⟩
  | @assignment word name sign value before after starts named assigns _ ih =>
    obtain ⟨taken, rfl, shift⟩ := ih
    exact ⟨word :: name :: sign :: taken, rfl, fun left swaps _ =>
      .assignment starts named assigns (shift left swaps trivial)⟩
  | @thenForm word separator condition body branches before middle later after starts _ separates _ _ one two three =>
    obtain ⟨taken, rfl, test⟩ := one
    obtain ⟨more, rfl, first⟩ := two
    obtain ⟨last, rfl, others⟩ := three
    refine ⟨word :: taken ++ separator :: more ++ last, by simp, fun left swaps _ => ?_⟩
    have second := first _ (swaps.append last) trivial
    have front := test (separator :: (more ++ (last ++ left))) (swaps_cons (by rw [separates]; decide)) trivial
    simpa using Reads.thenForm starts front separates second (others left swaps trivial)
  | @blockForm word condition body branches before middle later after starts _ _ _ one two three =>
    obtain ⟨taken, rfl, test⟩ := one
    obtain ⟨more, rfl, first⟩ := two
    obtain ⟨last, rfl, others⟩ := three
    refine ⟨word :: taken ++ more ++ last, by simp, fun left swaps _ => ?_⟩
    have second := first _ (swaps.append last) trivial
    have front := test _ ((swaps.append last).append more) trivial
    simpa using Reads.blockForm starts front second (others left swaps trivial)
  | @forLoop word opening semicolon separator closing start condition step body before second third fourth after starts
      opens _ ends _ separates _ closes _ one two three four =>
    obtain ⟨taken, rfl, init⟩ := one
    obtain ⟨more, rfl, test⟩ := two
    obtain ⟨next, rfl, increment⟩ := three
    obtain ⟨last, rfl, round⟩ := four
    refine ⟨word :: opening :: taken ++ semicolon :: more ++ separator :: next ++ closing :: last, by simp,
      fun left swaps _ => ?_⟩
    have third := increment (closing :: (last ++ left)) (swaps_cons (by rw [closes]; decide)) trivial
    have second := test (separator :: (next ++ closing :: (last ++ left)))
      (swaps_cons (by rw [separates]; decide)) trivial
    have first := init (semicolon :: (more ++ separator :: (next ++ closing :: (last ++ left))))
      (swaps_cons (by rw [ends]; decide)) trivial
    simpa using Reads.forLoop starts opens first ends second separates third closes (round left swaps trivial)
  | @whileLoop word condition body before middle after starts _ _ one two =>
    obtain ⟨taken, rfl, test⟩ := one
    obtain ⟨more, rfl, round⟩ := two
    refine ⟨word :: taken ++ more, by simp, fun left swaps _ => ?_⟩
    simpa using Reads.whileLoop starts (test _ (swaps.append more) trivial) (round left swaps trivial)
  | @doLoop word again condition body gap before middle after starts _ blank repeats _ one two =>
    obtain ⟨taken, rfl, round⟩ := one
    obtain ⟨more, rfl, test⟩ := two
    refine ⟨word :: taken ++ gap ++ again :: more, by simp, fun left swaps _ => ?_⟩
    have first := round _ (((swaps.append more).cons again).append gap) trivial
    simpa using Reads.doLoop starts first blank repeats (test left swaps trivial)
  | bareBlock _ ih =>
    obtain ⟨taken, rfl, shift⟩ := ih
    exact ⟨taken, rfl, fun left swaps _ => .bareBlock (shift left swaps trivial)⟩
  | @block name boundary opening closing statements before after opens _ closes ih =>
    obtain ⟨taken, rfl, shift⟩ := ih
    refine ⟨opening :: taken ++ [closing], by simp, fun left _ _ => ?_⟩
    have inner := shift (closing :: left) (swaps_cons (by rw [closes]; decide)) rfl
    have whole : Reads (.block name boundary (scopeOf name boundary closing statements)) _ left :=
      .block opens inner closes
    simpa using whole
  -- What closes a sequence is not taken by it, so it has to be ahead again.
  | finished ends => exact ⟨[], rfl, fun left _ same => .finished (same.trans ends)⟩
  | @separator closing token statements before after separates _ ih =>
    obtain ⟨taken, rfl, shift⟩ := ih
    exact ⟨token :: taken, rfl, fun left swaps same => .separator separates (shift left swaps same)⟩
  | @hidden closing tree terminator statements before middle after _ hides _ one two =>
    obtain ⟨taken, rfl, shift⟩ := one
    obtain ⟨more, rfl, others⟩ := two
    refine ⟨taken ++ terminator :: more, by simp, fun left swaps same => ?_⟩
    have first := shift _ ((swaps.append more).cons terminator) trivial
    simpa using Reads.hidden first hides (others left swaps same)
  | @shown closing tree newline statements before middle after _ ends _ one two =>
    obtain ⟨taken, rfl, shift⟩ := one
    obtain ⟨more, rfl, others⟩ := two
    refine ⟨taken ++ newline :: more, by simp, fun left swaps same => ?_⟩
    have first := shift _ ((swaps.append more).cons newline) trivial
    simpa using Reads.shown first ends (others left swaps same)
  | final _ ends ih =>
    obtain ⟨taken, rfl, shift⟩ := ih
    exact ⟨taken, rfl, fun left swaps same => .final (shift left swaps trivial) (same.trans ends)⟩
  | noThen ends =>
    refine ⟨[], rfl, fun left swaps _ => .noThen ?_⟩
    rcases swaps.next with same | quiet
    · exact same ▸ ends
    · have apart : ∀ kind ∈ Kind.newline :: Grammar.quiet, kind ∉ [Kind.elifWord, .elseWord] := by decide
      exact apart _ quiet
  | @elifThen word separator condition body branches before middle later after starts _ separates _ _ one two three =>
    obtain ⟨taken, rfl, test⟩ := one
    obtain ⟨more, rfl, first⟩ := two
    obtain ⟨last, rfl, others⟩ := three
    refine ⟨word :: taken ++ separator :: more ++ last, by simp, fun left swaps _ => ?_⟩
    have second := first _ (swaps.append last) trivial
    have front := test (separator :: (more ++ (last ++ left))) (swaps_cons (by rw [separates]; decide)) trivial
    simpa using Reads.elifThen starts front separates second (others left swaps trivial)
  | @elseThen word body before after starts _ ih =>
    obtain ⟨taken, rfl, shift⟩ := ih
    exact ⟨word :: taken, rfl, fun left swaps _ => .elseThen starts (shift left swaps trivial)⟩
  | noBlock ends => exact ⟨[], rfl, fun left swaps _ => .noBlock fun goes => ends (swaps.branches goes)⟩
  | @elifBlock word condition body branches gap before middle later after blank starts _ _ _ one two three =>
    obtain ⟨taken, rfl, test⟩ := one
    obtain ⟨more, rfl, first⟩ := two
    obtain ⟨last, rfl, others⟩ := three
    refine ⟨gap ++ word :: taken ++ more ++ last, by simp, fun left swaps _ => ?_⟩
    have second := first _ (swaps.append last) trivial
    have front := test _ ((swaps.append last).append more) trivial
    simpa using Reads.elifBlock blank starts front second (others left swaps trivial)
  | @elseBlock word body gap before after blank starts _ ih =>
    obtain ⟨taken, rfl, shift⟩ := ih
    refine ⟨gap ++ word :: taken, by simp, fun left swaps _ => ?_⟩
    simpa using Reads.elseBlock blank starts (shift left swaps trivial)

end Reckon.Grammar
