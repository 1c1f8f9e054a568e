import Reckon.Proofs.Grammar.Phrase
import Reckon.Proofs.Grammar.Tidy

set_option autoImplicit false

/-!
# Rounds of a rule

A rule that repeats is given a list of steps, one for each round it may take. Here are the rules
with as many steps as tokens ahead, which are never too few: every round takes a token.
-/

namespace Reckon.Grammar

open Reckon.Parser

variable {P : Type} {stop : Token P} {ahead rest : List (Token P)} {deeper : Nested → Parser P (Node P)}

section Operands

variable {operators : List Kind} {operand : Parser P (Node P)} {left : Node P}

def chain (operators : List Kind) (operand : Parser P (Node P)) (left : Node P) : Parser P (Node P) := do
  moreOperands operators operand (← get) left

theorem moreOperands_done (ended : stop.kind = .endOfText) (ends : nextKind ahead ∉ operators)
    (steps : List (Token P)) : outcome (moreOperands operators operand steps left) stop ahead = .ok (left, ahead) := by
  cases steps with
  | nil => rfl
  | cons step steps =>
    have refused : outcome (accept? operators) stop ahead = .ok (none, ahead) := by
      rw [outcome_accept? ended]
      simp [ends]
    exact outcome_bind_of_ok _ refused

theorem moreOperands_step (ended : stop.kind = .endOfText) {operator : Token P}
    (kind : operator.kind ∈ operators) (step : Token P) (steps : List (Token P)) :
    outcome (moreOperands operators operand (step :: steps) left) stop (operator :: ahead) =
      outcome (operand >>= fun right => moreOperands operators operand steps (.mkBinary left operator right))
        stop ahead := by
  have accepted : outcome (accept? operators) stop (operator :: ahead) = .ok (some operator, ahead) := by
    rw [outcome_accept? ended]
    simp [nextKind, kind]
  exact outcome_bind_of_ok _ accepted

theorem moreOperands_enough (ended : stop.kind = .endOfText) (text : .endOfText ∉ operators)
    (tidy : Tidy operand) {steps others : List (Token P)} (enough : ahead.length ≤ steps.length)
    (plenty : ahead.length ≤ others.length) :
    outcome (moreOperands operators operand steps left) stop ahead =
      outcome (moreOperands operators operand others left) stop ahead := by
  induction steps generalizing others ahead left with
  | nil =>
    have empty : ahead = [] := List.eq_nil_of_length_eq_zero (Nat.le_zero.1 enough)
    have ends : nextKind ahead ∉ operators := by simpa [empty, nextKind] using text
    rw [moreOperands_done ended ends, moreOperands_done ended ends]
  | cons step steps ih =>
    by_cases ends : nextKind ahead ∈ operators
    · cases ahead with
      | nil => exact absurd ends text
      | cons operator behind =>
        obtain ⟨other, others, rfl⟩ := List.exists_cons_of_length_pos (Nat.lt_of_lt_of_le (by simp) plenty)
        rw [moreOperands_step ended ends, moreOperands_step ended ends]
        apply outcome_bind_congr
        intro right rest reads
        have shorter := (tidy.suffix reads).length_le
        simp only [List.length_cons] at enough plenty
        exact ih (by omega) (by omega)
    · rw [moreOperands_done ended ends, moreOperands_done ended ends]

theorem chain_done (ended : stop.kind = .endOfText) (ends : nextKind ahead ∉ operators) :
    outcome (chain operators operand left) stop ahead = .ok (left, ahead) :=
  moreOperands_done ended ends ahead

theorem chain_step (ended : stop.kind = .endOfText) (text : .endOfText ∉ operators) (tidy : Tidy operand)
    {operator : Token P} (kind : operator.kind ∈ operators) :
    outcome (chain operators operand left) stop (operator :: ahead) =
      outcome (operand >>= fun right => chain operators operand (.mkBinary left operator right)) stop ahead := by
  refine (moreOperands_step ended kind operator ahead).trans ?_
  apply outcome_bind_congr
  intro right rest reads
  exact moreOperands_enough ended text tidy (tidy.suffix reads).length_le (Nat.le_refl _)

end Operands

def thenRest (deeper : Nested → Parser P (Node P)) : Parser P (List (Node P × Node P)) := do
  moreThenBranches deeper (← get)

def elifThen (deeper : Nested → Parser P (Node P)) (more : Parser P (List (Node P × Node P))) :
    Parser P (List (Node P × Node P)) := do
  let condition ← logical deeper
  let _ ← expect .thenWord none
  let body ← deeper .statement
  return (condition, body) :: (← more)

theorem moreThenBranches_done (ended : stop.kind = .endOfText) (ends : nextKind ahead ∉ [.elifWord, .elseWord])
    (steps : List (Token P)) : outcome (moreThenBranches deeper steps) stop ahead = .ok ([], ahead) := by
  cases steps with
  | nil => rfl
  | cons step steps =>
    have refused : outcome (accept? [.elifWord, .elseWord]) stop ahead = .ok (none, ahead) := by
      rw [outcome_accept? ended]
      simp [ends]
    exact outcome_bind_of_ok _ refused

theorem moreThenBranches_elif (ended : stop.kind = .endOfText) {word : Token P} (kind : word.kind = .elifWord)
    (step : Token P) (steps : List (Token P)) :
    outcome (moreThenBranches deeper (step :: steps)) stop (word :: ahead) =
      outcome (elifThen deeper (moreThenBranches deeper steps)) stop ahead := by
  have accepted : outcome (accept? [.elifWord, .elseWord]) stop (word :: ahead) = .ok (some word, ahead) := by
    rw [outcome_accept? ended]
    simp [nextKind, kind]
  refine (outcome_bind_of_ok _ accepted).trans ?_
  simp only [kind, if_true]
  rfl

theorem moreThenBranches_else (ended : stop.kind = .endOfText) {word : Token P} (kind : word.kind = .elseWord)
    (step : Token P) (steps : List (Token P)) :
    outcome (moreThenBranches deeper (step :: steps)) stop (word :: ahead) =
      outcome (deeper .statement >>= fun body => pure [(always word, body)]) stop ahead := by
  have accepted : outcome (accept? [.elifWord, .elseWord]) stop (word :: ahead) = .ok (some word, ahead) := by
    rw [outcome_accept? ended]
    simp [nextKind, kind]
  refine (outcome_bind_of_ok _ accepted).trans ?_
  simp only [kind]
  rfl

theorem elifThen_congr (inner : ∀ rule, Tidy (deeper rule)) {more other : Parser P (List (Node P × Node P))}
    (same : ∀ rest, rest.length ≤ ahead.length → outcome more stop rest = outcome other stop rest) :
    outcome (elifThen deeper more) stop ahead = outcome (elifThen deeper other) stop ahead := by
  apply outcome_bind_congr
  intro condition first one
  have afterCondition := ((tidy_logical inner).suffix one).length_le
  apply outcome_bind_congr
  intro word second two
  have afterWord := ((tidy_expect _ _).suffix two).length_le
  apply outcome_bind_congr
  intro body third three
  have afterBody := ((inner .statement).suffix three).length_le
  exact outcome_bind_of_eq _ (same third (by omega))

theorem moreThenBranches_enough (ended : stop.kind = .endOfText) (inner : ∀ rule, Tidy (deeper rule))
    {steps others : List (Token P)} (enough : ahead.length ≤ steps.length) (plenty : ahead.length ≤ others.length) :
    outcome (moreThenBranches deeper steps) stop ahead = outcome (moreThenBranches deeper others) stop ahead := by
  induction steps generalizing others ahead with
  | nil =>
    have empty : ahead = [] := List.eq_nil_of_length_eq_zero (Nat.le_zero.1 enough)
    have ends : nextKind ahead ∉ [.elifWord, .elseWord] := by simp [empty, nextKind]
    rw [moreThenBranches_done ended ends, moreThenBranches_done ended ends]
  | cons step steps ih =>
    by_cases ends : nextKind ahead ∈ [.elifWord, .elseWord]
    · cases ahead with
      | nil => simp [nextKind] at ends
      | cons word behind =>
        obtain ⟨other, others, rfl⟩ := List.exists_cons_of_length_pos (Nat.lt_of_lt_of_le (by simp) plenty)
        have cases : word.kind = .elifWord ∨ word.kind = .elseWord := by simpa [nextKind] using ends
        rcases cases with kind | kind
        · rw [moreThenBranches_elif ended kind, moreThenBranches_elif ended kind]
          apply elifThen_congr inner
          intro rest shorter
          simp only [List.length_cons] at enough plenty
          exact ih (by omega) (by omega)
        · rw [moreThenBranches_else ended kind, moreThenBranches_else ended kind]
    · rw [moreThenBranches_done ended ends, moreThenBranches_done ended ends]

theorem thenRest_done (ended : stop.kind = .endOfText) (ends : nextKind ahead ∉ [.elifWord, .elseWord]) :
    outcome (thenRest deeper) stop ahead = .ok ([], ahead) :=
  moreThenBranches_done ended ends ahead

theorem thenRest_elif (ended : stop.kind = .endOfText) (inner : ∀ rule, Tidy (deeper rule)) {word : Token P}
    (kind : word.kind = .elifWord) :
    outcome (thenRest deeper) stop (word :: ahead) = outcome (elifThen deeper (thenRest deeper)) stop ahead := by
  refine (moreThenBranches_elif ended kind word ahead).trans ?_
  apply elifThen_congr inner
  intro rest shorter
  exact moreThenBranches_enough ended inner shorter (Nat.le_refl _)

theorem thenRest_else (ended : stop.kind = .endOfText) {word : Token P} (kind : word.kind = .elseWord) :
    outcome (thenRest deeper) stop (word :: ahead) =
      outcome (deeper .statement >>= fun body => pure [(always word, body)]) stop ahead :=
  moreThenBranches_else ended kind word ahead

def blockRest (deeper : Nested → Parser P (Node P)) : Parser P (List (Node P × Node P)) := do
  moreBlockBranches deeper (← get)

def elifBlock (deeper : Nested → Parser P (Node P)) (more : Parser P (List (Node P × Node P))) :
    Parser P (List (Node P × Node P)) := do
  let condition ← logical deeper
  let body ← block deeper "elif" true
  return (condition, body) :: (← more)

theorem moreBlockBranches_done (ends : nextKind (pastNewlines ahead) ∉ [.elifWord, .elseWord])
    (steps : List (Token P)) : outcome (moreBlockBranches deeper steps) stop ahead = .ok ([], ahead) := by
  cases steps with
  | nil => rfl
  | cons step steps => exact outcome_bind_of_ok _ (outcome_acceptPastNewlines?_none ends)

theorem moreBlockBranches_elif {word : Token P} (kind : word.kind = .elifWord)
    (behind : pastNewlines ahead = word :: rest) (step : Token P) (steps : List (Token P)) :
    outcome (moreBlockBranches deeper (step :: steps)) stop ahead =
      outcome (elifBlock deeper (moreBlockBranches deeper steps)) stop rest := by
  have member : word.kind ∈ [.elifWord, .elseWord] := by simp [kind]
  refine (outcome_bind_of_ok _ (outcome_acceptPastNewlines?_some member behind)).trans ?_
  simp only [kind, if_true]
  rfl

theorem moreBlockBranches_else {word : Token P} (kind : word.kind = .elseWord)
    (behind : pastNewlines ahead = word :: rest) (step : Token P) (steps : List (Token P)) :
    outcome (moreBlockBranches deeper (step :: steps)) stop ahead =
      outcome (block deeper "else" true >>= fun body => pure [(always word, body)]) stop rest := by
  have member : word.kind ∈ [.elifWord, .elseWord] := by simp [kind]
  refine (outcome_bind_of_ok _ (outcome_acceptPastNewlines?_some member behind)).trans ?_
  simp only [kind]
  rfl

theorem elifBlock_congr (inner : ∀ rule, Tidy (deeper rule)) {more other : Parser P (List (Node P × Node P))}
    (same : ∀ rest, rest.length ≤ ahead.length → outcome more stop rest = outcome other stop rest) :
    outcome (elifBlock deeper more) stop ahead = outcome (elifBlock deeper other) stop ahead := by
  apply outcome_bind_congr
  intro condition first one
  have afterCondition := ((tidy_logical inner).suffix one).length_le
  apply outcome_bind_congr
  intro body second two
  have afterBody := ((tidy_block inner _ _).suffix two).length_le
  exact outcome_bind_of_eq _ (same second (by omega))

theorem moreBlockBranches_enough (inner : ∀ rule, Tidy (deeper rule)) {steps others : List (Token P)}
    (enough : ahead.length ≤ steps.length) (plenty : ahead.length ≤ others.length) :
    outcome (moreBlockBranches deeper steps) stop ahead = outcome (moreBlockBranches deeper others) stop ahead := by
  induction steps generalizing others ahead with
  | nil =>
    have empty : ahead = [] := List.eq_nil_of_length_eq_zero (Nat.le_zero.1 enough)
    have ends : nextKind (pastNewlines ahead) ∉ [.elifWord, .elseWord] := by simp [empty, pastNewlines, nextKind]
    rw [moreBlockBranches_done ends, moreBlockBranches_done ends]
  | cons step steps ih =>
    by_cases ends : nextKind (pastNewlines ahead) ∈ [.elifWord, .elseWord]
    · cases behind : pastNewlines ahead with
      | nil => simp [behind, nextKind] at ends
      | cons word rest =>
        have shorter := length_lt_of_pastNewlines behind
        obtain ⟨other, others, rfl⟩ := List.exists_cons_of_length_pos (l := others) (by omega)
        have cases : word.kind = .elifWord ∨ word.kind = .elseWord := by simpa [behind, nextKind] using ends
        rcases cases with kind | kind
        · rw [moreBlockBranches_elif kind behind, moreBlockBranches_elif kind behind]
          apply elifBlock_congr inner
          intro last bound
          simp only [List.length_cons] at enough plenty
          exact ih (by omega) (by omega)
        · rw [moreBlockBranches_else kind behind, moreBlockBranches_else kind behind]
    · rw [moreBlockBranches_done ends, moreBlockBranches_done ends]

theorem blockRest_done (ends : nextKind (pastNewlines ahead) ∉ [.elifWord, .elseWord]) :
    outcome (blockRest deeper) stop ahead = .ok ([], ahead) :=
  moreBlockBranches_done ends ahead

theorem blockRest_elif (inner : ∀ rule, Tidy (deeper rule)) {word : Token P} (kind : word.kind = .elifWord)
    (behind : pastNewlines ahead = word :: rest) :
    outcome (blockRest deeper) stop ahead = outcome (elifBlock deeper (blockRest deeper)) stop rest := by
  have shorter := length_lt_of_pastNewlines behind
  obtain ⟨step, steps, split⟩ := List.exists_cons_of_length_pos (l := ahead) (by omega)
  have first : outcome (blockRest deeper) stop ahead =
      outcome (moreBlockBranches deeper (step :: steps)) stop ahead := by rw [← split]; rfl
  rw [first, moreBlockBranches_elif kind behind]
  apply elifBlock_congr inner
  intro last bound
  rw [split, List.length_cons] at shorter
  exact moreBlockBranches_enough inner (by omega) (Nat.le_refl _)

theorem blockRest_else {word : Token P} (kind : word.kind = .elseWord)
    (behind : pastNewlines ahead = word :: rest) :
    outcome (blockRest deeper) stop ahead =
      outcome (block deeper "else" true >>= fun body => pure [(always word, body)]) stop rest := by
  have shorter := length_lt_of_pastNewlines behind
  obtain ⟨step, steps, split⟩ := List.exists_cons_of_length_pos (l := ahead) (by omega)
  have first : outcome (blockRest deeper) stop ahead =
      outcome (moreBlockBranches deeper (step :: steps)) stop ahead := by rw [← split]; rfl
  rw [first, moreBlockBranches_else kind behind]

def pastSeparators (ahead : List (Token P)) : List (Token P) :=
  ahead.dropWhile fun token => [Kind.newline, Kind.terminator].contains token.kind

theorem outcome_anotherStatement (ended : stop.kind = .endOfText) (closing : Kind) :
    outcome (anotherStatement closing) stop ahead =
      if nextKind (pastSeparators ahead) = closing then .ok (false, pastSeparators ahead)
      else if nextKind (pastSeparators ahead) = .endOfText then
        .error ⟨.unexpectedEnd (separators closing), ((pastSeparators ahead).headD stop).span, none⟩
      else .ok (true, pastSeparators ahead) := by
  unfold anotherStatement
  rw [outcome_skip_bind, outcome_peek_bind, kind_headD ended]
  change outcome (if nextKind (pastSeparators ahead) = closing then pure false
    else if nextKind (pastSeparators ahead) = .endOfText then unexpected (separators closing) none
    else pure true) stop (pastSeparators ahead) = _
  by_cases ends : nextKind (pastSeparators ahead) = closing
  · simp only [ends, if_true]
    rfl
  · simp only [ends, if_false]
    by_cases finished : nextKind (pastSeparators ahead) = .endOfText
    · simp only [finished, if_true]
      rw [outcome_unexpected ended]
      simp [surprise, finished]
    · simp only [finished, if_false]
      rfl

theorem outcome_statementEnd (ended : stop.kind = .endOfText) (closing : Kind) :
    outcome (statementEnd closing) stop ahead =
      if nextKind ahead = .terminator then .ok (true, ahead.tail)
      else if nextKind ahead = .newline then .ok (false, ahead.tail)
      else if nextKind ahead = closing then .ok (false, ahead)
      else .error ⟨surprise stop (separators closing) ahead, (ahead.headD stop).span,
        some "Separate statements with a newline or ';'."⟩ := by
  unfold statementEnd
  by_cases hides : nextKind ahead = .terminator
  · have taken : outcome (accept? [.terminator]) stop ahead = .ok (some (ahead.headD stop), ahead.tail) := by
      rw [outcome_accept? ended]
      simp [hides]
    rw [outcome_bind_of_ok _ taken]
    simp only [hides, if_true]
    rfl
  · have kept : outcome (accept? [.terminator]) stop ahead = .ok (none, ahead) := by
      rw [outcome_accept? ended]
      simp [hides]
    rw [outcome_bind_of_ok _ kept]
    simp only [hides, if_false]
    by_cases ends : nextKind ahead = .newline
    · have taken : outcome (accept? [.newline]) stop ahead = .ok (some (ahead.headD stop), ahead.tail) := by
        rw [outcome_accept? ended]
        simp [ends]
      refine (outcome_bind_of_ok _ taken).trans ?_
      simp only [ends, if_true]
      rfl
    · have kept : outcome (accept? [.newline]) stop ahead = .ok (none, ahead) := by
        rw [outcome_accept? ended]
        simp [ends]
      refine (outcome_bind_of_ok _ kept).trans ?_
      simp only [ends, if_false]
      refine (outcome_peek_bind _).trans ?_
      rw [kind_headD ended]
      split
      · rfl
      · exact outcome_unexpected ended _ _

theorem outcome_statementEnd_cons (ended : stop.kind = .endOfText) (closing : Kind) (token : Token P)
    (behind : List (Token P)) :
    outcome (statementEnd closing) stop (token :: behind) =
      if token.kind = .terminator then .ok (true, behind)
      else if token.kind = .newline then .ok (false, behind)
      else if token.kind = closing then .ok (false, token :: behind)
      else .error ⟨surprise stop (separators closing) (token :: behind), token.span,
        some "Separate statements with a newline or ';'."⟩ :=
  outcome_statementEnd ended closing

def Strict (stop : Token P) (parser : Parser P (Node P)) : Prop :=
  ∀ {ahead rest : List (Token P)} {tree : Node P},
    outcome parser stop ahead = .ok (tree, rest) → rest.length < ahead.length

def sequence (deeper : Nested → Parser P (Node P)) (closing : Kind) : Parser P (List (Node P)) := do
  statementList deeper closing (← get)

def oneStatement (deeper : Nested → Parser P (Node P)) (closing : Kind) (more : Parser P (List (Node P))) :
    Parser P (List (Node P)) := do
  let statement ← deeper .statement
  let hidden ← statementEnd closing
  return (if hidden then statement.silenced else statement) :: (← more)

theorem pastSeparators_suffix (ahead : List (Token P)) : pastSeparators ahead <:+ ahead :=
  List.dropWhile_suffix _

theorem pastSeparators_cons {token : Token P} (separates : token.kind = .newline ∨ token.kind = .terminator)
    (behind : List (Token P)) : pastSeparators (token :: behind) = pastSeparators behind := by
  unfold pastSeparators
  rw [List.dropWhile_cons_of_pos]
  simpa using separates

theorem pastSeparators_eq (line : nextKind ahead ≠ .newline) (shown : nextKind ahead ≠ .terminator) :
    pastSeparators ahead = ahead := by
  cases ahead with
  | nil => rfl
  | cons token behind =>
    simp only [nextKind] at line shown
    simp [pastSeparators, line, shown]

variable {closing : Kind}

theorem statementList_done (ended : stop.kind = .endOfText) (ends : nextKind (pastSeparators ahead) = closing)
    (steps : List (Token P)) :
    outcome (statementList deeper closing steps) stop ahead = .ok ([], pastSeparators ahead) := by
  have none : outcome (anotherStatement closing) stop ahead = .ok (false, pastSeparators ahead) := by
    rw [outcome_anotherStatement ended, if_pos ends]
  cases steps with
  | nil => exact outcome_bind_of_ok _ none
  | cons step steps => exact outcome_bind_of_ok _ none

theorem statementList_over (ended : stop.kind = .endOfText) (open' : nextKind (pastSeparators ahead) ≠ closing)
    (finished : nextKind (pastSeparators ahead) = .endOfText) (steps : List (Token P)) :
    outcome (statementList deeper closing steps) stop ahead =
      .error ⟨.unexpectedEnd (separators closing), ((pastSeparators ahead).headD stop).span, none⟩ := by
  have none : outcome (anotherStatement closing) stop ahead =
      .error ⟨.unexpectedEnd (separators closing), ((pastSeparators ahead).headD stop).span, none⟩ := by
    rw [outcome_anotherStatement ended, if_neg open', if_pos finished]
  cases steps with
  | nil => exact outcome_bind_of_error _ none
  | cons step steps => exact outcome_bind_of_error _ none

theorem statementList_step (ended : stop.kind = .endOfText) (open' : nextKind (pastSeparators ahead) ≠ closing)
    (more : nextKind (pastSeparators ahead) ≠ .endOfText) (step : Token P) (steps : List (Token P)) :
    outcome (statementList deeper closing (step :: steps)) stop ahead =
      outcome (oneStatement deeper closing (statementList deeper closing steps)) stop (pastSeparators ahead) := by
  have another : outcome (anotherStatement closing) stop ahead = .ok (true, pastSeparators ahead) := by
    rw [outcome_anotherStatement ended, if_neg open', if_neg more]
  exact outcome_bind_of_ok _ another

theorem oneStatement_congr (strict : Strict stop (deeper .statement)) {more other : Parser P (List (Node P))}
    (same : ∀ rest, rest.length < ahead.length → outcome more stop rest = outcome other stop rest) :
    outcome (oneStatement deeper closing more) stop ahead =
      outcome (oneStatement deeper closing other) stop ahead := by
  apply outcome_bind_congr
  intro statement first one
  have afterStatement := strict one
  apply outcome_bind_congr
  intro hidden second two
  have afterEnd := ((tidy_statementEnd closing).suffix two).length_le
  exact outcome_bind_of_eq _ (same second (by omega))

theorem pastSeparators_length_pos (more : nextKind (pastSeparators ahead) ≠ .endOfText) :
    0 < (pastSeparators ahead).length := by
  apply List.length_pos_iff.2
  intro empty
  simp [empty, nextKind] at more

theorem statementList_enough (ended : stop.kind = .endOfText) (strict : Strict stop (deeper .statement))
    {steps others : List (Token P)} (enough : ahead.length ≤ steps.length) (plenty : ahead.length ≤ others.length) :
    outcome (statementList deeper closing steps) stop ahead =
      outcome (statementList deeper closing others) stop ahead := by
  induction steps generalizing others ahead with
  | nil =>
    have empty : ahead = [] := List.eq_nil_of_length_eq_zero (Nat.le_zero.1 enough)
    have finished : nextKind (pastSeparators ahead) = .endOfText := by simp [empty, pastSeparators, nextKind]
    by_cases ends : nextKind (pastSeparators ahead) = closing
    · rw [statementList_done ended ends, statementList_done ended ends]
    · rw [statementList_over ended ends finished, statementList_over ended ends finished]
  | cons step steps ih =>
    by_cases ends : nextKind (pastSeparators ahead) = closing
    · rw [statementList_done ended ends, statementList_done ended ends]
    · by_cases finished : nextKind (pastSeparators ahead) = .endOfText
      · rw [statementList_over ended ends finished, statementList_over ended ends finished]
      · have shorter := (pastSeparators_suffix ahead).length_le
        have inside := pastSeparators_length_pos finished
        obtain ⟨other, others, rfl⟩ := List.exists_cons_of_length_pos (l := others) (by omega)
        rw [statementList_step ended ends finished, statementList_step ended ends finished]
        apply oneStatement_congr strict
        intro rest bound
        simp only [List.length_cons] at enough plenty
        exact ih (by omega) (by omega)

theorem sequence_done (ended : stop.kind = .endOfText) (ends : nextKind (pastSeparators ahead) = closing) :
    outcome (sequence deeper closing) stop ahead = .ok ([], pastSeparators ahead) :=
  statementList_done ended ends ahead

theorem sequence_over (ended : stop.kind = .endOfText) (open' : nextKind (pastSeparators ahead) ≠ closing)
    (finished : nextKind (pastSeparators ahead) = .endOfText) :
    outcome (sequence deeper closing) stop ahead =
      .error ⟨.unexpectedEnd (separators closing), ((pastSeparators ahead).headD stop).span, none⟩ :=
  statementList_over ended open' finished ahead

theorem sequence_step (ended : stop.kind = .endOfText) (strict : Strict stop (deeper .statement))
    (open' : nextKind (pastSeparators ahead) ≠ closing) (more : nextKind (pastSeparators ahead) ≠ .endOfText) :
    outcome (sequence deeper closing) stop ahead =
      outcome (oneStatement deeper closing (sequence deeper closing)) stop (pastSeparators ahead) := by
  have shorter := (pastSeparators_suffix ahead).length_le
  have inside := pastSeparators_length_pos more
  obtain ⟨step, steps, split⟩ := List.exists_cons_of_length_pos (l := ahead) (by omega)
  have first : outcome (sequence deeper closing) stop ahead =
      outcome (statementList deeper closing (step :: steps)) stop ahead := by rw [← split]; rfl
  rw [first, statementList_step ended open' more]
  apply oneStatement_congr strict
  intro rest bound
  rw [split, List.length_cons] at shorter
  exact statementList_enough ended strict (by rw [split] at bound; omega) (Nat.le_refl _)

theorem sequence_closed {token : Token P} {rest : List (Token P)} (ended : stop.kind = .endOfText)
    (split : pastSeparators ahead = token :: rest) (closes : token.kind = closing) :
    outcome (sequence deeper closing) stop ahead = .ok ([], token :: rest) := by
  rw [sequence_done ended (by rw [split]; exact closes), split]

theorem sequence_cons {token : Token P} {rest : List (Token P)} (ended : stop.kind = .endOfText)
    (strict : Strict stop (deeper .statement)) (split : pastSeparators ahead = token :: rest)
    (open' : token.kind ≠ closing) (more : token.kind ≠ .endOfText) :
    outcome (sequence deeper closing) stop ahead =
      outcome (oneStatement deeper closing (sequence deeper closing)) stop (token :: rest) := by
  rw [sequence_step ended strict (by rw [split]; exact open') (by rw [split]; exact more), split]

theorem sequence_past (ended : stop.kind = .endOfText) (strict : Strict stop (deeper .statement))
    {other : List (Token P)} (same : pastSeparators ahead = pastSeparators other) :
    outcome (sequence deeper closing) stop ahead = outcome (sequence deeper closing) stop other := by
  by_cases ends : nextKind (pastSeparators other) = closing
  · rw [sequence_done ended ends, sequence_done ended (same ▸ ends), same]
  · by_cases finished : nextKind (pastSeparators other) = .endOfText
    · rw [sequence_over ended ends finished, sequence_over ended (same ▸ ends) (same ▸ finished), same]
    · rw [sequence_step ended strict ends finished, sequence_step ended strict (same ▸ ends) (same ▸ finished), same]

theorem outcome_statements (deeper : Nested → Parser P (Node P)) (closing : Kind) :
    outcome (statements deeper closing) stop ahead =
      (outcome (sequence deeper closing) stop ahead).map fun read => (filled (read.2.headD stop) read.1, read.2) := by
  have split : outcome (sequence deeper closing) stop ahead =
      outcome (statementList deeper closing ahead) stop ahead := rfl
  unfold statements
  rw [split, outcome_get_bind]
  cases read : outcome (statementList deeper closing ahead) stop ahead with
  | error fault => exact outcome_bind_of_error _ read
  | ok pair =>
    obtain ⟨list, rest⟩ := pair
    refine (outcome_bind_of_ok _ read).trans ?_
    cases list <;> rfl

end Reckon.Grammar
