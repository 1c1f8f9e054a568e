import Reckon.Proofs.Grammar.Soundness

set_option autoImplicit false

/-!
# Every phrase is read

A phrase takes a token for each level of nesting, so a limit of as many levels as tokens is never met.
-/

namespace Reckon.Grammar

open Reckon.Parser

variable {P : Type} {stop : Token P} {ahead rest : List (Token P)} {deeper : Nested → Parser P (Node P)}
  {tree : Node P}

def Rank.parser (deeper : Nested → Parser P (Node P)) : Rank → Parser P (Node P)
  | .factor => Grammar.factor deeper
  | .power => Grammar.power deeper
  | .term => Grammar.term deeper
  | .sum => Grammar.sum deeper
  | .comparison => Grammar.comparison deeper
  | .logical => Grammar.logical deeper

def Rank.starters : Rank → List Kind
  | .comparison | .logical => [.number, .identifier, .last, .openParen, .minus, .not]
  | _ => [.number, .identifier, .last, .openParen, .minus]

def statementStarters : List Kind :=
  [.letWord, .ifWord, .forWord, .whileWord, .doWord, .openBrace] ++ Rank.logical.starters

theorem tidy_rank (inner : ∀ rule, Tidy (deeper rule)) (rank : Rank) : Tidy (rank.parser deeper) := by
  have factors := tidy_factor inner
  cases rank with
  | factor => exact factors
  | power => exact tidy_operands factors
  | term => exact tidy_operands (tidy_operands factors)
  | sum => exact tidy_operands (tidy_operands (tidy_operands factors))
  | comparison => exact tidy_comparison inner
  | logical => exact tidy_logical inner

def Phrase.Starts (phrase : Phrase P) (before : List (Token P)) : Prop :=
  match phrase with
  | .expression rank _ => nextKind before ∈ rank.starters
  | .statement _ => nextKind before ∈ statementStarters
  | .block .. => nextKind before = .openBrace
  | _ => True

theorem Reads.starts {phrase : Phrase P} {before after : List (Token P)} (reads : Reads phrase before after) :
    phrase.Starts before := by
  induction reads with
  | number kind => simp [Phrase.Starts, Rank.starters, nextKind, kind]
  | name kind => rcases kind with kind | kind <;> simp [Phrase.Starts, Rank.starters, nextKind, kind]
  | group opens => simp [Phrase.Starts, Rank.starters, nextKind, opens]
  | negation kind => simp [Phrase.Starts, Rank.starters, nextKind, kind]
  | complement kind => simp [Phrase.Starts, Rank.starters, nextKind, kind]
  | @fold rank _ _ _ _ _ loose _ _ first _ =>
    have wider : ∀ kind ∈ rank.tighter.starters, kind ∈ rank.starters := by cases rank <;> decide
    exact wider _ first
  | expression _ inner => exact List.mem_append_right _ inner
  | assignment starts => simp [Phrase.Starts, statementStarters, nextKind, starts]
  | thenForm starts => simp [Phrase.Starts, statementStarters, nextKind, starts]
  | blockForm starts => simp [Phrase.Starts, statementStarters, nextKind, starts]
  | forLoop starts => simp [Phrase.Starts, statementStarters, nextKind, starts]
  | whileLoop starts => simp [Phrase.Starts, statementStarters, nextKind, starts]
  | doLoop starts => simp [Phrase.Starts, statementStarters, nextKind, starts]
  | bareBlock _ inner =>
    have opens : nextKind _ = Kind.openBrace := inner
    simp [Phrase.Starts, statementStarters, opens]
  | block opens => exact opens
  | _ => trivial

theorem outcome_rank (ended : stop.kind = .endOfText) {rank : Rank} (loose : rank ≠ .factor)
    (plain : rank = .comparison → nextKind ahead ≠ .not) :
    outcome (rank.parser deeper) stop ahead =
      outcome (rank.tighter.parser deeper >>= chain rank.operators (rank.tighter.parser deeper)) stop ahead := by
  cases rank with
  | factor => exact absurd rfl loose
  | comparison =>
    unfold Rank.parser comparison
    rw [outcome_peek_bind, kind_headD ended, if_neg (plain rfl)]
    rfl
  | _ => rfl

theorem outcome_statement_expression (ended : stop.kind = .endOfText) (starts : nextKind ahead ∈ Rank.logical.starters) :
    outcome (statement deeper) stop ahead = outcome (logical deeper) stop ahead := by
  unfold statement
  rw [outcome_peek_bind, kind_headD ended]
  simp only [Rank.starters, List.mem_cons, List.not_mem_nil, or_false] at starts
  rcases starts with next | next | next | next | next | next <;> rw [next]

section Parts

variable {before middle after later : List (Token P)} {condition body : Node P}
  {word opening closing separator : Token P} {branches : List (Node P × Node P)}

theorem outcome_group (ended : stop.kind = .endOfText) (opens : opening.kind = .openParen)
    (inner : outcome (deeper .statement) stop before = .ok (tree, closing :: after))
    (closes : closing.kind = .closeParen) :
    outcome (factor deeper) stop (opening :: before) = .ok (tree, after) := by
  unfold factor
  rw [outcome_peek_bind, List.headD_cons, opens]
  dsimp only
  rw [outcome_take_bind]
  refine (outcome_bind_of_ok _ inner).trans ?_
  exact outcome_bind_of_ok _ (outcome_expect_cons ended closes _)

theorem outcome_block (ended : stop.kind = .endOfText) {name : String} {boundary : Bool}
    (opens : opening.kind = .openBrace) {statements : List (Node P)}
    (inner : outcome (sequence deeper .closeBrace) stop before = .ok (statements, closing :: after))
    (closes : closing.kind = .closeBrace) :
    outcome (block deeper name boundary) stop (opening :: before) =
      .ok (scopeOf name boundary closing statements, after) := by
  have content : outcome (Grammar.statements deeper .closeBrace) stop before =
      .ok (filled closing statements, closing :: after) := by
    rw [outcome_statements, inner]
    rfl
  unfold block
  refine (outcome_bind_of_ok _ (outcome_expect_cons ended opens _)).trans ?_
  refine (outcome_bind_of_ok _ content).trans ?_
  exact outcome_bind_of_ok _ (outcome_expect_cons ended closes _)

theorem outcome_letStatement (ended : stop.kind = .endOfText) {name sign : Token P} {value : Node P}
    (starts : word.kind = .letWord) (named : name.kind = .identifier) (assigns : sign.kind = .assign)
    (inner : outcome (deeper .statement) stop before = .ok (value, after)) :
    outcome (statement deeper) stop (word :: name :: sign :: before) = .ok (.mkAssignment name value, after) := by
  unfold statement
  rw [outcome_peek_bind, List.headD_cons, starts]
  dsimp only
  unfold letStatement
  rw [outcome_take_bind]
  refine (outcome_bind_of_ok _ (outcome_expect_cons ended named _)).trans ?_
  refine (outcome_bind_of_ok _ (outcome_expect_cons ended assigns _)).trans ?_
  exact outcome_bind_of_ok _ inner

theorem outcome_thenForm (starts : word.kind = .ifWord)
    (test : outcome (logical deeper) stop before = .ok (condition, separator :: middle))
    (separates : separator.kind = .thenWord) (first : outcome (deeper .statement) stop middle = .ok (body, later))
    (others : outcome (thenRest deeper) stop later = .ok (branches, after)) :
    outcome (statement deeper) stop (word :: before) =
      .ok (.mkChoice word.span.start ((condition, body) :: branches), after) := by
  have chosen : outcome (thenBranches deeper condition) stop (separator :: middle) =
      .ok ((condition, body) :: branches, after) := by
    unfold thenBranches
    rw [outcome_take_bind]
    refine (outcome_bind_of_ok _ first).trans ?_
    rw [outcome_get_bind]
    exact outcome_bind_of_ok _ others
  unfold statement
  rw [outcome_peek_bind, List.headD_cons, starts]
  dsimp only
  unfold ifStatement
  rw [outcome_take_bind]
  refine (outcome_bind_of_ok _ test).trans ?_
  rw [outcome_peek_bind, List.headD_cons, separates]
  exact outcome_bind_of_ok _ chosen

theorem outcome_blockForm (starts : word.kind = .ifWord)
    (test : outcome (logical deeper) stop before = .ok (condition, opening :: middle))
    (opens : opening.kind = .openBrace)
    (first : outcome (block deeper "if" true) stop (opening :: middle) = .ok (body, later))
    (others : outcome (blockRest deeper) stop later = .ok (branches, after)) :
    outcome (statement deeper) stop (word :: before) =
      .ok (.mkChoice word.span.start ((condition, body) :: branches), after) := by
  have chosen : outcome (blockBranches deeper condition) stop (opening :: middle) =
      .ok ((condition, body) :: branches, after) := by
    unfold blockBranches
    refine (outcome_bind_of_ok _ first).trans ?_
    rw [outcome_get_bind]
    exact outcome_bind_of_ok _ others
  unfold statement
  rw [outcome_peek_bind, List.headD_cons, starts]
  dsimp only
  unfold ifStatement
  rw [outcome_take_bind]
  refine (outcome_bind_of_ok _ test).trans ?_
  rw [outcome_peek_bind, List.headD_cons, opens]
  exact outcome_bind_of_ok _ chosen

theorem outcome_forStatement (ended : stop.kind = .endOfText) {semicolon : Token P} {start step : Node P}
    {second third fourth : List (Token P)} (starts : word.kind = .forWord) (opens : opening.kind = .openParen)
    (init : outcome (deeper .statement) stop before = .ok (start, semicolon :: second))
    (ends : semicolon.kind = .terminator)
    (test : outcome (logical deeper) stop second = .ok (condition, separator :: third))
    (separates : separator.kind = .terminator)
    (increment : outcome (deeper .statement) stop third = .ok (step, closing :: fourth))
    (closes : closing.kind = .closeParen)
    (round : outcome (block deeper "for" false) stop fourth = .ok (body, after)) :
    outcome (statement deeper) stop (word :: opening :: before) =
      .ok (.mkFor word.span.start start condition step body, after) := by
  unfold statement
  rw [outcome_peek_bind, List.headD_cons, starts]
  dsimp only
  unfold forStatement
  rw [outcome_take_bind]
  refine (outcome_bind_of_ok _ (outcome_expect_cons ended opens _)).trans ?_
  refine (outcome_bind_of_ok _ init).trans ?_
  refine (outcome_bind_of_ok _ (outcome_expect_cons ended ends _)).trans ?_
  refine (outcome_bind_of_ok _ test).trans ?_
  refine (outcome_bind_of_ok _ (outcome_expect_cons ended separates _)).trans ?_
  refine (outcome_bind_of_ok _ increment).trans ?_
  refine (outcome_bind_of_ok _ (outcome_expect_cons ended closes _)).trans ?_
  exact outcome_bind_of_ok _ round

theorem outcome_whileStatement (starts : word.kind = .whileWord)
    (test : outcome (logical deeper) stop before = .ok (condition, middle))
    (round : outcome (block deeper "while" false) stop middle = .ok (body, after)) :
    outcome (statement deeper) stop (word :: before) =
      .ok (.mkWhile word.span.start false condition body, after) := by
  unfold statement
  rw [outcome_peek_bind, List.headD_cons, starts]
  dsimp only
  unfold whileStatement
  rw [outcome_take_bind]
  refine (outcome_bind_of_ok _ test).trans ?_
  exact outcome_bind_of_ok _ round

theorem outcome_doStatement {again : Token P} (starts : word.kind = .doWord)
    (round : outcome (block deeper "do-while" false) stop before = .ok (body, later))
    (past : pastNewlines later = again :: middle) (repeats : again.kind = .whileWord)
    (test : outcome (logical deeper) stop middle = .ok (condition, after)) :
    outcome (statement deeper) stop (word :: before) =
      .ok (.mkWhile word.span.start true condition body, after) := by
  unfold statement
  rw [outcome_peek_bind, List.headD_cons, starts]
  dsimp only
  unfold doStatement
  rw [outcome_take_bind]
  refine (outcome_bind_of_ok _ round).trans ?_
  rw [outcome_skip_newlines_bind, past, outcome_peek_bind, List.headD_cons, if_pos repeats, outcome_take_bind]
  exact outcome_bind_of_ok _ test

theorem outcome_bareBlock (opens : nextKind before = .openBrace)
    (inner : outcome (block deeper "anonymous" true) stop before = .ok (tree, after)) :
    outcome (statement deeper) stop before = .ok (tree, after) := by
  obtain ⟨opening, middle, rfl, kind⟩ := exists_cons_of_nextKind opens (by decide)
  unfold statement
  rw [outcome_peek_bind, List.headD_cons, kind]
  exact inner

end Parts

def Parsed (stop : Token P) (limit levels : Nat) (phrase : Phrase P) (before after : List (Token P)) : Prop :=
  match phrase with
  | .expression rank tree => before.length ≤ levels →
    outcome (rank.parser (nested limit levels)) stop before = .ok (tree, after)
  | .operands rank left tree => before.length ≤ levels →
    outcome (chain rank.operators (rank.tighter.parser (nested limit levels)) left) stop before = .ok (tree, after)
  | .statement tree => before.length < levels →
    outcome (nested limit levels .statement) stop before = .ok (tree, after)
  | .block name boundary tree => before.length ≤ levels →
    outcome (block (nested limit levels) name boundary) stop before = .ok (tree, after)
  | .sequence closing statements => closing ∈ [.closeBrace, .endOfText] → before.length < levels →
    outcome (sequence (nested limit levels) closing) stop before = .ok (statements, after)
  | .thenBranches branches => before.length ≤ levels →
    outcome (thenRest (nested limit levels)) stop before = .ok (branches, after)
  | .blockBranches branches => before.length ≤ levels →
    outcome (blockRest (nested limit levels)) stop before = .ok (branches, after)

theorem parsed_statement {limit levels : Nat} {before after : List (Token P)}
    (reads : ∀ lower, before.length ≤ lower →
      outcome (statement (nested limit lower)) stop before = .ok (tree, after)) :
    Parsed stop limit levels (.statement tree) before after := by
  intro room
  obtain ⟨lower, rfl⟩ := Nat.exists_eq_add_of_lt (Nat.zero_lt_of_lt room)
  have enough := reads lower (by omega)
  rw [Nat.zero_add]
  exact enough

theorem outcome_sequence_statement (ended : stop.kind = .endOfText) (sound : Sound stop deeper) {closing : Kind}
    {before middle after : List (Token P)} {statements : List (Node P)} {hidden : Bool}
    (starts : nextKind before ∉ [.newline, .terminator, closing, .endOfText])
    (first : outcome (deeper .statement) stop before = .ok (tree, middle))
    (ends : outcome (statementEnd closing) stop middle = .ok (hidden, after))
    (others : outcome (sequence deeper closing) stop after = .ok (statements, rest)) :
    outcome (sequence deeper closing) stop before =
      .ok ((if hidden then tree.silenced else tree) :: statements, rest) := by
  simp only [List.mem_cons, List.not_mem_nil, or_false, not_or] at starts
  obtain ⟨line, terminator, another, inside⟩ := starts
  have stays : pastSeparators before = before := pastSeparators_eq line terminator
  rw [sequence_step ended sound.strict (by rwa [stays]) (by rwa [stays]), stays]
  refine (outcome_bind_of_ok _ first).trans ?_
  refine (outcome_bind_of_ok _ ends).trans ?_
  exact outcome_bind_of_ok _ others

theorem Reads.apart {before after : List (Token P)} {closing : Kind} (reads : Reads (.statement tree) before after)
    (closes : closing ∈ [.closeBrace, .endOfText]) :
    nextKind before ∉ [.newline, .terminator, closing, .endOfText] := by
  have starts : nextKind before ∈ statementStarters := reads.starts
  have distinct : ∀ kind ∈ statementStarters, kind ∉ [.newline, .terminator, .closeBrace, .endOfText] := by decide
  have other := distinct _ starts
  have either : closing = .closeBrace ∨ closing = .endOfText := by simpa using closes
  rcases either with rfl | rfl
  · exact other
  · simp only [List.mem_cons, List.not_mem_nil, or_false, not_or] at other ⊢
    exact ⟨other.1, other.2.1, other.2.2.2, other.2.2.2⟩

theorem closing_apart {closing : Kind} (closes : closing ∈ [.closeBrace, .endOfText]) :
    closing ≠ .newline ∧ closing ≠ .terminator := by
  have distinct : ∀ kind ∈ [Kind.closeBrace, .endOfText], kind ≠ .newline ∧ kind ≠ .terminator := by decide
  exact distinct _ closes

theorem pastSeparators_closing {closing : Kind} (closes : closing ∈ [.closeBrace, .endOfText])
    (ends : nextKind ahead = closing) : pastSeparators ahead = ahead := by
  have other := closing_apart closes
  exact pastSeparators_eq (ends ▸ other.1) (ends ▸ other.2)

theorem outcome_statementEnd_closing (ended : stop.kind = .endOfText) {closing : Kind}
    (closes : closing ∈ [.closeBrace, .endOfText]) (ends : nextKind ahead = closing) :
    outcome (statementEnd closing) stop ahead = .ok (false, ahead) := by
  have other := closing_apart closes
  rw [outcome_statementEnd ended, if_neg (ends ▸ other.2), if_neg (ends ▸ other.1), if_pos ends]

theorem Reads.parsed (ended : stop.kind = .endOfText) (limit : Nat) {phrase : Phrase P}
    {before after : List (Token P)} (reads : Reads phrase before after) (levels : Nat) :
    Parsed stop limit levels phrase before after := by
  have sound := sound_nested (P := P) ended limit
  induction reads generalizing levels with
  | number kind =>
    intro room
    simp only [Rank.parser, factor]
    rw [outcome_peek_bind, List.headD_cons, kind]
    rfl
  | name kind =>
    intro room
    simp only [Rank.parser, factor]
    rw [outcome_peek_bind, List.headD_cons]
    rcases kind with kind | kind <;> rw [kind] <;> rfl
  | group opens inner closes ih =>
    intro room
    exact outcome_group ended opens (ih levels room) closes
  | negation kind inner ih =>
    intro room
    obtain ⟨lower, rfl⟩ := Nat.exists_eq_add_of_lt (Nat.lt_of_lt_of_le (Nat.zero_lt_succ _) room)
    simp only [Rank.parser, factor]
    rw [outcome_peek_bind, List.headD_cons, kind]
    have operand := ih lower (by simpa using room)
    rw [Nat.zero_add]
    refine (outcome_take_bind _).trans ?_
    exact outcome_bind_of_ok _ operand
  | complement kind inner ih =>
    intro room
    obtain ⟨lower, rfl⟩ := Nat.exists_eq_add_of_lt (Nat.lt_of_lt_of_le (Nat.zero_lt_succ _) room)
    simp only [Rank.parser, comparison]
    rw [outcome_peek_bind, List.headD_cons, if_pos kind]
    have operand := ih lower (by simpa using room)
    rw [Nat.zero_add]
    refine (outcome_take_bind _).trans ?_
    exact outcome_bind_of_ok _ operand
  | @fold rank left tree before middle after loose first others ihFirst ihOthers =>
    intro room
    have plain : rank = .comparison → nextKind before ≠ .not := by
      rintro rfl same
      have starts : nextKind before ∈ Rank.sum.starters := first.starts
      simp [Rank.starters, same] at starts
    rw [outcome_rank ended loose plain, outcome_bind_of_ok _ (ihFirst levels room)]
    have shorter := first.length_le
    exact ihOthers levels (by omega)
  | noOperand ends =>
    intro room
    exact chain_done ended ends
  | @operand rank left right tree operator before middle after kind first others ihFirst ihOthers =>
    intro room
    have text : .endOfText ∉ rank.operators := by cases rank <;> decide
    rw [List.length_cons] at room
    rw [chain_step ended text (tidy_rank (sound levels).tidy _) kind, outcome_bind_of_ok _ (ihFirst levels (by omega))]
    have shorter := first.length_le
    exact ihOthers levels (by omega)
  | @expression tree before after inner ih =>
    apply parsed_statement
    intro lower room
    rw [outcome_statement_expression ended inner.starts]
    exact ih lower room
  | assignment starts named assigns inner ih =>
    apply parsed_statement
    intro lower room
    simp only [List.length_cons] at room
    exact outcome_letStatement ended starts named assigns (ih lower (by omega))
  | thenForm starts test separates first others ihTest ihFirst ihOthers =>
    apply parsed_statement
    intro lower room
    have afterTest := test.length_le
    have afterFirst := first.length_le
    simp only [List.length_cons, Phrase.least] at room afterTest afterFirst
    exact outcome_thenForm starts (ihTest lower (by omega)) separates (ihFirst lower (by omega))
      (ihOthers lower (by omega))
  | blockForm starts test first others ihTest ihFirst ihOthers =>
    apply parsed_statement
    intro lower room
    have afterTest := test.length_le
    have afterFirst := first.length_le
    obtain ⟨opening, middle, rfl, opens⟩ := exists_cons_of_nextKind first.starts (by decide)
    simp only [List.length_cons, Phrase.least] at room afterTest afterFirst
    exact outcome_blockForm starts (ihTest lower (by omega)) opens
      (ihFirst lower (by rw [List.length_cons]; omega)) (ihOthers lower (by omega))
  | forLoop starts opens init ends test separates increment closes round ihInit ihTest ihIncrement ihRound =>
    apply parsed_statement
    intro lower room
    have afterInit := init.length_le
    have afterTest := test.length_le
    have afterIncrement := increment.length_le
    simp only [List.length_cons, Phrase.least] at room afterInit afterTest afterIncrement
    exact outcome_forStatement ended starts opens (ihInit lower (by omega)) ends (ihTest lower (by omega)) separates
      (ihIncrement lower (by omega)) closes (ihRound lower (by omega))
  | whileLoop starts test round ihTest ihRound =>
    apply parsed_statement
    intro lower room
    have afterTest := test.length_le
    simp only [List.length_cons, Phrase.least] at room afterTest
    exact outcome_whileStatement starts (ihTest lower (by omega)) (ihRound lower (by omega))
  | @doLoop word again condition body gap before middle after starts round blank repeats test ihRound ihTest =>
    apply parsed_statement
    intro lower room
    have afterRound := round.length_le
    simp only [List.length_cons, List.length_append, Phrase.least] at room afterRound
    have past : pastNewlines (gap ++ again :: middle) = again :: middle :=
      pastNewlines_gap blank middle (by rw [repeats]; decide)
    exact outcome_doStatement starts (ihRound lower (by omega)) past repeats (ihTest lower (by omega))
  | bareBlock inner ih =>
    apply parsed_statement
    intro lower room
    exact outcome_bareBlock inner.starts (ih lower room)
  | block opens inner closes ih =>
    intro room
    exact outcome_block ended opens (ih levels (by simp) room) closes
  | @finished closing after ends =>
    intro closes room
    have stays := pastSeparators_closing closes ends
    rw [sequence_done ended (stays.symm ▸ ends), stays]
  | separator separates others ih =>
    intro closes room
    rw [List.length_cons] at room
    rw [sequence_past ended (sound levels).strict (pastSeparators_cons separates _)]
    exact ih levels closes (by omega)
  | @hidden closing _ terminator _ _ middle _ first hides others ihFirst ihOthers =>
    intro closes room
    have shorter := first.length_le
    simp only [List.length_cons, Phrase.least] at shorter
    have finish : outcome (statementEnd closing) stop (terminator :: middle) = .ok (true, middle) := by
      rw [outcome_statementEnd ended, nextKind, if_pos hides]
      rfl
    exact outcome_sequence_statement ended (sound levels) (first.apart closes) (ihFirst levels room) finish
      (ihOthers levels closes (by omega))
  | @shown closing _ newline _ _ middle _ first ends others ihFirst ihOthers =>
    intro closes room
    have shorter := first.length_le
    simp only [List.length_cons, Phrase.least] at shorter
    have finish : outcome (statementEnd closing) stop (newline :: middle) = .ok (false, middle) := by
      rw [outcome_statementEnd ended, nextKind, if_neg (by simp [ends]), if_pos ends]
      rfl
    exact outcome_sequence_statement ended (sound levels) (first.apart closes) (ihFirst levels room) finish
      (ihOthers levels closes (by omega))
  | @final closing tree before after first ends ihFirst =>
    intro closes room
    have stays := pastSeparators_closing closes ends
    have finish := outcome_statementEnd_closing ended closes ends
    have others : outcome (sequence (nested limit levels) closing) stop after = .ok ([], after) := by
      rw [sequence_done ended (stays.symm ▸ ends), stays]
    exact outcome_sequence_statement ended (sound levels) (first.apart closes) (ihFirst levels room) finish others
  | noThen ends =>
    intro room
    exact thenRest_done ended ends
  | elifThen starts test separates first others ihTest ihFirst ihOthers =>
    intro room
    have afterTest := test.length_le
    have afterFirst := first.length_le
    simp only [List.length_cons, Phrase.least] at room afterTest afterFirst
    rw [thenRest_elif ended (sound levels).tidy starts]
    refine (outcome_bind_of_ok _ (ihTest levels (by omega))).trans ?_
    refine (outcome_bind_of_ok _ (outcome_expect_cons ended separates _)).trans ?_
    refine (outcome_bind_of_ok _ (ihFirst levels (by omega))).trans ?_
    exact outcome_bind_of_ok _ (ihOthers levels (by omega))
  | elseThen starts first ih =>
    intro room
    rw [thenRest_else ended starts]
    exact outcome_bind_of_ok _ (ih levels room)
  | noBlock ends =>
    intro room
    exact blockRest_done ends
  | @elifBlock word condition body branches gap before middle later after blank starts test first others
      ihTest ihFirst ihOthers =>
    intro room
    have afterTest := test.length_le
    have afterFirst := first.length_le
    simp only [List.length_cons, List.length_append, Phrase.least] at room afterTest afterFirst
    have past : pastNewlines (gap ++ word :: before) = word :: before :=
      pastNewlines_gap blank before (by rw [starts]; decide)
    rw [blockRest_elif (sound levels).tidy starts past]
    refine (outcome_bind_of_ok _ (ihTest levels (by omega))).trans ?_
    refine (outcome_bind_of_ok _ (ihFirst levels (by omega))).trans ?_
    exact outcome_bind_of_ok _ (ihOthers levels (by omega))
  | @elseBlock word body gap before after blank starts first ih =>
    intro room
    simp only [List.length_cons, List.length_append] at room
    have past : pastNewlines (gap ++ word :: before) = word :: before :=
      pastNewlines_gap blank before (by rw [starts]; decide)
    rw [blockRest_else starts past]
    exact outcome_bind_of_ok _ (ih levels (by omega))

end Reckon.Grammar
