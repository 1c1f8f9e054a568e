import Reckon.Proofs.Grammar.Rounds

set_option autoImplicit false

/-!
# What a parser reads is a phrase

Each rule is sound when the rules one level deeper are; an induction on the levels closes the circle.
-/

namespace Reckon.Grammar

open Reckon.Parser

variable {P : Type} {stop : Token P} {ahead rest : List (Token P)} {deeper : Nested → Parser P (Node P)}
  {tree : Node P}

structure Sound (stop : Token P) (deeper : Nested → Parser P (Node P)) : Prop where
  tidy : ∀ rule, Tidy (deeper rule)
  statement : ∀ {ahead rest : List (Token P)} {tree : Node P},
    outcome (deeper .statement) stop ahead = .ok (tree, rest) → Reads (.statement tree) ahead rest
  complement : ∀ {ahead rest : List (Token P)} {tree : Node P}, nextKind ahead = .not →
    outcome (deeper .complement) stop ahead = .ok (tree, rest) → Reads (.expression .comparison tree) ahead rest
  negation : ∀ {ahead rest : List (Token P)} {tree : Node P}, nextKind ahead = .minus →
    outcome (deeper .negation) stop ahead = .ok (tree, rest) → Reads (.expression .factor tree) ahead rest

theorem Sound.strict (sound : Sound stop deeper) : Strict stop (deeper .statement) := by
  intro ahead rest tree reads
  have shorter := (sound.statement reads).length_le
  simp only [Phrase.least] at shorter
  omega

theorem reads_factor (ended : stop.kind = .endOfText) (sound : Sound stop deeper)
    (reads : outcome (factor deeper) stop ahead = .ok (tree, rest)) :
    Reads (.expression .factor tree) ahead rest := by
  unfold factor at reads
  rw [outcome_peek_bind, kind_headD ended] at reads
  split at reads
  next next =>
    obtain ⟨token, behind, rfl, kind⟩ := exists_cons_of_nextKind next (by decide)
    cases reads
    exact .number kind
  next next =>
    obtain ⟨token, behind, rfl, kind⟩ := exists_cons_of_nextKind next (by decide)
    cases reads
    exact .name (.inl kind)
  next next =>
    obtain ⟨token, behind, rfl, kind⟩ := exists_cons_of_nextKind next (by decide)
    cases reads
    exact .name (.inr kind)
  next next =>
    obtain ⟨opening, behind, rfl, opens⟩ := exists_cons_of_nextKind next (by decide)
    rw [outcome_take_bind] at reads
    obtain ⟨inside, middle, first, others⟩ := outcome_bind_eq_ok.1 reads
    obtain ⟨closing, last, second, done⟩ := outcome_bind_eq_ok.1 others
    obtain ⟨closes, rfl⟩ := (outcome_expect_eq_ok ended (by decide)).1 second
    cases done
    exact .group opens (sound.statement first) closes
  next next => exact sound.negation next reads
  next =>
    rw [outcome_unexpected ended] at reads
    cases reads

theorem reads_chain (ended : stop.kind = .endOfText) {rank : Rank} {operand : Parser P (Node P)}
    (tidy : Tidy operand) (text : .endOfText ∉ rank.operators)
    (sound : ∀ {ahead rest tree}, outcome operand stop ahead = .ok (tree, rest) →
      Reads (.expression rank.tighter tree) ahead rest) {left : Node P}
    (reads : outcome (chain rank.operators operand left) stop ahead = .ok (tree, rest)) :
    Reads (.operands rank left tree) ahead rest := by
  induction length : ahead.length using Nat.strong_induction_on generalizing ahead left with
  | _ length ih =>
  by_cases ends : nextKind ahead ∈ rank.operators
  · cases ahead with
    | nil => exact absurd ends text
    | cons operator behind =>
      rw [chain_step ended text tidy ends] at reads
      obtain ⟨right, middle, first, others⟩ := outcome_bind_eq_ok.1 reads
      have shorter := (tidy.suffix first).length_le
      simp only [List.length_cons] at length
      exact .operand ends (sound first) (ih middle.length (by omega) others rfl)
  · rw [chain_done ended ends] at reads
    cases reads
    exact .noOperand ends

theorem reads_operands (ended : stop.kind = .endOfText) (rank : Rank) {operand : Parser P (Node P)}
    (tidy : Tidy operand) (loose : rank ≠ .factor)
    (sound : ∀ {ahead rest tree}, outcome operand stop ahead = .ok (tree, rest) →
      Reads (.expression rank.tighter tree) ahead rest)
    (reads : outcome (operands rank.operators operand) stop ahead = .ok (tree, rest)) :
    Reads (.expression rank tree) ahead rest := by
  have text : .endOfText ∉ rank.operators := by cases rank <;> decide
  obtain ⟨left, middle, first, others⟩ := outcome_bind_eq_ok.1 reads
  exact .fold loose (sound first) (reads_chain ended tidy text sound others)

theorem reads_sum (ended : stop.kind = .endOfText) (sound : Sound stop deeper)
    (reads : outcome (sum deeper) stop ahead = .ok (tree, rest)) : Reads (.expression .sum tree) ahead rest := by
  have factors := tidy_factor sound.tidy
  have powers : ∀ {ahead rest tree}, outcome (power deeper) stop ahead = .ok (tree, rest) →
      Reads (.expression .power tree) ahead rest :=
    reads_operands ended .power factors (by decide) (reads_factor ended sound)
  have terms : ∀ {ahead rest tree}, outcome (term deeper) stop ahead = .ok (tree, rest) →
      Reads (.expression .term tree) ahead rest :=
    reads_operands ended .term (tidy_operands factors) (by decide) powers
  exact reads_operands ended .sum (tidy_operands (tidy_operands factors)) (by decide) terms reads

theorem reads_comparison (ended : stop.kind = .endOfText) (sound : Sound stop deeper)
    (reads : outcome (comparison deeper) stop ahead = .ok (tree, rest)) :
    Reads (.expression .comparison tree) ahead rest := by
  unfold comparison at reads
  rw [outcome_peek_bind, kind_headD ended] at reads
  split at reads
  next next => exact sound.complement next reads
  next =>
    have sums : Tidy (sum deeper) := tidy_operands (tidy_operands (tidy_operands (tidy_factor sound.tidy)))
    exact reads_operands ended .comparison sums (by decide) (reads_sum ended sound) reads

theorem reads_logical (ended : stop.kind = .endOfText) (sound : Sound stop deeper)
    (reads : outcome (logical deeper) stop ahead = .ok (tree, rest)) :
    Reads (.expression .logical tree) ahead rest :=
  reads_operands ended .logical (tidy_comparison sound.tidy) (by decide)
    (reads_comparison ended sound) reads

theorem reads_pastSeparators {closing : Kind} {statements : List (Node P)}
    (reads : Reads (.sequence closing statements) (pastSeparators ahead) rest) :
    Reads (.sequence closing statements) ahead rest := by
  induction ahead with
  | nil => exact reads
  | cons token behind ih =>
    by_cases separates : token.kind = .newline ∨ token.kind = .terminator
    · rw [pastSeparators_cons separates] at reads
      exact .separator separates (ih reads)
    · obtain ⟨line, shown⟩ := not_or.1 separates
      have stays : pastSeparators (token :: behind) = token :: behind := pastSeparators_eq line shown
      rwa [stays] at reads

theorem reads_sequence (ended : stop.kind = .endOfText) (sound : Sound stop deeper) {closing : Kind}
    {statements : List (Node P)}
    (reads : outcome (sequence deeper closing) stop ahead = .ok (statements, rest)) :
    Reads (.sequence closing statements) ahead rest := by
  induction length : ahead.length using Nat.strong_induction_on generalizing ahead statements with
  | _ length ih =>
  apply reads_pastSeparators
  by_cases ends : nextKind (pastSeparators ahead) = closing
  · rw [sequence_done ended ends] at reads
    cases reads
    exact .finished ends
  · by_cases finished : nextKind (pastSeparators ahead) = .endOfText
    · rw [sequence_over ended ends finished] at reads
      cases reads
    · rw [sequence_step ended sound.strict ends finished] at reads
      obtain ⟨statement, second, first, others⟩ := outcome_bind_eq_ok.1 reads
      obtain ⟨hidden, third, finish, later⟩ := outcome_bind_eq_ok.1 others
      obtain ⟨behind, last, more, done⟩ := outcome_bind_eq_ok.1 later
      cases done
      have shorter := sound.strict first
      have bound := (pastSeparators_suffix ahead).length_le
      have suffix := ((tidy_statementEnd closing).suffix finish).length_le
      have inner := ih third.length (by omega) more rfl
      rw [outcome_statementEnd ended] at finish
      split at finish
      next next =>
        obtain ⟨terminator, rest, rfl, hides⟩ := exists_cons_of_nextKind next (by decide)
        cases finish
        exact .hidden (sound.statement first) hides inner
      next =>
        split at finish
        next next =>
          obtain ⟨newline, rest, rfl, line⟩ := exists_cons_of_nextKind next (by decide)
          cases finish
          exact .shown (sound.statement first) line inner
        next shown line =>
          split at finish
          next next =>
            cases finish
            have stays : pastSeparators second = second := pastSeparators_eq line shown
            rw [sequence_done ended (stays.symm ▸ next), stays] at more
            cases more
            exact .final (sound.statement first) next
          next => cases finish

theorem reads_block (ended : stop.kind = .endOfText) (sound : Sound stop deeper) {name : String}
    {boundary : Bool} (reads : outcome (block deeper name boundary) stop ahead = .ok (tree, rest)) :
    Reads (.block name boundary tree) ahead rest := by
  obtain ⟨opening, first, one, inside⟩ := outcome_bind_eq_ok.1 reads
  obtain ⟨opens, rfl⟩ := (outcome_expect_eq_ok ended (by decide)).1 one
  obtain ⟨⟨head, tail⟩, second, two, others⟩ := outcome_bind_eq_ok.1 inside
  obtain ⟨closing, third, three, done⟩ := outcome_bind_eq_ok.1 others
  obtain ⟨closes, rfl⟩ := (outcome_expect_eq_ok ended (by decide)).1 three
  cases done
  rw [outcome_statements] at two
  cases listed : outcome (sequence deeper .closeBrace) stop first with
  | error fault =>
    rw [listed] at two
    cases two
  | ok pair =>
    obtain ⟨list, last⟩ := pair
    rw [listed] at two
    have content : filled (last.headD stop) list = (head, tail) ∧ last = closing :: rest := by
      simpa [Except.map] using two
    obtain ⟨content, rfl⟩ := content
    have scope : scopeOf name boundary closing list = .mkScope name boundary head tail := by
      rw [scopeOf, show filled closing list = (head, tail) from content]
    rw [← scope]
    exact .block opens (reads_sequence ended sound listed) closes

theorem reads_letStatement (ended : stop.kind = .endOfText) (sound : Sound stop deeper)
    (starts : nextKind ahead = .letWord)
    (reads : outcome (letStatement deeper) stop ahead = .ok (tree, rest)) : Reads (.statement tree) ahead rest := by
  obtain ⟨word, behind, rfl, kind⟩ := exists_cons_of_nextKind starts (by decide)
  obtain ⟨name, first, one, afterName⟩ := outcome_bind_eq_ok.1 ((outcome_take_bind _).symm.trans reads)
  obtain ⟨named, rfl⟩ := (outcome_expect_eq_ok ended (by decide)).1 one
  obtain ⟨sign, second, two, afterSign⟩ := outcome_bind_eq_ok.1 afterName
  obtain ⟨assigns, rfl⟩ := (outcome_expect_eq_ok ended (by decide)).1 two
  obtain ⟨value, third, three, done⟩ := outcome_bind_eq_ok.1 afterSign
  cases done
  exact .assignment kind named assigns (sound.statement three)

theorem reads_thenRest (ended : stop.kind = .endOfText) (sound : Sound stop deeper)
    {branches : List (Node P × Node P)} (reads : outcome (thenRest deeper) stop ahead = .ok (branches, rest)) :
    Reads (.thenBranches branches) ahead rest := by
  induction length : ahead.length using Nat.strong_induction_on generalizing ahead branches with
  | _ length ih =>
  by_cases ends : nextKind ahead ∈ [.elifWord, .elseWord]
  · have kinds : nextKind ahead = .elifWord ∨ nextKind ahead = .elseWord := by simpa using ends
    rcases kinds with next | next
    · obtain ⟨word, behind, rfl, kind⟩ := exists_cons_of_nextKind next (by decide)
      rw [thenRest_elif ended sound.tidy kind] at reads
      obtain ⟨condition, first, one, afterCondition⟩ := outcome_bind_eq_ok.1 reads
      obtain ⟨separator, second, two, afterWord⟩ := outcome_bind_eq_ok.1 afterCondition
      obtain ⟨separates, rfl⟩ := (outcome_expect_eq_ok ended (by decide)).1 two
      obtain ⟨body, third, three, afterBody⟩ := outcome_bind_eq_ok.1 afterWord
      obtain ⟨others, last, four, done⟩ := outcome_bind_eq_ok.1 afterBody
      cases done
      have condition := reads_logical ended sound one
      have shorter := condition.length_le
      have strict := sound.strict three
      simp only [List.length_cons] at length shorter
      exact .elifThen kind condition separates (sound.statement three) (ih third.length (by omega) four rfl)
    · obtain ⟨word, behind, rfl, kind⟩ := exists_cons_of_nextKind next (by decide)
      rw [thenRest_else ended kind] at reads
      obtain ⟨body, first, one, done⟩ := outcome_bind_eq_ok.1 reads
      cases done
      exact .elseThen kind (sound.statement one)
  · rw [thenRest_done ended ends] at reads
    cases reads
    exact .noThen ends

theorem reads_blockRest (ended : stop.kind = .endOfText) (sound : Sound stop deeper)
    {branches : List (Node P × Node P)} (reads : outcome (blockRest deeper) stop ahead = .ok (branches, rest)) :
    Reads (.blockBranches branches) ahead rest := by
  induction length : ahead.length using Nat.strong_induction_on generalizing ahead branches with
  | _ length ih =>
  by_cases ends : nextKind (pastNewlines ahead) ∈ [.elifWord, .elseWord]
  · obtain ⟨gap, blank, split⟩ := exists_gap ahead
    have kinds : nextKind (pastNewlines ahead) = .elifWord ∨ nextKind (pastNewlines ahead) = .elseWord := by
      simpa using ends
    rcases kinds with next | next
    · obtain ⟨word, behind, past, kind⟩ := exists_cons_of_nextKind next (by decide)
      rw [blockRest_elif sound.tidy kind past] at reads
      obtain ⟨condition, first, one, afterCondition⟩ := outcome_bind_eq_ok.1 reads
      obtain ⟨body, second, two, afterBody⟩ := outcome_bind_eq_ok.1 afterCondition
      obtain ⟨others, last, three, done⟩ := outcome_bind_eq_ok.1 afterBody
      cases done
      have condition := reads_logical ended sound one
      have block := reads_block ended sound two
      have bound := length_lt_of_pastNewlines past
      have afterTest := condition.length_le
      have afterBlock := block.length_le
      rw [split, past]
      exact .elifBlock blank kind condition block (ih second.length (by omega) three rfl)
    · obtain ⟨word, behind, past, kind⟩ := exists_cons_of_nextKind next (by decide)
      rw [blockRest_else kind past] at reads
      obtain ⟨body, first, one, done⟩ := outcome_bind_eq_ok.1 reads
      cases done
      rw [split, past]
      exact .elseBlock blank kind (reads_block ended sound one)
  · rw [blockRest_done ends] at reads
    cases reads
    exact .noBlock ends

theorem reads_ifStatement (ended : stop.kind = .endOfText) (sound : Sound stop deeper)
    (starts : nextKind ahead = .ifWord)
    (reads : outcome (ifStatement deeper) stop ahead = .ok (tree, rest)) : Reads (.statement tree) ahead rest := by
  obtain ⟨word, behind, rfl, kind⟩ := exists_cons_of_nextKind starts (by decide)
  obtain ⟨condition, first, one, afterTest⟩ := outcome_bind_eq_ok.1 ((outcome_take_bind _).symm.trans reads)
  have test := reads_logical ended sound one
  rw [outcome_peek_bind, kind_headD ended] at afterTest
  split at afterTest
  next next =>
    obtain ⟨separator, later, rfl, separates⟩ := exists_cons_of_nextKind next (by decide)
    obtain ⟨branches, second, two, done⟩ := outcome_bind_eq_ok.1 afterTest
    cases done
    obtain ⟨body, third, three, afterBody⟩ := outcome_bind_eq_ok.1 ((outcome_take_bind _).symm.trans two)
    obtain ⟨others, fourth, four, done⟩ := outcome_bind_eq_ok.1 ((outcome_get_bind _).symm.trans afterBody)
    cases done
    exact .thenForm kind test separates (sound.statement three) (reads_thenRest ended sound four)
  next =>
    obtain ⟨branches, second, two, done⟩ := outcome_bind_eq_ok.1 afterTest
    cases done
    obtain ⟨body, third, three, afterBody⟩ := outcome_bind_eq_ok.1 two
    obtain ⟨others, fourth, four, done⟩ := outcome_bind_eq_ok.1 ((outcome_get_bind _).symm.trans afterBody)
    cases done
    exact .blockForm kind test (reads_block ended sound three) (reads_blockRest ended sound four)
  next =>
    rw [outcome_unexpected ended] at afterTest
    cases afterTest

theorem reads_forStatement (ended : stop.kind = .endOfText) (sound : Sound stop deeper)
    (starts : nextKind ahead = .forWord)
    (reads : outcome (forStatement deeper) stop ahead = .ok (tree, rest)) : Reads (.statement tree) ahead rest := by
  obtain ⟨word, behind, rfl, kind⟩ := exists_cons_of_nextKind starts (by decide)
  obtain ⟨opening, first, one, afterOpening⟩ := outcome_bind_eq_ok.1 ((outcome_take_bind _).symm.trans reads)
  obtain ⟨opens, rfl⟩ := (outcome_expect_eq_ok ended (by decide)).1 one
  obtain ⟨start, second, two, afterStart⟩ := outcome_bind_eq_ok.1 afterOpening
  obtain ⟨semicolon, third, three, afterSemicolon⟩ := outcome_bind_eq_ok.1 afterStart
  obtain ⟨ends, rfl⟩ := (outcome_expect_eq_ok ended (by decide)).1 three
  obtain ⟨condition, fourth, four, afterTest⟩ := outcome_bind_eq_ok.1 afterSemicolon
  obtain ⟨separator, fifth, five, afterSeparator⟩ := outcome_bind_eq_ok.1 afterTest
  obtain ⟨separates, rfl⟩ := (outcome_expect_eq_ok ended (by decide)).1 five
  obtain ⟨step, sixth, six, afterStep⟩ := outcome_bind_eq_ok.1 afterSeparator
  obtain ⟨closing, seventh, seven, afterClosing⟩ := outcome_bind_eq_ok.1 afterStep
  obtain ⟨closes, rfl⟩ := (outcome_expect_eq_ok ended (by decide)).1 seven
  obtain ⟨body, eighth, eight, done⟩ := outcome_bind_eq_ok.1 afterClosing
  cases done
  exact .forLoop kind opens (sound.statement two) ends (reads_logical ended sound four) separates
    (sound.statement six) closes (reads_block ended sound eight)

theorem reads_whileStatement (ended : stop.kind = .endOfText) (sound : Sound stop deeper)
    (starts : nextKind ahead = .whileWord)
    (reads : outcome (whileStatement deeper) stop ahead = .ok (tree, rest)) : Reads (.statement tree) ahead rest := by
  obtain ⟨word, behind, rfl, kind⟩ := exists_cons_of_nextKind starts (by decide)
  obtain ⟨condition, first, one, afterTest⟩ := outcome_bind_eq_ok.1 ((outcome_take_bind _).symm.trans reads)
  obtain ⟨body, second, two, done⟩ := outcome_bind_eq_ok.1 afterTest
  cases done
  exact .whileLoop kind (reads_logical ended sound one) (reads_block ended sound two)

theorem reads_doStatement (ended : stop.kind = .endOfText) (sound : Sound stop deeper)
    (starts : nextKind ahead = .doWord)
    (reads : outcome (doStatement deeper) stop ahead = .ok (tree, rest)) : Reads (.statement tree) ahead rest := by
  obtain ⟨word, behind, rfl, kind⟩ := exists_cons_of_nextKind starts (by decide)
  obtain ⟨body, first, one, afterBody⟩ := outcome_bind_eq_ok.1 ((outcome_take_bind _).symm.trans reads)
  obtain ⟨gap, blank, split⟩ := exists_gap first
  rw [outcome_skip_newlines_bind, outcome_peek_bind, kind_headD ended] at afterBody
  split at afterBody
  next next =>
    obtain ⟨again, later, past, repeats⟩ := exists_cons_of_nextKind next (by decide)
    rw [past] at afterBody split
    obtain ⟨condition, second, two, done⟩ := outcome_bind_eq_ok.1 ((outcome_take_bind _).symm.trans afterBody)
    cases done
    rw [split] at one
    exact .doLoop kind (reads_block ended sound one) blank repeats (reads_logical ended sound two)
  next =>
    rw [outcome_unexpected ended] at afterBody
    cases afterBody

theorem reads_statement (ended : stop.kind = .endOfText) (sound : Sound stop deeper)
    (reads : outcome (statement deeper) stop ahead = .ok (tree, rest)) : Reads (.statement tree) ahead rest := by
  unfold statement at reads
  rw [outcome_peek_bind, kind_headD ended] at reads
  split at reads
  next next => exact reads_letStatement ended sound next reads
  next next => exact reads_ifStatement ended sound next reads
  next next => exact reads_forStatement ended sound next reads
  next next => exact reads_whileStatement ended sound next reads
  next next => exact reads_doStatement ended sound next reads
  next => exact .bareBlock (reads_block ended sound reads)
  next => exact .expression (reads_logical ended sound reads)

theorem sound_nested (ended : stop.kind = .endOfText) (limit levels : Nat) :
    Sound stop (nested limit levels : Nested → Parser P (Node P)) := by
  induction levels with
  | zero =>
    refine ⟨tidy_nested limit 0, ?_, ?_, ?_⟩
    · intro ahead rest tree reads
      cases reads
    · intro ahead rest tree starts reads
      cases reads
    · intro ahead rest tree starts reads
      cases reads
  | succ levels ih =>
    refine ⟨tidy_nested limit (levels + 1), reads_statement ended ih, ?_, ?_⟩
    · intro ahead rest tree starts reads
      obtain ⟨sign, behind, rfl, kind⟩ := exists_cons_of_nextKind starts (by decide)
      obtain ⟨operand, first, one, done⟩ := outcome_bind_eq_ok.1 ((outcome_take_bind _).symm.trans reads)
      cases done
      exact .complement kind (reads_comparison ended ih one)
    · intro ahead rest tree starts reads
      obtain ⟨sign, behind, rfl, kind⟩ := exists_cons_of_nextKind starts (by decide)
      obtain ⟨operand, first, one, done⟩ := outcome_bind_eq_ok.1 ((outcome_take_bind _).symm.trans reads)
      cases done
      exact .negation kind (reads_factor ended ih one)

end Reckon.Grammar
