import Reckon.Proofs.Cursor.Follows
import Reckon.Proofs.Grammar.Continued

set_option autoImplicit false

/-!
# Every rule follows

A rule of the machine follows the rule of the grammar when the rules one level deeper do. Its loops
take a token in each round, so they need no more rounds than there are tokens in front of the end.
-/

namespace Reckon.Cursor

open Reckon.Parser Reckon.Grammar

variable {P : Type} [Inhabited P] {tokens : List (Token P)} {limit depth current rounds : Nat}
  {deeper : Nested → Machine P (Node P)} {inner : Nested → Parser P (Node P)}

structure Mirrors (tokens : List (Token P)) (limit depth : Nat) (deeper : Nested → Machine P (Node P))
    (inner : Nested → Parser P (Node P)) : Prop where
  sound : Sound (endToken tokens) inner
  statement : ∀ {current}, current ≤ (beforeEnd tokens).length →
    Follows tokens limit depth current (deeper .statement) (inner .statement)
  complement : ∀ {current}, nextKind (aheadAt tokens current) = .not →
    Follows tokens limit depth current (deeper .complement) (inner .complement)
  negation : ∀ {current}, nextKind (aheadAt tokens current) = .minus →
    Follows tokens limit depth current (deeper .negation) (inner .negation)

section Operands

variable {operators : List Kind} {operand : Machine P (Node P)} {part : Parser P (Node P)}

theorem follows_operandLoop (text : .endOfText ∉ operators) (tidy : Tidy part)
    (follows : ∀ {current}, current ≤ (beforeEnd tokens).length → Follows tokens limit depth current operand part)
    (left : Node P) (inside : current ≤ (beforeEnd tokens).length) (enough : (beforeEnd tokens).length - current < rounds) :
    Follows tokens limit depth current (operandLoop operators operand rounds left) (chain operators part left) := by
  induction rounds generalizing current left with
  | zero => omega
  | succ rounds ih =>
    have ended := kind_endToken tokens
    by_cases goes : nextKind (aheadAt tokens current) ∈ operators
    · -- The operator is taken, so the rounds that are left do for the tokens that are left.
      obtain ⟨operator, rest, split, kind⟩ := exists_cons_of_nextKind rfl fun finished => text (finished ▸ goes)
      obtain ⟨behind, inside'⟩ := aheadAt_cons split
      have member : operator.kind ∈ operators := kind ▸ goes
      have round := (follows inside').bind fun right next front last _ => ih (.mkBinary left operator right) last (by omega)
      refine round.of_eq (Nat.le_succ _) ?_ ?_
      · exact (run_bind_of_ok _ (run_accept_some split member)).trans (run_bind_of_ok _ (run_previous split))
      · rw [split, behind]
        exact chain_step ended text tidy member
    · exact (follows_pure left inside).of_eq (Nat.le_refl _) (run_bind_of_ok _ (run_accept_none inside goes))
        (chain_done ended goes)

theorem follows_operands (text : .endOfText ∉ operators) (tidy : Tidy part)
    (follows : ∀ {current}, current ≤ (beforeEnd tokens).length → Follows tokens limit depth current operand part)
    (inside : current ≤ (beforeEnd tokens).length) (plenty : (beforeEnd tokens).length < rounds) :
    Follows tokens limit depth current (operands rounds operators operand) (Grammar.operands operators part) :=
  (follows inside).bind fun first _ _ last _ => follows_operandLoop text tidy follows first last (by omega)

end Operands

section Rules

variable (mirrors : Mirrors tokens limit depth deeper inner) (inside : current ≤ (beforeEnd tokens).length)
  (plenty : (beforeEnd tokens).length < rounds)
include mirrors inside

theorem follows_factor : Follows tokens limit depth current (factor deeper) (Grammar.factor inner) := by
  have ended := kind_endToken tokens
  refine follows_peek_bind inside ?_
  rw [kind_headD ended]
  have taken : ∀ (f : Token P → Node P), nextKind (aheadAt tokens current) ≠ .endOfText →
      Follows tokens limit depth current (advance >>= fun token => pure (f token)) (take >>= fun token => pure (f token)) := by
    intro f text
    obtain ⟨token, rest, split, _⟩ := exists_cons_of_nextKind rfl text
    exact follows_advance_bind split (follows_pure _ (aheadAt_cons split).2)
  generalize kind : nextKind (aheadAt tokens current) = next
  cases next
  case number => exact taken (fun token => .mkLiteral (.number token.number) token.span) (by rw [kind]; decide)
  case identifier => exact taken .mkRetrieval (by rw [kind]; decide)
  case last => exact taken .mkRetrieval (by rw [kind]; decide)
  case openParen =>
    obtain ⟨opening, rest, split, _⟩ := exists_cons_of_nextKind kind (by decide)
    refine follows_advance_bind split ((mirrors.statement (aheadAt_cons split).2).bind fun tree next _ last _ => ?_)
    exact (follows_expect (by decide) _ last).map fun _ => tree
  case minus => exact mirrors.negation kind
  all_goals exact follows_unexpected inside _ _

include plenty

theorem follows_power : Follows tokens limit depth current (power rounds deeper) (Grammar.power inner) :=
  follows_operands (by decide) (tidy_factor mirrors.sound.tidy) (follows_factor mirrors) inside plenty

theorem follows_term : Follows tokens limit depth current (term rounds deeper) (Grammar.term inner) :=
  follows_operands (by decide) (tidy_operands (tidy_factor mirrors.sound.tidy))
    (fun inside => follows_power mirrors inside plenty) inside plenty

theorem follows_sum : Follows tokens limit depth current (sum rounds deeper) (Grammar.sum inner) :=
  follows_operands (by decide) (tidy_operands (tidy_operands (tidy_factor mirrors.sound.tidy)))
    (fun inside => follows_term mirrors inside plenty) inside plenty

theorem follows_comparison : Follows tokens limit depth current (comparison rounds deeper) (Grammar.comparison inner) := by
  refine follows_peek_bind inside ?_
  split
  next sign =>
    rw [kind_headD (kind_endToken tokens)] at sign
    exact mirrors.complement sign
  next =>
    exact follows_operands (by decide) (tidy_rank mirrors.sound.tidy .sum)
      (fun inside => follows_sum mirrors inside plenty) inside plenty

theorem follows_logical : Follows tokens limit depth current (logical rounds deeper) (Grammar.logical inner) :=
  follows_operands (by decide) (tidy_comparison mirrors.sound.tidy)
    (fun inside => follows_comparison mirrors inside plenty) inside plenty

omit mirrors plenty in
theorem follows_statementEnd (closing : Kind) :
    Follows tokens limit depth current (statementEnd closing) (Grammar.statementEnd closing) := by
  have ended := kind_endToken tokens
  have reads : outcome (Grammar.statementEnd closing) (endToken tokens) (aheadAt tokens current) = _ :=
    outcome_statementEnd ended closing
  by_cases separates : nextKind (aheadAt tokens current) = .terminator ∨ nextKind (aheadAt tokens current) = .newline
  · obtain ⟨token, rest, split, kind⟩ : ∃ token rest, aheadAt tokens current = token :: rest ∧
        (token.kind = .terminator ∨ token.kind = .newline) := by
      cases split : aheadAt tokens current with
      | nil => simp [split, nextKind] at separates
      | cons token rest => exact ⟨token, rest, rfl, by simpa [split, nextKind] using separates⟩
    obtain ⟨behind, inside'⟩ := aheadAt_cons split
    refine (follows_pure (decide (token.kind = .terminator)) inside').of_eq (Nat.le_succ _) ?_ ?_
    · by_cases hides : token.kind = .terminator
      · refine (run_bind_of_ok _ (run_accept_some split (by simp [hides]))).trans ?_
        simp [hides]
      · have line : token.kind = .newline := kind.resolve_left hides
        have stays : nextKind (aheadAt tokens current) ∉ [.terminator] := by simpa [split, nextKind] using hides
        refine (run_bind_of_ok _ (run_accept_none inside stays)).trans ?_
        refine (run_bind_of_ok _ (run_accept_some split (by simp [line]))).trans ?_
        simp [hides]
    · rw [split, behind, outcome_statementEnd_cons ended]
      rcases kind with kind | kind <;> rw [kind] <;> rfl
  · obtain ⟨shown, line⟩ := not_or.1 separates
    rw [if_neg shown, if_neg line] at reads
    have runs : run (statementEnd closing) ⟨closed tokens, limit⟩ ⟨current, depth⟩ = _ :=
      (run_bind_of_ok _ (run_accept_none inside (by simpa using shown))).trans
        ((run_bind_of_ok _ (run_accept_none inside (by simpa using line))).trans (run_bind_of_ok _ (run_peek inside)))
    rw [kind_headD ended] at runs
    by_cases last : nextKind (aheadAt tokens current) = closing
    · rw [if_pos last] at reads runs
      exact (follows_pure false inside).of_eq (Nat.le_refl _) runs reads
    · rw [if_neg last] at reads runs
      refine (follows_unexpected inside (separators closing) _).of_eq (Nat.le_refl _) runs ?_
      rw [reads, outcome_unexpected ended]

theorem follows_statementLoop {closing : Kind} {left : Nat} (before : List (Node P))
    (enough : (beforeEnd tokens).length - current < left) :
    Follows tokens limit depth current (statementLoop rounds deeper closing left before)
      (sequence inner closing >>= fun others => pure (before ++ others)) := by
  have ended := kind_endToken tokens
  induction left generalizing current before with
  | zero => omega
  | succ left ih =>
    have separating : .endOfText ∉ [Kind.newline, .terminator] := by decide
    obtain ⟨next, skipped, front, last, past⟩ :=
      run_skip limit depth separating inside
        (show (beforeEnd tokens).length - current < rounds by omega)
    have same : aheadAt tokens next = pastSeparators (aheadAt tokens current) := past
    have start : run (statementLoop rounds deeper closing (left + 1) before) ⟨closed tokens, limit⟩ ⟨current, depth⟩ = _ :=
      (run_bind_of_ok _ skipped).trans (run_bind_of_ok _ (run_peek last))
    rw [kind_headD ended] at start
    by_cases closes : nextKind (aheadAt tokens next) = closing
    · rw [if_pos closes] at start
      refine (follows_pure before last).of_eq front start ?_
      rw [outcome_bind_of_ok _ (sequence_done ended (same ▸ closes)), ← same, List.append_nil]
    · rw [if_neg closes] at start
      by_cases finished : nextKind (aheadAt tokens next) = .endOfText
      · rw [if_pos finished] at start
        refine (follows_unexpected last (separators closing) none).of_eq front start ?_
        rw [outcome_bind_of_error _ (sequence_over ended (same ▸ closes) (same ▸ finished)), outcome_unexpected ended, ← same]
        simp [surprise, finished]
      · rw [if_neg finished] at start
        have strict : Strict (endToken tokens) (inner .statement) := mirrors.sound.strict
        have round : Follows tokens limit depth next
            (deeper .statement >>= fun statement => statementEnd closing >>= fun hidden =>
              statementLoop rounds deeper closing left (before ++ [if hidden then statement.silenced else statement]))
            (inner .statement >>= fun statement => Grammar.statementEnd closing >>= fun hidden =>
              sequence inner closing >>= fun others =>
                pure (before ++ [if hidden then statement.silenced else statement] ++ others)) := by
          refine (mirrors.statement last).bind fun statement second front' last' reads => ?_
          refine (follows_statementEnd last' closing).bind fun hidden third front'' last'' _ => ?_
          -- A statement takes a token, which pays for the round.
          have shorter := strict reads
          unfold aheadAt at shorter
          rw [List.length_drop, List.length_drop] at shorter
          exact ih last'' _ (by omega)
        refine round.of_eq front start ?_
        have step := sequence_step ended strict (same ▸ closes) (same ▸ finished)
        rw [outcome_bind_of_eq _ step, ← same]
        simp only [oneStatement, bind_assoc, pure_bind, List.append_assoc, List.singleton_append]

theorem follows_statements_bind {closing : Kind} {α : Type} {step : List (Node P) → Machine P α}
    {further : List (Node P) → Parser P α}
    (second : ∀ list {current}, current ≤ (beforeEnd tokens).length → Follows tokens limit depth current
      (step ((filled ((aheadAt tokens current).headD (endToken tokens)) list).1 ::
        (filled ((aheadAt tokens current).headD (endToken tokens)) list).2)) (further list)) :
    Follows tokens limit depth current (statements rounds deeper closing >>= step) (sequence inner closing >>= further) := by
  have list : Follows tokens limit depth current (statementLoop rounds deeper closing rounds []) _ :=
    follows_statementLoop mirrors inside plenty [] (by omega)
  simp only [List.nil_append, bind_pure] at list
  unfold statements
  rw [bind_assoc]
  refine list.bind fun list next _ last _ => ?_
  cases list with
  | cons first others => exact second (first :: others) last
  | nil =>
    exact (second [] last).of_eq (Nat.le_refl _) (run_bind_of_ok _ (run_bind_of_ok _ (run_peek last))) rfl

theorem follows_statements (closing : Kind) :
    Follows tokens limit depth current (statements rounds deeper closing)
      (sequence inner closing >>= fun list => Parser.peek >>= fun next =>
        pure ((filled next list).1 :: (filled next list).2)) := by
  have whole : Follows tokens limit depth current (statements rounds deeper closing >>= pure)
      (sequence inner closing >>= fun list => Parser.peek >>= fun next =>
        pure ((filled next list).1 :: (filled next list).2)) :=
    follows_statements_bind mirrors inside plenty fun list _ last =>
      (follows_pure _ last).of_eq (Nat.le_refl _) rfl rfl
  rwa [bind_pure] at whole

omit mirrors plenty in
theorem follows_opening {α : Type} {step : Machine P α} {further : Token P → Parser P α}
    (second : ∀ token rest, aheadAt tokens current = token :: rest →
      Follows tokens limit depth (current + 1) step (further token)) :
    Follows tokens limit depth current (expectBlock >>= fun _ => advance >>= fun _ => step)
      (Parser.expect .openBrace none >>= further) := by
  have ended := kind_endToken tokens
  have start : run (expectBlock : Machine P Unit) ⟨closed tokens, limit⟩ ⟨current, depth⟩ = _ :=
    run_bind_of_ok _ (run_peek inside)
  rw [kind_headD ended] at start
  by_cases opens : nextKind (aheadAt tokens current) = .openBrace
  · obtain ⟨opening, rest, split, kind⟩ := exists_cons_of_nextKind opens (by decide)
    rw [if_neg (not_not_intro opens)] at start
    refine (second opening rest split).of_eq (Nat.le_succ _) ?_ ?_
    · exact (run_bind_of_ok _ start).trans (run_bind_of_ok _ (run_advance split))
    · rw [split, (aheadAt_cons split).1]
      exact outcome_bind_of_ok _ (outcome_expect_cons ended kind none)
  · rw [if_pos opens, run_unexpected inside] at start
    have fails : outcome (Parser.expect .openBrace none) (endToken tokens) (aheadAt tokens current) = _ :=
      outcome_expect ended .openBrace none
    rw [if_neg opens] at fails
    unfold Follows
    rw [run_bind_of_fault _ start, outcome_bind_of_error _ fails]
    exact .fails (Nat.le_refl _) inside

theorem follows_block (name : String) (boundary : Bool) :
    Follows tokens limit depth current (block rounds deeper name boundary) (Grammar.block inner name boundary) := by
  have whole : Follows tokens limit depth current (block rounds deeper name boundary)
      (Parser.expect .openBrace none >>= fun _ => sequence inner .closeBrace >>= blockEnd name boundary) := by
    refine follows_opening inside fun opening rest split => ?_
    refine follows_statements_bind mirrors (aheadAt_cons split).2 plenty fun list place last => ?_
    have closes : Follows tokens limit depth place (expect .closeBrace none) (Parser.expect .closeBrace none) :=
      follows_expect (by decide) none last
    have made := closes.map fun _ => scopeOf name boundary ((aheadAt tokens place).headD (endToken tokens)) list
    exact made.of_eq (Nat.le_refl _) rfl rfl
  exact whole.of_eq (Nat.le_refl _) rfl (outcome_block_sequence name boundary)

/-- The brace is asked for twice. -/
theorem follows_checked_block (name : String) (boundary : Bool) :
    Follows tokens limit depth current (expectBlock >>= fun _ => block rounds deeper name boundary)
      (Grammar.block inner name boundary) := by
  refine (follows_block mirrors inside plenty name boundary).of_eq (Nat.le_refl _) ?_ rfl
  have start : run (expectBlock : Machine P Unit) ⟨closed tokens, limit⟩ ⟨current, depth⟩ = _ :=
    run_bind_of_ok _ (run_peek inside)
  by_cases opens : ((aheadAt tokens current).headD (endToken tokens)).kind = .openBrace
  · rw [if_neg (not_not_intro opens)] at start
    exact run_bind_of_ok _ start
  · rw [if_pos opens, run_unexpected inside] at start
    exact (run_bind_of_fault _ start).trans (run_bind_of_fault _ start).symm

omit inside plenty in
theorem follows_letStatement (word : nextKind (aheadAt tokens current) = .letWord) :
    Follows tokens limit depth current (letStatement deeper) (Grammar.letStatement inner) := by
  obtain ⟨token, rest, split, _⟩ := exists_cons_of_nextKind word (by decide)
  refine follows_advance_bind split ?_
  refine (follows_expect (by decide) _ (aheadAt_cons split).2).bind fun name _ _ named _ => ?_
  refine (follows_expect (by decide) _ named).bind fun sign _ _ assigned _ => ?_
  exact (mirrors.statement assigned).map (Node.mkAssignment name)

theorem follows_thenLoop {left : Nat} (branches : List (Node P × Node P))
    (enough : (beforeEnd tokens).length - current < left) :
    Follows tokens limit depth current (thenLoop rounds deeper left branches)
      (thenRest inner >>= fun others => pure (branches ++ others)) := by
  have ended := kind_endToken tokens
  have tidy := mirrors.sound.tidy
  induction left generalizing current branches with
  | zero => omega
  | succ left ih =>
    by_cases elif : nextKind (aheadAt tokens current) = .elifWord
    · obtain ⟨word, rest, split, kind⟩ := exists_cons_of_nextKind elif (by decide)
      obtain ⟨behind, inside'⟩ := aheadAt_cons split
      have branch : Follows tokens limit depth (current + 1)
          (logical rounds deeper >>= fun condition => expect .thenWord none >>= fun _ =>
            deeper .statement >>= fun body => thenLoop rounds deeper left (branches ++ [(condition, body)]))
          (Grammar.logical inner >>= fun condition => Parser.expect .thenWord none >>= fun _ =>
            inner .statement >>= fun body => thenRest inner >>= fun others =>
              pure (branches ++ [(condition, body)] ++ others)) := by
        refine (follows_logical mirrors inside' plenty).bind fun condition _ front second _ => ?_
        refine (follows_expect (by decide) none second).bind fun separator _ front' third _ => ?_
        refine (mirrors.statement third).bind fun body _ front'' fourth _ => ?_
        exact ih fourth _ (by omega)
      refine branch.of_eq (Nat.le_succ _) (run_bind_of_ok _ (run_accept_some split (by simp [kind]))) ?_
      rw [split, behind, outcome_bind_of_eq _ (thenRest_elif ended tidy kind)]
      simp only [elifThen, bind_assoc, pure_bind, List.append_assoc, List.singleton_append]
    · have start : run (thenLoop rounds deeper (left + 1) branches) ⟨closed tokens, limit⟩ ⟨current, depth⟩ = _ :=
        (run_bind_of_ok _ (run_accept_none inside (by simpa using elif))).trans (run_bind_of_ok _ (run_peek inside))
      rw [kind_headD ended] at start
      by_cases otherwise : nextKind (aheadAt tokens current) = .elseWord
      · obtain ⟨word, rest, split, kind⟩ := exists_cons_of_nextKind otherwise (by decide)
        obtain ⟨behind, inside'⟩ := aheadAt_cons split
        rw [if_pos otherwise] at start
        refine ((mirrors.statement inside').map fun body => branches ++ [(always word, body)]).of_eq (Nat.le_succ _)
          (start.trans (run_bind_of_ok _ (run_advance split))) ?_
        rw [split, behind, outcome_bind_of_eq _ (thenRest_else ended kind)]
        simp only [bind_assoc, pure_bind]
      · rw [if_neg otherwise] at start
        refine (follows_pure branches inside).of_eq (Nat.le_refl _) start ?_
        rw [outcome_bind_of_ok _ (thenRest_done ended (by simp [elif, otherwise])), List.append_nil]

omit inside in
theorem follows_thenChain (start : P) (condition : Node P) (separates : nextKind (aheadAt tokens current) = .thenWord) :
    Follows tokens limit depth current (thenChain rounds deeper start condition)
      (thenBranches inner condition >>= fun branches => pure (.mkChoice start branches)) := by
  obtain ⟨separator, rest, split, _⟩ := exists_cons_of_nextKind separates (by decide)
  have chained : Follows tokens limit depth current (thenChain rounds deeper start condition)
      (take >>= fun _ => inner .statement >>= fun body =>
        (thenRest inner >>= fun others => pure ([(condition, body)] ++ others)) >>= fun branches =>
          pure (.mkChoice start branches)) := by
    refine follows_advance_bind split ((mirrors.statement (aheadAt_cons split).2).bind fun body _ _ last _ => ?_)
    exact (follows_thenLoop mirrors last plenty [(condition, body)] (by omega)).map (Node.mkChoice start)
  refine chained.of_eq (Nat.le_refl _) rfl ?_
  simp only [thenBranches, thenRest, bind_assoc, pure_bind, List.singleton_append]

theorem follows_blockLoop {left : Nat} (branches : List (Node P × Node P))
    (enough : (beforeEnd tokens).length - current < left) :
    Follows tokens limit depth current (blockLoop rounds deeper left branches)
      (blockRest inner >>= fun others => pure (branches ++ others)) := by
  have tidy := mirrors.sound.tidy
  induction left generalizing current branches with
  | zero => omega
  | succ left ih =>
    have room : (beforeEnd tokens).length - current < rounds := by omega
    by_cases elif : nextKind (pastNewlines (aheadAt tokens current)) = .elifWord
    · obtain ⟨word, rest, past, kind⟩ := exists_cons_of_nextKind elif (by decide)
      obtain ⟨next, taken, front, split⟩ := run_acceptPastNewlines_some limit depth inside room past kind
      obtain ⟨behind, inside'⟩ := aheadAt_cons split
      have branch : Follows tokens limit depth (next + 1)
          (logical rounds deeper >>= fun condition => expectBlock >>= fun _ =>
            block rounds deeper "elif" true >>= fun body =>
              blockLoop rounds deeper left (branches ++ [(condition, body)]))
          (Grammar.logical inner >>= fun condition => Grammar.block inner "elif" true >>= fun body =>
            blockRest inner >>= fun others => pure (branches ++ [(condition, body)] ++ others)) := by
        refine (follows_logical mirrors inside' plenty).bind fun condition _ front' second _ => ?_
        rw [← bind_assoc]
        refine (follows_checked_block mirrors second plenty "elif" true).bind fun body _ front'' third _ => ?_
        exact ih third _ (by omega)
      refine branch.of_eq (by omega) (run_bind_of_ok _ taken) ?_
      rw [behind, outcome_bind_of_eq _ (blockRest_elif tidy kind past)]
      simp only [elifBlock, bind_assoc, pure_bind, List.append_assoc, List.singleton_append]
    · have passed := run_acceptPastNewlines_none limit depth inside room elif
      by_cases otherwise : nextKind (pastNewlines (aheadAt tokens current)) = .elseWord
      · obtain ⟨word, rest, past, kind⟩ := exists_cons_of_nextKind otherwise (by decide)
        obtain ⟨next, taken, front, split⟩ := run_acceptPastNewlines_some limit depth inside room past kind
        obtain ⟨behind, inside'⟩ := aheadAt_cons split
        have branch := (follows_checked_block mirrors inside' plenty "else" true).map fun body =>
          branches ++ [(always word, body)]
        rw [bind_assoc] at branch
        refine branch.of_eq (by omega) ?_ ?_
        · exact (run_bind_of_ok _ passed).trans ((run_bind_of_ok _ taken).trans (run_bind_of_ok _ (run_previous split)))
        · rw [behind, outcome_bind_of_eq _ (blockRest_else kind past)]
          simp only [bind_assoc, pure_bind]
      · have passed' := run_acceptPastNewlines_none limit depth inside room otherwise
        refine (follows_pure branches inside).of_eq (Nat.le_refl _)
          ((run_bind_of_ok _ passed).trans (run_bind_of_ok _ passed')) ?_
        rw [outcome_bind_of_ok _ (blockRest_done (by simp [elif, otherwise])), List.append_nil]

theorem follows_blockChain (start : P) (condition : Node P) :
    Follows tokens limit depth current (blockChain rounds deeper start condition)
      (blockBranches inner condition >>= fun branches => pure (.mkChoice start branches)) := by
  have chained : Follows tokens limit depth current (blockChain rounds deeper start condition)
      (Grammar.block inner "if" true >>= fun body =>
        (blockRest inner >>= fun others => pure ([(condition, body)] ++ others)) >>= fun branches =>
          pure (.mkChoice start branches)) := by
    refine (follows_block mirrors inside plenty "if" true).bind fun body _ _ last _ => ?_
    exact (follows_blockLoop mirrors last plenty [(condition, body)] (by omega)).map (Node.mkChoice start)
  refine chained.of_eq (Nat.le_refl _) rfl ?_
  simp only [blockBranches, blockRest, bind_assoc, pure_bind, List.singleton_append]

omit inside in
theorem follows_ifStatement (word : nextKind (aheadAt tokens current) = .ifWord) :
    Follows tokens limit depth current (ifStatement rounds deeper) (Grammar.ifStatement inner) := by
  have ended := kind_endToken tokens
  obtain ⟨token, rest, split, _⟩ := exists_cons_of_nextKind word (by decide)
  refine follows_advance_bind split ?_
  refine (follows_logical mirrors (aheadAt_cons split).2 plenty).bind fun condition _ _ last _ => ?_
  refine follows_peek_bind last ?_
  rw [kind_headD ended]
  split
  next separates =>
    rw [separates]
    exact follows_thenChain mirrors plenty token.span.start condition separates
  next apart =>
    split
    next opens =>
      rw [opens]
      exact follows_blockChain mirrors last plenty token.span.start condition
    next =>
      split
      all_goals first | contradiction | exact follows_unexpected last _ _

omit inside in
theorem follows_forStatement (word : nextKind (aheadAt tokens current) = .forWord) :
    Follows tokens limit depth current (forStatement rounds deeper) (Grammar.forStatement inner) := by
  obtain ⟨token, rest, split, _⟩ := exists_cons_of_nextKind word (by decide)
  refine follows_advance_bind split ?_
  refine (follows_expect (by decide) _ (aheadAt_cons split).2).bind fun opening _ _ one _ => ?_
  refine (mirrors.statement one).bind fun start _ _ two _ => ?_
  refine (follows_expect (by decide) none two).bind fun semicolon _ _ three _ => ?_
  refine (follows_logical mirrors three plenty).bind fun condition _ _ four _ => ?_
  refine (follows_expect (by decide) none four).bind fun separator _ _ five _ => ?_
  refine (mirrors.statement five).bind fun step _ _ six _ => ?_
  refine (follows_expect (by decide) none six).bind fun closing _ _ seven _ => ?_
  exact (follows_block mirrors seven plenty "for" false).map (Node.mkFor token.span.start start condition step)

omit inside in
theorem follows_whileStatement (word : nextKind (aheadAt tokens current) = .whileWord) :
    Follows tokens limit depth current (whileStatement rounds deeper) (Grammar.whileStatement inner) := by
  obtain ⟨token, rest, split, _⟩ := exists_cons_of_nextKind word (by decide)
  refine follows_advance_bind split ?_
  refine (follows_logical mirrors (aheadAt_cons split).2 plenty).bind fun condition _ _ last _ => ?_
  exact (follows_block mirrors last plenty "while" false).map (Node.mkWhile token.span.start false condition)

omit inside in
theorem follows_doStatement (word : nextKind (aheadAt tokens current) = .doWord) :
    Follows tokens limit depth current (doStatement rounds deeper) (Grammar.doStatement inner) := by
  obtain ⟨token, rest, split, _⟩ := exists_cons_of_nextKind word (by decide)
  refine follows_advance_bind split ?_
  refine (follows_block mirrors (aheadAt_cons split).2 plenty "do-while" false).bind fun body current _ last _ => ?_
  refine follows_skip_bind (by decide) last (by omega) fun {next} last' => ?_
  refine follows_peek_bind last' ?_
  split
  next again =>
    rw [kind_headD (kind_endToken tokens)] at again
    obtain ⟨closing, behind, split', _⟩ := exists_cons_of_nextKind again (by decide)
    refine follows_advance_bind split' ?_
    exact (follows_logical mirrors (aheadAt_cons split').2 plenty).map fun condition =>
      Node.mkWhile token.span.start true condition body
  next => exact follows_unexpected last' _ _

theorem follows_statement : Follows tokens limit depth current (statement rounds deeper) (Grammar.statement inner) := by
  refine follows_peek_bind inside ?_
  rw [kind_headD (kind_endToken tokens)]
  generalize kind : nextKind (aheadAt tokens current) = next
  cases next
  case letWord => exact follows_letStatement mirrors kind
  case ifWord => exact follows_ifStatement mirrors plenty kind
  case forWord => exact follows_forStatement mirrors plenty kind
  case whileWord => exact follows_whileStatement mirrors plenty kind
  case doWord => exact follows_doStatement mirrors plenty kind
  case openBrace => exact follows_block mirrors inside plenty "anonymous" true
  all_goals exact follows_logical mirrors inside plenty

omit inside in
theorem follows_complement (sign : nextKind (aheadAt tokens current) = .not) :
    Follows tokens limit depth current (complement rounds deeper) (Grammar.complement inner) := by
  obtain ⟨operator, rest, split, _⟩ := exists_cons_of_nextKind sign (by decide)
  exact follows_advance_bind split
    ((follows_comparison mirrors (aheadAt_cons split).2 plenty).map (Node.mkUnary operator))

omit inside plenty in
theorem follows_negation (sign : nextKind (aheadAt tokens current) = .minus) :
    Follows tokens limit depth current (negation deeper) (Grammar.negation inner) := by
  obtain ⟨operator, rest, split, _⟩ := exists_cons_of_nextKind sign (by decide)
  exact follows_advance_bind split ((follows_factor mirrors (aheadAt_cons split).2).map (Node.mkUnary operator))

end Rules

omit [Inhabited P] in
theorem inside_of_aheadAt (text : nextKind (aheadAt tokens current) ≠ .endOfText) :
    current ≤ (beforeEnd tokens).length := by
  obtain ⟨token, rest, split, _⟩ := exists_cons_of_nextKind rfl text
  exact (Nat.le_succ current).trans (aheadAt_cons split).2

/-- Levels and tokens are what the fuel is for: a round of a loop takes a token, and a nested rule a level. -/
theorem mirrors_nested {levels fuel : Nat} (total : depth + levels = limit)
    (enough : (beforeEnd tokens).length + levels < fuel) :
    Mirrors tokens limit depth (nested fuel) (Grammar.nested limit levels) := by
  have sound := sound_nested (kind_endToken tokens) limit levels
  induction levels generalizing depth fuel with
  | zero =>
    -- Every level is in use: both refuse before a token is taken.
    obtain ⟨fuel, rfl⟩ := Nat.exists_eq_add_of_lt enough
    obtain rfl : depth = limit := total
    exact {
      sound := sound
      statement := fun inside => follows_full inside
      complement := fun sign => follows_full (inside_of_aheadAt (by rw [sign]; decide))
      negation := fun sign => follows_full (inside_of_aheadAt (by rw [sign]; decide)) }
  | succ levels ih =>
    obtain ⟨fuel, rfl⟩ : ∃ before, fuel = before + 1 := ⟨fuel - 1, by omega⟩
    have below : Mirrors tokens limit (depth + 1) (nested fuel) (Grammar.nested limit levels) :=
      ih (by omega) (by omega) (sound_nested (kind_endToken tokens) limit levels)
    have room : depth < limit := by omega
    have plenty : (beforeEnd tokens).length < fuel := by omega
    exact {
      sound := sound
      statement := fun inside => follows_within room (follows_statement below inside plenty)
      complement := fun sign => follows_within room (follows_complement below plenty sign)
      negation := fun sign => follows_within room (follows_negation below sign) }

end Reckon.Cursor
