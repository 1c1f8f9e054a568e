import Reckon.Proofs.Grammar.Derivation
import Reckon.Proofs.Grammar.Expected

set_option autoImplicit false

/-!
# Every rule tells what it expects

With any tokens ahead, a rule is stuck only where it can go on with each of the kinds that it names
there. What is known one level deeper carries the proof from rule to rule; an induction on the levels
closes the circle.
-/

namespace Reckon.Grammar

open Reckon.Parser

variable {P : Type} {stop token word : Token P} {ahead rest : List (Token P)} {deeper : Nested → Parser P (Node P)}

section Rules

variable (accounts : Accounts stop deeper)
include accounts

theorem explains_blockBody (name : String) (boundary : Bool) (ahead : List (Token P)) :
    ExplainsAt stop (separators .closeBrace ++ operandStarts) quiet ahead
      (sequence deeper .closeBrace >>= blockEnd name boundary) (sequence free .closeBrace >>= blockEnd name boundary) := by
  intro fault fails shallow
  cases read : outcome (sequence deeper .closeBrace) stop ahead with
  | error fault' =>
    rw [outcome_bind_of_error _ read] at fails
    cases fails
    exact (explains_sequence accounts (by decide) ahead _ read shallow).bind [.closeBrace] (by decide)
      (List.Subset.refl _) (ends_blockEnd name boundary)
  | ok pair =>
    -- Statements end in front of the brace only.
    obtain ⟨list, left⟩ := pair
    obtain ⟨closing, behind, rfl, kind⟩ :=
      exists_cons_of_nextKind (reads_sequence accounts.ended accounts.sound read).closes (by decide)
    have done : outcome (blockEnd name boundary list) stop (closing :: behind) =
        .ok (scopeOf name boundary closing list, behind) := by
      unfold blockEnd
      rw [outcome_peek_bind]
      exact outcome_bind_of_ok _ (outcome_expect_cons accounts.ended kind none)
    rw [outcome_bind_of_ok _ read, done] at fails
    cases fails

theorem explains_block (name : String) (boundary : Bool) (ahead : List (Token P)) :
    ExplainsAt stop [.openBrace] quiet ahead (block deeper name boundary) (block free name boundary) := by
  have whole : ExplainsAt stop [.openBrace] quiet ahead
      (expect .openBrace none >>= fun _ => sequence deeper .closeBrace >>= blockEnd name boundary)
      (expect .openBrace none >>= fun _ => sequence free .closeBrace >>= blockEnd name boundary) :=
    explains_expect_bind _ [.closeBrace] accounts.ended (List.Subset.refl quiet)
      (fun _ rest _ => explains_blockBody accounts name boundary rest) (by decide)
      fun _ => (ends_sequence (by decide)).bind (ends_blockEnd name boundary) (by decide)
  exact whole.behind [] (List.Subset.refl quiet) (outcome_block_sequence name boundary)
    (fun _ _ _ _ _ => outcome_block_sequence name boundary) (fun _ => List.Subset.refl _)

theorem explains_opened (name : String) (boundary : Bool) (opens : token.kind = .openBrace) (rest : List (Token P)) :
    ExplainsAt stop [] quiet (token :: rest) (block deeper name boundary) (block free name boundary) := by
  have inside : ∀ (deeper : Nested → Parser P (Node P)) (last : Token P) (rest : List (Token P)),
      last.kind = .endOfText → outcome (block deeper name boundary) last ([token] ++ rest) =
        outcome (sequence deeper .closeBrace >>= blockEnd name boundary) last rest := by
    intro deeper last rest ended
    rw [outcome_block_sequence]
    exact outcome_bind_of_ok _ (outcome_expect_cons ended opens none)
  exact (explains_blockBody accounts name boundary rest).past (List.cons_ne_nil token []) (List.Subset.refl quiet)
    (inside deeper stop rest accounts.ended) (inside free)

theorem explains_thenRest (ahead : List (Token P)) :
    ExplainsAt stop [] quiet ahead (thenRest deeper) (thenRest free) := by
  have ended := accounts.ended
  have tidy := accounts.sound.tidy
  induction length : ahead.length using Nat.strong_induction_on generalizing ahead with
  | _ length ih =>
  cases ahead with
  | nil => exact explains_ok (thenRest_done ended (by simp [nextKind]))
  | cons word rest =>
    rw [List.length_cons] at length
    by_cases elif : word.kind = .elifWord
    · have branch : ExplainsAt stop operandStarts quiet rest (elifThen deeper (thenRest deeper))
          (elifThen free (thenRest free)) := by
        refine explains_bind [.thenWord] [.thenWord, .number] (reader_logical accounts)
          (explains_logical accounts rest) (List.Subset.refl quiet) (fun condition left suffix _ => ?_) (by decide)
          (by decide) (by decide) fun condition => ?_
        · refine explains_expect_bind operandStarts [.number] ended (List.Subset.refl quiet)
            (fun separator middle split => ?_) (by decide) fun separator => ?_
          · refine explains_bind [] [] (reader_statement accounts) (accounts.statement middle)
              (List.Subset.refl quiet) (fun body last suffix' _ => ?_) (List.nil_subset _) (List.forall_mem_nil _)
              (List.Subset.refl quiet) fun body => ends_thenRest.map _
            have bound := suffix.length_le
            have bound' := suffix'.length_le
            rw [split, List.length_cons] at bound
            exact (ih last.length (by omega) last rfl).map _
          · exact ends_free.bind (fun body => ends_thenRest.map _) (List.Subset.refl _)
        · exact (ends_expect .thenWord none _).bind
            (fun _ => ends_free.bind (fun body => ends_thenRest.map _) (List.Subset.refl _)) (List.Subset.refl _)
      exact branch.past (List.cons_ne_nil word []) (List.Subset.refl quiet) (thenRest_elif ended tidy elif)
        fun _ _ ended' => thenRest_elif ended' tidy_free elif
    · by_cases otherwise : word.kind = .elseWord
      · exact ((accounts.statement rest).map _).past (List.cons_ne_nil word []) (List.Subset.refl quiet)
          (thenRest_else ended otherwise) fun _ _ ended' => thenRest_else ended' otherwise
      · exact explains_ok (thenRest_done ended (by simp [nextKind, elif, otherwise]))

theorem explains_thenBranches (condition : Node P) (separator : Token P) (rest : List (Token P)) :
    ExplainsAt stop [] quiet (separator :: rest) (thenBranches deeper condition) (thenBranches free condition) :=
  explains_take operandStarts (List.Subset.refl quiet) <|
    explains_bind [] [] (reader_statement accounts) (accounts.statement rest)
      (List.Subset.refl quiet)
      (fun body left _ _ => (explains_thenRest accounts left).map fun others => (condition, body) :: others)
      (List.nil_subset _) (List.forall_mem_nil _) (List.Subset.refl quiet) fun _ => ends_thenRest.map _

theorem explains_blockRest (ahead : List (Token P)) :
    ExplainsAt stop [] quiet ahead (blockRest deeper) (blockRest free) := by
  have tidy := accounts.sound.tidy
  induction length : ahead.length using Nat.strong_induction_on generalizing ahead with
  | _ length ih =>
  by_cases goes : nextKind (pastNewlines ahead) ∈ [.elifWord, .elseWord]
  · obtain ⟨gap, blank, split⟩ := exists_gap ahead
    cases next : pastNewlines ahead with
    | nil => simp [next, nextKind] at goes
    | cons word rest =>
      have shorter := length_lt_of_pastNewlines next
      have kind : word.kind = .elifWord ∨ word.kind = .elseWord := by simpa [next, nextKind] using goes
      have other : word.kind ≠ .newline := by rcases kind with kind | kind <;> rw [kind] <;> decide
      have past : ∀ behind, pastNewlines ((gap ++ [word]) ++ behind) = word :: behind := by
        intro behind
        rw [List.append_assoc]
        exact pastNewlines_gap blank behind other
      have split' : ahead = (gap ++ [word]) ++ rest := by simpa [next] using split
      have some' : gap ++ [word] ≠ [] := List.append_ne_nil_of_right_ne_nil gap (List.cons_ne_nil word [])
      rw [split']
      rcases kind with elif | otherwise
      · have branch : ExplainsAt stop operandStarts quiet rest (elifBlock deeper (blockRest deeper))
            (elifBlock free (blockRest free)) := by
          refine explains_bind [.openBrace] [.openBrace, .closeBrace] (reader_logical accounts)
            (explains_logical accounts rest) (List.Subset.refl quiet) (fun condition left suffix _ => ?_) (by decide)
            (by decide) (by decide) fun condition =>
              (ends_block "elif" true).bind (fun body => ends_blockRest.map _) (List.Subset.refl _)
          refine explains_bind [] [] (reader_block accounts "elif" true)
            (explains_block accounts "elif" true left) (List.Subset.refl quiet) (fun body last suffix' _ => ?_)
            (List.nil_subset _) (List.forall_mem_nil _) (List.Subset.refl quiet) fun body => ends_blockRest.map _
          have bound := suffix.length_le
          have bound' := suffix'.length_le
          exact (ih last.length (by omega) last rfl).map _
        exact branch.past some' (List.Subset.refl quiet) (blockRest_elif tidy elif (past rest))
          fun _ other _ => blockRest_elif tidy_free elif (past other)
      · have branch := (explains_block accounts "else" true rest).map fun body => [(always word, body)]
        exact branch.past some' (List.Subset.refl quiet) (blockRest_else otherwise (past rest))
          fun _ other _ => blockRest_else otherwise (past other)
  · exact explains_ok (blockRest_done goes)

theorem explains_blockBranches (condition : Node P) (ahead : List (Token P)) :
    ExplainsAt stop [.openBrace] quiet ahead (blockBranches deeper condition) (blockBranches free condition) :=
  explains_bind [] [] (reader_block accounts "if" true) (explains_block accounts "if" true ahead)
    (List.Subset.refl quiet)
    (fun body left _ _ => (explains_blockRest accounts left).map fun others => (condition, body) :: others)
    (List.nil_subset _) (List.forall_mem_nil _) (List.Subset.refl quiet) fun _ => ends_blockRest.map _

end Rules

def ifEnd (help : Option String) (deeper : Nested → Parser P (Node P)) (word : Token P) (condition : Node P) :
    Parser P (Node P) := do
  match (← peek).kind with
  | .thenWord => return .mkChoice word.span.start (← thenBranches deeper condition)
  | .openBrace => return .mkChoice word.span.start (← blockBranches deeper condition)
  | _ => unexpected [.thenWord, .openBrace] help

section Choices

variable {help : Option String} {condition : Node P}

theorem outcome_ifEnd_then (kind : nextKind ahead = .thenWord) :
    outcome (ifEnd help deeper word condition) stop ahead =
      outcome (thenBranches deeper condition >>= fun branches => pure (.mkChoice word.span.start branches)) stop
        ahead := by
  obtain ⟨token, rest, rfl, same⟩ := exists_cons_of_nextKind kind (by decide)
  unfold ifEnd
  rw [outcome_peek_bind, List.headD_cons, same]

theorem outcome_ifEnd_block (kind : nextKind ahead = .openBrace) :
    outcome (ifEnd help deeper word condition) stop ahead =
      outcome (blockBranches deeper condition >>= fun branches => pure (.mkChoice word.span.start branches)) stop
        ahead := by
  obtain ⟨token, rest, rfl, same⟩ := exists_cons_of_nextKind kind (by decide)
  unfold ifEnd
  rw [outcome_peek_bind, List.headD_cons, same]

theorem ends_thenBranches : Ends quiet [.thenWord, .number]
    (thenBranches free condition : Parser P (List (Node P × Node P))) := by
  have body : Ends quiet [.number] (free .statement >>= fun body : Node P =>
      thenRest free >>= fun others => pure ((condition, body) :: others)) :=
    ends_free.bind (fun body => ends_thenRest.map _) (List.Subset.refl _)
  exact ends_cons _ (fun _ _ _ _ _ => rfl) fun _ => body

theorem ends_ifEnd_then : Ends quiet [.thenWord, .number] (ifEnd help free word condition) := by
  intro tokens rest stop ended same follows
  rw [outcome_ifEnd_then (List.mem_singleton.1 (nextKind_append same follows))]
  exact ends_thenBranches.map _ tokens rest stop ended same follows

theorem ends_ifEnd_block : Ends quiet [.openBrace, .closeBrace] (ifEnd help deeper word condition) := by
  intro tokens rest stop ended same follows
  rw [outcome_ifEnd_block (List.mem_singleton.1 (nextKind_append same follows))]
  exact (ends_blockBranches condition).map _ tokens rest stop ended same follows

end Choices

section Rules

variable (accounts : Accounts stop deeper)
include accounts

theorem explains_ifEnd (help : Option String) (word : Token P) (condition : Node P) (ahead : List (Token P)) :
    ExplainsAt stop [.thenWord, .openBrace] quiet ahead (ifEnd help deeper word condition)
      (ifEnd help free word condition) := by
  have calm := List.Subset.refl quiet
  by_cases separates : nextKind ahead = .thenWord
  · obtain ⟨token, rest, rfl, kind⟩ := exists_cons_of_nextKind separates (by decide)
    have branches := (explains_thenBranches accounts condition token rest).map
      (Node.mkChoice word.span.start)
    refine branches.behind [] calm (outcome_ifEnd_then separates) (fun last other ended same _ => ?_)
      (fun _ => List.nil_subset _)
    have same' := nextKind_congr (same.resolve_right List.not_mem_nil)
    exact outcome_ifEnd_then (same'.trans separates)
  · by_cases opens : nextKind ahead = .openBrace
    · have branches := (explains_blockBranches accounts condition ahead).map (Node.mkChoice word.span.start)
      refine branches.behind [] calm (outcome_ifEnd_block opens) (fun last other ended same _ => ?_)
        (fun _ => by decide)
      exact outcome_ifEnd_block (same.elim (fun same => (nextKind_congr same).trans opens) List.mem_singleton.1)
    · intro fault fails shallow
      unfold ifEnd at fails
      rw [outcome_peek_bind, kind_headD accounts.ended] at fails
      split at fails
      next next => exact absurd next separates
      next next => exact absurd next opens
      refine explains_unexpected accounts.ended (by decide) help (fun kind member => ?_) fault fails shallow
      simp only [List.mem_cons, List.not_mem_nil, or_false] at member
      rcases member with rfl | rfl
      · exact ⟨_, by decide, List.Subset.refl _, ends_ifEnd_then⟩
      · exact ⟨_, by decide, List.Subset.refl _, ends_ifEnd_block⟩

theorem explains_ifStatement (rest : List (Token P)) :
    ExplainsAt stop [] quiet (word :: rest) (ifStatement deeper) (ifStatement free) :=
  explains_take operandStarts (List.Subset.refl quiet) <|
    explains_bind _ [.openBrace, .closeBrace] (reader_logical accounts) (explains_logical accounts rest)
      (List.Subset.refl quiet) (fun condition left _ _ => explains_ifEnd accounts _ word condition left) (by decide)
      (by decide) (by decide) fun _ => ends_ifEnd_block

section Loops

variable {start condition step : Node P}

theorem explains_forEnd (ahead : List (Token P)) :
    ExplainsAt stop [.closeParen] quiet ahead (forEnd deeper word start condition step)
      (forEnd free word start condition step) :=
  explains_expect_bind _ _ accounts.ended (List.Subset.refl quiet)
    (fun _ rest _ => (explains_block accounts "for" false rest).map _) (by decide)
    fun _ => (ends_block "for" false).map _

theorem explains_forStep (ahead : List (Token P)) :
    ExplainsAt stop [.terminator] quiet ahead (forStep deeper word start condition) (forStep free word start condition) :=
  explains_expect_bind _ _ accounts.ended (List.Subset.refl quiet)
    (fun _ rest _ => explains_bind _ _ (reader_statement accounts) (accounts.statement rest) (List.Subset.refl quiet)
      (fun _ left _ _ => explains_forEnd accounts left) (by decide) (by decide) (by decide) fun _ => ends_forEnd)
    (by decide) fun _ => ends_free.bind (fun _ => ends_forEnd) (by decide)

theorem explains_forTest (ahead : List (Token P)) :
    ExplainsAt stop [.terminator] quiet ahead (forTest deeper word start) (forTest free word start) :=
  explains_expect_bind _ _ accounts.ended (List.Subset.refl quiet)
    (fun _ rest _ => explains_bind _ _ (reader_logical accounts) (explains_logical accounts rest) (List.Subset.refl quiet)
      (fun _ left _ _ => explains_forStep accounts left) (by decide) (by decide) (by decide)
      fun _ => ends_forStep ends_free)
    (by decide) fun _ => ends_logical.bind (fun _ => ends_forStep ends_free) (by decide)

theorem explains_forStatement (rest : List (Token P)) :
    ExplainsAt stop [] quiet (word :: rest) (forStatement deeper) (forStatement free) := by
  have init : ∀ rest, ExplainsAt stop operandStarts quiet rest (deeper .statement >>= forTest deeper word)
      (free .statement >>= forTest free word) :=
    fun rest => explains_bind _ _ (reader_statement accounts) (accounts.statement rest) (List.Subset.refl quiet)
      (fun _ left _ _ => explains_forTest accounts left) (by decide) (by decide) (by decide)
      fun _ => ends_forTest ends_free
  refine explains_take [.openParen] (List.Subset.refl quiet) ?_
  exact explains_expect_bind _ _ accounts.ended (List.Subset.refl quiet) (fun _ rest _ => init rest) (by decide)
    fun _ => ends_free.bind (fun _ => ends_forTest ends_free) (by decide)

theorem explains_whileStatement (rest : List (Token P)) :
    ExplainsAt stop [] quiet (word :: rest) (whileStatement deeper) (whileStatement free) :=
  explains_take operandStarts (List.Subset.refl quiet) <|
    explains_bind _ _ (reader_logical accounts) (explains_logical accounts rest) (List.Subset.refl quiet)
      (fun _ left _ _ => (explains_block accounts "while" false left).map _) (by decide) (by decide) (by decide)
      fun _ => (ends_block "while" false).map _

theorem explains_doEnd (body : Node P) (ahead : List (Token P)) :
    ExplainsAt stop [.whileWord, .newline] quiet ahead (doEnd deeper word body) (doEnd free word body) := by
  have ended := accounts.ended
  have calm := List.Subset.refl quiet
  obtain ⟨gap, blank, split⟩ := exists_gap ahead
  by_cases repeats : nextKind (pastNewlines ahead) = .whileWord
  · obtain ⟨again, rest, next, kind⟩ := exists_cons_of_nextKind repeats (by decide)
    have past : ∀ behind, pastNewlines ((gap ++ [again]) ++ behind) = again :: behind := by
      intro behind
      rw [List.append_assoc]
      exact pastNewlines_gap blank behind (by rw [kind]; decide)
    have split' : ahead = (gap ++ [again]) ++ rest := by simpa [next] using split
    have test := (explains_logical accounts rest).map fun condition => Node.mkWhile word.span.start true condition body
    rw [split']
    exact test.past (List.append_ne_nil_of_right_ne_nil gap (List.cons_ne_nil again [])) calm
      (outcome_doEnd_while body kind (past rest)) fun _ other _ => outcome_doEnd_while body kind (past other)
  · intro fault fails _
    unfold doEnd at fails
    rw [outcome_skip_newlines_bind, outcome_peek_bind, if_neg (by rwa [kind_headD ended]),
      outcome_unexpected ended] at fails
    cases fails
    -- The newlines are behind the parser by now, and one more may follow them.
    generalize pastNewlines ahead = left at split
    subst split
    have again : Ends quiet [.whileWord, .number] (doEnd free word body) := ends_doEnd body
    have reaches : ∀ kinds, Ends quiet kinds (doEnd free word body) → Reaches quiet gap kinds (doEnd free word body) := by
      intro kinds ends tokens rest last ended same follows
      have past : outcome (doEnd free word body) last (gap ++ (tokens ++ rest)) =
          outcome (doEnd free word body) last (tokens ++ rest) := by
        unfold doEnd
        rw [outcome_skip_newlines_bind, outcome_skip_newlines_bind, pastNewlines_append blank]
      rw [past]
      exact ends tokens rest last ended same follows
    refine .stuck gap (by decide) (fun _ => List.Subset.refl _) fun kind member => ?_
    simp only [List.mem_cons, List.not_mem_nil, or_false] at member
    rcases member with rfl | rfl
    · exact ⟨_, by decide, List.Subset.refl _, reaches _ again⟩
    · refine ⟨[.newline, .whileWord, .number], by decide, List.Subset.refl _, reaches _ ?_⟩
      refine ends_cons (fun _ => doEnd free word body) ?_ fun _ => again
      intro line stop rest newline ended
      unfold doEnd
      rw [outcome_skip_newlines_bind, outcome_skip_newlines_bind, pastNewlines_line newline]

theorem explains_doStatement (rest : List (Token P)) :
    ExplainsAt stop [] quiet (word :: rest) (doStatement deeper) (doStatement free) :=
  explains_take [.openBrace] (List.Subset.refl quiet) <|
    explains_bind _ [.whileWord, .number] (reader_block accounts "do-while" false)
      (explains_block accounts "do-while" false rest) (List.Subset.refl quiet)
      (fun body left _ _ => explains_doEnd accounts body left) (by decide) (by decide) (by decide) ends_doEnd

theorem explains_letStatement (rest : List (Token P)) :
    ExplainsAt stop [] quiet (word :: rest) (letStatement deeper) (letStatement free) := by
  refine explains_take [.identifier] (List.Subset.refl quiet) ?_
  refine explains_expect_bind [.assign] [.assign, .number] accounts.ended (List.Subset.refl quiet)
    (fun name behind _ => ?_) (by decide) fun name =>
      (ends_expect .assign _ _).bind (fun _ => ends_free.map _) (List.Subset.refl _)
  exact explains_expect_bind _ _ accounts.ended (List.Subset.refl quiet)
    (fun _ value _ => (accounts.statement value).map _) (by decide) fun _ => ends_free.map _

end Loops

def compoundStarts : List Kind := [.letWord, .ifWord, .forWord, .whileWord, .doWord, .openBrace]

omit accounts in
theorem outcome_statement_logical (ended : stop.kind = .endOfText) (simple : nextKind ahead ∉ compoundStarts) :
    outcome (statement deeper) stop ahead = outcome (logical deeper) stop ahead := by
  unfold statement
  rw [outcome_peek_bind, kind_headD ended]
  split <;> first | rfl | simp_all [compoundStarts]

theorem explains_statement (ahead : List (Token P)) :
    ExplainsAt stop operandStarts quiet ahead (statement deeper) (statement free) := by
  have calm := List.Subset.refl quiet
  by_cases compound : nextKind ahead ∈ compoundStarts
  · cases ahead with
    | nil => simp [nextKind, compoundStarts] at compound
    | cons token rest =>
      unfold statement
      refine explains_choose [] calm ?_ (fun other same => ?_) (List.nil_subset _)
      · rw [List.headD_cons]
        simp only [compoundStarts, nextKind, List.mem_cons, List.not_mem_nil, or_false] at compound
        rcases compound with kind | kind | kind | kind | kind | kind <;> rw [kind]
        · exact explains_letStatement accounts rest
        · exact explains_ifStatement accounts rest
        · exact explains_forStatement accounts rest
        · exact explains_whileStatement accounts rest
        · exact explains_doStatement accounts rest
        · exact explains_opened accounts "anonymous" true kind rest
      · have kind : other.kind = token.kind := same.resolve_right List.not_mem_nil
        rw [kind, List.headD_cons]
  · have distinct : ∀ kind ∈ operandStarts, kind ∉ compoundStarts := by decide
    refine (explains_logical accounts ahead).behind [] calm
      (outcome_statement_logical accounts.ended compound) (fun last other ended same _ => ?_)
      (fun _ => List.Subset.refl _)
    refine outcome_statement_logical ended ?_
    exact same.elim (fun same => nextKind_congr same ▸ compound) (distinct _)

end Rules

theorem accounts_nested (ended : stop.kind = .endOfText) (limit levels : Nat) :
    Accounts stop (nested limit levels) := by
  have calm := List.Subset.refl quiet
  induction levels with
  | zero =>
    -- Only the levels run out here, and that is a fault that expects nothing.
    have refused : ∀ rule front ahead (other : Parser P (Node P)),
        ExplainsAt stop front quiet ahead (nested limit 0 rule) other := by
      intro rule front ahead other fault fails shallow
      have cut : outcome (nested limit 0 rule) stop ahead = .error _ := outcome_refuse _ _
      rw [cut] at fails
      cases fails
      cases shallow
    exact {
      ended := ended
      sound := sound_nested ended limit 0
      statement := fun ahead => refused _ _ _ _
      complement := fun sign rest _ => refused _ _ _ _
      negation := fun sign rest _ => refused _ _ _ _ }
  | succ levels ih =>
    exact {
      ended := ended
      sound := sound_nested ended limit (levels + 1)
      statement := fun ahead => (explains_statement ih ahead).behind [] calm rfl
        (fun _ _ ended' _ _ => outcome_free_statement ended') (fun _ => List.Subset.refl _)
      complement := fun sign rest _ => ((explains_comparison ih rest).map (Node.mkUnary sign)).past
        (List.cons_ne_nil sign []) calm rfl fun _ _ ended' => outcome_free_complement ended' sign
      negation := fun sign rest _ => ((explains_factor ih rest).map (Node.mkUnary sign)).past
        (List.cons_ne_nil sign []) calm rfl fun _ _ ended' => outcome_free_negation ended' sign }

end Reckon.Grammar
