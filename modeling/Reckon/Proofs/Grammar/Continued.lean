import Reckon.Proofs.Grammar.Completeness
import Reckon.Proofs.Grammar.Resume

set_option autoImplicit false

/-!
# Every rule resumes

Each rule with any tokens ahead resumes when the rules one level deeper do; an induction on the
levels closes the circle.
-/

namespace Reckon.Grammar

open Reckon.Parser

variable {P α β : Type} {late : P → Prop} {token stop : Token P} {before ahead rest : List (Token P)}
  {deeper : Nested → Parser P (Node P)}

structure Inner (late : P → Prop) (deeper : Nested → Parser P (Node P)) : Prop where
  tidy : ∀ rule, Tidy (deeper rule)
  strict : ∀ stop, stop.kind = .endOfText → Strict stop (deeper .statement)
  statement : ∀ before, Early late before → Resumes late quiet before (deeper .statement)
  operator : ∀ rule token rest, Early late (token :: rest) → Resumes late quiet (token :: rest) (deeper rule)
  -- No level may be left; otherwise a number is a statement.
  alive : (∀ stop ahead, ∃ fault : Fault P, outcome (deeper .statement) stop ahead = .error fault ∧
    fault.span = (ahead.headD stop).span ∧ fault.isContinuable = false) ∨
      Ends quiet [.number] (deeper .statement)

/-! ## Taking tokens -/

theorem Early.tail (early : Early late (token :: rest)) : Early late rest :=
  early.suffix (List.suffix_cons token rest)

theorem Broken.kind (broken : Broken ahead) : nextKind ahead = .newline ∨ nextKind ahead = .endOfText := by
  simpa [Broken] using broken

theorem Resumes.peek {next : Token P → Parser P α} {last : List Kind}
    (resumes : Resumes late last (token :: rest) (next token)) :
    Resumes late last (token :: rest) (Parser.peek >>= next) :=
  resumes.of_eq (List.suffix_refl _) fun _ _ => rfl

theorem Resumes.take {next : Token P → Parser P α} {last : List Kind}
    (resumes : Resumes late last rest (next token)) :
    Resumes late last (token :: rest) (Parser.take >>= next) :=
  resumes.of_eq (List.suffix_cons token rest) fun _ _ => rfl

theorem resumes_pure (value : α) (next : List Kind) : Resumes late next before (pure value : Parser P α) :=
  resumes_read value (List.suffix_refl before) fun _ _ => rfl

theorem Resumes.map {parser : Parser P α} {next : List Kind} (resumes : Resumes late next before parser)
    (tidy : Tidy parser) (f : α → β) : Resumes late next before (parser >>= fun value => pure (f value)) :=
  resumes.bind tidy (fun value => tidy_pure (f value))
    ⟨[], List.nil_subset _, List.Subset.refl next, fun value => ends_pure (f value) next⟩
    fun value _ _ _ => resumes_pure (f value) next

theorem surprise_closed {expected : List Kind} (closed : .newline ∉ expected ∨ nextKind ahead ≠ .endOfText) :
    (surprise stop expected ahead).isContinuable = false := by
  unfold surprise
  split
  next finished =>
    have line : Kind.newline ∉ expected := closed.resolve_right fun open' => open' finished
    simp [Cause.isContinuable, line]
  next => rfl

theorem waits_end {expected : List Kind} (line : .newline ∈ expected) (kind : Kind) (span : Span P)
    (help : Option String) :
    Waits kind (.error ⟨.unexpectedEnd expected, span, help⟩ : Except (Fault P) (α × List (Token P))) :=
  List.contains_iff_mem.2 line

theorem Early.text (early : Early late (token :: rest)) : token.kind ≠ .endOfText :=
  (early token (by simp)).1

theorem resumes_unexpected {expected : List Kind} {help : Option String} {next : List Kind}
    (early : Early late before) (closed : .newline ∉ expected ∨ before ≠ []) :
    Resumes late next before (unexpected expected help : Parser P α) := by
  apply resumes_refused early
  intro stop ahead ended broken
  refine ⟨_, outcome_unexpected ended expected help, rfl, surprise_closed ?_⟩
  rcases closed with line | more
  · exact .inl line
  · obtain ⟨token, rest, rfl⟩ := List.exists_cons_of_ne_nil more
    exact .inr early.text

theorem expect_bind_refused {kind : Kind} {help : Option String} {next : Token P → Parser P α}
    (ended : stop.kind = .endOfText) (line : kind ≠ .newline) (differs : nextKind ahead ≠ kind) :
    ∃ fault : Fault P, outcome (expect kind help >>= next) stop ahead = .error fault ∧
      fault.span = (ahead.headD stop).span ∧ fault.isContinuable = false := by
  have fails : outcome (expect kind help) stop ahead =
      .error ⟨surprise stop [kind] ahead, (ahead.headD stop).span, help⟩ := by
    rw [outcome_expect ended, if_neg differs]
  exact ⟨_, outcome_bind_of_error next fails, rfl, surprise_closed (.inl (by simpa using line.symm))⟩

theorem resumes_expect_bind {kind : Kind} {help : Option String} {next : Token P → Parser P α}
    {last : List Kind} (early : Early late before) (other : kind ∉ [.newline, .endOfText])
    (second : ∀ token rest, before = token :: rest → Resumes late last rest (next token)) :
    Resumes late last before (expect kind help >>= next) := by
  simp only [List.mem_cons, List.not_mem_nil, or_false, not_or] at other
  by_cases same : nextKind before = kind
  · obtain ⟨token, rest, split, kind'⟩ := exists_cons_of_nextKind same other.2
    subst split
    apply (second token rest rfl).of_eq (List.suffix_cons token rest)
    intro stop ahead ended broken
    exact outcome_bind_of_ok _ (outcome_expect_cons ended kind' help)
  · apply resumes_refused early
    intro stop ahead ended broken
    have differs : nextKind (before ++ ahead) ≠ kind := by
      cases before with
      | nil =>
        rcases broken.kind with next | next
        · exact fun same => other.1 (same.symm.trans next)
        · exact fun same => other.2 (same.symm.trans next)
      | cons token rest => exact same
    exact expect_bind_refused ended other.1 differs

theorem Inner.bind (inner : Inner late deeper) {next : Node P → Parser P α} {last : List Kind}
    (early : Early late before) (others : ∀ value, Tidy (next value))
    (finish : Ends quiet [.number] (deeper .statement) →
      ∃ kinds, kinds ⊆ fillers ∧ heads kinds last ⊆ quiet ∧ ∀ value, Ends last kinds (next value))
    (second : Ends quiet [.number] (deeper .statement) → ∀ value left, left <:+ before →
      Resumes late last left (next value)) :
    Resumes late last before (deeper .statement >>= next) := by
  rcases inner.alive with dead | number
  · apply resumes_refused early
    intro stop ahead ended broken
    obtain ⟨fault, fails, span, closed⟩ := dead stop (before ++ ahead)
    exact ⟨fault, outcome_bind_of_error next fails, span, closed⟩
  · exact (inner.statement before early).bind (inner.tidy .statement) others (finish number)
      fun value left suffix _ => second number value left suffix

/-! ## Expressions -/

section Operands

variable {operators : List Kind} {operand : Parser P (Node P)} {left : Node P}

theorem tidy_chain (tidy : Tidy operand) : Tidy (chain operators operand left) :=
  tidy_get.bind fun steps => tidy_moreOperands tidy steps left

theorem ends_chain (apart : ∀ kind ∈ .newline :: quiet, kind ∉ operators) :
    Ends quiet [] (chain operators operand left) := by
  intro tokens rest stop ended same behind
  cases List.map_eq_nil_iff.1 same
  exact ⟨left, chain_done ended (apart _ (List.mem_cons_of_mem _ behind))⟩

theorem Broken.apart (apart : ∀ kind ∈ .newline :: quiet, kind ∉ operators) (broken : Broken ahead) :
    nextKind ahead ∉ operators := by
  rcases broken.kind with next | next
  · rw [next]
    exact apart _ (by simp)
  · rw [next]
    exact apart _ (by decide)

theorem resumes_chain (apart : ∀ kind ∈ .newline :: quiet, kind ∉ operators) (tidy : Tidy operand)
    (resumes : ∀ before, Early late before → Resumes late quiet before operand) (early : Early late before) :
    Resumes late quiet before (chain operators operand left) := by
  induction length : before.length using Nat.strong_induction_on generalizing before left with
  | _ length ih =>
  cases before with
  | nil =>
    apply resumes_read left (List.suffix_refl _)
    intro stop ahead ended broken
    exact chain_done ended (broken.apart apart)
  | cons operator others =>
    by_cases kind : operator.kind ∈ operators
    · have text : .endOfText ∉ operators := apart _ (by decide)
      have step : Resumes late quiet others
          (operand >>= fun right => chain operators operand (.mkBinary left operator right)) := by
        apply (resumes others early.tail).bind tidy (fun right => tidy_chain tidy)
        · exact ⟨[], List.nil_subset _, List.Subset.refl _, fun right => ends_chain apart⟩
        · intro right rest suffix _
          have shorter := suffix.length_le
          simp only [List.length_cons] at length
          exact ih rest.length (by omega) (early.tail.suffix suffix) rfl
      apply step.of_eq (List.suffix_cons operator others)
      intro stop ahead ended broken
      exact chain_step ended text tidy kind
    · apply resumes_read left (List.suffix_refl _)
      intro stop ahead ended broken
      exact chain_done ended kind

theorem ends_operands {kinds : List Kind} (apart : ∀ kind ∈ .newline :: quiet, kind ∉ operators)
    (ends : Ends quiet kinds operand) : Ends quiet kinds (operands operators operand) := by
  have done : Ends quiet (kinds ++ []) (operand >>= chain operators operand) :=
    ends.bind (fun first => ends_chain apart) (List.Subset.refl quiet)
  rwa [List.append_nil] at done

theorem resumes_operands (apart : ∀ kind ∈ .newline :: quiet, kind ∉ operators) (tidy : Tidy operand)
    (resumes : ∀ before, Early late before → Resumes late quiet before operand) (before : List (Token P))
    (early : Early late before) : Resumes late quiet before (operands operators operand) := by
  have whole : Resumes late quiet before (operand >>= chain operators operand) := by
    apply (resumes before early).bind tidy (fun first => tidy_chain tidy)
    · exact ⟨[], List.nil_subset _, List.Subset.refl _, fun first => ends_chain apart⟩
    · intro first left suffix _
      exact resumes_chain apart tidy resumes (early.suffix suffix)
  exact whole

end Operands

theorem resumes_factor (inner : Inner late deeper) (before : List (Token P)) (early : Early late before) :
    Resumes late quiet before (factor deeper) := by
  cases before with
  | nil =>
    have closed : .newline ∉ [Kind.number, .identifier, .last, .openParen, .minus] := by decide
    apply (resumes_unexpected early (.inl closed)).of_eq (List.suffix_refl [])
    intro stop ahead ended broken
    unfold factor
    rw [List.nil_append, outcome_peek_bind, kind_headD ended]
    rcases broken.kind with next | next <;> rw [next]
  | cons token rest =>
    unfold factor
    apply Resumes.peek
    split
    · exact Resumes.take (resumes_pure _ _)
    · exact Resumes.take (resumes_pure _ _)
    · exact Resumes.take (resumes_pure _ _)
    · apply Resumes.take
      apply inner.bind early.tail
      · exact fun tree => (tidy_expect _ _).bind fun _ => tidy_pure _
      · intro number
        refine ⟨[.closeParen], by decide, by decide, fun tree => ?_⟩
        exact (ends_expect .closeParen _ _).map fun _ => tree
      · intro number tree left suffix
        apply resumes_expect_bind (early.tail.suffix suffix) (by decide)
        intro closing after split
        exact resumes_pure tree quiet
    · exact inner.operator .negation token rest early
    · exact resumes_unexpected early (.inl (by decide))

theorem operators_apart (rank : Rank) : ∀ kind ∈ .newline :: quiet, kind ∉ rank.operators := by
  cases rank <;> decide

theorem resumes_sum (inner : Inner late deeper) (before : List (Token P)) (early : Early late before) :
    Resumes late quiet before (sum deeper) := by
  have factors := tidy_factor inner.tidy
  have powers := resumes_operands (operators_apart .power) factors (resumes_factor inner)
  have terms := resumes_operands (operators_apart .term) (tidy_operands factors) powers
  exact resumes_operands (operators_apart .sum) (tidy_operands (tidy_operands factors)) terms before early

theorem resumes_comparison (inner : Inner late deeper) (before : List (Token P)) (early : Early late before) :
    Resumes late quiet before (comparison deeper) := by
  have sums : Tidy (sum deeper) := tidy_operands (tidy_operands (tidy_operands (tidy_factor inner.tidy)))
  have plain := resumes_operands (operators_apart .comparison) sums (resumes_sum inner) before early
  cases before with
  | nil =>
    apply plain.of_eq (List.suffix_refl _)
    intro stop ahead ended broken
    unfold comparison
    rw [outcome_peek_bind, kind_headD ended, if_neg]
    · rfl
    · rcases broken.kind with next | next <;> simp [next]
  | cons token rest =>
    unfold comparison
    apply Resumes.peek
    split
    · exact inner.operator .complement token rest early
    · exact plain

theorem resumes_logical (inner : Inner late deeper) (before : List (Token P)) (early : Early late before) :
    Resumes late quiet before (logical deeper) :=
  resumes_operands (operators_apart .logical) (tidy_comparison inner.tidy) (resumes_comparison inner) before early

theorem ends_logical : Ends quiet [.number] (logical deeper) := by
  have factors : Ends quiet [.number] (factor deeper) := by
    intro tokens rest stop ended same behind
    obtain ⟨token, rfl, kind⟩ := List.map_eq_singleton_iff.1 same
    refine ⟨.mkLiteral (.number token.number) token.span, ?_⟩
    unfold factor
    rw [outcome_peek_bind, List.singleton_append, List.headD_cons, kind]
    rfl
  have sums : Ends quiet [.number] (sum deeper) :=
    ends_operands (operators_apart .sum) (ends_operands (operators_apart .term)
      (ends_operands (operators_apart .power) factors))
  have comparisons : Ends quiet [.number] (comparison deeper) := by
    intro tokens rest stop ended same behind
    obtain ⟨tree, reads⟩ := ends_operands (operators_apart .comparison) sums tokens rest stop ended same behind
    obtain ⟨token, rfl, kind⟩ := List.map_eq_singleton_iff.1 same
    refine ⟨tree, ?_⟩
    unfold comparison
    rw [outcome_peek_bind, List.singleton_append, List.headD_cons, kind]
    exact reads
  exact ends_operands (operators_apart .logical) comparisons

/-! ## Sequences and blocks -/

section Sequences

variable {closing : Kind}

theorem tidy_sequence (inner : ∀ rule, Tidy (deeper rule)) (closing : Kind) : Tidy (sequence deeper closing) :=
  tidy_get.bind fun steps => tidy_statementList inner closing steps

theorem ends_sequence (closes : closing ∈ [.closeBrace, .endOfText]) :
    Ends [closing] [] (sequence deeper closing) := by
  intro tokens rest stop ended same behind
  cases List.map_eq_nil_iff.1 same
  have next := List.mem_singleton.1 behind
  have stays := pastSeparators_closing closes next
  rw [List.nil_append, sequence_done ended (by rw [stays, next]), stays]
  exact ⟨[], rfl⟩

theorem ends_statementEnd (closes : closing ∈ [.closeBrace, .endOfText]) :
    Ends [closing] [] (statementEnd closing : Parser P Bool) := by
  intro tokens rest stop ended same behind
  cases List.map_eq_nil_iff.1 same
  exact ⟨false, outcome_statementEnd_closing ended closes (List.mem_singleton.1 behind)⟩

theorem waits_statementEnd (ended : stop.kind = .endOfText) (closing : Kind) :
    Waits closing (outcome (statementEnd closing : Parser P Bool) stop []) := by
  have finished : nextKind ([] : List (Token P)) = .endOfText := rfl
  rw [outcome_statementEnd ended, if_neg (by simp [finished]), if_neg (by simp [finished])]
  by_cases text : closing = .endOfText
  · rw [if_pos (finished.trans text.symm)]
    exact ⟨rfl, text⟩
  · rw [if_neg (finished.trans_ne (Ne.symm text))]
    exact waits_end (by simp [separators]) _ _ _

theorem waits_sequence (ended : stop.kind = .endOfText) (empty : pastSeparators before = []) (closing : Kind) :
    Waits closing (outcome (sequence deeper closing) stop before) := by
  have finished : nextKind (pastSeparators before) = .endOfText := by rw [empty]; rfl
  by_cases text : closing = .endOfText
  · rw [sequence_done ended (finished.trans text.symm), empty]
    exact ⟨rfl, text⟩
  · rw [sequence_over ended (finished.trans_ne (Ne.symm text)) finished]
    exact waits_end (by simp [separators]) _ _ _

theorem resumes_statementEnd_bind {next : Bool → Parser P α} (early : Early late before) (others : ∀ hidden, Tidy (next hidden))
    (ends : ∀ hidden, Ends [closing] [] (next hidden))
    (second : ∀ hidden left, left <:+ before → Resumes late [closing] left (next hidden)) :
    Resumes late [closing] before (statementEnd closing >>= next) := by
  cases before with
  | nil =>
    have taken : ∀ {line stop : Token P} {more : List (Token P)}, line.kind = .newline →
        stop.kind = .endOfText → outcome (statementEnd closing) stop (line :: more) = .ok (false, more) := by
      intro line stop more newline ended
      rw [outcome_statementEnd ended, if_neg, if_pos]
      · rfl
      · exact newline
      · simp [nextKind, newline]
    apply resumes_past (List.nil_subset fillers)
    · intro line stop more seam
      rw [List.nil_append, outcome_bind_of_ok next (taken seam.newline seam.ended)]
      exact seam.beyond (others false) (List.suffix_refl _)
    · intro line stop tokens rest newline ended kinds behind
      obtain ⟨value, reads⟩ := ends false tokens rest stop ended kinds behind
      exact ⟨value, (outcome_bind_of_ok next (taken newline ended)).trans reads⟩
    · intro last kind ended expected
      refine waits_bind ?_ (List.nil_subset fillers) ends (List.Subset.refl _) expected ended
      intro kind single
      rw [List.mem_singleton.1 single]
      exact waits_statementEnd ended closing
  | cons token rest =>
    by_cases hides : token.kind = .terminator
    · apply (second true rest (List.suffix_cons token rest)).of_eq (List.suffix_cons token rest)
      intro stop ahead ended broken
      apply outcome_bind_of_ok
      rw [List.cons_append, outcome_statementEnd_cons ended, if_pos hides]
    · by_cases line : token.kind = .newline
      · apply (second false rest (List.suffix_cons token rest)).of_eq (List.suffix_cons token rest)
        intro stop ahead ended broken
        apply outcome_bind_of_ok
        rw [List.cons_append, outcome_statementEnd_cons ended, if_neg hides, if_pos line]
      · by_cases last : token.kind = closing
        · apply (second false (token :: rest) (List.suffix_refl _)).of_eq (List.suffix_refl _)
          intro stop ahead ended broken
          apply outcome_bind_of_ok
          rw [List.cons_append, outcome_statementEnd_cons ended, if_neg hides, if_neg line, if_pos last]
        · apply resumes_refused early
          intro stop ahead ended broken
          have fails : outcome (statementEnd closing) stop (token :: rest ++ ahead) =
              .error ⟨surprise stop (separators closing) (token :: rest ++ ahead), token.span,
                some "Separate statements with a newline or ';'."⟩ := by
            rw [List.cons_append, outcome_statementEnd_cons ended, if_neg hides, if_neg line, if_neg last]
          exact ⟨_, outcome_bind_of_error next fails, rfl, surprise_closed (.inr early.text)⟩

theorem pastSeparators_append_nil (empty : pastSeparators before = []) (ahead : List (Token P)) :
    pastSeparators (before ++ ahead) = pastSeparators ahead := by
  unfold pastSeparators at empty ⊢
  exact List.dropWhile_append_of_pos (List.dropWhile_eq_nil_iff.1 empty)

theorem pastSeparators_append_cons (split : pastSeparators before = token :: rest) (ahead : List (Token P)) :
    pastSeparators (before ++ ahead) = token :: rest ++ ahead := by
  unfold pastSeparators at split ⊢
  rw [List.dropWhile_append, split]
  rfl

theorem resumes_sequence (inner : Inner late deeper) (closes : closing ∈ [.closeBrace, .endOfText])
    (early : Early late before) : Resumes late [closing] before (sequence deeper closing) := by
  induction length : before.length using Nat.strong_induction_on generalizing before with
  | _ length ih =>
  cases split : pastSeparators before with
  | nil =>
    have past : ∀ {line stop : Token P} {more : List (Token P)}, line.kind = .newline → stop.kind = .endOfText →
        outcome (sequence deeper closing) stop (before ++ line :: more) =
          outcome (sequence deeper closing) stop more := by
      intro line stop more newline ended
      apply sequence_past ended (inner.strict stop ended)
      rw [pastSeparators_append_nil split, pastSeparators_cons (.inl newline)]
    apply resumes_past (List.nil_subset fillers)
    · intro line stop more seam
      rw [past seam.newline seam.ended]
      exact seam.beyond (tidy_sequence inner.tidy closing) (List.suffix_refl _)
    · intro line stop tokens rest newline ended kinds behind
      rw [past newline ended]
      exact ends_sequence closes tokens rest stop ended kinds behind
    · intro last kind ended single
      rw [List.mem_singleton.1 single]
      exact waits_sequence ended split closing
  | cons token rest =>
    have suffix : token :: rest <:+ before := split ▸ pastSeparators_suffix before
    have front := early.suffix suffix
    by_cases last : token.kind = closing
    · apply resumes_read [] suffix
      intro stop ahead ended broken
      exact sequence_closed ended (pastSeparators_append_cons split ahead) last
    · have bound := suffix.length_le
      have one : Resumes late [closing] (token :: rest)
          (oneStatement deeper closing (sequence deeper closing)) := by
        apply (inner.statement _ front).bind (inner.tidy .statement)
        · exact fun statement => (tidy_statementEnd closing).bind fun hidden =>
            (tidy_sequence inner.tidy closing).bind fun others => tidy_pure _
        · refine ⟨[], List.nil_subset _, ?_, fun statement => ?_⟩
          · have either : closing = .closeBrace ∨ closing = .endOfText := by simpa using closes
            rcases either with rfl | rfl <;> decide
          · exact (ends_statementEnd closes).bind (fun hidden => (ends_sequence closes).map _)
              (List.Subset.refl _)
        · intro statement left shorter ⟨stop, ahead, ended, reads⟩
          have strict := inner.strict stop ended reads
          rw [List.length_append, List.length_append] at strict
          apply resumes_statementEnd_bind (front.suffix shorter)
          · exact fun hidden => (tidy_sequence inner.tidy closing).bind fun others => tidy_pure _
          · exact fun hidden => (ends_sequence closes).map _
          · intro hidden left' shorter'
            have bound' := shorter'.length_le
            have again := ih left'.length (by omega) ((front.suffix shorter).suffix shorter') rfl
            exact again.map (tidy_sequence inner.tidy closing) _
      apply one.of_eq suffix
      intro stop ahead ended broken
      exact sequence_cons ended (inner.strict stop ended) (pastSeparators_append_cons split ahead) last front.text

end Sequences

def blockEnd (name : String) (boundary : Bool) (list : List (Node P)) : Parser P (Node P) := do
  let next ← peek
  let _ ← expect .closeBrace none
  return scopeOf name boundary next list

theorem outcome_block_sequence (name : String) (boundary : Bool) :
    outcome (block deeper name boundary) stop ahead =
      outcome (expect .openBrace none >>= fun _ => sequence deeper .closeBrace >>= blockEnd name boundary)
        stop ahead := by
  apply outcome_bind_congr
  intro opening rest opens
  cases read : outcome (sequence deeper .closeBrace) stop rest with
  | error fault =>
    have fails : outcome (statements deeper .closeBrace) stop rest = .error fault := by
      rw [outcome_statements, read]
      rfl
    exact (outcome_bind_of_error _ fails).trans (outcome_bind_of_error _ read).symm
  | ok pair =>
    obtain ⟨list, behind⟩ := pair
    have reads : outcome (statements deeper .closeBrace) stop rest =
        .ok (filled (behind.headD stop) list, behind) := by
      rw [outcome_statements, read]
      rfl
    refine (outcome_bind_of_ok _ reads).trans ?_
    rw [outcome_bind_of_ok _ read]
    rfl

theorem tidy_blockEnd (name : String) (boundary : Bool) (list : List (Node P)) :
    Tidy (blockEnd name boundary list) :=
  tidy_peek.bind fun _ => (tidy_expect _ _).bind fun _ => tidy_pure _

theorem ends_blockEnd (name : String) (boundary : Bool) (list : List (Node P)) :
    Ends quiet [.closeBrace] (blockEnd name boundary list) := by
  intro tokens rest stop ended same behind
  obtain ⟨token, rfl, kind⟩ := List.map_eq_singleton_iff.1 same
  refine ⟨scopeOf name boundary token list, ?_⟩
  unfold blockEnd
  rw [outcome_peek_bind]
  exact outcome_bind_of_ok _ (outcome_expect_cons ended kind none)

theorem resumes_blockEnd (early : Early late before) (name : String) (boundary : Bool) (list : List (Node P)) :
    Resumes late quiet before (blockEnd name boundary list) := by
  cases before with
  | nil =>
    apply resumes_refused early
    intro stop ahead ended broken
    unfold blockEnd
    rw [List.nil_append, outcome_peek_bind]
    have differs : nextKind ahead ≠ .closeBrace := by rcases broken.kind with next | next <;> simp [next]
    exact expect_bind_refused ended (by decide) differs
  | cons token rest =>
    unfold blockEnd
    apply Resumes.peek
    apply resumes_expect_bind early (by decide)
    intro closing after split
    exact resumes_pure _ _

theorem ends_block (name : String) (boundary : Bool) :
    Ends quiet [.openBrace, .closeBrace] (block deeper name boundary) := by
  intro tokens rest stop ended same behind
  rw [outcome_block_sequence]
  have body : Ends quiet [.closeBrace] (sequence deeper .closeBrace >>= blockEnd name boundary) :=
    (ends_sequence (by decide)).bind (ends_blockEnd name boundary) (by decide)
  exact (ends_expect .openBrace none _).bind (fun _ => body) (List.Subset.refl _) tokens rest stop ended same behind

theorem resumes_block (inner : Inner late deeper) (name : String) (boundary : Bool) (early : Early late before) :
    Resumes late quiet before (block deeper name boundary) := by
  have whole : Resumes late quiet before
      (expect .openBrace none >>= fun _ => sequence deeper .closeBrace >>= blockEnd name boundary) := by
    apply resumes_expect_bind early (by decide)
    intro opening rest split
    subst split
    apply (resumes_sequence inner (by decide) early.tail).bind (tidy_sequence inner.tidy _)
    · exact tidy_blockEnd name boundary
    · exact ⟨[.closeBrace], by decide, by decide, ends_blockEnd name boundary⟩
    · intro list left suffix _
      exact resumes_blockEnd (early.tail.suffix suffix) name boundary list
  exact whole.of_eq (List.suffix_refl _) fun _ _ => outcome_block_sequence name boundary

/-! ## Choices -/

theorem Broken.unbranched (broken : Broken ahead) : nextKind ahead ∉ [.elifWord, .elseWord] := by
  rcases broken.kind with next | next <;> simp [next]

theorem tidy_thenRest (inner : ∀ rule, Tidy (deeper rule)) : Tidy (thenRest deeper) :=
  tidy_get.bind fun steps => tidy_moreThenBranches inner steps

theorem ends_thenRest : Ends quiet [] (thenRest deeper) := by
  intro tokens rest stop ended same behind
  cases List.map_eq_nil_iff.1 same
  have apart : ∀ kind ∈ quiet, kind ∉ [Kind.elifWord, .elseWord] := by decide
  exact ⟨[], thenRest_done ended (apart _ behind)⟩

theorem resumes_thenRest (inner : Inner late deeper) (number : Ends quiet [.number] (deeper .statement))
    (early : Early late before) : Resumes late quiet before (thenRest deeper) := by
  induction length : before.length using Nat.strong_induction_on generalizing before with
  | _ length ih =>
  cases before with
  | nil =>
    apply resumes_read [] (List.suffix_refl _)
    intro stop ahead ended broken
    exact thenRest_done ended broken.unbranched
  | cons word rest =>
    simp only [List.length_cons] at length
    by_cases elif : word.kind = .elifWord
    · have branch : Resumes late quiet rest (elifThen deeper (thenRest deeper)) := by
        apply (resumes_logical inner rest early.tail).bind (tidy_logical inner.tidy)
        · exact fun condition => (tidy_expect _ _).bind fun _ => (inner.tidy .statement).bind fun body =>
            (tidy_thenRest inner.tidy).bind fun others => tidy_pure _
        · refine ⟨[.thenWord, .number], by decide, by decide, fun condition => ?_⟩
          have body : Ends quiet [.number] (deeper .statement >>= fun body =>
              thenRest deeper >>= fun others => pure ((condition, body) :: others)) :=
            number.bind (fun body => ends_thenRest.map _) (List.Subset.refl _)
          exact (ends_expect .thenWord none _).bind (fun _ => body) (List.Subset.refl _)
        · intro condition left suffix _
          apply resumes_expect_bind (early.tail.suffix suffix) (by decide)
          intro separator middle split
          subst split
          have front := (early.tail.suffix suffix).tail
          apply (inner.statement middle front).bind (inner.tidy .statement)
          · exact fun body => (tidy_thenRest inner.tidy).bind fun others => tidy_pure _
          · exact ⟨[], List.nil_subset _, List.Subset.refl _, fun body => ends_thenRest.map _⟩
          · intro body last suffix' _
            have bound := suffix.length_le
            have bound' := suffix'.length_le
            simp only [List.length_cons] at bound
            exact (ih last.length (by omega) (front.suffix suffix') rfl).map (tidy_thenRest inner.tidy) _
      apply branch.of_eq (List.suffix_cons word rest)
      intro stop ahead ended broken
      exact thenRest_elif ended inner.tidy elif
    · by_cases otherwise : word.kind = .elseWord
      · apply ((inner.statement rest early.tail).map (inner.tidy .statement) _).of_eq (List.suffix_cons word rest)
        intro stop ahead ended broken
        exact thenRest_else ended otherwise
      · apply resumes_read [] (List.suffix_refl _)
        intro stop ahead ended broken
        exact thenRest_done ended (by simp [nextKind, elif, otherwise])

theorem resumes_thenBranches (inner : Inner late deeper) (early : Early late (token :: rest)) (condition : Node P) :
    Resumes late quiet (token :: rest) (thenBranches deeper condition) := by
  apply Resumes.take
  apply inner.bind early.tail
  · exact fun body => tidy_get.bind fun steps => (tidy_moreThenBranches inner.tidy steps).bind fun others =>
      tidy_pure _
  · exact fun number => ⟨[], List.nil_subset _, List.Subset.refl _, fun body =>
      ends_thenRest.map fun others => (condition, body) :: others⟩
  · intro number body left suffix
    have others := resumes_thenRest inner number (early.tail.suffix suffix)
    have branches := others.map (tidy_thenRest inner.tidy) fun others => (condition, body) :: others
    exact branches.of_eq (List.suffix_refl _) fun _ _ => rfl

theorem tidy_blockRest (inner : ∀ rule, Tidy (deeper rule)) : Tidy (blockRest deeper) :=
  tidy_get.bind fun steps => tidy_moreBlockBranches inner steps

theorem tidy_elifBlock (inner : ∀ rule, Tidy (deeper rule)) : Tidy (elifBlock deeper (blockRest deeper)) :=
  (tidy_logical inner).bind fun _ => (tidy_block inner _ _).bind fun _ =>
    (tidy_blockRest inner).bind fun _ => tidy_pure _

theorem ends_blockRest : Ends quiet [] (blockRest deeper) := by
  intro tokens rest stop ended same behind
  cases List.map_eq_nil_iff.1 same
  have apart : ∀ kind ∈ quiet, kind ≠ .newline ∧ kind ∉ [Kind.elifWord, .elseWord] := by decide
  have other := apart _ behind
  have stays : pastNewlines rest = rest := by
    cases rest with
    | nil => rfl
    | cons token others => exact pastNewlines_cons other.1
  exact ⟨[], blockRest_done (by rw [List.nil_append, stays]; exact other.2)⟩

theorem resumes_blockRest_newlines (inner : Inner late deeper) (split : pastNewlines before = []) :
    Resumes late quiet before (blockRest deeper) where
  agrees := by
    intro line stop last more other seam ended broken branches
    have past := pastNewlines_append_line split seam.newline more
    by_cases goes : Branches more
    · apply Agree.beyond
      obtain ⟨word, rest, behind, kind⟩ : ∃ word rest, pastNewlines more = word :: rest ∧
          (word.kind = .elifWord ∨ word.kind = .elseWord) := by
        unfold Branches at goes
        cases behind : pastNewlines more with
        | nil => simp [behind, nextKind] at goes
        | cons word rest => exact ⟨word, rest, rfl, by simpa [behind, nextKind] using goes⟩
      have suffix := suffix_of_pastNewlines behind
      rcases kind with elif | otherwise
      · rw [blockRest_elif inner.tidy elif (past.trans behind)]
        exact seam.beyond (tidy_elifBlock inner.tidy) suffix
      · rw [blockRest_else otherwise (past.trans behind)]
        exact seam.beyond ((tidy_block inner.tidy _ _).bind fun body => tidy_pure _) suffix
    · have stays : ¬ Branches other := branches.resolve_left goes
      rw [blockRest_done (by rw [past]; exact goes),
        blockRest_done (by rw [pastNewlines_append_nil split]; exact stays)]
      exact .read (List.suffix_refl _)
  completes := by
    intro line word stop seam kind past
    refine ⟨[.elseWord, .openBrace, .closeBrace], by decide, ?_⟩
    intro line' last tokens rest newline ended same behind
    obtain ⟨word', block', rfl, otherwise, kinds⟩ := List.map_eq_cons_iff.1 same
    have next : pastNewlines (before ++ line' :: (word' :: block' ++ rest)) = word' :: (block' ++ rest) := by
      rw [pastNewlines_append_line split newline, List.cons_append, pastNewlines_cons (by rw [otherwise]; decide)]
    obtain ⟨body, reads⟩ := ends_block "else" true block' rest last ended kinds behind
    rw [blockRest_else otherwise next]
    exact ⟨_, outcome_bind_of_ok _ reads⟩
  waits := by
    intro line stop last more kind seam unbranched past ended expected
    rw [blockRest_done (by rw [pastNewlines_append_line split seam.newline]; exact unbranched)] at past
    exact absurd past (not_beyond_read [])

theorem resumes_blockRest (inner : Inner late deeper) (early : Early late before) :
    Resumes late quiet before (blockRest deeper) := by
  induction length : before.length using Nat.strong_induction_on generalizing before with
  | _ length ih =>
  cases split : pastNewlines before with
  | nil => exact resumes_blockRest_newlines inner split
  | cons word rest =>
    have suffix := suffix_of_pastNewlines split
    have bound := length_lt_of_pastNewlines split
    by_cases elif : word.kind = .elifWord
    · have branch : Resumes late quiet rest (elifBlock deeper (blockRest deeper)) := by
        apply (resumes_logical inner rest (early.suffix suffix)).bind (tidy_logical inner.tidy)
        · exact fun condition => (tidy_block inner.tidy _ _).bind fun body =>
            (tidy_blockRest inner.tidy).bind fun others => tidy_pure _
        · refine ⟨[.openBrace, .closeBrace], by decide, by decide, fun condition => ?_⟩
          exact (ends_block "elif" true).bind (fun body => ends_blockRest.map _) (List.Subset.refl _)
        · intro condition left suffix' _
          have front := (early.suffix suffix).suffix suffix'
          apply (resumes_block inner "elif" true front).bind (tidy_block inner.tidy _ _)
          · exact fun body => (tidy_blockRest inner.tidy).bind fun others => tidy_pure _
          · exact ⟨[], List.nil_subset _, List.Subset.refl _, fun body => ends_blockRest.map _⟩
          · intro body last suffix'' _
            have bound' := suffix'.length_le
            have bound'' := suffix''.length_le
            exact (ih last.length (by omega) (front.suffix suffix'') rfl).map (tidy_blockRest inner.tidy) _
      apply branch.of_eq suffix
      intro stop ahead ended broken
      exact blockRest_elif inner.tidy elif (pastNewlines_append_cons split ahead)
    · by_cases otherwise : word.kind = .elseWord
      · have branch := (resumes_block inner "else" true (early.suffix suffix)).map (tidy_block inner.tidy _ _)
          fun body => [(always word, body)]
        apply branch.of_eq suffix
        intro stop ahead ended broken
        exact blockRest_else otherwise (pastNewlines_append_cons split ahead)
      · apply resumes_read [] (List.suffix_refl _)
        intro stop ahead ended broken
        apply blockRest_done
        rw [pastNewlines_append_cons split]
        simp [nextKind, elif, otherwise]

theorem ends_blockBranches (condition : Node P) :
    Ends quiet [.openBrace, .closeBrace] (blockBranches deeper condition) := by
  have first : Ends quiet [.openBrace, .closeBrace] (block deeper "if" true >>= fun body =>
      blockRest deeper >>= fun others => pure ((condition, body) :: others)) :=
    (ends_block "if" true).bind (fun body => ends_blockRest.map _) (List.Subset.refl _)
  exact first

theorem resumes_blockBranches (inner : Inner late deeper) (early : Early late before) (condition : Node P) :
    Resumes late quiet before (blockBranches deeper condition) := by
  apply (resumes_block inner "if" true early).bind (tidy_block inner.tidy _ _)
  · exact fun body => tidy_get.bind fun steps => (tidy_moreBlockBranches inner.tidy steps).bind fun others =>
      tidy_pure _
  · exact ⟨[], List.nil_subset _, List.Subset.refl _, fun body =>
      ends_blockRest.map fun others => (condition, body) :: others⟩
  · intro body left suffix _
    have others := resumes_blockRest inner (early.suffix suffix)
    have branches := others.map (tidy_blockRest inner.tidy) fun others => (condition, body) :: others
    exact branches.of_eq (List.suffix_refl _) fun _ _ => rfl

theorem resumes_ifStatement (inner : Inner late deeper) (early : Early late (token :: rest)) :
    Resumes late quiet (token :: rest) (ifStatement deeper) := by
  apply Resumes.take
  apply (resumes_logical inner rest early.tail).bind (tidy_logical inner.tidy)
  · intro condition
    refine tidy_peek.bind fun next => ?_
    split
    · exact (tidy_thenBranches inner.tidy condition).bind fun _ => tidy_pure _
    · exact (tidy_blockBranches inner.tidy condition).bind fun _ => tidy_pure _
    · exact tidy_unexpected _ _
  · refine ⟨[.openBrace, .closeBrace], by decide, by decide, fun condition => ?_⟩
    intro tokens rest' stop ended same behind
    obtain ⟨opening, closing, rfl, opens, closes⟩ := List.map_eq_cons_iff.1 same
    obtain ⟨branches, reads⟩ := ends_blockBranches condition (opening :: closing) rest' stop ended same behind
    refine ⟨.mkChoice token.span.start branches, ?_⟩
    rw [outcome_peek_bind, List.cons_append, List.headD_cons, opens]
    exact outcome_bind_of_ok _ reads
  · intro condition left suffix _
    have front := early.tail.suffix suffix
    cases left with
    | nil =>
      have closed : .newline ∉ [Kind.thenWord, .openBrace] := by decide
      apply (resumes_unexpected front (.inl closed)).of_eq (List.suffix_refl [])
      intro stop ahead ended broken
      rw [List.nil_append, outcome_peek_bind, kind_headD ended]
      rcases broken.kind with next | next <;> rw [next]
    | cons next behind =>
      apply Resumes.peek
      split
      · exact (resumes_thenBranches inner front condition).map (tidy_thenBranches inner.tidy condition) _
      · exact (resumes_blockBranches inner front condition).map (tidy_blockBranches inner.tidy condition) _
      · exact resumes_unexpected front (.inl (by decide))

/-! ## Loops and assignments -/

def forEnd (deeper : Nested → Parser P (Node P)) (word : Token P) (start condition step : Node P) :
    Parser P (Node P) := do
  let _ ← expect .closeParen none
  return .mkFor word.span.start start condition step (← block deeper "for" false)

def forStep (deeper : Nested → Parser P (Node P)) (word : Token P) (start condition : Node P) :
    Parser P (Node P) := do
  let _ ← expect .terminator none
  forEnd deeper word start condition (← deeper .statement)

def forTest (deeper : Nested → Parser P (Node P)) (word : Token P) (start : Node P) : Parser P (Node P) := do
  let _ ← expect .terminator none
  forStep deeper word start (← logical deeper)

section Loops

variable {word : Token P} {start condition step : Node P}

theorem tidy_forEnd (inner : ∀ rule, Tidy (deeper rule)) : Tidy (forEnd deeper word start condition step) :=
  (tidy_expect _ _).bind fun _ => (tidy_block inner _ _).bind fun _ => tidy_pure _

theorem tidy_forStep (inner : ∀ rule, Tidy (deeper rule)) : Tidy (forStep deeper word start condition) :=
  (tidy_expect _ _).bind fun _ => (inner .statement).bind fun _ => tidy_forEnd inner

theorem tidy_forTest (inner : ∀ rule, Tidy (deeper rule)) : Tidy (forTest deeper word start) :=
  (tidy_expect _ _).bind fun _ => (tidy_logical inner).bind fun _ => tidy_forStep inner

theorem ends_forEnd : Ends quiet [.closeParen, .openBrace, .closeBrace] (forEnd deeper word start condition step) :=
  (ends_expect .closeParen none _).bind (fun _ => (ends_block "for" false).map _) (List.Subset.refl _)

theorem ends_forStep (number : Ends quiet [.number] (deeper .statement)) :
    Ends quiet [.terminator, .number, .closeParen, .openBrace, .closeBrace]
      (forStep deeper word start condition) := by
  have step : Ends quiet [.number, .closeParen, .openBrace, .closeBrace]
      (deeper .statement >>= forEnd deeper word start condition) :=
    number.bind (fun step => ends_forEnd) (by decide)
  exact (ends_expect .terminator none _).bind (fun _ => step) (List.Subset.refl _)

theorem ends_forTest (number : Ends quiet [.number] (deeper .statement)) :
    Ends quiet [.terminator, .number, .terminator, .number, .closeParen, .openBrace, .closeBrace]
      (forTest deeper word start) := by
  have test : Ends quiet [.number, .terminator, .number, .closeParen, .openBrace, .closeBrace]
      (logical deeper >>= forStep deeper word start) :=
    ends_logical.bind (fun condition => ends_forStep number) (by decide)
  exact (ends_expect .terminator none _).bind (fun _ => test) (List.Subset.refl _)

theorem resumes_forEnd (inner : Inner late deeper) (early : Early late before) :
    Resumes late quiet before (forEnd deeper word start condition step) := by
  apply resumes_expect_bind early (by decide)
  intro closing rest split
  subst split
  exact (resumes_block inner "for" false early.tail).map (tidy_block inner.tidy _ _) _

theorem resumes_forStep (inner : Inner late deeper) (early : Early late before) :
    Resumes late quiet before (forStep deeper word start condition) := by
  apply resumes_expect_bind early (by decide)
  intro separator rest split
  subst split
  apply inner.bind early.tail
  · exact fun step => tidy_forEnd inner.tidy
  · exact fun number => ⟨_, by decide, by decide, fun step => ends_forEnd⟩
  · exact fun number step left suffix => resumes_forEnd inner (early.tail.suffix suffix)

theorem resumes_forTest (inner : Inner late deeper) (number : Ends quiet [.number] (deeper .statement))
    (early : Early late before) : Resumes late quiet before (forTest deeper word start) := by
  apply resumes_expect_bind early (by decide)
  intro separator rest split
  subst split
  apply (resumes_logical inner rest early.tail).bind (tidy_logical inner.tidy)
  · exact fun condition => tidy_forStep inner.tidy
  · exact ⟨_, by decide, by decide, fun condition => ends_forStep number⟩
  · exact fun condition left suffix _ => resumes_forStep inner (early.tail.suffix suffix)

theorem resumes_forStatement (inner : Inner late deeper) (early : Early late (token :: rest)) :
    Resumes late quiet (token :: rest) (forStatement deeper) := by
  apply Resumes.take
  apply resumes_expect_bind early.tail (by decide)
  intro opening behind split
  subst split
  have whole : Resumes late quiet behind (deeper .statement >>= forTest deeper token) := by
    apply inner.bind early.tail.tail
    · exact fun start => tidy_forTest inner.tidy
    · exact fun number => ⟨_, by decide, by decide, fun start => ends_forTest number⟩
    · exact fun number start left suffix => resumes_forTest inner number (early.tail.tail.suffix suffix)
  exact whole

theorem resumes_whileStatement (inner : Inner late deeper) (early : Early late (token :: rest)) :
    Resumes late quiet (token :: rest) (whileStatement deeper) := by
  apply Resumes.take
  apply (resumes_logical inner rest early.tail).bind (tidy_logical inner.tidy)
  · exact fun condition => (tidy_block inner.tidy _ _).bind fun _ => tidy_pure _
  · exact ⟨[.openBrace, .closeBrace], by decide, by decide, fun condition => (ends_block "while" false).map _⟩
  · intro condition left suffix _
    exact (resumes_block inner "while" false (early.tail.suffix suffix)).map (tidy_block inner.tidy _ _) _

def doEnd (deeper : Nested → Parser P (Node P)) (word : Token P) (body : Node P) : Parser P (Node P) := do
  skip [.newline]
  if (← peek).kind = .whileWord then
    let _ ← take
    return .mkWhile word.span.start true (← logical deeper) body
  else
    unexpected [.whileWord, .newline] (some "A 'do' block must be followed by 'while condition'.")

theorem tidy_doEnd (inner : ∀ rule, Tidy (deeper rule)) (body : Node P) : Tidy (doEnd deeper word body) := by
  refine (tidy_skip _).bind fun skipped => tidy_peek.bind fun next => ?_
  split
  · exact tidy_take.bind fun closing => (tidy_logical inner).bind fun condition => tidy_pure _
  · exact tidy_unexpected _ _

theorem outcome_doEnd_while (body : Node P) (repeats : token.kind = .whileWord)
    (past : pastNewlines ahead = token :: rest) :
    outcome (doEnd deeper word body) stop ahead =
      outcome (logical deeper >>= fun condition => pure (.mkWhile word.span.start true condition body))
        stop rest := by
  unfold doEnd
  rw [outcome_skip_newlines_bind, past, outcome_peek_bind, List.headD_cons, if_pos repeats, outcome_take_bind]
  rfl

theorem ends_doEnd (body : Node P) : Ends quiet [.whileWord, .number] (doEnd deeper word body) := by
  intro tokens rest stop ended same behind
  obtain ⟨again, number, rfl, repeats, kinds⟩ := List.map_eq_cons_iff.1 same
  have past : pastNewlines (again :: number ++ rest) = again :: (number ++ rest) :=
    pastNewlines_cons (by rw [repeats]; decide)
  rw [outcome_doEnd_while body repeats past]
  exact ends_logical.map _ number rest stop ended kinds behind

theorem resumes_doEnd (inner : Inner late deeper) (early : Early late before) (body : Node P) :
    Resumes late quiet before (doEnd deeper word body) := by
  cases split : pastNewlines before with
  | nil =>
    have fills : [Kind.whileWord, .number] ⊆ fillers := by decide
    apply resumes_past fills
    · intro line stop more seam
      -- The newline is skipped, and whatever decides stands behind it.
      have same : outcome (doEnd deeper word body) stop (before ++ line :: more) =
          outcome (doEnd deeper word body) stop more := by
        unfold doEnd
        rw [outcome_skip_newlines_bind, outcome_skip_newlines_bind, pastNewlines_append_line split seam.newline]
      rw [same]
      exact seam.beyond (tidy_doEnd inner.tidy body) (List.suffix_refl _)
    · intro line stop tokens rest newline ended kinds behind
      obtain ⟨again, number, rfl, repeats, kinds'⟩ := List.map_eq_cons_iff.1 kinds
      have past : pastNewlines (before ++ line :: (again :: number ++ rest)) = again :: (number ++ rest) := by
        rw [pastNewlines_append_line split newline, List.cons_append, pastNewlines_cons (by rw [repeats]; decide)]
      rw [outcome_doEnd_while body repeats past]
      exact ends_logical.map _ number rest stop ended kinds' behind
    · intro last kind ended expected
      have fails : outcome (doEnd deeper word body) last before =
          .error ⟨.unexpectedEnd [.whileWord, .newline], last.span,
            some "A 'do' block must be followed by 'while condition'."⟩ := by
        unfold doEnd
        rw [outcome_skip_newlines_bind, split, outcome_peek_bind, List.headD_nil, if_neg (by rw [ended]; decide),
          outcome_unexpected ended]
        rfl
      rw [fails]
      exact waits_end (by decide) _ _ _
  | cons again rest =>
    have suffix : again :: rest <:+ before := split ▸ pastNewlines_suffix before
    have front := early.suffix suffix
    by_cases repeats : again.kind = .whileWord
    · have test := (resumes_logical inner rest front.tail).map (tidy_logical inner.tidy)
        fun condition => Node.mkWhile word.span.start true condition body
      apply test.of_eq ((List.suffix_cons again rest).trans suffix)
      intro stop ahead ended broken
      exact outcome_doEnd_while body repeats (pastNewlines_append_cons split ahead)
    · have refused : Resumes late quiet (again :: rest) (unexpected [.whileWord, .newline]
          (some "A 'do' block must be followed by 'while condition'.") : Parser P (Node P)) :=
        resumes_unexpected front (.inr (by simp))
      apply refused.of_eq suffix
      intro stop ahead ended broken
      unfold doEnd
      rw [outcome_skip_newlines_bind, pastNewlines_append_cons split, outcome_peek_bind, List.cons_append,
        List.headD_cons, if_neg repeats]

theorem resumes_doStatement (inner : Inner late deeper) (early : Early late (token :: rest)) :
    Resumes late quiet (token :: rest) (doStatement deeper) := by
  apply Resumes.take
  have whole : Resumes late quiet rest (block deeper "do-while" false >>= doEnd deeper token) := by
    apply (resumes_block inner "do-while" false early.tail).bind (tidy_block inner.tidy _ _)
    · exact tidy_doEnd inner.tidy
    · exact ⟨[.whileWord, .number], by decide, by decide, ends_doEnd⟩
    · exact fun body left suffix _ => resumes_doEnd inner (early.tail.suffix suffix) body
  exact whole

theorem resumes_letStatement (inner : Inner late deeper) (early : Early late (token :: rest)) :
    Resumes late quiet (token :: rest) (letStatement deeper) := by
  apply Resumes.take
  apply resumes_expect_bind early.tail (by decide)
  intro name behind split
  subst split
  apply resumes_expect_bind early.tail.tail (by decide)
  intro sign value split
  subst split
  exact (inner.statement value early.tail.tail.tail).map (inner.tidy .statement) _

end Loops

/-! ## Statements on every level -/

theorem resumes_statement (inner : Inner late deeper) (before : List (Token P)) (early : Early late before) :
    Resumes late quiet before (statement deeper) := by
  cases before with
  | nil =>
    apply (resumes_logical inner [] early).of_eq (List.suffix_refl _)
    intro stop ahead ended broken
    unfold statement
    rw [List.nil_append, outcome_peek_bind, kind_headD ended]
    rcases broken.kind with next | next <;> rw [next]
  | cons token rest =>
    unfold statement
    apply Resumes.peek
    split
    · exact resumes_letStatement inner early
    · exact resumes_ifStatement inner early
    · exact resumes_forStatement inner early
    · exact resumes_whileStatement inner early
    · exact resumes_doStatement inner early
    · exact resumes_block inner _ _ early
    · exact resumes_logical inner _ early

theorem ends_statement : Ends quiet [.number] (statement deeper) := by
  intro tokens rest stop ended same behind
  obtain ⟨tree, reads⟩ := ends_logical tokens rest stop ended same behind
  obtain ⟨token, rfl, kind⟩ := List.map_eq_singleton_iff.1 same
  refine ⟨tree, ?_⟩
  unfold statement
  rw [outcome_peek_bind, List.singleton_append, List.headD_cons, kind]
  exact reads

theorem inner_nested (late : P → Prop) (limit levels : Nat) : Inner late (nested limit levels) := by
  induction levels with
  | zero =>
    have refused : ∀ rule stop ahead, ∃ fault : Fault P,
        outcome (nested limit 0 rule) stop ahead = .error fault ∧
          fault.span = (ahead.headD stop).span ∧ fault.isContinuable = false := by
      intro rule stop ahead
      exact ⟨_, outcome_refuse _ _, rfl, rfl⟩
    exact {
      tidy := tidy_nested limit 0
      strict := fun stop ended => (sound_nested ended limit 0).strict
      statement := fun before early => resumes_refused early fun _ _ => refused .statement _ _
      operator := fun rule token rest early => resumes_refused early fun _ _ => refused rule _ _
      alive := .inl (refused .statement) }
  | succ levels ih =>
    exact {
      tidy := tidy_nested limit (levels + 1)
      strict := fun stop ended => (sound_nested ended limit (levels + 1)).strict
      statement := resumes_statement ih
      operator := by
        intro rule token rest early
        cases rule with
        | statement => exact resumes_statement ih _ early
        | complement =>
          exact Resumes.take ((resumes_comparison ih rest early.tail).map (tidy_comparison ih.tidy) _)
        | negation => exact Resumes.take ((resumes_factor ih rest early.tail).map (tidy_factor ih.tidy) _)
      alive := .inr ends_statement }

end Reckon.Grammar
