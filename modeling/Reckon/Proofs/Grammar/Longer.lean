import Reckon.Proofs.Grammar.Continued
import Reckon.Proofs.Grammar.Derivation

set_option autoImplicit false

/-!
# Reading on behind a text

What a rule reads from a text that ends it reads as well when another line stands behind it, unless
that line begins with a further branch.
-/

namespace Reckon.Grammar

open Reckon.Parser

variable {P α β : Type} {token stop line last : Token P} {ahead more rest : List (Token P)}
  {deeper : Nested → Parser P (Node P)}

/-- The end of a text, and another line there that is no further branch. -/
structure Joint (stop line : Token P) (more : List (Token P)) (last : Token P) : Prop where
  ended : stop.kind = .endOfText
  newline : line.kind = .newline
  unbranched : ¬ Branches more
  final : last.kind = .endOfText

def Carries (stop line : Token P) (more : List (Token P)) (last : Token P) (parser : Parser P α)
    (ahead : List (Token P)) : Prop :=
  ∀ value rest, outcome parser stop ahead = .ok (value, rest) →
    outcome parser last (ahead ++ line :: more) = .ok (value, rest ++ line :: more)

theorem carries_pure (value : α) : Carries stop line more last (pure value) ahead := by
  intro value rest reads
  cases reads
  rfl

theorem carries_of_error {parser : Parser P α} {fault : Fault P}
    (fails : outcome parser stop ahead = .error fault) : Carries stop line more last parser ahead := by
  intro value rest reads
  cases fails.symm.trans reads

theorem Carries.bind {parser : Parser P α} {next : α → Parser P β} (first : Carries stop line more last parser ahead)
    (second : ∀ value rest, outcome parser stop ahead = .ok (value, rest) →
      Carries stop line more last (next value) rest) :
    Carries stop line more last (parser >>= next) ahead := by
  intro value rest reads
  obtain ⟨one, middle, reads, others⟩ := outcome_bind_eq_ok.1 reads
  exact (outcome_bind_of_ok next (first one middle reads)).trans (second one middle reads value rest others)

theorem Carries.of_eq {parser other : Parser P α} {inner : List (Token P)}
    (carries : Carries stop line more last other inner) (here : outcome parser stop ahead = outcome other stop inner)
    (there : outcome parser last (ahead ++ line :: more) = outcome other last (inner ++ line :: more)) :
    Carries stop line more last parser ahead := by
  intro value rest reads
  exact there.trans (carries value rest (here.symm.trans reads))

theorem Carries.peek {next : Token P → Parser P α} (carries : Carries stop line more last (next token) (token :: ahead)) :
    Carries stop line more last (Parser.peek >>= next) (token :: ahead) :=
  carries.of_eq rfl rfl

theorem Carries.take {next : Token P → Parser P α} (carries : Carries stop line more last (next token) ahead) :
    Carries stop line more last (Parser.take >>= next) (token :: ahead) :=
  carries.of_eq rfl rfl

theorem carries_unexpected (joint : Joint stop line more last) (expected : List Kind) (help : Option String) :
    Carries stop line more last (unexpected expected help : Parser P α) ahead :=
  carries_of_error (outcome_unexpected joint.ended expected help)

theorem carries_expect (joint : Joint stop line more last) {kind : Kind} (text : kind ≠ .endOfText)
    (help : Option String) : Carries stop line more last (expect kind help) ahead := by
  intro token rest reads
  obtain ⟨same, rfl⟩ := (outcome_expect_eq_ok joint.ended text).1 reads
  exact outcome_expect_cons joint.final same help

section Operands

variable {operators : List Kind} {operand : Parser P (Node P)} {left : Node P}

theorem nextKind_line (joint : Joint stop line more last) {kinds : List Kind} (apart : .newline ∉ kinds)
    (ends : nextKind ahead ∉ kinds) : nextKind (ahead ++ line :: more) ∉ kinds := by
  cases ahead with
  | nil =>
    change line.kind ∉ kinds
    rw [joint.newline]
    exact apart
  | cons token behind => exact ends

theorem carries_chain (joint : Joint stop line more last) (apart : ∀ kind ∈ .newline :: quiet, kind ∉ operators)
    (tidy : Tidy operand) (carries : ∀ ahead, Carries stop line more last operand ahead) :
    Carries stop line more last (chain operators operand left) ahead := by
  have text : .endOfText ∉ operators := apart _ (by decide)
  induction length : ahead.length using Nat.strong_induction_on generalizing ahead left with
  | _ length ih =>
  by_cases ends : nextKind ahead ∈ operators
  · cases ahead with
    | nil => exact absurd ends text
    | cons operator behind =>
      have step : Carries stop line more last
          (operand >>= fun right => chain operators operand (.mkBinary left operator right)) behind := by
        refine (carries behind).bind fun right rest reads => ?_
        have shorter := (tidy.suffix reads).length_le
        simp only [List.length_cons] at length
        exact ih rest.length (by omega) rfl
      exact step.of_eq (chain_step joint.ended text tidy ends) (chain_step joint.final text tidy ends)
  · refine (carries_pure left).of_eq (chain_done joint.ended ends) (chain_done joint.final ?_)
    exact nextKind_line joint (apart _ (by simp)) ends

theorem carries_operands (joint : Joint stop line more last) (apart : ∀ kind ∈ .newline :: quiet, kind ∉ operators)
    (tidy : Tidy operand) (carries : ∀ ahead, Carries stop line more last operand ahead) (ahead : List (Token P)) :
    Carries stop line more last (operands operators operand) ahead :=
  (carries ahead).bind fun _ _ _ => carries_chain joint apart tidy carries

end Operands

structure Carried (stop line : Token P) (more : List (Token P)) (last : Token P)
    (deeper : Nested → Parser P (Node P)) : Prop where
  joint : Joint stop line more last
  here : Sound stop deeper
  there : Sound last deeper
  carries : ∀ rule token rest, Carries stop line more last (deeper rule) (token :: rest)

section Rules

variable (carried : Carried stop line more last deeper)

include carried

theorem Carried.statement (ahead : List (Token P)) : Carries stop line more last (deeper .statement) ahead := by
  cases ahead with
  | nil =>
    intro tree rest reads
    exact absurd (carried.here.strict reads) (Nat.not_lt_zero _)
  | cons token behind => exact carried.carries .statement token behind

theorem carries_factor (ahead : List (Token P)) : Carries stop line more last (factor deeper) ahead := by
  cases ahead with
  | nil =>
    apply carries_of_error
    unfold factor
    rw [outcome_peek_bind, kind_headD carried.joint.ended]
    exact outcome_unexpected carried.joint.ended _ _
  | cons token behind =>
    unfold factor
    apply Carries.peek
    split
    · exact Carries.take (carries_pure _)
    · exact Carries.take (carries_pure _)
    · exact Carries.take (carries_pure _)
    · exact Carries.take ((carried.statement behind).bind fun inner rest _ =>
        (carries_expect carried.joint (by decide) _).bind fun _ _ _ => carries_pure inner)
    · exact carried.carries .negation token behind
    · exact carries_unexpected carried.joint _ _

theorem carries_sum (ahead : List (Token P)) : Carries stop line more last (sum deeper) ahead := by
  have factors := tidy_factor carried.here.tidy
  have powers := carries_operands carried.joint (operators_apart .power) factors (carries_factor carried)
  have terms := carries_operands carried.joint (operators_apart .term) (tidy_operands factors) powers
  exact carries_operands carried.joint (operators_apart .sum) (tidy_operands (tidy_operands factors)) terms ahead

theorem carries_comparison (ahead : List (Token P)) : Carries stop line more last (comparison deeper) ahead := by
  have sums : Tidy (sum deeper) :=
    tidy_operands (tidy_operands (tidy_operands (tidy_factor carried.here.tidy)))
  have plain := carries_operands carried.joint (operators_apart .comparison) sums (carries_sum carried) ahead
  unfold comparison
  cases ahead with
  | nil =>
    have stops : (([] : List (Token P)).headD stop).kind ≠ .not := by simp [carried.joint.ended]
    have newline : (([] ++ line :: more).headD last).kind ≠ .not := by simp [carried.joint.newline]
    refine plain.of_eq ?_ ?_
    · rw [outcome_peek_bind, if_neg stops]
      rfl
    · rw [outcome_peek_bind, if_neg newline]
      rfl
  | cons token behind =>
    apply Carries.peek
    split
    · exact carried.carries .complement token behind
    · exact plain

theorem carries_logical (ahead : List (Token P)) : Carries stop line more last (logical deeper) ahead :=
  carries_operands carried.joint (operators_apart .logical) (tidy_comparison carried.here.tidy)
    (carries_comparison carried) ahead

omit carried in
theorem carries_statementEnd (joint : Joint stop line more last) (closing : Kind) :
    Carries stop line more last (statementEnd closing) (token :: ahead) := by
  intro hidden rest reads
  rw [outcome_statementEnd_cons joint.ended] at reads
  rw [List.cons_append, outcome_statementEnd_cons joint.final]
  by_cases hides : token.kind = .terminator
  · rw [if_pos hides] at reads ⊢
    cases reads
    rfl
  · rw [if_neg hides] at reads ⊢
    by_cases shown : token.kind = .newline
    · rw [if_pos shown] at reads ⊢
      cases reads
      rfl
    · rw [if_neg shown] at reads ⊢
      by_cases closes : token.kind = closing
      · rw [if_pos closes] at reads ⊢
        cases reads
        rfl
      · rw [if_neg closes] at reads
        cases reads

omit carried in
theorem carries_statementEnd_closeBrace (joint : Joint stop line more last) (ahead : List (Token P)) :
    Carries stop line more last (statementEnd .closeBrace) ahead := by
  cases ahead with
  | nil => exact carries_of_error (outcome_statementEnd joint.ended .closeBrace)
  | cons token behind => exact carries_statementEnd joint .closeBrace

theorem carries_sequence (ahead : List (Token P)) :
    Carries stop line more last (sequence deeper .closeBrace) ahead := by
  induction length : ahead.length using Nat.strong_induction_on generalizing ahead with
  | _ length ih =>
  cases split : pastSeparators ahead with
  | nil => exact carries_of_error (sequence_over carried.joint.ended (by simp [split, nextKind]) (by simp [split, nextKind]))
  | cons token behind =>
    have longer := pastSeparators_append_cons split (line :: more)
    have bound := (pastSeparators_suffix ahead).length_le
    by_cases closes : token.kind = .closeBrace
    · intro list rest reads
      rw [sequence_closed carried.joint.ended split closes] at reads
      cases reads
      exact sequence_closed carried.joint.final longer closes
    · by_cases finished : token.kind = .endOfText
      · exact carries_of_error (sequence_over carried.joint.ended (by rw [split]; exact closes)
          (by rw [split]; exact finished))
      · have one : Carries stop line more last
            (oneStatement deeper .closeBrace (sequence deeper .closeBrace)) (token :: behind) := by
          refine (carried.statement _).bind fun statement left reads => ?_
          have strict := carried.here.strict reads
          refine (carries_statementEnd_closeBrace carried.joint left).bind fun hidden left' ends => ?_
          have shorter := ((tidy_statementEnd _).suffix ends).length_le
          rw [split] at bound
          exact (ih left'.length (by omega) left' rfl).bind fun _ _ _ => carries_pure _
        exact one.of_eq (sequence_cons carried.joint.ended carried.here.strict split closes finished)
          (sequence_cons carried.joint.final carried.there.strict longer closes finished)

omit carried in
theorem carries_blockEnd (joint : Joint stop line more last) (name : String) (boundary : Bool) (list : List (Node P)) :
    Carries stop line more last (blockEnd name boundary list) ahead := by
  cases ahead with
  | nil =>
    have fails : outcome (expect .closeBrace none) stop [] = .error _ := outcome_expect joint.ended .closeBrace none
    exact carries_of_error ((outcome_peek_bind _).trans (outcome_bind_of_error _ fails))
  | cons token behind =>
    exact Carries.peek ((carries_expect joint (by decide) _).bind fun _ _ _ => carries_pure _)

theorem carries_block (name : String) (boundary : Bool) (ahead : List (Token P)) :
    Carries stop line more last (block deeper name boundary) ahead := by
  have whole : Carries stop line more last
      (expect .openBrace none >>= fun _ => sequence deeper .closeBrace >>= blockEnd name boundary) ahead :=
    (carries_expect carried.joint (by decide) _).bind fun _ rest _ =>
      (carries_sequence carried rest).bind fun list _ _ => carries_blockEnd carried.joint name boundary list
  exact whole.of_eq (outcome_block_sequence name boundary) (outcome_block_sequence name boundary)

theorem carries_thenRest (ahead : List (Token P)) : Carries stop line more last (thenRest deeper) ahead := by
  induction length : ahead.length using Nat.strong_induction_on generalizing ahead with
  | _ length ih =>
  by_cases ends : nextKind ahead ∈ [.elifWord, .elseWord]
  · cases ahead with
    | nil => simp [nextKind] at ends
    | cons word behind =>
      have kinds : word.kind = .elifWord ∨ word.kind = .elseWord := by simpa [nextKind] using ends
      rcases kinds with kind | kind
      · have step : Carries stop line more last (elifThen deeper (thenRest deeper)) behind := by
          refine (carries_logical carried behind).bind fun condition first one => ?_
          have afterTest := ((tidy_logical carried.here.tidy).suffix one).length_le
          refine (carries_expect carried.joint (by decide) _).bind fun word second two => ?_
          have afterWord := ((tidy_expect _ _).suffix two).length_le
          refine (carried.statement second).bind fun body third three => ?_
          have afterBody := ((carried.here.tidy .statement).suffix three).length_le
          simp only [List.length_cons] at length
          exact (ih third.length (by omega) third rfl).bind fun _ _ _ => carries_pure _
        exact step.of_eq (thenRest_elif carried.joint.ended carried.here.tidy kind)
          (thenRest_elif carried.joint.final carried.here.tidy kind)
      · have step : Carries stop line more last
            (deeper .statement >>= fun body => pure [(always word, body)]) behind :=
          (carried.statement behind).bind fun body _ _ => carries_pure _
        exact step.of_eq (thenRest_else carried.joint.ended kind) (thenRest_else carried.joint.final kind)
  · refine (carries_pure []).of_eq (thenRest_done carried.joint.ended ends) (thenRest_done carried.joint.final ?_)
    exact nextKind_line carried.joint (by decide) ends

omit carried in
theorem nextKind_pastNewlines_line (joint : Joint stop line more last)
    (ends : nextKind (pastNewlines ahead) ∉ [.elifWord, .elseWord]) :
    nextKind (pastNewlines (ahead ++ line :: more)) ∉ [.elifWord, .elseWord] := by
  cases split : pastNewlines ahead with
  | nil =>
    rw [pastNewlines_append_line split joint.newline]
    exact joint.unbranched
  | cons token behind =>
    rw [split] at ends
    rw [pastNewlines_append_cons split]
    exact ends

theorem carries_blockRest (ahead : List (Token P)) : Carries stop line more last (blockRest deeper) ahead := by
  induction length : ahead.length using Nat.strong_induction_on generalizing ahead with
  | _ length ih =>
  by_cases ends : nextKind (pastNewlines ahead) ∈ [.elifWord, .elseWord]
  · cases split : pastNewlines ahead with
    | nil => simp [split, nextKind] at ends
    | cons word behind =>
      have longer := pastNewlines_append_cons split (line :: more)
      have shorter := length_lt_of_pastNewlines split
      have kinds : word.kind = .elifWord ∨ word.kind = .elseWord := by simpa [split, nextKind] using ends
      rcases kinds with kind | kind
      · have step : Carries stop line more last (elifBlock deeper (blockRest deeper)) behind := by
          refine (carries_logical carried behind).bind fun condition first one => ?_
          have afterTest := ((tidy_logical carried.here.tidy).suffix one).length_le
          refine (carries_block carried _ _ first).bind fun body second two => ?_
          have afterBody := ((tidy_block carried.here.tidy _ _).suffix two).length_le
          exact (ih second.length (by omega) second rfl).bind fun _ _ _ => carries_pure _
        exact step.of_eq (blockRest_elif carried.here.tidy kind split)
          (blockRest_elif carried.here.tidy kind longer)
      · have step : Carries stop line more last
            (block deeper "else" true >>= fun body => pure [(always word, body)]) behind :=
          (carries_block carried _ _ behind).bind fun body _ _ => carries_pure _
        exact step.of_eq (blockRest_else kind split) (blockRest_else kind longer)
  · exact (carries_pure []).of_eq (blockRest_done ends) (blockRest_done (nextKind_pastNewlines_line carried.joint ends))

theorem carries_ifStatement (ahead : List (Token P)) :
    Carries stop line more last (ifStatement deeper) (token :: ahead) := by
  apply Carries.take
  refine (carries_logical carried ahead).bind fun condition rest _ => ?_
  cases rest with
  | nil =>
    apply carries_of_error
    rw [outcome_peek_bind, kind_headD carried.joint.ended]
    exact outcome_unexpected carried.joint.ended _ _
  | cons next behind =>
    apply Carries.peek
    split
    · have branches : Carries stop line more last (thenBranches deeper condition) (next :: behind) :=
        Carries.take ((carried.statement behind).bind fun body left _ =>
          (carries_thenRest carried left).bind fun _ _ _ => carries_pure _)
      exact branches.bind fun _ _ _ => carries_pure _
    · have branches : Carries stop line more last (blockBranches deeper condition) (next :: behind) :=
        (carries_block carried _ _ _).bind fun body left _ =>
          (carries_blockRest carried left).bind fun _ _ _ => carries_pure _
      exact branches.bind fun _ _ _ => carries_pure _
    · exact carries_unexpected carried.joint _ _

theorem carries_letStatement (ahead : List (Token P)) :
    Carries stop line more last (letStatement deeper) (token :: ahead) :=
  Carries.take ((carries_expect carried.joint (by decide) _).bind fun name _ _ =>
    (carries_expect carried.joint (by decide) _).bind fun _ rest _ =>
      (carried.statement rest).bind fun _ _ _ => carries_pure _)

theorem carries_forStatement (ahead : List (Token P)) :
    Carries stop line more last (forStatement deeper) (token :: ahead) :=
  Carries.take ((carries_expect carried.joint (by decide) _).bind fun _ first _ =>
    (carried.statement first).bind fun start _ _ =>
      (carries_expect carried.joint (by decide) _).bind fun _ second _ =>
        (carries_logical carried second).bind fun condition _ _ =>
          (carries_expect carried.joint (by decide) _).bind fun _ third _ =>
            (carried.statement third).bind fun step _ _ =>
              (carries_expect carried.joint (by decide) _).bind fun _ fourth _ =>
                (carries_block carried _ _ fourth).bind fun _ _ _ => carries_pure _)

theorem carries_whileStatement (ahead : List (Token P)) :
    Carries stop line more last (whileStatement deeper) (token :: ahead) :=
  Carries.take ((carries_logical carried ahead).bind fun _ rest _ =>
    (carries_block carried _ _ rest).bind fun _ _ _ => carries_pure _)

theorem carries_doStatement (ahead : List (Token P)) :
    Carries stop line more last (doStatement deeper) (token :: ahead) := by
  apply Carries.take
  refine (carries_block carried _ _ ahead).bind fun body rest _ => ?_
  cases split : pastNewlines rest with
  | nil =>
    apply carries_of_error
    rw [outcome_skip_newlines_bind, split, outcome_peek_bind, kind_headD carried.joint.ended]
    exact outcome_unexpected carried.joint.ended _ _
  | cons next behind =>
    refine Carries.of_eq ?_ ((outcome_skip_newlines_bind _).trans (by rw [split]))
      ((outcome_skip_newlines_bind _).trans (by rw [pastNewlines_append_cons split]))
    apply Carries.peek
    split
    · exact Carries.take ((carries_logical carried behind).bind fun _ _ _ => carries_pure _)
    · exact carries_unexpected carried.joint _ _

theorem carries_statement (ahead : List (Token P)) :
    Carries stop line more last (Grammar.statement deeper) (token :: ahead) := by
  apply Carries.peek
  split
  · exact carries_letStatement carried ahead
  · exact carries_ifStatement carried ahead
  · exact carries_forStatement carried ahead
  · exact carries_whileStatement carried ahead
  · exact carries_doStatement carried ahead
  · exact carries_block carried _ _ _
  · exact carries_logical carried _

end Rules

theorem carried_nested (joint : Joint stop line more last) (limit levels : Nat) :
    Carried stop line more last (nested limit levels) := by
  refine ⟨joint, sound_nested joint.ended limit levels, sound_nested joint.final limit levels, ?_⟩
  induction levels with
  | zero => exact fun rule token rest => carries_of_error (outcome_refuse _ _)
  | succ levels ih =>
    have carried : Carried stop line more last (nested limit levels) :=
      ⟨joint, sound_nested joint.ended limit levels, sound_nested joint.final limit levels, ih⟩
    intro rule token rest
    cases rule with
    | statement => exact carries_statement carried rest
    | complement =>
      exact Carries.take ((carries_comparison carried rest).bind fun _ _ _ => carries_pure _)
    | negation =>
      exact Carries.take ((carries_factor carried rest).bind fun _ _ _ => carries_pure _)

theorem unbranched (ended : stop.kind = .endOfText) (sound : Sound stop deeper) {list : List (Node P)}
    (reads : outcome (sequence deeper .endOfText) stop ahead = .ok (list, rest)) : ¬ Branches ahead := by
  intro branches
  obtain ⟨word, behind, split, kind⟩ : ∃ word behind, pastNewlines ahead = word :: behind ∧
      word.kind ∈ [.elifWord, .elseWord] := by
    unfold Branches at branches
    cases split : pastNewlines ahead with
    | nil => simp [split, nextKind] at branches
    | cons word behind => exact ⟨word, behind, rfl, by simpa [split, nextKind] using branches⟩
  have apart : ∀ kind ∈ [Kind.elifWord, .elseWord],
      kind ∉ [.newline, .terminator, .endOfText] ∧ kind ∉ statementStarters := by decide
  obtain ⟨other, none⟩ := apart _ kind
  simp only [List.mem_cons, List.not_mem_nil, or_false, not_or] at other
  obtain ⟨gap, blank, whole⟩ := exists_gap ahead
  have past : pastSeparators ahead = word :: behind := by
    have skipped : pastSeparators (gap ++ word :: behind) = pastSeparators (word :: behind) := by
      apply List.dropWhile_append_of_pos
      intro token member
      simp [blank token member]
    rw [whole, split, skipped]
    exact pastSeparators_eq other.1 other.2.1
  rw [sequence_cons ended sound.strict past other.2.2 other.2.2] at reads
  obtain ⟨tree, left, first, _⟩ := outcome_bind_eq_ok.1 reads
  exact none (sound.statement first).starts

theorem sequence_ne_nil (ended : stop.kind = .endOfText) (sound : Sound stop deeper) {list : List (Node P)}
    (text : ∀ token ∈ ahead, token.kind ≠ .endOfText) (member : token ∈ ahead)
    (content : token.kind ∉ [.newline, .terminator])
    (reads : outcome (sequence deeper .endOfText) stop ahead = .ok (list, rest)) : list ≠ [] := by
  cases split : pastSeparators ahead with
  | nil =>
    have separates := List.dropWhile_eq_nil_iff.1 split token member
    exact absurd (List.contains_iff_mem.1 separates) content
  | cons first behind =>
    have suffix : first :: behind <:+ ahead := split ▸ pastSeparators_suffix ahead
    have inside : first.kind ≠ .endOfText := text first (suffix.subset (by simp))
    rw [sequence_cons ended sound.strict split inside inside] at reads
    obtain ⟨tree, left, _, afterTree⟩ := outcome_bind_eq_ok.1 reads
    obtain ⟨hidden, left', _, afterEnd⟩ := outcome_bind_eq_ok.1 afterTree
    obtain ⟨others, last, _, done⟩ := outcome_bind_eq_ok.1 afterEnd
    cases done
    exact List.cons_ne_nil _ _

theorem outcome_bind_pure (parser : Parser P α) (f : α → β) :
    outcome (parser >>= fun value => pure (f value)) stop ahead =
      (outcome parser stop ahead).map fun read => (f read.1, read.2) := by
  cases read : outcome parser stop ahead with
  | error fault => exact outcome_bind_of_error _ read
  | ok pair => exact outcome_bind_of_ok _ read

theorem sequence_append (carried : Carried stop line more last deeper) {list : List (Node P)}
    (text : ∀ token ∈ ahead, token.kind ≠ .endOfText)
    (reads : outcome (sequence deeper .endOfText) stop ahead = .ok (list, rest)) :
    outcome (sequence deeper .endOfText) last (ahead ++ line :: more) =
      (outcome (sequence deeper .endOfText) last more).map fun read => (list ++ read.1, read.2) := by
  obtain ⟨joint, here, there, _⟩ := id carried
  induction length : ahead.length using Nat.strong_induction_on generalizing ahead list rest with
  | _ length ih =>
  cases split : pastSeparators ahead with
  | nil =>
    rw [sequence_done joint.ended (by simp [split, nextKind])] at reads
    cases reads
    have past : pastSeparators (ahead ++ line :: more) = pastSeparators more := by
      rw [pastSeparators_append_nil split, pastSeparators_cons (.inl joint.newline)]
    rw [sequence_past joint.final there.strict past]
    cases outcome (sequence deeper .endOfText) last more <;> rfl
  | cons token behind =>
    have suffix : token :: behind <:+ ahead := split ▸ pastSeparators_suffix ahead
    have inside : token.kind ≠ .endOfText := text token (suffix.subset (by simp))
    have longer := pastSeparators_append_cons split (line :: more)
    rw [sequence_cons joint.ended here.strict split inside inside] at reads
    rw [sequence_cons joint.final there.strict longer inside inside]
    obtain ⟨tree, left, first, afterTree⟩ := outcome_bind_eq_ok.1 reads
    obtain ⟨hidden, left', ends, afterEnd⟩ := outcome_bind_eq_ok.1 afterTree
    rw [outcome_bind_pure] at afterEnd
    refine (outcome_bind_of_ok _ (carried.statement _ tree left first)).trans ?_
    cases left with
    | nil =>
      -- The last statement ends with the text, and with the newline once there are more.
      have final : outcome (statementEnd .endOfText) stop [] = .ok (false, []) := outcome_statementEnd joint.ended _
      cases final.symm.trans ends
      have empty : outcome (sequence deeper .endOfText) stop [] = .ok ([], []) := sequence_done joint.ended rfl
      rw [empty] at afterEnd
      cases afterEnd
      have taken : outcome (statementEnd .endOfText) last ([] ++ line :: more) = .ok (false, more) := by
        rw [List.nil_append, outcome_statementEnd_cons joint.final, joint.newline]
        rfl
      rw [outcome_bind_of_ok _ taken, outcome_bind_pure]
      rfl
    | cons next behind' =>
      have strict := here.strict first
      have bound := suffix.length_le
      have shorter := (tidy_statementEnd _).suffix ends
      have within : left' <:+ ahead := (shorter.trans ((here.tidy .statement).suffix first)).trans suffix
      have length' := shorter.length_le
      rw [outcome_bind_of_ok _ (carries_statementEnd joint .endOfText hidden left' ends), outcome_bind_pure]
      cases others : outcome (sequence deeper .endOfText) stop left' with
      | error fault =>
        rw [others] at afterEnd
        cases afterEnd
      | ok pair =>
        rw [others] at afterEnd
        cases afterEnd
        rw [ih left'.length (by omega) (fun token member => text token (within.subset member)) others rfl]
        cases outcome (sequence deeper .endOfText) last more <;> rfl

end Reckon.Grammar
