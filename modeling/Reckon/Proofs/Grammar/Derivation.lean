import Reckon.Proofs.Grammar.Completeness

set_option autoImplicit false

/-!
# Parsing is deriving

With levels enough the parser accepts the programs of the grammar and no others, and no program has
two trees.
-/

namespace Reckon.Parser

variable {P α : Type} {stop : Token P} {ahead : List (Token P)}

theorem parse_append_cons [Inhabited P] (parser : Parser P α) (after : List (Token P))
    (text : ∀ token ∈ ahead, token.kind ≠ .endOfText) (ended : stop.kind = .endOfText) :
    parse parser (ahead ++ stop :: after) = (outcome parser stop ahead).map Prod.fst := by
  have before : beforeEnd (ahead ++ stop :: after) = ahead := by
    rw [beforeEnd, List.takeWhile_append_of_pos (by simpa using text)]
    simp [ended]
  have last : endToken (ahead ++ stop :: after) = stop := by
    rw [endToken, List.dropWhile_append_of_pos (by simpa using text)]
    simp [ended]
  rw [parse_eq, before, last]

theorem parse_append [Inhabited P] (parser : Parser P α) (text : ∀ token ∈ ahead, token.kind ≠ .endOfText)
    (ended : stop.kind = .endOfText) :
    parse parser (ahead ++ [stop]) = (outcome parser stop ahead).map Prod.fst :=
  parse_append_cons parser [] text ended

theorem parse_lastEnd [Inhabited P] (parser : Parser P α) (text : ∀ token ∈ ahead, token.kind ≠ .endOfText) :
    parse parser (ahead ++ [lastEnd ahead]) = parse parser ahead := by
  have last : endToken ahead = lastEnd ahead := by
    rw [endToken_eq, List.dropWhile_eq_nil_iff.2 (by simpa using text)]
    rfl
  rw [parse_append parser text rfl, parse_eq, beforeEnd_eq text, last]

end Reckon.Parser

namespace Reckon.Grammar

open Reckon.Parser

variable {P : Type} {stop : Token P} {ahead rest : List (Token P)} {tree : Node P}

theorem outcome_program (limit : Nat) :
    outcome (program limit) stop ahead =
      (outcome (sequence (nested limit limit) .endOfText) stop ahead).map fun read =>
        (scopeOf "global" false (read.2.headD stop) read.1, read.2) := by
  unfold program
  cases read : outcome (sequence (nested limit limit) .endOfText) stop ahead with
  | error fault =>
    have fails : outcome (statements (nested limit limit) .endOfText) stop ahead = .error fault := by
      rw [outcome_statements, read]
      rfl
    exact outcome_bind_of_error _ fails
  | ok pair =>
    have reads : outcome (statements (nested limit limit) .endOfText) stop ahead =
        .ok (filled (pair.2.headD stop) pair.1, pair.2) := by
      rw [outcome_statements, read]
      rfl
    exact outcome_bind_of_ok _ reads

theorem Reads.closes {closing : Kind} {statements : List (Node P)} {before after : List (Token P)}
    (reads : Reads (.sequence closing statements) before after) : nextKind after = closing := by
  generalize same : Phrase.sequence closing statements = phrase at reads
  induction reads generalizing statements with
  | finished ends | final _ ends =>
    cases same
    exact ends
  | separator _ _ ih | hidden _ _ _ _ ih | shown _ _ _ _ ih =>
    cases same
    exact ih rfl
  | _ => cases same

theorem outcome_sequence_ends (text : ∀ token ∈ ahead, token.kind ≠ .endOfText) (ended : stop.kind = .endOfText)
    {limit levels : Nat} {statements : List (Node P)}
    (reads : outcome (sequence (nested limit levels) .endOfText) stop ahead = .ok (statements, rest)) :
    Reads (.sequence .endOfText statements) ahead rest ∧ rest = [] := by
  have phrase := reads_sequence ended (sound_nested ended limit levels) reads
  refine ⟨phrase, ?_⟩
  have closes := phrase.closes
  have inside := ((tidy_statementList (tidy_nested limit levels) .endOfText ahead).suffix reads).subset
  cases rest with
  | nil => rfl
  | cons token behind => exact absurd closes (text token (inside (by simp)))

/-- Whether the tree of a phrase shows its value, given that what stands to the left of it does. -/
def Phrase.Shows (phrase : Phrase P) : Prop :=
  match phrase with
  | .expression _ tree | .statement tree | .block _ _ tree => tree.produces = true
  | .operands _ left tree => left.produces = true → tree.produces = true
  | _ => True

theorem Reads.shows {phrase : Phrase P} {before after : List (Token P)} (reads : Reads phrase before after) :
    phrase.Shows := by
  induction reads with
  | group _ _ _ ih => exact ih
  | fold _ _ _ first others => exact others first
  | noOperand => exact id
  | operand _ _ _ _ others => exact fun _ => others rfl
  | expression _ ih => exact ih
  | bareBlock _ ih => exact ih
  | _ => first | rfl | trivial

theorem ofTokens_derives [Inhabited P] {limit : Nat} (text : ∀ token ∈ ahead, token.kind ≠ .endOfText)
    (ended : stop.kind = .endOfText) (room : (ahead ++ [stop]).length ≤ limit) :
    (∀ tree, Node.ofTokens limit (ahead ++ [stop]) = .ok tree ↔ Derives (ahead ++ [stop]) tree) ∧
      (∀ first second, Derives (ahead ++ [stop]) first → Derives (ahead ++ [stop]) second → first = second) ∧
      -- Only a semicolon hides a value.
      ∀ {before after : List (Token P)} {statement : Node P},
        Reads (.statement statement) before after → statement.produces = true := by
  have accepts : ∀ tree, Node.ofTokens limit (ahead ++ [stop]) = .ok tree ↔ Derives (ahead ++ [stop]) tree := by
    intro tree
    unfold Node.ofTokens
    rw [parse_append _ text ended, outcome_program]
    constructor
    · intro parsed
      cases read : outcome (sequence (nested limit limit) .endOfText) stop ahead with
      | error fault =>
        rw [read] at parsed
        cases parsed
      | ok pair =>
        obtain ⟨statements, rest⟩ := pair
        obtain ⟨phrase, rfl⟩ := outcome_sequence_ends text ended read
        rw [read] at parsed
        cases parsed
        exact ⟨ahead, stop, statements, rfl, ended, phrase, rfl⟩
    · rintro ⟨before, last, statements, same, _, phrase, rfl⟩
      obtain ⟨rfl, sameLast⟩ := List.append_inj' same rfl
      cases sameLast
      rw [List.length_append, List.length_singleton] at room
      have read := phrase.parsed ended limit limit (by simp) room
      rw [read]
      rfl
  refine ⟨accepts, ?_, fun reads => reads.shows⟩
  intro first second one two
  have same := ((accepts first).2 one).symm.trans ((accepts second).2 two)
  cases same
  rfl

def bare (kind : Kind) : Token Unit := ⟨kind, none, .point ()⟩

/-- The `else` behind a block goes to the choice with blocks, also inside a choice with `then`. -/
theorem derives_else_inside :
    let ahead := [.ifWord, .identifier, .thenWord, .ifWord, .identifier, .openBrace, .closeBrace, .newline,
      .elseWord, .openBrace, .closeBrace].map bare
    let inner := Node.mkChoice () [(.mkRetrieval (bare .identifier), scopeOf "if" true (bare .closeBrace) []),
      (always (bare .elseWord), scopeOf "else" true (bare .closeBrace) [])]
    (∀ token ∈ ahead, token.kind ≠ .endOfText) ∧ (bare .endOfText).kind = .endOfText ∧
      (ahead ++ [bare .endOfText]).length ≤ 12 ∧ Derives (ahead ++ [bare .endOfText])
        (scopeOf "global" false (bare .endOfText) [.mkChoice () [(.mkRetrieval (bare .identifier), inner)]]) := by
  refine ⟨by decide, rfl, by decide, ?_⟩
  exact ((ofTokens_derives (by decide) rfl (Nat.le_refl _)).1 _).1 rfl

end Reckon.Grammar
