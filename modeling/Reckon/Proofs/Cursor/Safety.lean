import Reckon.Proofs.Cursor.Rules
import Reckon.Proofs.Grammar.Derivation

set_option autoImplicit false

/-!
# The cursor is safe

With fuel for the tokens and for the levels, no machine crashes: every index is that of a token, the
levels stay between zero and the limit, and every rule leaves the level that it began on. What comes
out is what the parser of lists says, which looks no further than the first end of the text.
-/

namespace Reckon.Cursor

open Reckon.Parser Reckon.Grammar

variable {P α : Type} [Inhabited P] {tokens : List (Token P)} {limit fuel : Nat}

/-- The rules with what they are given. -/
inductive Rule (P : Type) where
  | statements (inBlock : Bool)
  | statement
  | letStatement
  | ifStatement
  | thenChain (start : P) (condition : Node P)
  | blockChain (start : P) (condition : Node P)
  | forStatement
  | whileStatement
  | doStatement
  | block (name : String) (boundary : Bool)
  | logical
  | comparison
  | complement
  | sum
  | term
  | power
  | factor
  | negation

def silent (machine : Machine P α) : Machine P Unit := do
  let _ ← machine

namespace Rule

def entry? : Rule P → Option Kind
  | letStatement => some .letWord
  | ifStatement => some .ifWord
  | thenChain .. => some .thenWord
  | forStatement => some .forWord
  | whileStatement => some .whileWord
  | doStatement => some .doWord
  | complement => some .not
  | negation => some .minus
  | _ => none

def machine (fuel : Nat) : Rule P → Machine P Unit
  | statements inBlock => silent (Cursor.statements fuel (nested fuel) (if inBlock then .closeBrace else .endOfText))
  | statement => silent (nested fuel .statement)
  | letStatement => silent (Cursor.letStatement (nested fuel))
  | ifStatement => silent (Cursor.ifStatement fuel (nested fuel))
  | thenChain start condition => silent (Cursor.thenChain fuel (nested fuel) start condition)
  | blockChain start condition => silent (Cursor.blockChain fuel (nested fuel) start condition)
  | forStatement => silent (Cursor.forStatement fuel (nested fuel))
  | whileStatement => silent (Cursor.whileStatement fuel (nested fuel))
  | doStatement => silent (Cursor.doStatement fuel (nested fuel))
  | block name boundary => silent (Cursor.block fuel (nested fuel) name boundary)
  | logical => silent (Cursor.logical fuel (nested fuel))
  | comparison => silent (Cursor.comparison fuel (nested fuel))
  | complement => silent (nested fuel .complement)
  | sum => silent (Cursor.sum fuel (nested fuel))
  | term => silent (Cursor.term fuel (nested fuel))
  | power => silent (Cursor.power fuel (nested fuel))
  | factor => silent (Cursor.factor (nested fuel))
  | negation => silent (nested fuel .negation)

end Rule

/-- From the state the machine ends, without a crash: on the same level, and with the cursor no farther back and not
behind the first end of the text. -/
def Returns (tokens : List (Token P)) (limit : Nat) (state : State) (machine : Machine P α) : Prop :=
  ∃ result next, run machine ⟨closed tokens, limit⟩ state = .ok (result, ⟨next, state.depth⟩) ∧
    state.current ≤ next ∧ next ≤ (beforeEnd tokens).length

theorem Follows.returns {state : State} {machine : Machine P α} {parser : Parser P α}
    (follows : Follows tokens limit state.depth state.current machine parser) : Returns tokens limit state (silent machine) := by
  unfold Follows at follows
  generalize ends : run machine ⟨closed tokens, limit⟩ ⟨state.current, state.depth⟩ = ended at follows
  generalize outcome parser (endToken tokens) (aheadAt tokens state.current) = read at follows
  cases follows with
  | @reads value next front inside => exact ⟨.ok (), next, run_bind_of_ok _ ends, front, inside⟩
  | @fails fault next front inside => exact ⟨.error fault, next, run_bind_of_fault _ ends, front, inside⟩

theorem rule_returns (rule : Rule P) {state : State} (inside : state.current ≤ (beforeEnd tokens).length)
    (level : state.depth ≤ limit) (entry : ∀ kind ∈ rule.entry?, nextKind (aheadAt tokens state.current) = kind)
    (enough : (beforeEnd tokens).length + limit < fuel) : Returns tokens limit state (rule.machine fuel) := by
  have mirrors : Mirrors tokens limit state.depth (nested fuel) (Grammar.nested limit (limit - state.depth)) :=
    mirrors_nested (by omega) (by omega)
  have plenty : (beforeEnd tokens).length < fuel := by omega
  cases rule with
  | statements inBlock => exact (follows_statements mirrors inside plenty _).returns
  | statement => exact (mirrors.statement inside).returns
  | letStatement => exact (follows_letStatement mirrors (entry _ rfl)).returns
  | ifStatement => exact (follows_ifStatement mirrors plenty (entry _ rfl)).returns
  | thenChain start condition => exact (follows_thenChain mirrors plenty start condition (entry _ rfl)).returns
  | blockChain start condition => exact (follows_blockChain mirrors inside plenty start condition).returns
  | forStatement => exact (follows_forStatement mirrors plenty (entry _ rfl)).returns
  | whileStatement => exact (follows_whileStatement mirrors plenty (entry _ rfl)).returns
  | doStatement => exact (follows_doStatement mirrors plenty (entry _ rfl)).returns
  | block name boundary => exact (follows_block mirrors inside plenty name boundary).returns
  | logical => exact (follows_logical mirrors inside plenty).returns
  | comparison => exact (follows_comparison mirrors inside plenty).returns
  | complement => exact (mirrors.complement (entry _ rfl)).returns
  | sum => exact (follows_sum mirrors inside plenty).returns
  | term => exact (follows_term mirrors inside plenty).returns
  | power => exact (follows_power mirrors inside plenty).returns
  | factor => exact (follows_factor mirrors inside).returns
  | negation => exact (mirrors.negation (entry _ rfl)).returns

theorem follows_program (enough : (beforeEnd tokens).length + limit < fuel) :
    Follows tokens limit 0 0 (program fuel) (Grammar.program limit) := by
  have mirrors : Mirrors tokens limit 0 (nested fuel) (Grammar.nested limit limit) :=
    mirrors_nested (Nat.zero_add limit) enough
  have whole : Follows tokens limit 0 0 (program fuel)
      (sequence (Grammar.nested limit limit) .endOfText >>= fun list => Parser.peek >>= fun next =>
        pure (scopeOf "global" false next list)) :=
    follows_statements_bind mirrors (Nat.zero_le _) (by omega) fun list _ last =>
      (follows_pure _ last).of_eq (Nat.le_refl _) rfl rfl
  refine whole.of_eq (Nat.le_refl _) rfl ?_
  rw [outcome_program]
  cases read : outcome (sequence (Grammar.nested limit limit) .endOfText) (endToken tokens) (aheadAt tokens 0) with
  | ok pair =>
    rw [outcome_bind_of_ok _ read]
    rfl
  | error fault =>
    rw [outcome_bind_of_error _ read]
    rfl

theorem parse_eq_ofTokens (enough : tokens.length + limit < fuel) :
    parse fuel limit tokens = .ok (Node.ofTokens limit tokens) := by
  have shorter : (beforeEnd tokens).length ≤ tokens.length := (List.takeWhile_prefix _).length_le
  have follows : Follows tokens limit 0 0 (program fuel) (Grammar.program limit) := follows_program (by omega)
  unfold Follows at follows
  unfold parse Node.ofTokens
  rw [parse_eq]
  change Matches tokens 0 0 _ (outcome (Grammar.program limit) (endToken tokens) (beforeEnd tokens)) at follows
  generalize run (program fuel) ⟨closed tokens, limit⟩ ⟨0, 0⟩ = ended at follows
  generalize outcome (Grammar.program limit) (endToken tokens) (beforeEnd tokens) = read at follows
  cases follows <;> rfl

/-- The parser ends, whatever the tokens and the limit are, and no index, level or loop makes it crash. From every
state in front of the first end of the text each of its rules comes back to the level that it began on. Nothing
behind the first end counts, and where there is none one stands behind the last token. -/
theorem parse_safe (enough : tokens.length + limit < fuel) :
    parse fuel limit tokens = .ok (Node.ofTokens limit tokens) ∧
      (∀ (rule : Rule P) (state : State), state.current ≤ (beforeEnd tokens).length → state.depth ≤ limit →
        (∀ kind ∈ rule.entry?, nextKind (aheadAt tokens state.current) = kind) →
          Returns tokens limit state (rule.machine fuel)) ∧
      (∀ (front after : List (Token P)) (stop : Token P), tokens = front ++ stop :: after →
        (∀ token ∈ front, token.kind ≠ .endOfText) → stop.kind = .endOfText →
          Node.ofTokens limit tokens = Node.ofTokens limit (front ++ [stop])) ∧
      ((∀ token ∈ tokens, token.kind ≠ .endOfText) →
        Node.ofTokens limit tokens = Node.ofTokens limit (tokens ++ [lastEnd tokens])) := by
  have shorter : (beforeEnd tokens).length ≤ tokens.length := (List.takeWhile_prefix _).length_le
  refine ⟨parse_eq_ofTokens enough, fun rule state inside level entry => rule_returns rule inside level entry (by omega),
    ?_, ?_⟩
  · rintro front after stop rfl text ended
    exact (parse_append_cons _ after text ended).trans (parse_append _ text ended).symm
  · intro text
    exact (parse_lastEnd _ text).symm

theorem parse_safe_let : 1 + 1 < 3 ∧ parse 3 1 [bare .letWord] = .ok (.error
    ⟨.unexpectedEnd [.identifier], .point (), some "'let' must be followed by a variable name: let x = 1"⟩) :=
  have enough : [bare .letWord].length + 1 < 3 := by decide
  ⟨enough, (parse_safe enough).1⟩

end Reckon.Cursor
