import Reckon.Proofs.Grammar.Completeness
import Reckon.Proofs.Grammar.Limit

set_option autoImplicit false

/-!
# The grammar without a limit

A parser with a level for every token ahead is never cut off. The rules given such parsers for what is
nested in them read every phrase.
-/

namespace Reckon

open Reckon.Parser

variable {P : Type} {stop : Token P} {ahead rest : List (Token P)}

namespace Parser

variable {α : Type} {least more : Nat} {good fine : α → Prop} {one two : Except (Fault P) (α × List (Token P))}

theorem Limited.same (limited : Limited least good ahead one two) (short : ahead.length < least) : one = two := by
  cases limited with
  | reads | refuses => rfl
  | cut _ long => omega

theorem Limited.swap (limited : Limited least good ahead one two) (short : ahead.length < least)
    (enough : ∀ value, good value → fine value) : Limited more fine ahead two one := by
  cases limited with
  | reads holds kept => exact .reads (enough _ holds) kept
  | refuses shallow => exact .refuses shallow
  | cut _ long => omega

end Parser

namespace Grammar

open Reckon.Node

variable {tree : Node P}

/-- A nested rule with a level for each of the tokens ahead. -/
def free (rule : Nested) : Parser P (Node P) := do
  let ahead ← get
  nested (ahead.length + 1) (ahead.length + 1) rule

theorem outcome_free (rule : Nested) :
    outcome (free rule) stop ahead = outcome (nested (ahead.length + 1) (ahead.length + 1) rule) stop ahead := rfl

theorem tidy_free (rule : Nested) : Tidy (free rule : Parser P (Node P)) :=
  tidy_get.bind fun _ => tidy_nested _ _ rule

theorem sound_free (ended : stop.kind = .endOfText) : Sound stop (free : Nested → Parser P (Node P)) where
  tidy := tidy_free
  statement := by
    intro ahead rest tree reads
    rw [outcome_free] at reads
    exact (sound_nested ended _ _).statement reads
  complement := by
    intro ahead rest tree next reads
    rw [outcome_free] at reads
    exact (sound_nested ended _ _).complement next reads
  negation := by
    intro ahead rest tree next reads
    rw [outcome_free] at reads
    exact (sound_nested ended _ _).negation next reads

theorem limitedAt_free {rule : Nested} {least : Nat → Nat} (plenty : ∀ levels, levels ≤ least levels)
    (spare : ∀ limit limit' levels more, LimitedAt (least levels) (Nests levels) stop ahead (nested limit levels rule)
      (nested limit' (levels + more) rule)) (limit levels : Nat) :
    LimitedAt (least levels) (Nests levels) stop ahead (nested limit levels rule) (free rule) := by
  unfold LimitedAt
  rw [outcome_free]
  -- The larger number of levels never refuses, since the tokens ahead run out first.
  rcases Nat.le_total levels (ahead.length + 1) with fewer | fewer
  · obtain ⟨more, same⟩ := Nat.exists_eq_add_of_le fewer
    have limited := spare limit (ahead.length + 1) levels more
    rw [← same] at limited
    exact limited
  · obtain ⟨more, same⟩ := Nat.exists_eq_add_of_le fewer
    have limited := spare (ahead.length + 1) limit (ahead.length + 1) more
    rw [← same] at limited
    have short := plenty (ahead.length + 1)
    exact Limited.swap limited (by omega) fun tree holds => holds.mono fewer

theorem spare_free (ended : stop.kind = .endOfText) (limit levels : Nat) :
    Spare stop levels (nested limit levels) (free : Nested → Parser P (Node P)) where
  statement := fun ahead => limitedAt_free (fun _ => Nat.le_refl _)
    (fun limit limit' levels more => (spare_nested ended limit limit' levels more).statement ahead) limit levels
  complement := fun ahead next => limitedAt_free (fun levels => Nat.le_succ levels)
    (fun limit limit' levels more => (spare_nested ended limit limit' levels more).complement ahead next) limit levels
  negation := fun ahead next => limitedAt_free (fun levels => Nat.le_succ levels)
    (fun limit limit' levels more => (spare_nested ended limit limit' levels more).negation ahead next) limit levels

theorem outcome_free_statement (ended : stop.kind = .endOfText) :
    outcome (free .statement) stop ahead = outcome (statement free) stop ahead := by
  rw [outcome_free]
  have limited := limits_statement ended (spare_free (P := P) ended (ahead.length + 1) ahead.length) ahead
  exact limited.same (Nat.lt_succ_self _)

theorem outcome_free_complement (ended : stop.kind = .endOfText) (sign : Token P) :
    outcome (free .complement) stop (sign :: rest) = outcome (complement free) stop (sign :: rest) := by
  rw [outcome_free]
  have spare := spare_free (P := P) ended ((sign :: rest).length + 1) (sign :: rest).length
  have limited : LimitedAt _ _ stop (sign :: rest) (complement _) (complement free) :=
    limitedAt_mkUnary (limits_comparison ended spare)
  exact Limited.same limited (by omega)

theorem outcome_free_negation (ended : stop.kind = .endOfText) (sign : Token P) :
    outcome (free .negation) stop (sign :: rest) = outcome (negation free) stop (sign :: rest) := by
  rw [outcome_free]
  have spare := spare_free (P := P) ended ((sign :: rest).length + 1) (sign :: rest).length
  have limited : LimitedAt _ _ stop (sign :: rest) (negation _) (negation free) :=
    limitedAt_mkUnary (limits_factor ended spare)
  exact Limited.same limited (by omega)

theorem limits_rank {levels : Nat} {deeper further : Nested → Parser P (Node P)} (ended : stop.kind = .endOfText)
    (spare : Spare stop levels deeper further) (rank : Rank) :
    Limits (levels + 1) (Nests levels) stop (rank.parser deeper) (rank.parser further) := by
  have factors := limits_factor ended spare
  cases rank with
  | factor => exact factors
  | power => exact limits_operands factors
  | term => exact limits_operands (limits_operands factors)
  | sum => exact limits_operands (limits_operands (limits_operands factors))
  | comparison => exact limits_comparison ended spare
  | logical => exact limits_logical ended spare

theorem Reads.free_statement (reads : Reads (.statement tree) ahead rest) (ended : stop.kind = .endOfText) :
    outcome (free .statement) stop ahead = .ok (tree, rest) := by
  rw [outcome_free]
  exact reads.parsed ended _ _ (Nat.lt_succ_self _)

theorem Reads.free_expression {rank : Rank} (reads : Reads (.expression rank tree) ahead rest)
    (ended : stop.kind = .endOfText) : outcome (rank.parser free) stop ahead = .ok (tree, rest) := by
  have read := reads.parsed ended ahead.length ahead.length (Nat.le_refl _)
  have limited := limits_rank ended (spare_free ended ahead.length ahead.length) rank ahead
  exact (limited.same (Nat.lt_succ_self _)).symm.trans read

theorem Reads.free_block {name : String} {boundary : Bool} (reads : Reads (.block name boundary tree) ahead rest)
    (ended : stop.kind = .endOfText) : outcome (Grammar.block free name boundary) stop ahead = .ok (tree, rest) := by
  have read := reads.parsed ended ahead.length ahead.length (Nat.le_refl _)
  have limited := limits_block ended (spare_free ended ahead.length ahead.length) name boundary ahead
  exact (limited.same (Nat.lt_succ_self _)).symm.trans read

end Grammar

end Reckon
