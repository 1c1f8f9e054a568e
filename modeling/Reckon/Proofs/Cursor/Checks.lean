import Reckon.Proofs.Cursor.Rules
import Reckon.Proofs.Grammar.Derivation

set_option autoImplicit false

/-!
# Checks that cannot fail

Statements leave the cursor in front of what closes them and are never none, so that neither the check
for a closing brace behind them nor the scope that is made of them is ever a fault.
-/

namespace Reckon.Cursor

open Reckon.Parser Reckon.Grammar

variable {P α : Type} [Inhabited P] {tokens : List (Token P)} {limit fuel : Nat} {closing : Kind}
  {state later : State} {list : List (Node P)}

def Passes (machine : Machine P α) (input : Input P) (state : State) : Prop :=
  ∃ value later, run machine input state = .ok (.ok value, later)

theorem statements_closed (inside : state.current ≤ (beforeEnd tokens).length) (level : state.depth ≤ limit)
    (enough : (beforeEnd tokens).length + (limit - state.depth) < fuel)
    (ends : run (statements fuel (nested fuel) closing) ⟨closed tokens, limit⟩ state = .ok (.ok list, later)) :
    list ≠ [] ∧ nextKind (aheadAt tokens later.current) = closing := by
  have mirrors : Mirrors tokens limit state.depth (nested fuel) (Grammar.nested limit (limit - state.depth)) :=
    mirrors_nested (by omega) enough
  -- The machine ends as the grammar does, and a sequence ends in front of what closes it.
  have follows := follows_statements mirrors inside (by omega : (beforeEnd tokens).length < fuel) closing
  unfold Follows at follows
  generalize read : outcome _ (endToken tokens) (aheadAt tokens state.current) = result at follows
  rw [ends] at follows
  cases follows with
  | reads =>
    obtain ⟨statements, rest, one, others⟩ := outcome_bind_eq_ok.1 read
    cases others
    exact ⟨List.cons_ne_nil _ _, (reads_sequence (kind_endToken tokens) mirrors.sound one).closes⟩

theorem passes_scope (some' : list ≠ []) (name : String) (boundary : Bool) (input : Input P) (state : State) :
    Passes (scope name boundary list) input state := by
  cases list with
  | nil => exact absurd rfl some'
  | cons first rest => exact ⟨.mkScope name boundary first rest, state, rfl⟩

theorem passes_closeBrace (closes : nextKind (aheadAt tokens state.current) = .closeBrace) (help : Option String) :
    Passes (expect .closeBrace help) ⟨closed tokens, limit⟩ state := by
  obtain ⟨token, rest, split, kind⟩ := exists_cons_of_nextKind closes (by decide)
  have inside := (aheadAt_cons split).2
  have peeked : run (peek : Machine P (Token P)) ⟨closed tokens, limit⟩ state = _ := run_peek (by omega)
  refine ⟨token, ⟨state.current + 1, state.depth⟩, (run_bind_of_ok _ peeked).trans ?_⟩
  rw [split, List.headD_cons, if_pos kind]
  exact run_advance split

end Reckon.Cursor
