import Reckon.Proofs.Evaluation.Outcome

set_option autoImplicit false

/-!
# What nodes yield

The meaning of programs as rules, without bounds: what each form yields in a context and the context
it leaves. A fault ends what it happens in, and what was bound before it stays bound.
-/

namespace Reckon

open Reckon.Evaluation

variable {P : Type}

inductive Nearest (name : String) : List Scope → Value → Prop where
  | here {scope : Scope} {outer : List Scope} {value : Value} (bound : scope.get? name = some value) :
    Nearest name (scope :: outer) value
  | further {scope : Scope} {outer : List Scope} {value : Value} (free : scope.get? name = none)
    (nearest : Nearest name outer value) : Nearest name (scope :: outer) value

inductive Task (P : Type) where
  | node (node : Node P)
  -- Statements behind one that yielded `last`.
  | statements (last : Value) (list : List (Node P))
  | test (condition : Node P)
  | branches (list : List (Node P × Node P))
  -- A loop that has `pending` left to do before its condition is tested and a round begins.
  | loop (pending : List (Node P)) (condition : Node P) (round : List (Node P))

namespace Context

def bind (context : Context) (name : String) (value : Value) : Context :=
  ⟨context.innermost.set name value, context.outer⟩

def inside (context : Context) (name : String) : Context :=
  ⟨⟨name, [(lastResult, .null)]⟩, context.innermost :: context.outer⟩

end Context

/-- A task done in a context yields a value or a fault and leaves a context. -/
inductive Yields : Task P → Context → Except (Fault P) Value → Context → Prop where
  | literal {mark : Mark P} {value : Value} {context : Context} :
    Yields (.node (.literal mark value)) context (.ok value) context
  -- Both operands are evaluated before the operator is looked at.
  | binary {mark : Mark P} {left right : Node P} {operator : Token P} {a b : Value}
    {before middle after : Context} (first : Yields (.node left) before (.ok a) middle)
    (second : Yields (.node right) middle (.ok b) after) :
    Yields (.node (.binary mark left operator right)) before (a.binary operator b) after
  | leftFails {mark : Mark P} {left right : Node P} {operator : Token P} {fault : Fault P}
    {before after : Context} (first : Yields (.node left) before (.error fault) after) :
    Yields (.node (.binary mark left operator right)) before (.error fault) after
  | rightFails {mark : Mark P} {left right : Node P} {operator : Token P} {a : Value} {fault : Fault P}
    {before middle after : Context} (first : Yields (.node left) before (.ok a) middle)
    (second : Yields (.node right) middle (.error fault) after) :
    Yields (.node (.binary mark left operator right)) before (.error fault) after
  | unary {mark : Mark P} {operator : Token P} {operand : Node P} {a : Value} {before after : Context}
    (inner : Yields (.node operand) before (.ok a) after) :
    Yields (.node (.unary mark operator operand)) before (a.unary operator) after
  | operandFails {mark : Mark P} {operator : Token P} {operand : Node P} {fault : Fault P}
    {before after : Context} (inner : Yields (.node operand) before (.error fault) after) :
    Yields (.node (.unary mark operator operand)) before (.error fault) after
  | assignment {mark : Mark P} {name : String} {value : Node P} {a : Value} {before after : Context}
    (inner : Yields (.node value) before (.ok a) after) :
    Yields (.node (.assignment mark name value)) before (.ok a) (after.bind name a)
  | valueFails {mark : Mark P} {name : String} {value : Node P} {fault : Fault P} {before after : Context}
    (inner : Yields (.node value) before (.error fault) after) :
    Yields (.node (.assignment mark name value)) before (.error fault) after
  | retrieval {mark : Mark P} {name : String} {value : Value} {context : Context}
    (nearest : Nearest name (context.innermost :: context.outer) value) :
    Yields (.node (.retrieval mark name)) context (.ok value) context
  | undefined {mark : Mark P} {name : String} {context : Context}
    (free : ∀ scope ∈ context.innermost :: context.outer, scope.get? name = none) :
    Yields (.node (.retrieval mark name)) context
      (.error ⟨.undefinedVariable name context.innermost.name, mark.span, none⟩) context
  -- The scope of a block is dropped at its end, after a fault as well.
  | block {mark : Mark P} {name : String} {statements : List (Node P)} {outcome : Except (Fault P) Value}
    {own scope : Scope} {outer : List Scope} {before : Context}
    (body : Yields (.statements .null statements) (before.inside name) outcome ⟨own, scope :: outer⟩) :
    Yields (.node (.scope mark name true statements)) before outcome ⟨scope, outer⟩
  | sequence {mark : Mark P} {name : String} {statements : List (Node P)} {outcome : Except (Fault P) Value}
    {before after : Context} (body : Yields (.statements .null statements) before outcome after) :
    Yields (.node (.scope mark name false statements)) before outcome after
  | choice {mark : Mark P} {branches : List (Node P × Node P)} {outcome : Except (Fault P) Value}
    {before after : Context} (chosen : Yields (.branches branches) before outcome after) :
    Yields (.node (.choice mark branches)) before outcome after
  | whileLoop {mark : Mark P} {condition body : Node P} {outcome : Except (Fault P) Value}
    {own scope : Scope} {outer : List Scope} {before : Context}
    (rounds : Yields (.loop [] condition [body]) (before.inside "while") outcome ⟨own, scope :: outer⟩) :
    Yields (.node (.whileLoop mark false condition body)) before outcome ⟨scope, outer⟩
  | doLoop {mark : Mark P} {condition body : Node P} {outcome : Except (Fault P) Value}
    {own scope : Scope} {outer : List Scope} {before : Context}
    (rounds : Yields (.loop [body] condition [body]) (before.inside "do-while") outcome ⟨own, scope :: outer⟩) :
    Yields (.node (.whileLoop mark true condition body)) before outcome ⟨scope, outer⟩
  | forLoop {mark : Mark P} {start condition step body : Node P} {outcome : Except (Fault P) Value}
    {own scope : Scope} {outer : List Scope} {before : Context}
    (rounds : Yields (.loop [start] condition [body, step]) (before.inside "for") outcome ⟨own, scope :: outer⟩) :
    Yields (.node (.forLoop mark start condition step body)) before outcome ⟨scope, outer⟩
  | finished {last : Value} {context : Context} : Yields (.statements last []) context (.ok last) context
  -- A statement that hides its value leaves null as the last result.
  | statement {last a shown : Value} {first : Node P} {rest : List (Node P)} {outcome : Except (Fault P) Value}
    {before middle after : Context} (one : Yields (.node first) before (.ok a) middle)
    (shows : shown = if first.produces then a else .null)
    (others : Yields (.statements shown rest) (middle.bind lastResult shown) outcome after) :
    Yields (.statements last (first :: rest)) before outcome after
  | statementFails {last : Value} {first : Node P} {rest : List (Node P)} {fault : Fault P}
    {before after : Context} (one : Yields (.node first) before (.error fault) after) :
    Yields (.statements last (first :: rest)) before (.error fault) after
  -- A condition holds when its value equals true under its own equality.
  | test {condition : Node P} {a : Value} {before after : Context}
    (value : Yields (.node condition) before (.ok a) after) :
    Yields (.test condition) before (a.binary ⟨.equal, none, condition.span⟩ (.boolean true)) after
  | testFails {condition : Node P} {fault : Fault P} {before after : Context}
    (value : Yields (.node condition) before (.error fault) after) :
    Yields (.test condition) before (.error fault) after
  | noBranch {context : Context} : Yields (.branches []) context (.ok .null) context
  | taken {condition body : Node P} {rest : List (Node P × Node P)} {outcome : Except (Fault P) Value}
    {before middle after : Context} (holds : Yields (.test condition) before (.ok (.boolean true)) middle)
    (chosen : Yields (.node body) middle outcome after) :
    Yields (.branches ((condition, body) :: rest)) before outcome after
  | passed {condition body : Node P} {rest : List (Node P × Node P)} {answer : Value}
    {outcome : Except (Fault P) Value} {before middle after : Context}
    (tested : Yields (.test condition) before (.ok answer) middle) (other : answer ≠ .boolean true)
    (others : Yields (.branches rest) middle outcome after) :
    Yields (.branches ((condition, body) :: rest)) before outcome after
  | branchFails {condition body : Node P} {rest : List (Node P × Node P)} {fault : Fault P}
    {before after : Context} (tested : Yields (.test condition) before (.error fault) after) :
    Yields (.branches ((condition, body) :: rest)) before (.error fault) after
  | perform {first condition : Node P} {rest round : List (Node P)} {a : Value}
    {outcome : Except (Fault P) Value} {before middle after : Context}
    (one : Yields (.node first) before (.ok a) middle)
    (others : Yields (.loop rest condition round) middle outcome after) :
    Yields (.loop (first :: rest) condition round) before outcome after
  | performFails {first condition : Node P} {rest round : List (Node P)} {fault : Fault P}
    {before after : Context} (one : Yields (.node first) before (.error fault) after) :
    Yields (.loop (first :: rest) condition round) before (.error fault) after
  | again {condition : Node P} {round : List (Node P)} {outcome : Except (Fault P) Value}
    {before middle after : Context} (holds : Yields (.test condition) before (.ok (.boolean true)) middle)
    (others : Yields (.loop round condition round) middle outcome after) :
    Yields (.loop [] condition round) before outcome after
  | leaves {condition : Node P} {round : List (Node P)} {answer : Value} {before after : Context}
    (tested : Yields (.test condition) before (.ok answer) after) (other : answer ≠ .boolean true) :
    Yields (.loop [] condition round) before (.ok .null) after
  | loopFails {condition : Node P} {round : List (Node P)} {fault : Fault P} {before after : Context}
    (tested : Yields (.test condition) before (.error fault) after) :
    Yields (.loop [] condition round) before (.error fault) after

theorem Yields.outer {task : Task P} {before after : Context} {outcome : Except (Fault P) Value}
    (yields : Yields task before outcome after) : after.outer = before.outer := by
  induction yields with
  | block _ ih | whileLoop _ ih | doLoop _ ih | forLoop _ ih => exact (List.cons.inj ih).2
  | binary _ _ first second | rightFails _ _ first second | taken _ _ first second | passed _ _ _ first second
  | perform _ _ first second | again _ _ first second => exact second.trans first
  | statement _ _ _ first second => exact second.trans first
  | assignment _ ih => exact ih
  | _ => first | rfl | assumption

end Reckon
