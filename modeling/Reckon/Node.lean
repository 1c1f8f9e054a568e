import Reckon.Token
import Reckon.Value

set_option autoImplicit false

/-!
# Syntax trees

Every node has a mark: the stretch of text it stands for, and whether its value is shown when it is
a statement.
-/

namespace Reckon

structure Mark (P : Type) where
  span : Span P
  produces : Bool
deriving DecidableEq

def Mark.map {P Q : Type} (f : P → Q) (mark : Mark P) : Mark Q :=
  { span := mark.span.map f, produces := mark.produces }

/-- Statements and expressions. A boundary scope has variables of its own; the branches of a choice
are pairs of a condition and a body. -/
inductive Node (P : Type) where
  | literal (mark : Mark P) (value : Value)
  | binary (mark : Mark P) (left : Node P) (operator : Token P) (right : Node P)
  | unary (mark : Mark P) (operator : Token P) (operand : Node P)
  | assignment (mark : Mark P) (name : String) (value : Node P)
  | retrieval (mark : Mark P) (name : String)
  | scope (mark : Mark P) (name : String) (boundary : Bool) (statements : List (Node P))
  | choice (mark : Mark P) (branches : List (Node P × Node P))
  | whileLoop (mark : Mark P) (bodyFirst : Bool) (condition body : Node P)
  | forLoop (mark : Mark P) (start condition step body : Node P)

namespace Node

variable {P Q : Type}

def mark : Node P → Mark P
  | literal mark .. | binary mark .. | unary mark .. | assignment mark .. | retrieval mark ..
  | scope mark .. | choice mark .. | whileLoop mark .. | forLoop mark .. => mark

def span (node : Node P) : Span P := node.mark.span

def produces (node : Node P) : Bool := node.mark.produces

def withMark (mark : Mark P) : Node P → Node P
  | literal _ value => literal mark value
  | binary _ left operator right => binary mark left operator right
  | unary _ operator operand => unary mark operator operand
  | assignment _ name value => assignment mark name value
  | retrieval _ name => retrieval mark name
  | scope _ name boundary statements => scope mark name boundary statements
  | choice _ branches => choice mark branches
  | whileLoop _ bodyFirst condition body => whileLoop mark bodyFirst condition body
  | forLoop _ start condition step body => forLoop mark start condition step body

@[simp]
theorem mark_withMark (mark : Mark P) (node : Node P) : (node.withMark mark).mark = mark := by
  cases node <;> rfl

def silenced (node : Node P) : Node P :=
  node.withMark { node.mark with produces := false }

@[simp]
theorem span_silenced (node : Node P) : node.silenced.span = node.span := by
  simp [silenced, span]

@[simp]
theorem produces_silenced (node : Node P) : node.silenced.produces = false := by
  simp [silenced, produces]

def mkLiteral (value : Value) (span : Span P) : Node P :=
  literal ⟨span, true⟩ value

def mkBinary (left : Node P) (operator : Token P) (right : Node P) : Node P :=
  binary ⟨left.span.through right.span, true⟩ left operator right

def mkUnary (operator : Token P) (operand : Node P) : Node P :=
  unary ⟨operator.span.through operand.span, true⟩ operator operand

def mkAssignment (name : Token P) (value : Node P) : Node P :=
  assignment ⟨name.span.through value.span, true⟩ name.name value

def mkRetrieval (name : Token P) : Node P :=
  retrieval ⟨name.span, true⟩ name.name

def mkScope (name : String) (boundary : Bool) (first : Node P) (rest : List (Node P)) : Node P :=
  let last := (first :: rest).getLast (List.cons_ne_nil first rest)
  scope ⟨first.span.through last.span, true⟩ name boundary (first :: rest)

def mkScope? (name : String) (boundary : Bool) : List (Node P) → Option (Node P)
  | [] => none
  | first :: rest => mkScope name boundary first rest

def mkChoice (start : P) (branches : List (Node P × Node P)) : Node P :=
  let stop := (branches.getLast?.map fun (_, body) => body.span.stop).getD start
  choice ⟨⟨start, stop⟩, true⟩ branches

def mkWhile (start : P) (bodyFirst : Bool) (condition body : Node P) : Node P :=
  let stop := if bodyFirst then condition.span.stop else body.span.stop
  whileLoop ⟨⟨start, stop⟩, true⟩ bodyFirst condition body

def mkFor (first : P) (start condition step body : Node P) : Node P :=
  forLoop ⟨⟨first, body.span.stop⟩, true⟩ start condition step body

mutual

def map (f : P → Q) : Node P → Node Q
  | literal mark value => literal (mark.map f) value
  | binary mark left operator right => binary (mark.map f) (map f left) (operator.map f) (map f right)
  | unary mark operator operand => unary (mark.map f) (operator.map f) (map f operand)
  | assignment mark name value => assignment (mark.map f) name (map f value)
  | retrieval mark name => retrieval (mark.map f) name
  | scope mark name boundary statements => scope (mark.map f) name boundary (mapAll f statements)
  | choice mark branches => choice (mark.map f) (mapBranches f branches)
  | whileLoop mark bodyFirst condition body =>
    whileLoop (mark.map f) bodyFirst (map f condition) (map f body)
  | forLoop mark start condition step body =>
    forLoop (mark.map f) (map f start) (map f condition) (map f step) (map f body)

def mapAll (f : P → Q) : List (Node P) → List (Node Q)
  | [] => []
  | first :: rest => map f first :: mapAll f rest

def mapBranches (f : P → Q) : List (Node P × Node P) → List (Node Q × Node Q)
  | [] => []
  | (condition, body) :: rest => (map f condition, map f body) :: mapBranches f rest

end

@[simp]
theorem mark_map (f : P → Q) (node : Node P) : (node.map f).mark = node.mark.map f := by
  cases node <;> rfl

end Node

end Reckon
