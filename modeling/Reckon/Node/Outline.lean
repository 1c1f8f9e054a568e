import Reckon.Node

set_option autoImplicit false

/-!
# Outlines

The shape of a tree on one line, and when two trees have the same shape. Neither looks at marks.
-/

namespace Reckon.Node

variable {P Q : Type}

mutual

def outline : Node P → String
  | literal _ value => value.text
  | binary _ left operator right => "(" ++ outline left ++ " " ++ operator.kind.name ++ " " ++ outline right ++ ")"
  | unary _ operator operand => "(" ++ operator.kind.name ++ " " ++ outline operand ++ ")"
  | assignment _ name value => "(" ++ name ++ " = " ++ outline value ++ ")"
  | retrieval _ name => if name = "" then "$" else name
  | scope _ name _ statements => "\x7b" ++ name ++ ": " ++ "; ".intercalate (outlines statements) ++ "\x7d"
  | choice _ branches => "if" ++ branchOutlines branches
  | whileLoop _ true condition body => "do " ++ outline body ++ " while " ++ outline condition
  | whileLoop _ false condition body => "while " ++ outline condition ++ ": " ++ outline body
  | forLoop _ start condition step body =>
    "for (" ++ outline start ++ "; " ++ outline condition ++ "; " ++ outline step ++ ") " ++ outline body

def outlines : List (Node P) → List String
  | [] => []
  | first :: rest => outline first :: outlines rest

def branchOutlines : List (Node P × Node P) → String
  | [] => ""
  | (condition, body) :: rest =>
    " [" ++ outline condition ++ " => " ++ outline body ++ "]" ++ branchOutlines rest

end

mutual

/-- Whether two trees are equal up to their marks and their operators' positions. -/
def sameShape : Node P → Node Q → Bool
  | literal _ a, literal _ b => a.equal b
  | binary _ l₁ o₁ r₁, binary _ l₂ o₂ r₂ => o₁.kind = o₂.kind && sameShape l₁ l₂ && sameShape r₁ r₂
  | unary _ o₁ a, unary _ o₂ b => o₁.kind = o₂.kind && sameShape a b
  | assignment _ n₁ v₁, assignment _ n₂ v₂ => n₁ = n₂ && sameShape v₁ v₂
  | retrieval _ n₁, retrieval _ n₂ => n₁ = n₂
  | scope _ n₁ b₁ s₁, scope _ n₂ b₂ s₂ => n₁ = n₂ && b₁ = b₂ && sameShapes s₁ s₂
  | choice _ b₁, choice _ b₂ => sameBranches b₁ b₂
  | whileLoop _ d₁ c₁ b₁, whileLoop _ d₂ c₂ b₂ => d₁ = d₂ && sameShape c₁ c₂ && sameShape b₁ b₂
  | forLoop _ i₁ c₁ n₁ b₁, forLoop _ i₂ c₂ n₂ b₂ =>
    sameShape i₁ i₂ && sameShape c₁ c₂ && sameShape n₁ n₂ && sameShape b₁ b₂
  | _, _ => false

def sameShapes : List (Node P) → List (Node Q) → Bool
  | [], [] => true
  | a :: as, b :: bs => sameShape a b && sameShapes as bs
  | _, _ => false

def sameBranches : List (Node P × Node P) → List (Node Q × Node Q) → Bool
  | [], [] => true
  | (c₁, b₁) :: r₁, (c₂, b₂) :: r₂ => sameShape c₁ c₂ && sameShape b₁ b₂ && sameBranches r₁ r₂
  | _, _ => false

end

end Reckon.Node
