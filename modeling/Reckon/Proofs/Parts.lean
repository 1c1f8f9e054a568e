import Reckon.Context
import Reckon.Node

set_option autoImplicit false

/-!
# Parts of trees

The nodes inside a node, and the names that evaluating it can bind in the scope it is evaluated in.
-/

namespace Reckon.Node

variable {P : Type} {node child part : Node P} {name : String}

@[elab_as_elim]
theorem tree_induction {motive : Node P → Prop} (node : Node P)
    (literal : ∀ mark value, motive (literal mark value))
    (binary : ∀ mark left operator right, motive left → motive right →
      motive (binary mark left operator right))
    (unary : ∀ mark operator operand, motive operand → motive (unary mark operator operand))
    (assignment : ∀ mark name value, motive value → motive (assignment mark name value))
    (retrieval : ∀ mark name, motive (retrieval mark name))
    (scope : ∀ mark name boundary statements, (∀ statement ∈ statements, motive statement) →
      motive (scope mark name boundary statements))
    (choice : ∀ mark branches, (∀ branch ∈ branches, motive branch.1 ∧ motive branch.2) →
      motive (choice mark branches))
    (whileLoop : ∀ mark bodyFirst condition body, motive condition → motive body →
      motive (whileLoop mark bodyFirst condition body))
    (forLoop : ∀ mark start condition step body, motive start → motive condition → motive step →
      motive body → motive (forLoop mark start condition step body)) : motive node := by
  refine @Node.rec P motive (fun list => ∀ statement ∈ list, motive statement)
    (fun list => ∀ branch ∈ list, motive branch.1 ∧ motive branch.2)
    (fun branch => motive branch.1 ∧ motive branch.2)
    literal binary unary assignment retrieval scope choice whileLoop forLoop ?_ ?_ ?_ ?_ ?_ node
  · simp
  · intro first rest holds others
    exact List.forall_mem_cons.2 ⟨holds, others⟩
  · simp
  · intro first rest holds others
    exact List.forall_mem_cons.2 ⟨holds, others⟩
  · intro condition body holds others
    exact ⟨holds, others⟩

def children : Node P → List (Node P)
  | literal .. | retrieval .. => []
  | binary _ left _ right => [left, right]
  | unary _ _ operand => [operand]
  | assignment _ _ value => [value]
  | scope _ _ _ statements => statements
  | choice _ branches => branches.flatMap fun branch => [branch.1, branch.2]
  | whileLoop _ _ condition body => [condition, body]
  | forLoop _ start condition step body => [start, condition, step, body]

theorem condition_mem_children {mark : Mark P} {branches : List (Node P × Node P)} {branch : Node P × Node P}
    (member : branch ∈ branches) : branch.1 ∈ (choice mark branches).children :=
  List.mem_flatMap.2 ⟨branch, member, by simp⟩

theorem body_mem_children {mark : Mark P} {branches : List (Node P × Node P)} {branch : Node P × Node P}
    (member : branch ∈ branches) : branch.2 ∈ (choice mark branches).children :=
  List.mem_flatMap.2 ⟨branch, member, by simp⟩

@[elab_as_elim]
theorem children_induction {motive : Node P → Prop} (node : Node P)
    (step : ∀ node : Node P, (∀ child ∈ node.children, motive child) → motive node) : motive node := by
  induction node using tree_induction with
  | literal | retrieval => exact step _ (List.forall_mem_nil motive)
  | binary _ _ _ _ one two => exact step _ (List.forall_mem_cons.2 ⟨one, List.forall_mem_singleton.2 two⟩)
  | unary _ _ _ ih | assignment _ _ _ ih => exact step _ (List.forall_mem_singleton.2 ih)
  | scope _ _ _ _ ih => exact step _ ih
  | choice _ _ ih =>
    refine step _ fun child member => ?_
    obtain ⟨branch, chosen, either⟩ := List.mem_flatMap.1 member
    simp only [List.mem_cons, List.not_mem_nil, or_false] at either
    rcases either with rfl | rfl
    · exact (ih branch chosen).1
    · exact (ih branch chosen).2
  | whileLoop _ _ _ _ test round =>
    exact step _ (List.forall_mem_cons.2 ⟨test, List.forall_mem_singleton.2 round⟩)
  | forLoop _ _ _ _ _ first test next round =>
    refine step _ (List.forall_mem_cons.2 ⟨first, List.forall_mem_cons.2 ⟨test, ?_⟩⟩)
    exact List.forall_mem_cons.2 ⟨next, List.forall_mem_singleton.2 round⟩

/-- A node is a part of itself, and what is a part of a child of a node that is entered is a part of it. -/
inductive Part (enters : Node P → Bool) (part : Node P) : Node P → Prop where
  | self : Part enters part part
  | inside {child node : Node P} (entered : enters node = true) (member : child ∈ node.children)
    (inner : Part enters part child) : Part enters part node

theorem Part.trans {enters : Node P → Bool} {inner : Node P} (below : Part enters inner part)
    (above : Part enters part node) : Part enters inner node := by
  induction above with
  | self => exact below
  | inside entered member _ ih => exact .inside entered member ih

theorem children_silenced (node : Node P) : node.silenced.children = node.children := by
  cases node <;> rfl

def Every (holds : Node P → Prop) (node : Node P) : Prop :=
  ∀ part, Part (fun _ => true) part node → holds part

theorem every_of_children {holds : Node P → Prop} (own : holds node)
    (inner : ∀ child ∈ node.children, Every holds child) : Every holds node := by
  intro part inside
  cases inside with
  | self => exact own
  | inside _ member below => exact inner _ member part below

theorem every_iff {holds : Node P → Prop} :
    Every holds node ↔ holds node ∧ ∀ child ∈ node.children, Every holds child :=
  ⟨fun every => ⟨every node .self, fun _ member part below => every part (.inside rfl member below)⟩,
    fun ⟨own, inner⟩ => every_of_children own inner⟩

theorem Every.silenced {holds : Node P → Prop} (every : Every holds node)
    (stable : holds node → holds node.silenced) : Every holds node.silenced := by
  refine every_of_children (stable (every node .self)) fun child member part below => ?_
  rw [children_silenced] at member
  exact every part (.inside rfl member below)

def conditions : Node P → List (Node P)
  | choice _ branches => branches.map Prod.fst
  | whileLoop _ _ condition _ | forLoop _ _ condition _ _ => [condition]
  | _ => []

/-- Whether what is inside the node is evaluated in the scope that the node is evaluated in. -/
def sharesScope : Node P → Bool
  | scope _ _ boundary _ => !boundary
  | whileLoop .. | forLoop .. => false
  | _ => true

def boundName? : Node P → Option String
  | assignment _ name _ => some name
  -- A sequence of statements keeps the last result.
  | scope _ _ false _ => some lastResult
  | _ => none

/-- The names that an assignment or a sequence binds in the scope that the node is evaluated in. -/
def Writes (node : Node P) (name : String) : Prop :=
  ∃ part, Part sharesScope part node ∧ part.boundName? = some name

theorem Writes.inside (writes : child.Writes name) (shares : node.sharesScope = true)
    (member : child ∈ node.children) : node.Writes name := by
  obtain ⟨part, inner, bound⟩ := writes
  exact ⟨part, .inside shares member inner, bound⟩

theorem writes_of_boundName? (bound : node.boundName? = some name) : node.Writes name :=
  ⟨node, .self, bound⟩

end Reckon.Node
