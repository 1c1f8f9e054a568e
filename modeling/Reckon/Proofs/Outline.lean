import Mathlib
import Reckon.Node.Outline
import Reckon.Proofs.Phases

set_option autoImplicit false

/-!
# Shapes of trees

Two trees have the same shape if they are equal once their marks and the signs of their zeros are taken away, and
hold no literal that is not a number. Having the same shape is therefore symmetric and transitive, and it keeps the
outline.
-/

namespace Reckon

variable {P Q R S : Type}

namespace Value

def unsigned : Value → Value
  | number x => number (if x == 0 then 0 else x)
  | value => value

def IsNaN : Value → Prop
  | number x => x.isNaN = true
  | _ => False

theorem eq_zero_iff (x : Float) : (x == 0) = true ↔ x = 0 ∨ x = -0 := by
  have numbers : (0 : Float) ≠ Float.nan ∧ (-0 : Float) ≠ Float.nan := by decide +kernel
  rw [Float.beq_iff_ne_nan_and_eq]
  grind

theorem beq_iff_unsigned (x y : Float) :
    (x == y) = true ↔ (number x).unsigned = (number y).unsigned ∧ x.isNaN = false := by
  have numbers : (0 : Float) ≠ Float.nan ∧ (-0 : Float) ≠ Float.nan := by decide +kernel
  have one := eq_zero_iff x
  have two := eq_zero_iff y
  rw [Float.beq_iff_ne_nan_and_eq]
  simp only [unsigned, number.injEq, Float.isNaN_eq_decide_eq_nan, decide_eq_false_iff_not]
  grind

theorem equal_iff (a b : Value) : a.equal b = true ↔ a.unsigned = b.unsigned ∧ ¬ a.IsNaN := by
  cases a with
  | number x =>
    cases b with
    | number y =>
      rw [equal, beq_iff_unsigned, IsNaN, Bool.not_eq_true]
    | _ => simp [equal, unsigned]
  | _ => cases b <;> simp [equal, unsigned, IsNaN]

theorem isNaN_unsigned (value : Value) : value.unsigned.IsNaN ↔ value.IsNaN := by
  cases value with
  | number x =>
    by_cases zero : (x == 0) = true
    · rw [unsigned, if_pos zero]
      rcases (eq_zero_iff x).1 zero with rfl | rfl <;> rfl
    · rw [unsigned, if_neg zero]
  | _ => rfl

theorem text_unsigned (value : Value) : value.unsigned.text = value.text := by
  cases value with
  | number x =>
    by_cases zero : (x == 0) = true
    · rw [unsigned, if_pos zero]
      rcases (eq_zero_iff x).1 zero with rfl | rfl <;> rfl
    · rw [unsigned, if_neg zero]
  | _ => rfl

end Value

namespace Node

mutual

def rebuild (mark : Mark P → Mark Q) (token : Token P → Token Q) (value : Value → Value) : Node P → Node Q
  | literal m v => literal (mark m) (value v)
  | binary m left operator right =>
    binary (mark m) (rebuild mark token value left) (token operator) (rebuild mark token value right)
  | unary m operator operand => unary (mark m) (token operator) (rebuild mark token value operand)
  | assignment m name v => assignment (mark m) name (rebuild mark token value v)
  | retrieval m name => retrieval (mark m) name
  | scope m name boundary statements => scope (mark m) name boundary (rebuildAll mark token value statements)
  | choice m branches => choice (mark m) (rebuildBranches mark token value branches)
  | whileLoop m bodyFirst condition body =>
    whileLoop (mark m) bodyFirst (rebuild mark token value condition) (rebuild mark token value body)
  | forLoop m start condition step body =>
    forLoop (mark m) (rebuild mark token value start) (rebuild mark token value condition)
      (rebuild mark token value step) (rebuild mark token value body)

def rebuildAll (mark : Mark P → Mark Q) (token : Token P → Token Q) (value : Value → Value) :
    List (Node P) → List (Node Q)
  | [] => []
  | first :: rest => rebuild mark token value first :: rebuildAll mark token value rest

def rebuildBranches (mark : Mark P → Mark Q) (token : Token P → Token Q) (value : Value → Value) :
    List (Node P × Node P) → List (Node Q × Node Q)
  | [] => []
  | (condition, body) :: rest =>
    (rebuild mark token value condition, rebuild mark token value body) :: rebuildBranches mark token value rest

end

variable {mark : Mark P → Mark Q} {token : Token P → Token Q} {value : Value → Value}

theorem rebuildAll_eq (statements : List (Node P)) :
    rebuildAll mark token value statements = statements.map (rebuild mark token value) := by
  induction statements with
  | nil => rfl
  | cons first rest ih => rw [rebuildAll, ih, List.map_cons]

theorem rebuildBranches_eq (branches : List (Node P × Node P)) :
    rebuildBranches mark token value branches =
      branches.map (Prod.map (rebuild mark token value) (rebuild mark token value)) := by
  induction branches with
  | nil => rfl
  | cons first rest ih =>
    obtain ⟨condition, body⟩ := first
    rw [rebuildBranches, ih, List.map_cons, Prod.map_apply]

theorem rebuild_rebuild (node : Node P) (mark' : Mark Q → Mark R) (token' : Token Q → Token R)
    (value' : Value → Value) :
    (node.rebuild mark token value).rebuild mark' token' value' =
      node.rebuild (mark' ∘ mark) (token' ∘ token) (value' ∘ value) := by
  induction node using tree_induction with
  | scope m name boundary statements ih =>
    simpa [rebuild, rebuildAll_eq] using ih
  | choice m branches ih =>
    simp only [rebuild, rebuildBranches_eq, List.map_map, choice.injEq, List.map_inj_left, Function.comp_apply, true_and]
    exact fun branch member => Prod.ext (ih branch member).1 (ih branch member).2
  | _ => simp_all [rebuild]

def blankMark (_ : Mark P) : Mark Unit := ⟨.point (), true⟩

def bareOperator (operator : Token P) : Token Unit := ⟨operator.kind, none, .point ()⟩

def unmarked : Node P → Node Unit := rebuild blankMark (Token.map fun _ => ()) id

/-- What is left of a tree when it is compared with another one. -/
def shape : Node P → Node Unit := rebuild blankMark bareOperator Value.unsigned

theorem shape_unmarked (node : Node P) : node.unmarked.shape = node.shape :=
  rebuild_rebuild node _ _ _

theorem sameShapes_eq_zip (first : List (Node P)) (second : List (Node Q)) :
    sameShapes first second =
      (first.length == second.length && (first.zip second).all fun pair => pair.1.sameShape pair.2) := by
  induction first generalizing second with
  | nil => cases second <;> simp [sameShapes]
  | cons node rest ih =>
    cases second with
    | nil => simp [sameShapes]
    | cons other more =>
      rw [sameShapes, ih, Bool.and_left_comm]
      simp

theorem sameBranches_eq_zip (first : List (Node P × Node P)) (second : List (Node Q × Node Q)) :
    sameBranches first second = (first.length == second.length &&
      (first.zip second).all fun pair => pair.1.1.sameShape pair.2.1 && pair.1.2.sameShape pair.2.2) := by
  induction first generalizing second with
  | nil => cases second <;> simp [sameBranches]
  | cons branch rest ih =>
    cases second with
    | nil => simp [sameBranches]
    | cons other more =>
      rw [sameBranches, ih, Bool.and_left_comm]
      simp

def Plain : Node P → Prop
  | literal _ value => ¬ value.IsNaN
  | _ => True

theorem children_shape (node : Node P) : node.shape.children = node.children.map shape := by
  cases node with
  | scope m name boundary statements => rw [shape, rebuild, rebuildAll_eq, children, children]
  | choice m branches =>
    rw [shape, rebuild, rebuildBranches_eq, children, children, List.flatMap_map, List.map_flatMap]
    rfl
  | _ => rfl

theorem plain_shape (node : Node P) : node.shape.Plain ↔ node.Plain := by
  cases node with
  | literal m value => exact not_congr (Value.isNaN_unsigned value)
  | _ => rfl

theorem every_plain_shape (node : Node P) : node.shape.Every Plain ↔ node.Every Plain := by
  induction node using children_induction with
  | step node ih =>
    rw [every_iff, every_iff, plain_shape, children_shape, List.forall_mem_map]
    exact and_congr_right fun _ => forall₂_congr ih

theorem sameShapes_iff {first : List (Node P)}
    (each : ∀ node ∈ first, ∀ other : Node Q,
      node.sameShape other = true ↔ node.shape = other.shape ∧ node.Every Plain) (second : List (Node Q)) :
    sameShapes first second = true ↔ first.map shape = second.map shape ∧ ∀ node ∈ first, node.Every Plain := by
  induction first generalizing second with
  | nil => cases second <;> simp [sameShapes]
  | cons node rest ih =>
    obtain ⟨own, others⟩ := List.forall_mem_cons.1 each
    cases second with
    | nil => simp [sameShapes]
    | cons other more =>
      rw [sameShapes, Bool.and_eq_true, own, ih others]
      simp only [List.map_cons, List.cons.injEq, List.forall_mem_cons]
      tauto

theorem sameBranches_iff {first : List (Node P × Node P)}
    (each : ∀ branch ∈ first,
      (∀ other : Node Q, branch.1.sameShape other = true ↔ branch.1.shape = other.shape ∧ branch.1.Every Plain) ∧
      ∀ other : Node Q, branch.2.sameShape other = true ↔ branch.2.shape = other.shape ∧ branch.2.Every Plain)
    (second : List (Node Q × Node Q)) :
    sameBranches first second = true ↔ first.map (Prod.map shape shape) = second.map (Prod.map shape shape) ∧
      ∀ branch ∈ first, branch.1.Every Plain ∧ branch.2.Every Plain := by
  induction first generalizing second with
  | nil => cases second <;> simp [sameBranches]
  | cons branch rest ih =>
    obtain ⟨⟨test, body⟩, others⟩ := List.forall_mem_cons.1 each
    cases second with
    | nil => simp [sameBranches]
    | cons other more =>
      rw [sameBranches, Bool.and_eq_true, Bool.and_eq_true, test, body, ih others]
      simp only [List.map_cons, List.cons.injEq, List.forall_mem_cons, Prod.map, Prod.mk.injEq]
      tauto

theorem plain_branches (branches : List (Node P × Node P)) (m : Mark P) :
    (∀ child ∈ (choice m branches).children, child.Every Plain) ↔
      ∀ branch ∈ branches, branch.1.Every Plain ∧ branch.2.Every Plain := by
  simp only [children, List.forall_mem_flatMap, List.forall_mem_cons, List.not_mem_nil, false_imp_iff, implies_true,
    and_true]

theorem unlike {a : Node P} {b : Node Q} (differ : a.sameShape b = false) (shapes : a.shape ≠ b.shape) :
    a.sameShape b = true ↔ a.shape = b.shape ∧ a.Every Plain := by
  simp [differ, shapes]

/-- Two trees have the same shape if the same is left of them and nothing in them differs from itself. -/
theorem sameShape_iff (a : Node P) (b : Node Q) : a.sameShape b = true ↔ a.shape = b.shape ∧ a.Every Plain := by
  induction a using tree_induction generalizing b with
  | literal =>
    cases b with
    | literal =>
      rw [every_iff]
      simp [sameShape, shape, rebuild, blankMark, Value.equal_iff, children, Plain]
    | _ => exact unlike rfl (by rintro ⟨⟩)
  | scope _ _ _ _ ih =>
    cases b with
    | scope =>
      rw [every_iff]
      simp [sameShape, shape, rebuild, blankMark, rebuildAll_eq, sameShapes_iff ih, children, Plain, and_assoc]
    | _ => exact unlike rfl (by rintro ⟨⟩)
  | choice _ _ ih =>
    cases b with
    | choice =>
      rw [every_iff, plain_branches, sameShape, sameBranches_iff ih]
      simp [shape, rebuild, blankMark, rebuildBranches_eq, Plain]
    | _ => exact unlike rfl (by rintro ⟨⟩)
  | unary =>
    cases b with
    | unary =>
      rw [every_iff]
      simp_all [sameShape, shape, rebuild, blankMark, bareOperator, children, Plain, and_assoc]
    | _ => exact unlike rfl (by rintro ⟨⟩)
  | assignment =>
    cases b with
    | assignment =>
      rw [every_iff]
      simp_all [sameShape, shape, rebuild, blankMark, children, Plain, and_assoc]
    | _ => exact unlike rfl (by rintro ⟨⟩)
  | retrieval =>
    cases b with
    | retrieval =>
      rw [every_iff]
      simp [sameShape, shape, rebuild, blankMark, children, Plain]
    | _ => exact unlike rfl (by rintro ⟨⟩)
  -- The parts are compared one after the other, which the parts of the two sides are not.
  | binary =>
    cases b with
    | binary =>
      rw [every_iff]
      simp_all [sameShape, shape, rebuild, blankMark, bareOperator, children, Plain]
      tauto
    | _ => exact unlike rfl (by rintro ⟨⟩)
  | whileLoop =>
    cases b with
    | whileLoop =>
      rw [every_iff]
      simp_all [sameShape, shape, rebuild, blankMark, children, Plain]
      tauto
    | _ => exact unlike rfl (by rintro ⟨⟩)
  | forLoop =>
    cases b with
    | forLoop =>
      rw [every_iff]
      simp_all [sameShape, shape, rebuild, blankMark, children, Plain]
      tauto
    | _ => exact unlike rfl (by rintro ⟨⟩)

theorem outlines_eq (statements : List (Node P)) : outlines statements = statements.map outline := by
  induction statements with
  | nil => rfl
  | cons first rest ih => rw [outlines, ih, List.map_cons]

theorem branchOutlines_congr {first : List (Node P × Node P)} {f : Node P → Node Q}
    (each : ∀ branch ∈ first, (f branch.1).outline = branch.1.outline ∧ (f branch.2).outline = branch.2.outline) :
    branchOutlines (first.map (Prod.map f f)) = branchOutlines first := by
  induction first with
  | nil => rfl
  | cons branch rest ih =>
    obtain ⟨⟨test, body⟩, others⟩ := List.forall_mem_cons.1 each
    obtain ⟨condition, consequence⟩ := branch
    rw [List.map_cons, Prod.map_apply, branchOutlines, branchOutlines, test, body, ih others]

theorem outline_shape (node : Node P) : node.shape.outline = node.outline := by
  induction node using tree_induction with
  | literal m value => exact Value.text_unsigned value
  | scope m name boundary statements ih =>
    have same : (statements.map shape).map outline = statements.map outline := by simpa using ih
    rw [shape, rebuild, rebuildAll_eq, outline, outline, outlines_eq, outlines_eq]
    change _ ++ String.intercalate _ ((statements.map shape).map outline) ++ _ = _
    rw [same]
  | choice m branches ih =>
    rw [shape, rebuild, rebuildBranches_eq, outline, outline]
    exact congrArg _ (branchOutlines_congr ih)
  | whileLoop m bodyFirst => cases bodyFirst <;> simp_all [shape, rebuild, outline]
  | _ => simp_all [shape, rebuild, outline, bareOperator]

def HasNaN (node : Node P) : Prop :=
  ∃ m x, Part (fun _ => true) (literal m (.number x)) node ∧ x.isNaN = true

theorem plain_iff (node : Node P) : node.Every Plain ↔ ¬ node.HasNaN := by
  constructor
  · rintro every ⟨m, x, below, wrong⟩
    exact every _ below wrong
  · intro none part below
    cases part with
    | literal m value =>
      cases value with
      | number x => exact fun wrong => none ⟨m, x, below, wrong⟩
      | _ => exact id
    | _ => trivial

end Node

open Node

variable {a : Node P} {b : Node Q} {c : Node R}

theorem sameShape_symm (same : a.sameShape b = true) : b.sameShape a = true := by
  obtain ⟨shapes, plain⟩ := (sameShape_iff a b).1 same
  refine (sameShape_iff b a).2 ⟨shapes.symm, ?_⟩
  rwa [← every_plain_shape, ← shapes, every_plain_shape]

theorem sameShape_trans (first : a.sameShape b = true) (second : b.sameShape c = true) : a.sameShape c = true := by
  obtain ⟨one, plain⟩ := (sameShape_iff a b).1 first
  obtain ⟨two, _⟩ := (sameShape_iff b c).1 second
  exact (sameShape_iff a c).2 ⟨one.trans two, plain⟩

theorem sameShape_self_iff : a.sameShape a = true ↔ ¬ a.HasNaN := by
  rw [sameShape_iff, plain_iff]
  exact and_iff_right rfl

theorem sameShape_congr {a' : Node R} {b' : Node S} (one : a'.unmarked = a.unmarked) (two : b'.unmarked = b.unmarked) :
    a'.sameShape b' = a.sameShape b := by
  have left : a'.shape = a.shape := by rw [← shape_unmarked, one, shape_unmarked]
  have right : b'.shape = b.shape := by rw [← shape_unmarked, two, shape_unmarked]
  rw [Bool.eq_iff_iff, sameShape_iff, sameShape_iff, ← every_plain_shape, ← every_plain_shape a, left, right]

theorem outline_eq_of_sameShape (same : a.sameShape b = true) : a.outline = b.outline := by
  rw [← outline_shape a, ((sameShape_iff a b).1 same).1, outline_shape]

theorem not_hasNaN_of_program {source : Source} {limit : Nat} {program : Node Position}
    (compiled : source.program limit = .ok program) : ¬ program.HasNaN := by
  rintro ⟨m, x, below, wrong⟩
  exact absurd wrong (by rw [isNaN_of_program compiled below]; decide)

/-- Having the same shape is symmetric, transitive, and reflexive on trees without NaN, those of a text among them.
It depends on no mark, and it keeps the outline. -/
theorem sameShape_laws {S T : Type} (a : Node P) (b : Node Q) (c : Node R) :
    a.sameShape b = b.sameShape a ∧
      (a.sameShape b = true → b.sameShape c = true → a.sameShape c = true) ∧
      (a.sameShape a = true ↔ ¬ a.HasNaN) ∧
      (∀ (source : Source) (limit : Nat) (program : Node Position),
        source.program limit = .ok program → program.sameShape program = true) ∧
      (∀ (a' : Node S) (b' : Node T), a'.unmarked = a.unmarked → b'.unmarked = b.unmarked →
        a'.sameShape b' = a.sameShape b) ∧
      (a.sameShape b = true → a.outline = b.outline) :=
  ⟨Bool.eq_iff_iff.2 ⟨sameShape_symm, sameShape_symm⟩, sameShape_trans, sameShape_self_iff,
    fun _ _ _ compiled => sameShape_self_iff.2 (not_hasNaN_of_program compiled),
    fun _ _ one two => sameShape_congr one two, outline_eq_of_sameShape⟩

theorem sameShape_laws_zeros :
    let tree (value : Float) (place : Nat) (shown : Bool) : Node Nat :=
      let mark : Mark Nat := ⟨.point place, shown⟩
      .choice mark [(.literal mark (.boolean true), .scope mark "if" true
        [.binary mark (.literal mark (.number value)) ⟨.plus, none, mark.span⟩ (.retrieval mark lastResult)])]
    let source : Source := ⟨"text", "if true \x7b0 + $\x7d"⟩
    (tree 0 1 true).sameShape (tree (-0) 2 false) = true ∧ (tree (-0) 2 false).sameShape (tree 0 1 true) = true ∧
      (tree 0 1 true).sameShape (tree 0 3 true) = true ∧
      (tree 0 1 true).outline = (tree (-0) 2 false).outline ∧
      (tree notANumber 4 true).sameShape (tree notANumber 4 true) = false ∧ (tree notANumber 4 true).HasNaN ∧
      (∃ program, source.program 3 = .ok program ∧ program.sameShape program = true) ∧
      (tree 0 5 false).unmarked = (tree 0 1 true).unmarked ∧
      (tree 0 5 false).sameShape (tree (-0) 6 true) = (tree 0 1 true).sameShape (tree (-0) 2 false) := by
  intro tree source
  obtain ⟨flips, joins, _, compiles, remarks, keeps⟩ :=
    sameShape_laws (S := Nat) (T := Nat) (tree 0 1 true) (tree (-0) 2 false) (tree 0 3 true)
  have wrong : (tree notANumber 4 true).sameShape (tree notANumber 4 true) = false := by decide +kernel
  have itself := (sameShape_laws (S := Nat) (T := Nat) (tree notANumber 4 true) (tree 0 1 true) (tree 0 1 true)).2.2.1
  have first : (tree 0 1 true).sameShape (tree (-0) 2 false) = true := by decide +kernel
  have second : (tree (-0) 2 false).sameShape (tree 0 3 true) = true := by decide +kernel
  obtain ⟨program, compiled⟩ := blame_eq_none.1 (by decide +kernel : blame (source.program 3) = none)
  have differs : ¬ (tree notANumber 4 true).sameShape (tree notANumber 4 true) = true := by rw [wrong]; decide
  exact ⟨first, flips ▸ first, joins first second, keeps first, wrong, not_not.1 (mt itself.2 differs),
    ⟨program, compiled, compiles source 3 program compiled⟩, rfl, remarks _ _ rfl rfl⟩

end Reckon
