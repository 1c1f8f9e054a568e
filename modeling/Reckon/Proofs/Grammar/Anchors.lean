import Reckon.Proofs.Grammar.Extent
import Reckon.Proofs.Token.Spelling

set_option autoImplicit false

/-!
# What trees take from tokens

Operators and names in a tree are those of tokens that it was read from, and a condition reaches from one
of these tokens to a later one.
-/

namespace Reckon

variable {P : Type} {tokens before after : List (Token P)}

open Reckon.Grammar

/-- What an evaluation of the node itself can blame is at these tokens. -/
def Node.Anchored (tokens : List (Token P)) : Node P → Prop
  | binary _ _ operator _ | unary _ operator _ => operator ∈ tokens ∧ operator.kind.mark?.isSome = true
  | retrieval mark name => ∃ token ∈ tokens, (token.kind = .identifier ∨ token.kind = .last) ∧
    mark.span = token.span ∧ name = token.name
  | node => ∀ condition ∈ node.conditions, Covers tokens [] condition.span

namespace Grammar

open Reckon.Node

theorem anchored_silenced {node : Node P} (anchored : node.Anchored tokens) : node.silenced.Anchored tokens := by
  cases node with
  | retrieval mark name => exact anchored
  | _ => exact anchored

abbrev AllAnchored (tokens : List (Token P)) (node : Node P) : Prop := node.Every (Node.Anchored tokens)

structure AnchoredBranch (tokens : List (Token P)) (branch : Node P × Node P) : Prop where
  test : AllAnchored tokens branch.1
  body : AllAnchored tokens branch.2
  covers : Covers tokens [] branch.1.span

def Phrase.Anchored (tokens : List (Token P)) : Phrase P → Prop
  | .expression _ tree | .statement tree | .block _ _ tree => AllAnchored tokens tree
  | .operands _ left tree => AllAnchored tokens left → AllAnchored tokens tree
  | .sequence _ statements => ∀ statement ∈ statements, AllAnchored tokens statement
  | .thenBranches branches | .blockBranches branches => ∀ branch ∈ branches, AnchoredBranch tokens branch

theorem mark?_operators {rank : Rank} {kind : Kind} (member : kind ∈ rank.operators) : kind.mark?.isSome = true := by
  have table : ∀ rank : Rank, ∀ kind ∈ rank.operators, kind.mark?.isSome = true := by
    intro rank
    cases rank <;> decide
  exact table rank kind member

theorem anchored_literal (value : Value) (span : Span P) : AllAnchored tokens (mkLiteral value span) :=
  every_of_children (by simp [mkLiteral, Node.Anchored, conditions]) (by simp [mkLiteral, children])

theorem anchored_mkRetrieval {token : Token P} (member : token ∈ tokens)
    (kind : token.kind = .identifier ∨ token.kind = .last) : AllAnchored tokens (mkRetrieval token) :=
  every_of_children ⟨token, member, kind, rfl, rfl⟩ (by simp [mkRetrieval, children])

theorem anchored_mkUnary {operator : Token P} {operand : Node P} (member : operator ∈ tokens)
    (mark : operator.kind.mark?.isSome = true) (inner : AllAnchored tokens operand) :
    AllAnchored tokens (mkUnary operator operand) :=
  every_of_children ⟨member, mark⟩ (by simpa [mkUnary, children] using inner)

theorem anchored_mkBinary {left right : Node P} {operator : Token P} (member : operator ∈ tokens)
    (mark : operator.kind.mark?.isSome = true) (one : AllAnchored tokens left) (two : AllAnchored tokens right) :
    AllAnchored tokens (mkBinary left operator right) :=
  every_of_children ⟨member, mark⟩ (by simpa [mkBinary, children] using ⟨one, two⟩)

theorem anchored_mkAssignment {value : Node P} (inner : AllAnchored tokens value) (name : Token P) :
    AllAnchored tokens (mkAssignment name value) :=
  every_of_children (by simp [mkAssignment, Node.Anchored, conditions])
    (by simpa [mkAssignment, children] using inner)

theorem anchored_mkChoice {branches : List (Node P × Node P)}
    (inner : ∀ branch ∈ branches, AnchoredBranch tokens branch) (start : P) :
    AllAnchored tokens (mkChoice start branches) := by
  refine every_of_children ?_ fun child member => ?_
  · intro condition member
    obtain ⟨branch, chosen, rfl⟩ := List.mem_map.1 member
    exact (inner branch chosen).covers
  · obtain ⟨branch, chosen, either⟩ := List.mem_flatMap.1 member
    simp only [List.mem_cons, List.not_mem_nil, or_false] at either
    rcases either with rfl | rfl
    · exact (inner branch chosen).test
    · exact (inner branch chosen).body

theorem anchored_mkWhile {condition body : Node P} (test : AllAnchored tokens condition)
    (covers : Covers tokens [] condition.span) (round : AllAnchored tokens body) (start : P) (bodyFirst : Bool) :
    AllAnchored tokens (mkWhile start bodyFirst condition body) :=
  every_of_children (by simpa [mkWhile, Node.Anchored, conditions] using covers)
    (by simpa [mkWhile, children] using ⟨test, round⟩)

theorem anchored_mkFor {start condition step body : Node P} (first : AllAnchored tokens start)
    (test : AllAnchored tokens condition) (covers : Covers tokens [] condition.span)
    (next : AllAnchored tokens step) (round : AllAnchored tokens body) (word : P) :
    AllAnchored tokens (mkFor word start condition step body) :=
  every_of_children (by simpa [mkFor, Node.Anchored, conditions] using covers)
    (by simpa [mkFor, children] using ⟨first, test, next, round⟩)

theorem anchored_scopeOf {statements : List (Node P)}
    (inner : ∀ statement ∈ statements, AllAnchored tokens statement) (name : String) (boundary : Bool)
    (next : Token P) : AllAnchored tokens (scopeOf name boundary next statements) := by
  refine every_of_children (by simp [scopeOf, mkScope, Node.Anchored, conditions]) ?_
  cases statements with
  | nil => exact List.forall_mem_singleton.2 (anchored_literal _ _)
  | cons first rest => exact inner

theorem Reads.condition_covers {condition : Node P} (reads : Reads (.expression .logical condition) before after)
    (inside : before <:+ tokens) : Covers tokens [] condition.span :=
  Covers.mono reads.extends inside (List.nil_suffix)

theorem anchored_branches {condition body : Node P} {branches : List (Node P × Node P)}
    (test : Reads (.expression .logical condition) before after) (inside : before <:+ tokens)
    (one : AllAnchored tokens condition) (two : AllAnchored tokens body)
    (others : ∀ branch ∈ branches, AnchoredBranch tokens branch) :
    ∀ branch ∈ (condition, body) :: branches, AnchoredBranch tokens branch :=
  List.forall_mem_cons.2 ⟨⟨one, two, test.condition_covers inside⟩, others⟩

theorem always_anchored {word : Token P} (inside : word :: before <:+ tokens) {body : Node P}
    (anchored : AllAnchored tokens body) : ∀ branch ∈ [(always word, body)], AnchoredBranch tokens branch :=
  List.forall_mem_singleton.2
    ⟨anchored_literal _ _, anchored, (covers_token word before).mono inside (List.nil_suffix)⟩

theorem Reads.anchored {phrase : Phrase P} (reads : Reads phrase before after) (inside : before <:+ tokens) :
    phrase.Anchored tokens := by
  induction reads with
  | number => exact anchored_literal _ _
  | name kind => exact anchored_mkRetrieval (inside.subset (by simp)) kind
  | group _ _ _ ih => exact ih (suffix_tail inside)
  | negation kind _ ih | complement kind _ ih =>
    exact anchored_mkUnary (inside.subset (by simp)) (by simp [kind, Kind.mark?]) (ih (suffix_tail inside))
  | fold _ first _ one others => exact others (first.suffix.trans inside) (one inside)
  | noOperand => exact id
  | operand kind first _ one others =>
    have behind := suffix_tail inside
    exact fun left => others (first.suffix.trans behind)
      (anchored_mkBinary (inside.subset (by simp)) (mark?_operators kind) left (one behind))
  | expression _ ih | bareBlock _ ih => exact ih inside
  | assignment _ _ _ _ ih => exact anchored_mkAssignment (ih (suffix_tail (suffix_tail (suffix_tail inside)))) _
  | thenForm _ test _ first _ one two more =>
    have behind := suffix_tail inside
    have middle := suffix_tail (test.suffix.trans behind)
    exact anchored_mkChoice
      (anchored_branches test behind (one behind) (two middle) (more (first.suffix.trans middle))) _
  | blockForm _ test first _ one two more =>
    have behind := suffix_tail inside
    have middle := test.suffix.trans behind
    exact anchored_mkChoice
      (anchored_branches test behind (one behind) (two middle) (more (first.suffix.trans middle))) _
  | forLoop _ _ init _ test _ increment _ _ one two three four =>
    have first := suffix_tail (suffix_tail inside)
    have second := suffix_tail (init.suffix.trans first)
    have third := suffix_tail (test.suffix.trans second)
    exact anchored_mkFor (one first) (two second) (test.condition_covers second) (three third)
      (four (suffix_tail (increment.suffix.trans third))) _
  | whileLoop _ test _ one two =>
    have behind := suffix_tail inside
    exact anchored_mkWhile (one behind) (test.condition_covers behind) (two (test.suffix.trans behind)) _ _
  | doLoop _ round _ _ test one two =>
    have behind := suffix_tail inside
    have last := suffix_tail ((List.suffix_append _ _).trans (round.suffix.trans behind))
    exact anchored_mkWhile (two last) (test.condition_covers last) (one behind) _ _
  | block _ _ _ ih => exact anchored_scopeOf (ih (suffix_tail inside)) _ _ _
  | finished => exact List.forall_mem_nil _
  | separator _ _ ih => exact ih (suffix_tail inside)
  | hidden first _ _ one others =>
    exact List.forall_mem_cons.2
      ⟨(one inside).silenced anchored_silenced, others (suffix_tail (first.suffix.trans inside))⟩
  | shown first _ _ one others =>
    exact List.forall_mem_cons.2 ⟨one inside, others (suffix_tail (first.suffix.trans inside))⟩
  | final _ _ one => exact List.forall_mem_singleton.2 (one inside)
  | noThen | noBlock => exact List.forall_mem_nil _
  | elifThen _ test _ first _ one two more =>
    have behind := suffix_tail inside
    have middle := suffix_tail (test.suffix.trans behind)
    exact anchored_branches test behind (one behind) (two middle) (more (first.suffix.trans middle))
  | elseThen _ _ one => exact always_anchored inside (one (suffix_tail inside))
  | elifBlock _ _ test first _ one two more =>
    have behind := suffix_tail ((List.suffix_append _ _).trans inside)
    have middle := test.suffix.trans behind
    exact anchored_branches test behind (one behind) (two middle) (more (first.suffix.trans middle))
  | elseBlock _ _ _ one =>
    have word := (List.suffix_append _ _).trans inside
    exact always_anchored word (one (suffix_tail word))

end Grammar

end Reckon
