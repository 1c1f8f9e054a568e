import Reckon.Proofs.Grammar.Derivation
import Reckon.Proofs.Parts

set_option autoImplicit false

/-!
# What is in a tree

The numbers of a tree are those of tokens that it was read from, and no scope of it is empty.
-/

namespace Reckon

variable {P : Type} {tokens before after : List (Token P)}

open Reckon.Parser Reckon.Grammar

def Node.Grounded (tokens : List (Token P)) : Node P → Prop
  | literal _ (.number value) => ∃ token ∈ tokens, token.kind = .number ∧ value = token.number
  | scope _ _ _ statements => statements ≠ []
  | _ => True

namespace Grammar

open Reckon.Node

theorem grounded_silenced {node : Node P} (grounded : node.Grounded tokens) : node.silenced.Grounded tokens := by
  cases node with
  | literal mark value => cases value <;> exact grounded
  | _ => exact grounded

abbrev AllGrounded (tokens : List (Token P)) (node : Node P) : Prop := node.Every (Node.Grounded tokens)

structure GroundedBranch (tokens : List (Token P)) (branch : Node P × Node P) : Prop where
  test : AllGrounded tokens branch.1
  body : AllGrounded tokens branch.2

def Phrase.Grounded (tokens : List (Token P)) : Phrase P → Prop
  | .expression _ tree | .statement tree | .block _ _ tree => AllGrounded tokens tree
  | .operands _ left tree => AllGrounded tokens left → AllGrounded tokens tree
  | .sequence _ statements => ∀ statement ∈ statements, AllGrounded tokens statement
  | .thenBranches branches | .blockBranches branches => ∀ branch ∈ branches, GroundedBranch tokens branch

theorem grounded_number {token : Token P} (member : token ∈ tokens) (kind : token.kind = .number) :
    AllGrounded tokens (mkLiteral (.number token.number) token.span) :=
  every_of_children ⟨token, member, kind, rfl⟩ (by simp [mkLiteral, children])

theorem grounded_null (span : Span P) : AllGrounded tokens (mkLiteral .null span) :=
  every_of_children trivial (by simp [mkLiteral, children])

theorem grounded_always (word : Token P) : AllGrounded tokens (always word) :=
  every_of_children trivial (by simp [always, mkLiteral, children])

theorem grounded_mkUnary {operand : Node P} (inner : AllGrounded tokens operand) (operator : Token P) :
    AllGrounded tokens (mkUnary operator operand) :=
  every_of_children trivial (by simpa [mkUnary, children] using inner)

theorem grounded_mkAssignment {value : Node P} (inner : AllGrounded tokens value) (name : Token P) :
    AllGrounded tokens (mkAssignment name value) :=
  every_of_children trivial (by simpa [mkAssignment, children] using inner)

theorem grounded_scopeOf {statements : List (Node P)}
    (inner : ∀ statement ∈ statements, AllGrounded tokens statement) (name : String) (boundary : Bool)
    (next : Token P) : AllGrounded tokens (scopeOf name boundary next statements) := by
  refine every_of_children (List.cons_ne_nil _ _) ?_
  -- Where there is no statement a null stands for one.
  cases statements with
  | nil => exact List.forall_mem_singleton.2 (grounded_null _)
  | cons first rest => exact inner

theorem grounded_branches {condition body : Node P} {branches : List (Node P × Node P)}
    (one : AllGrounded tokens condition) (two : AllGrounded tokens body)
    (others : ∀ branch ∈ branches, GroundedBranch tokens branch) :
    ∀ branch ∈ (condition, body) :: branches, GroundedBranch tokens branch :=
  List.forall_mem_cons.2 ⟨⟨one, two⟩, others⟩

theorem grounded_mkChoice {branches : List (Node P × Node P)}
    (inner : ∀ branch ∈ branches, GroundedBranch tokens branch) (start : P) :
    AllGrounded tokens (mkChoice start branches) := by
  refine every_of_children trivial fun child member => ?_
  obtain ⟨branch, chosen, either⟩ := List.mem_flatMap.1 member
  simp only [List.mem_cons, List.not_mem_nil, or_false] at either
  rcases either with rfl | rfl
  · exact (inner branch chosen).test
  · exact (inner branch chosen).body

theorem Reads.grounded {phrase : Phrase P} (reads : Reads phrase before after) (inside : before <:+ tokens) :
    phrase.Grounded tokens := by
  -- A phrase is read from a suffix of the tokens, and so is every part of it.
  induction reads with
  | number kind => exact grounded_number (inside.subset (by simp)) kind
  | name => exact every_of_children trivial (by simp [mkRetrieval, children])
  | group _ _ _ ih => exact ih (suffix_tail inside)
  | negation _ _ ih | complement _ _ ih =>
    exact grounded_mkUnary (ih (suffix_tail inside)) _
  | fold _ first _ one others => exact others (first.suffix.trans inside) (one inside)
  | noOperand => exact id
  | operand _ first _ one others =>
    have behind := suffix_tail inside
    exact fun left => others (first.suffix.trans behind)
      (every_of_children trivial (by simpa [mkBinary, children] using ⟨left, one behind⟩))
  | expression _ ih | bareBlock _ ih => exact ih inside
  | assignment _ _ _ _ ih =>
    exact grounded_mkAssignment (ih (suffix_tail (suffix_tail (suffix_tail inside)))) _
  | thenForm _ test _ first _ one two more =>
    have behind := suffix_tail inside
    have middle := suffix_tail (test.suffix.trans behind)
    exact grounded_mkChoice (grounded_branches (one behind) (two middle) (more (first.suffix.trans middle))) _
  | blockForm _ test first _ one two more =>
    have behind := suffix_tail inside
    have middle := test.suffix.trans behind
    exact grounded_mkChoice (grounded_branches (one behind) (two middle) (more (first.suffix.trans middle))) _
  | forLoop _ _ init _ test _ increment _ _ one two three four =>
    have first := suffix_tail (suffix_tail inside)
    have second := suffix_tail (init.suffix.trans first)
    have third := suffix_tail (test.suffix.trans second)
    have fourth := suffix_tail (increment.suffix.trans third)
    exact every_of_children trivial
      (by simpa [mkFor, children] using ⟨one first, two second, three third, four fourth⟩)
  | whileLoop _ test _ one two =>
    have behind := suffix_tail inside
    exact every_of_children trivial
      (by simpa [mkWhile, children] using ⟨one behind, two (test.suffix.trans behind)⟩)
  | doLoop _ round _ _ _ one two =>
    have behind := suffix_tail inside
    have last := suffix_tail ((List.suffix_append _ _).trans (round.suffix.trans behind))
    exact every_of_children trivial (by simpa [mkWhile, children] using ⟨two last, one behind⟩)
  | block _ _ _ ih => exact grounded_scopeOf (ih (suffix_tail inside)) _ _ _
  | finished => exact List.forall_mem_nil _
  | separator _ _ ih => exact ih (suffix_tail inside)
  | hidden first _ _ one others =>
    exact List.forall_mem_cons.2
      ⟨(one inside).silenced grounded_silenced, others (suffix_tail (first.suffix.trans inside))⟩
  | shown first _ _ one others =>
    exact List.forall_mem_cons.2 ⟨one inside, others (suffix_tail (first.suffix.trans inside))⟩
  | final _ _ one => exact List.forall_mem_singleton.2 (one inside)
  | noThen | noBlock => exact List.forall_mem_nil _
  | elifThen _ test _ first _ one two more =>
    have behind := suffix_tail inside
    have middle := suffix_tail (test.suffix.trans behind)
    exact grounded_branches (one behind) (two middle) (more (first.suffix.trans middle))
  | elseThen _ _ one => exact List.forall_mem_singleton.2 ⟨grounded_always _, one (suffix_tail inside)⟩
  | elifBlock _ _ test first _ one two more =>
    have behind := suffix_tail ((List.suffix_append _ _).trans inside)
    have middle := test.suffix.trans behind
    exact grounded_branches (one behind) (two middle) (more (first.suffix.trans middle))
  | elseBlock _ _ _ one =>
    exact List.forall_mem_singleton.2
      ⟨grounded_always _, one (suffix_tail ((List.suffix_append _ _).trans inside))⟩

end Grammar

theorem ofTokens_reads [Inhabited P] {limit : Nat} {program : Node P} (parsed : Node.ofTokens limit tokens = .ok program) :
    ∃ list, Reads (.sequence .endOfText list) (beforeEnd tokens) [] ∧
      program = scopeOf "global" false (endToken tokens) list := by
  unfold Node.ofTokens at parsed
  rw [parse_eq, outcome_program] at parsed
  cases read : outcome (sequence (nested limit limit) .endOfText) (endToken tokens) (beforeEnd tokens) with
  | error fault =>
    rw [read] at parsed
    cases parsed
  | ok pair =>
    obtain ⟨list, rest⟩ := pair
    obtain ⟨phrase, rfl⟩ :=
      outcome_sequence_ends (fun token member => text_of_beforeEnd member) (kind_endToken tokens) read
    rw [read] at parsed
    cases parsed
    exact ⟨list, phrase, rfl⟩

theorem ofTokens_grounded [Inhabited P] {limit : Nat} {program : Node P}
    (parsed : Node.ofTokens limit tokens = .ok program) : AllGrounded (beforeEnd tokens) program := by
  obtain ⟨list, reads, rfl⟩ := ofTokens_reads parsed
  exact grounded_scopeOf (reads.grounded (List.suffix_refl _)) _ _ _

end Reckon
