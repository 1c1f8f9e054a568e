import Reckon.Proofs.Grammar.Extent
import Reckon.Proofs.Names
import Reckon.Proofs.Token.Lossless

set_option autoImplicit false

/-!
# Spans nest

The stretches of text that the nodes of a tree stand for are nested as the nodes are, and the children of
a node stand one behind the other.
-/

namespace Reckon

open Reckon.Grammar

variable {tokens before middle later after : List (Token Position)} {first second : Span Position}
  {node : Node Position} {list rest : List (Node Position)}

def Node.inOrder {P : Type} : Node P → List (Node P)
  -- This loop ends with its condition.
  | whileLoop _ true condition body => [body, condition]
  | node => node.children

/-- What stands for the program where a text has no statement. -/
def Source.placeholder (source : Source) : Node Position :=
  .mkLiteral .null (.point (source.position source.text.toList.length))

/-- The node stands for some text, its children for parts of it one behind the other. -/
structure Node.Encloses (node : Node Position) : Prop where
  wide : node.span.start.index < node.span.stop.index
  inside : ∀ child ∈ node.children,
    node.span.start.index ≤ child.span.start.index ∧ child.span.stop.index ≤ node.span.stop.index
  apart : node.inOrder.Pairwise fun first second => first.span.stop.index ≤ second.span.start.index

/-- The same, but for a node that stands for no text as nothing is in it but the placeholder at the end. -/
structure Node.SpansNest (source : Source) (node : Node Position) : Prop where
  forward : node.span.start.index ≤ node.span.stop.index
  wide : node.span.start.index < node.span.stop.index ∨
    node.span = source.placeholder.span ∧ Part (fun _ => true) source.placeholder node
  inside : ∀ child ∈ node.children,
    node.span.start.index ≤ child.span.start.index ∧ child.span.stop.index ≤ node.span.stop.index
  apart : node.inOrder.Pairwise fun first second => first.span.stop.index ≤ second.span.start.index

theorem Node.Encloses.spansNest (encloses : node.Encloses) (source : Source) : node.SpansNest source :=
  ⟨Nat.le_of_lt encloses.wide, .inl encloses.wide, encloses.inside, encloses.apart⟩

theorem Node.Encloses.silenced (encloses : node.Encloses) : node.silenced.Encloses where
  wide := by
    rw [span_silenced]
    exact encloses.wide
  inside := by
    rw [span_silenced, children_silenced]
    exact encloses.inside
  apart := by
    have same : node.silenced.inOrder = node.inOrder := by
      cases node with
      | whileLoop mark bodyFirst => cases bodyFirst <;> rfl
      | _ => rfl
    rw [same]
    exact encloses.apart

theorem Node.mem_inOrder {P : Type} {node child : Node P} : child ∈ node.inOrder ↔ child ∈ node.children := by
  cases node with
  | whileLoop mark bodyFirst condition body => cases bodyFirst <;> simp [inOrder, children, or_comm]
  | _ => rfl

structure Spaced (tokens : List (Token Position)) : Prop where
  nonempty : ∀ token ∈ tokens, token.span.start.index < token.span.stop.index
  ordered : tokens.Pairwise fun first second => first.span.stop.index ≤ second.span.start.index

theorem Spaced.suffix (spaced : Spaced tokens) (inside : before <:+ tokens) : Spaced before where
  nonempty := fun token member => spaced.nonempty token (inside.subset member)
  ordered := spaced.ordered.sublist inside.sublist

namespace Grammar

theorem Covers.wide (covers : Covers before after first) (spaced : Spaced before) :
    first.start.index < first.stop.index := by
  obtain ⟨taken, start, stop, rfl, order, rfl⟩ := covers
  have wide := spaced.nonempty
  rcases order with ⟨rfl, member⟩ | pair
  · exact wide start (List.mem_append_left _ member)
  · have inside := pair.trans (List.sublist_append_left taken after)
    have apart := List.pairwise_iff_forall_sublist.1 spaced.ordered inside
    have starts := wide start (inside.subset (by simp))
    have stops := wide stop (inside.subset (by simp))
    change start.span.start.index < stop.span.stop.index
    omega

theorem Covers.apart (one : Covers before middle first) (two : Covers middle after second) (spaced : Spaced before) :
    first.stop.index ≤ second.start.index := by
  obtain ⟨taken, _, stop, rfl, order, rfl⟩ := one
  obtain ⟨rest, start, _, rfl, order', rfl⟩ := two
  have stops : stop ∈ taken := by
    rcases order with ⟨rfl, member⟩ | pair
    · exact member
    · exact pair.subset (by simp)
  have starts : start ∈ rest ++ after := by
    rcases order' with ⟨_, member⟩ | pair
    · exact List.mem_append_left _ member
    · exact List.mem_append_left _ (pair.subset (by simp))
  exact (List.pairwise_append.1 spaced.ordered).2.2 stop stops start starts

/-- Nodes that stand for stretches of the tokens one behind the other. -/
inductive Laid : List (Token Position) → List (Token Position) → List (Node Position) → Prop where
  | nil {before after : List (Token Position)} (suffix : after <:+ before) : Laid before after []
  | cons {before middle after : List (Token Position)} {node : Node Position} {rest : List (Node Position)}
    (one : Covers before middle node.span) (others : Laid middle after rest) : Laid before after (node :: rest)

theorem Covers.laid (covers : Covers before after node.span) : Laid before after [node] :=
  .cons covers (.nil (List.suffix_refl after))

theorem Laid.front (laid : Laid middle after list) (suffix : middle <:+ before) : Laid before after list := by
  cases laid with
  | nil inner => exact .nil (inner.trans suffix)
  | cons one others => exact .cons (one.front suffix) others

theorem Covers.suffix {P : Type} {before after : List (Token P)} {span : Span P} (covers : Covers before after span) :
    after <:+ before := by
  obtain ⟨taken, _, _, rfl, _⟩ := covers
  exact List.suffix_append taken after

theorem Laid.suffix (laid : Laid before after list) : after <:+ before := by
  induction laid with
  | nil suffix => exact suffix
  | cons one _ ih => exact ih.trans one.suffix

theorem Laid.append (one : Laid before middle list) (two : Laid middle after rest) :
    Laid before after (list ++ rest) := by
  induction one with
  | nil suffix => exact two.front suffix
  | cons first _ ih => exact .cons first (ih two)

theorem Laid.behind (laid : Laid middle after list) (covers : Covers before middle first) (spaced : Spaced before) :
    ∀ node ∈ list, first.stop.index ≤ node.span.start.index := by
  induction laid generalizing first before with
  | nil => exact List.forall_mem_nil _
  | cons one others ih =>
    refine List.forall_mem_cons.2 ⟨covers.apart one spaced, fun node member => ?_⟩
    have next := ih (one.front covers.suffix) spaced node member
    have wide := one.wide (spaced.suffix covers.suffix)
    have apart := covers.apart one spaced
    omega

theorem Laid.apart (laid : Laid before after list) (spaced : Spaced before) :
    list.Pairwise fun first second => first.span.stop.index ≤ second.span.start.index := by
  induction laid with
  | nil => exact .nil
  | cons one others ih => exact .cons (others.behind one spaced) (ih (spaced.suffix one.suffix))

theorem Laid.wide (laid : Laid before after list) (spaced : Spaced before) :
    ∀ node ∈ list, node.span.start.index < node.span.stop.index := by
  induction laid with
  | nil => exact List.forall_mem_nil _
  | cons one _ ih => exact List.forall_mem_cons.2 ⟨one.wide spaced, ih (spaced.suffix one.suffix)⟩

theorem Laid.between (laid : Laid before after list) (spaced : Spaced before) {start stop : Nat}
    (starts : ∀ first ∈ list.head?, start ≤ first.span.start.index)
    (stops : ∀ last ∈ list.getLast?, last.span.stop.index ≤ stop) :
    ∀ node ∈ list, start ≤ node.span.start.index ∧ node.span.stop.index ≤ stop := by
  have apart := laid.apart spaced
  have wide := laid.wide spaced
  intro node member
  constructor
  · cases list with
    | nil => cases member
    | cons first rest =>
      have least := starts first rfl
      rcases List.mem_cons.1 member with rfl | behind
      · exact least
      · have next := (List.pairwise_cons.1 apart).1 node behind
        have own := wide first List.mem_cons_self
        omega
  · rcases List.eq_nil_or_concat list with rfl | ⟨front, last, rfl⟩
    · cases member
    · have most := stops last (by simp)
      rcases List.mem_append.1 (List.concat_eq_append ▸ member) with ahead | same
      · have next := (List.pairwise_append.1 (List.concat_eq_append ▸ apart)).2.2 node ahead last (by simp)
        have own := wide last (by simp)
        omega
      · cases List.mem_singleton.1 same
        exact most

theorem Laid.encloses (laid : Laid before after node.inOrder) (spaced : Spaced before)
    (wide : node.span.start.index < node.span.stop.index)
    (starts : ∀ first ∈ node.inOrder.head?, node.span.start.index ≤ first.span.start.index)
    (stops : ∀ last ∈ node.inOrder.getLast?, last.span.stop.index ≤ node.span.stop.index) : node.Encloses where
  wide := wide
  inside := fun child member => laid.between spaced starts stops child (Node.mem_inOrder.2 member)
  apart := laid.apart spaced

abbrev AllNest (node : Node Position) : Prop := node.Every Node.Encloses

structure Rows (before after : List (Token Position)) (list : List (Node Position)) : Prop where
  laid : Laid before after list
  nest : ∀ node ∈ list, AllNest node

namespace Rows

variable {start last : Node Position} {word : Token Position}

theorem nil (suffix : after <:+ before) : Rows before after [] := ⟨.nil suffix, List.forall_mem_nil _⟩

theorem cons (covers : Covers before middle node.span) (nest : AllNest node) (others : Rows middle after rest) :
    Rows before after (node :: rest) :=
  ⟨.cons covers others.laid, List.forall_mem_cons.2 ⟨nest, others.nest⟩⟩

theorem single (covers : Covers before after node.span) (nest : AllNest node) : Rows before after [node] :=
  cons covers nest (nil (List.suffix_refl after))

theorem front (rows : Rows middle after list) (suffix : middle <:+ before) : Rows before after list :=
  ⟨rows.laid.front suffix, rows.nest⟩

theorem through (rows : Rows before after node.inOrder) (spaced : Spaced before) (starts : node.inOrder.head? = some start)
    (stops : node.inOrder.getLast? = some last) (same : node.span = start.span.through last.span) : AllNest node := by
  have least : ∀ first ∈ node.inOrder.head?, node.span.start.index ≤ first.span.start.index := by
    intro first head
    cases starts.symm.trans head
    rw [same]
    exact Nat.le_refl _
  have most : ∀ final ∈ node.inOrder.getLast?, final.span.stop.index ≤ node.span.stop.index := by
    intro final back
    cases stops.symm.trans back
    rw [same]
    exact Nat.le_refl _
  have member := List.mem_of_head? starts
  have between := rows.laid.between spaced least most start member
  have wide := rows.laid.wide spaced start member
  refine Node.every_of_children (rows.laid.encloses spaced (by omega) least most) fun child inside => ?_
  exact rows.nest child (Node.mem_inOrder.2 inside)

theorem headed (rows : Rows before after node.inOrder) (spaced : Spaced (word :: before))
    (stops : node.inOrder.getLast? = some last) (same : node.span = word.span.through last.span) : AllNest node := by
  have behind := rows.laid.behind (covers_token word before) spaced
  have wide := (covers_token word before).wide spaced
  have least : ∀ first ∈ node.inOrder.head?, node.span.start.index ≤ first.span.start.index := by
    intro first head
    have next := behind first (List.mem_of_head? head)
    rw [same]
    exact Nat.le_of_lt (Nat.lt_of_lt_of_le wide next)
  have most : ∀ final ∈ node.inOrder.getLast?, final.span.stop.index ≤ node.span.stop.index := by
    intro final back
    cases stops.symm.trans back
    rw [same]
    exact Nat.le_refl _
  have own := spaced.suffix (List.suffix_cons word before)
  have member := List.mem_of_getLast? stops
  have between := rows.laid.between own least most last member
  have filled := rows.laid.wide own last member
  refine Node.every_of_children (rows.laid.encloses own (by omega) least most) fun child inside => ?_
  exact rows.nest child (Node.mem_inOrder.2 inside)

end Rows

def inRow (branches : List (Node Position × Node Position)) : List (Node Position) :=
  branches.flatMap fun branch => [branch.1, branch.2]

theorem getLast?_inRow (branches : List (Node Position × Node Position)) :
    (inRow branches).getLast? = branches.getLast?.map Prod.snd := by
  rcases List.eq_nil_or_concat branches with rfl | ⟨front, last, rfl⟩
  · rfl
  · simp [inRow]

theorem allNest_leaf (wide : node.span.start.index < node.span.stop.index) (leaf : node.inOrder = [])
    (none : node.children = []) : AllNest node :=
  Node.every_of_children ⟨wide, by simp [none], by simp [leaf]⟩ (by simp [none])

theorem allNest_mkChoice {word : Token Position} {branch : Node Position × Node Position}
    {branches : List (Node Position × Node Position)} (rows : Rows before after (inRow (branch :: branches)))
    (spaced : Spaced (word :: before)) : AllNest (.mkChoice word.span.start (branch :: branches)) := by
  have ends : (inRow (branch :: branches)).getLast? = some (branches.getLast?.getD branch).2 :=
    (getLast?_inRow _).trans (by simp [List.getLast?_cons])
  refine Rows.headed rows spaced ends ?_
  simp [Node.mkChoice, Node.span, Node.mark, Span.through, List.getLast?_cons]

theorem allNest_scopeOf {closing : Token Position} {statements : List (Node Position)}
    (rows : Rows before (closing :: after) statements) (spaced : Spaced before) (name : String) (boundary : Bool)
    (suffix : closing :: after <:+ before) : AllNest (scopeOf name boundary closing statements) := by
  cases statements with
  | nil =>
    -- The null stands at the brace that closes the block.
    have covers : Covers (closing :: after) after (Node.mkLiteral .null closing.span).span := covers_token closing after
    have wide := covers.wide (spaced.suffix suffix)
    exact Rows.through (Rows.single covers (allNest_leaf wide rfl rfl)) (spaced.suffix suffix) rfl rfl rfl
  | cons first rest =>
    exact Rows.through rows spaced rfl (List.getLast?_eq_some_getLast (List.cons_ne_nil first rest)) rfl

theorem rows_always {word : Token Position} {body : Node Position} (covers : Covers before after body.span)
    (nest : AllNest body) (spaced : Spaced (word :: before)) :
    Rows (word :: before) after (inRow [(always word, body)]) := by
  have test := covers_token word before
  exact .cons test (allNest_leaf (test.wide spaced) rfl rfl) (.single covers nest)

def Phrase.Nest (tokens before after : List (Token Position)) : Phrase Position → Prop
  | .expression _ tree | .statement tree | .block _ _ tree => AllNest tree
  | .operands _ left tree =>
    ∀ front, front <:+ tokens → Covers front before left.span → AllNest left → AllNest tree
  | .sequence _ statements => Rows before after statements
  | .thenBranches branches | .blockBranches branches => Rows before after (inRow branches)

theorem Reads.nests {phrase : Phrase Position} (reads : Reads phrase before after) (spaced : Spaced tokens)
    (inside : before <:+ tokens) : phrase.Nest tokens before after := by
  induction reads with
  | number | name => exact allNest_leaf ((covers_token _ _).wide (spaced.suffix inside)) rfl rfl
  | group _ _ _ ih => exact ih (suffix_tail inside)
  | negation _ inner ih | complement _ inner ih =>
    exact Rows.headed (.single inner.extends (ih (suffix_tail inside))) (spaced.suffix inside) rfl rfl
  | fold _ first _ one others => exact others (first.suffix.trans inside) _ inside first.extends (one inside)
  | noOperand => exact fun _ _ _ nest => nest
  | operand _ first _ one others =>
    intro front ahead covers nest
    have behind := suffix_tail inside
    have left := covers.back (List.suffix_cons _ _)
    refine others (first.suffix.trans behind) front ahead (left.through first.extends) ?_
    exact Rows.through (.cons left nest (.single first.extends (one behind))) (spaced.suffix ahead) rfl rfl rfl
  | expression _ ih | bareBlock _ ih => exact ih inside
  | assignment _ _ _ inner ih =>
    have named := suffix_tail inside
    have row := Rows.single inner.extends (ih (suffix_tail (suffix_tail named)))
    exact Rows.headed (row.front (List.suffix_cons _ _)) (spaced.suffix named) rfl rfl
  | thenForm _ test _ first _ one two more =>
    have behind := suffix_tail inside
    have middle := suffix_tail (test.suffix.trans behind)
    have rest := more (first.suffix.trans middle)
    have covers := Covers.back test.extends (List.suffix_cons _ _)
    exact allNest_mkChoice (.cons covers (one behind) (.cons first.extends (two middle) rest)) (spaced.suffix inside)
  | blockForm _ test first _ one two more =>
    have behind := suffix_tail inside
    have middle := test.suffix.trans behind
    have rest := more (first.suffix.trans middle)
    exact allNest_mkChoice (.cons test.extends (one behind) (.cons first.extends (two middle) rest)) (spaced.suffix inside)
  | forLoop _ _ init _ test _ increment _ round one two three four =>
    have first := suffix_tail (suffix_tail inside)
    have second := suffix_tail (init.suffix.trans first)
    have third := suffix_tail (test.suffix.trans second)
    have fourth := suffix_tail (increment.suffix.trans third)
    have row := Rows.cons (Covers.back init.extends (List.suffix_cons _ _)) (one first)
      (.cons (Covers.back test.extends (List.suffix_cons _ _)) (two second)
        (.cons (Covers.back increment.extends (List.suffix_cons _ _)) (three third)
          (.single round.extends (four fourth))))
    exact Rows.headed (row.front (List.suffix_cons _ _)) (spaced.suffix inside) rfl rfl
  | whileLoop _ test round one two =>
    have behind := suffix_tail inside
    exact Rows.headed (.cons test.extends (one behind) (.single round.extends (two (test.suffix.trans behind))))
      (spaced.suffix inside) rfl rfl
  | doLoop _ round _ _ test one two =>
    have behind := suffix_tail inside
    have last := suffix_tail ((List.suffix_append _ _).trans (round.suffix.trans behind))
    have row := Rows.cons round.extends (one behind)
      ((Rows.single test.extends (two last)).front (suffix_behind (List.suffix_refl _) _ _))
    exact Rows.headed row (spaced.suffix inside) rfl rfl
  | block _ inner _ ih =>
    have behind := suffix_tail inside
    exact allNest_scopeOf (ih behind) (spaced.suffix behind) _ _ inner.suffix
  | finished | noThen | noBlock => exact .nil (List.suffix_refl _)
  | separator _ _ ih => exact (ih (suffix_tail inside)).front (List.suffix_cons _ _)
  | hidden first _ _ one others =>
    have covers := Covers.back first.extends (List.suffix_cons _ _)
    exact .cons (by simpa using covers) ((one inside).silenced Node.Encloses.silenced)
      (others (suffix_tail (first.suffix.trans inside)))
  | shown first _ _ one others =>
    exact .cons (Covers.back first.extends (List.suffix_cons _ _)) (one inside)
      (others (suffix_tail (first.suffix.trans inside)))
  | final first _ one => exact .single first.extends (one inside)
  | elifThen _ test _ first _ one two more =>
    have behind := suffix_tail inside
    have middle := suffix_tail (test.suffix.trans behind)
    have row := Rows.cons (Covers.back test.extends (List.suffix_cons _ _)) (one behind)
      (.cons first.extends (two middle) (more (first.suffix.trans middle)))
    exact row.front (List.suffix_cons _ _)
  | elseThen _ first one => exact rows_always first.extends (one (suffix_tail inside)) (spaced.suffix inside)
  | elifBlock _ _ test first _ one two more =>
    have behind := suffix_tail ((List.suffix_append _ _).trans inside)
    have middle := test.suffix.trans behind
    have row := Rows.cons test.extends (one behind)
      (.cons first.extends (two middle) (more (first.suffix.trans middle)))
    exact row.front (suffix_behind (List.suffix_refl _) _ _)
  | elseBlock _ _ first one =>
    have word := (List.suffix_append _ _).trans inside
    exact (rows_always first.extends (one (suffix_tail word)) (spaced.suffix word)).front (List.suffix_append _ _)

end Grammar

variable {source : Source}

theorem Aligned.spaced {final : Token Position} (aligned : Aligned source (before ++ [final])) : Spaced before where
  nonempty := by
    have nonempty := aligned.nonempty
    rwa [List.dropLast_concat] at nonempty
  ordered := (List.pairwise_append.1 aligned.ordered).1

theorem spansNest_empty (source : Source) :
    (Node.mkScope "global" false source.placeholder []).Every (Node.SpansNest source) := by
  refine Node.every_of_children ?_ (List.forall_mem_singleton.2 (Node.every_of_children ?_ (List.forall_mem_nil _)))
  · exact ⟨Nat.le_refl _, .inr ⟨rfl, .inside rfl (List.mem_singleton_self _) .self⟩,
      List.forall_mem_singleton.2 ⟨Nat.le_refl _, Nat.le_refl _⟩, List.pairwise_singleton _ _⟩
  · exact ⟨Nat.le_refl _, .inr ⟨rfl, .self⟩, List.forall_mem_nil _, .nil⟩

/-- In the tree of a text, every node stands for some text, or for the end of a text without a statement, its
children stand for parts of that, and those stand one behind the other in the order in which they are written. -/
theorem compile_nests {program : Node Position} (compiled : source.compile = .ok program) :
    program.Every (Node.SpansNest source) := by
  obtain ⟨tokens, scanned, before, final, statements, rfl, _, reads, rfl⟩ := compile_derives compiled
  have aligned := aligned_of_tokens scanned
  have rows : Rows before [] statements := reads.nests aligned.spaced (List.suffix_refl before)
  cases statements with
  | nil =>
    obtain ⟨_, ends⟩ := aligned.ends
    obtain ⟨_, same⟩ := List.append_inj' ends rfl
    cases same
    exact spansNest_empty source
  | cons first rest =>
    have nest : AllNest (scopeOf "global" false final (first :: rest)) :=
      Rows.through rows aligned.spaced rfl (List.getLast?_eq_some_getLast (List.cons_ne_nil first rest)) rfl
    exact fun part inside => (nest part inside).spansNest source

theorem compile_nests_loop :
    let source : Source := ⟨"loop", "do \x7b\x7d while a"⟩
    ∃ program, source.compile = .ok program ∧ program.Every (Node.SpansNest source) := by
  intro source
  have clean : (blame source.compile).isNone = true := by decide +kernel
  obtain ⟨program, compiled⟩ := blame_eq_none.1 (Option.isNone_iff_eq_none.1 clean)
  exact ⟨program, compiled, compile_nests compiled⟩

end Reckon
