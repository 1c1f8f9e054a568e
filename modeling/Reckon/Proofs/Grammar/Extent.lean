import Reckon.Proofs.Grammar.Shape

set_option autoImplicit false

/-!
# The extent of trees

The tree of a phrase reaches from one of its tokens to a later one, or is the extent of a single token,
and whatever an evaluation of the tree can blame is found among the tokens.
-/

namespace Reckon.Grammar

variable {P : Type} {token : Token P} {before middle later after : List (Token P)} {first second : Span P}

/-- The span reaches from a token of `before` to the same or a later one, both standing in front of `after`. -/
def Covers (before after : List (Token P)) (span : Span P) : Prop :=
  ∃ taken start stop, before = taken ++ after ∧ (start = stop ∧ start ∈ taken ∨ [start, stop].Sublist taken) ∧
    span = start.span.through stop.span

theorem covers_token (token : Token P) (after : List (Token P)) : Covers (token :: after) after token.span :=
  ⟨[token], token, token, rfl, .inl ⟨rfl, by simp⟩, rfl⟩

theorem Covers.mono (covers : Covers middle later first) (front : middle <:+ before) (back : after <:+ later) :
    Covers before after first := by
  obtain ⟨taken, start, stop, rfl, order, same⟩ := covers
  obtain ⟨ahead, rfl⟩ := front
  obtain ⟨behind, rfl⟩ := back
  refine ⟨ahead ++ taken ++ behind, start, stop, by simp, ?_, same⟩
  have inside : taken.Sublist (ahead ++ taken ++ behind) :=
    (List.sublist_append_right ahead taken).trans (List.sublist_append_left _ behind)
  exact order.imp (And.imp_right fun member => inside.subset member) fun pair => pair.trans inside

theorem Covers.front (covers : Covers middle after first) (suffix : middle <:+ before) : Covers before after first :=
  covers.mono suffix (List.suffix_refl after)

theorem Covers.back (covers : Covers before middle first) (suffix : after <:+ middle) : Covers before after first :=
  covers.mono (List.suffix_refl before) suffix

theorem Covers.through (one : Covers before middle first) (two : Covers middle after second) :
    Covers before after (first.through second) := by
  obtain ⟨taken, start, _, rfl, order, rfl⟩ := one
  obtain ⟨rest, _, stop, rfl, order', rfl⟩ := two
  refine ⟨taken ++ rest, start, stop, by simp, .inr ?_, rfl⟩
  have starts : [start].Sublist taken := by
    rcases order with ⟨_, member⟩ | pair
    · simpa using member
    · exact (List.sublist_append_left [start] _).trans pair
  have stops : [stop].Sublist rest := by
    rcases order' with ⟨rfl, member⟩ | pair
    · simpa using member
    · exact (List.sublist_append_right [_] [stop]).trans pair
  exact starts.append stops

def Phrase.Extends (before after : List (Token P)) : Phrase P → Prop
  | .expression _ tree | .statement tree | .block _ _ tree => Covers before after tree.span
  | .operands _ left tree => ∀ front, Covers front before left.span → Covers front after tree.span
  | .sequence _ statements =>
    ∀ first ∈ statements.head?, ∀ last ∈ statements.getLast?, Covers before after (first.span.through last.span)
  | .thenBranches branches | .blockBranches branches =>
    ∀ last ∈ branches.getLast?, Covers before after last.2.span

theorem Covers.behind (covers : Covers middle after first) (token : Token P) (suffix : middle <:+ before) :
    Covers (token :: before) after (token.span.through first) :=
  (covers_token token before).through (covers.front suffix)

theorem extends_cons {closing : Kind} {statement : Node P} {statements : List (Node P)}
    (one : Covers before middle statement.span)
    (others : Phrase.Extends middle after (.sequence closing statements)) (suffix : after <:+ middle) :
    Phrase.Extends before after (.sequence closing (statement :: statements)) := by
  intro first starts last stops
  cases starts
  cases statements with
  | nil =>
    cases stops
    exact one.back suffix
  | cons second rest =>
    rw [List.getLast?_cons_cons] at stops
    have both := one.through (others second rfl last stops)
    exact both

theorem extends_branch {condition body : Node P} {branches : List (Node P × Node P)}
    (one : Covers before middle body.span) (others : ∀ last ∈ branches.getLast?, Covers middle after last.2.span)
    (front : middle <:+ before) (back : after <:+ middle) :
    ∀ last ∈ ((condition, body) :: branches).getLast?, Covers before after last.2.span := by
  intro last stops
  cases branches with
  | nil =>
    cases stops
    exact one.back back
  | cons second rest =>
    rw [List.getLast?_cons_cons] at stops
    exact (others last stops).front front

theorem covers_mkChoice {branch : Node P × Node P} {branches : List (Node P × Node P)}
    (covers : ∀ last ∈ (branch :: branches).getLast?, Covers middle after last.2.span) (word : Token P)
    (suffix : middle <:+ before) :
    Covers (word :: before) after (Node.mkChoice word.span.start (branch :: branches)).span := by
  have same : (Node.mkChoice word.span.start (branch :: branches)).span =
      word.span.through (branches.getLast?.getD branch).2.span := by
    simp [Node.mkChoice, Node.span, Node.mark, Span.through, List.getLast?_cons]
  rw [same]
  exact (covers _ List.getLast?_cons).behind word suffix

theorem covers_scopeOf {name : String} {boundary : Bool} {closing : Token P} {statements : List (Node P)}
    (inner : Phrase.Extends before (closing :: after) (.sequence .closeBrace statements))
    (suffix : closing :: after <:+ before) : Covers before after (scopeOf name boundary closing statements).span := by
  cases statements with
  | nil => exact (covers_token closing after).front suffix
  | cons first rest =>
    exact (inner first rfl _ (List.getLast?_eq_some_getLast (List.cons_ne_nil first rest))).back
      (List.suffix_cons closing after)

theorem Reads.extends {phrase : Phrase P} (reads : Reads phrase before after) : phrase.Extends before after := by
  induction reads with
  | number | name => exact covers_token _ _
  | group _ _ _ ih => exact (ih.front (List.suffix_cons _ _)).back (List.suffix_cons _ _)
  | negation _ _ ih | complement _ _ ih => exact ih.behind _ (List.suffix_refl _)
  | fold _ _ _ one others => exact others _ one
  | noOperand => exact fun _ covers => covers
  | operand _ _ _ one others => exact fun front left => others front ((left.back (List.suffix_cons _ _)).through one)
  | expression _ ih | bareBlock _ ih => exact ih
  | assignment _ _ _ _ ih => exact (ih.behind _ (List.suffix_cons _ _)).front (List.suffix_cons _ _)
  | thenForm _ test _ first others _ one more =>
    exact covers_mkChoice (extends_branch one more first.suffix others.suffix) _ (suffix_tail test.suffix)
  | blockForm _ test first others _ one more =>
    exact covers_mkChoice (extends_branch one more first.suffix others.suffix) _ test.suffix
  | forLoop _ _ init _ test _ increment _ _ _ _ _ round =>
    have third := (suffix_tail test.suffix).trans (suffix_tail init.suffix)
    exact round.behind _ (((suffix_tail increment.suffix).trans third).trans (List.suffix_cons _ _))
  | whileLoop _ test _ _ round => exact round.behind _ test.suffix
  | doLoop _ round _ _ _ _ test => exact test.behind _ (suffix_tail ((List.suffix_append _ _).trans round.suffix))
  | block _ inner _ ih => exact (covers_scopeOf ih inner.suffix).front (List.suffix_cons _ _)
  | finished => exact fun _ starts => by cases starts
  | separator _ _ ih =>
    exact fun first starts last stops => (ih first starts last stops).front (List.suffix_cons _ _)
  | hidden _ _ others one more =>
    exact extends_cons (by simpa using one.back (List.suffix_cons _ _)) more others.suffix
  | shown _ _ others one more => exact extends_cons (one.back (List.suffix_cons _ _)) more others.suffix
  | final _ _ one =>
    intro first starts last stops
    cases starts
    cases stops
    exact one
  | noThen | noBlock => exact fun _ stops => by cases stops
  | elifThen _ test _ first others _ one more =>
    exact fun last stops => (extends_branch one more first.suffix others.suffix last stops).front
      ((suffix_tail test.suffix).trans (List.suffix_cons _ _))
  | elseThen _ _ one =>
    intro last stops
    cases stops
    exact one.front (List.suffix_cons _ _)
  | elifBlock _ _ test first others _ one more =>
    exact fun last stops => (extends_branch one more first.suffix others.suffix last stops).front
      (suffix_behind test.suffix _ _)
  | elseBlock _ _ _ one =>
    intro last stops
    cases stops
    exact one.front (suffix_behind (List.suffix_refl _) _ _)

end Reckon.Grammar
