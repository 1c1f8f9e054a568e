import Reckon.Proofs.Grammar.Phrase
import Reckon.Proofs.Parts

set_option autoImplicit false

/-!
# The trees of phrases

A sequence without a scope of its own stands nowhere but as the body of a loop, and every name that is
assigned to is the name of an identifier.
-/

namespace Reckon

variable {P : Type} {names : String → Prop}

/-- Trees that phrases stand for; `loose` where a sequence may stand, the names being those assigned to. -/
inductive Node.Shaped (names : String → Prop) : (loose : Bool) → Node P → Prop where
  | literal {mark : Mark P} {value : Value} : Shaped names false (.literal mark value)
  | binary {mark : Mark P} {left right : Node P} {operator : Token P} (first : Shaped names false left)
    (second : Shaped names false right) : Shaped names false (.binary mark left operator right)
  | unary {mark : Mark P} {operator : Token P} {operand : Node P} (inner : Shaped names false operand) :
    Shaped names false (.unary mark operator operand)
  | assignment {mark : Mark P} {name : String} {value : Node P} (named : names name)
    (inner : Shaped names false value) : Shaped names false (.assignment mark name value)
  | retrieval {mark : Mark P} {name : String} : Shaped names false (.retrieval mark name)
  | scope {mark : Mark P} {name : String} {boundary : Bool} {statements : List (Node P)}
    (inner : ∀ statement ∈ statements, Shaped names false statement) :
    Shaped names (!boundary) (.scope mark name boundary statements)
  | choice {mark : Mark P} {branches : List (Node P × Node P)}
    (tests : ∀ branch ∈ branches, Shaped names false branch.1)
    (bodies : ∀ branch ∈ branches, Shaped names false branch.2) : Shaped names false (.choice mark branches)
  | whileLoop {mark : Mark P} {bodyFirst : Bool} {condition body : Node P} (test : Shaped names false condition)
    (round : Shaped names true body) : Shaped names false (.whileLoop mark bodyFirst condition body)
  | forLoop {mark : Mark P} {start condition step body : Node P} (first : Shaped names false start)
    (test : Shaped names false condition) (next : Shaped names false step) (round : Shaped names true body) :
    Shaped names false (.forLoop mark start condition step body)

namespace Node

variable {node : Node P} {loose : Bool} {name : String}

theorem Shaped.inside {child : Node P} (shaped : Shaped names loose node) (member : child ∈ node.children) :
    ∃ inner, Shaped names inner child ∧ (node.sharesScope = true → inner = false) := by
  cases shaped with
  | literal | retrieval => simp [children] at member
  | binary first second =>
    simp only [children, List.mem_cons, List.not_mem_nil, or_false] at member
    rcases member with rfl | rfl
    · exact ⟨false, first, fun _ => rfl⟩
    · exact ⟨false, second, fun _ => rfl⟩
  | unary inner =>
    cases List.mem_singleton.1 member
    exact ⟨false, inner, fun _ => rfl⟩
  | assignment _ inner =>
    cases List.mem_singleton.1 member
    exact ⟨false, inner, fun _ => rfl⟩
  | scope inner => exact ⟨false, inner child member, fun _ => rfl⟩
  | choice tests bodies =>
    obtain ⟨branch, chosen, either⟩ := List.mem_flatMap.1 member
    simp only [List.mem_cons, List.not_mem_nil, or_false] at either
    rcases either with rfl | rfl
    · exact ⟨false, tests branch chosen, fun _ => rfl⟩
    · exact ⟨false, bodies branch chosen, fun _ => rfl⟩
  | whileLoop test round =>
    simp only [children, List.mem_cons, List.not_mem_nil, or_false] at member
    rcases member with rfl | rfl
    · exact ⟨false, test, fun _ => rfl⟩
    · exact ⟨true, round, fun shares => by simp [sharesScope] at shares⟩
  | forLoop first test next round =>
    simp only [children, List.mem_cons, List.not_mem_nil, or_false] at member
    rcases member with rfl | rfl | rfl | rfl
    · exact ⟨false, first, fun _ => rfl⟩
    · exact ⟨false, test, fun _ => rfl⟩
    · exact ⟨false, next, fun _ => rfl⟩
    · exact ⟨true, round, fun shares => by simp [sharesScope] at shares⟩

theorem Shaped.writes (shaped : Shaped names loose node) (strict : loose = false) (writes : node.Writes name) :
    names name := by
  obtain ⟨part, inner, bound⟩ := writes
  induction inner generalizing loose with
  | self =>
    cases shaped with
    | assignment named =>
      cases bound
      exact named
    | @scope mark key boundary statements =>
      have own : boundary = true := by simpa using strict
      subst own
      cases bound
    | _ => cases bound
  | inside entered member _ ih =>
    obtain ⟨inside, shaped, shares⟩ := shaped.inside member
    exact ih shaped (shares entered)

theorem Shaped.assigned {mark : Mark P} {value : Node P} (shaped : Shaped names loose node)
    (inner : Part (fun _ => true) (.assignment mark name value) node) : names name := by
  generalize same : Node.assignment mark name value = part at inner
  induction inner generalizing loose with
  | self =>
    subst same
    cases shaped with
    | assignment named => exact named
  | inside _ member _ ih =>
    obtain ⟨inside, shaped, _⟩ := shaped.inside member
    exact ih shaped

theorem Shaped.silenced (shaped : Shaped names loose node) : Shaped names loose node.silenced := by
  cases shaped with
  | literal => exact .literal
  | binary first second => exact .binary first second
  | unary inner => exact .unary inner
  | assignment named inner => exact .assignment named inner
  | retrieval => exact .retrieval
  | scope inner => exact .scope inner
  | choice tests bodies => exact .choice tests bodies
  | whileLoop test round => exact .whileLoop test round
  | forLoop first test next round => exact .forLoop first test next round

end Node

namespace Grammar

variable {before after : List (Token P)}

def Named (names : String → Prop) (tokens : List (Token P)) : Prop :=
  ∀ token ∈ tokens, token.kind = .identifier → names token.name

theorem Named.mono (named : Named names before) (suffix : after <:+ before) : Named names after :=
  fun token member => named token (suffix.subset member)

theorem Named.tail {token : Token P} (named : Named names (token :: before)) : Named names before :=
  named.mono (List.suffix_cons token before)

def Phrase.Shaped (names : String → Prop) : Phrase P → Prop
  | .expression _ tree | .statement tree => Node.Shaped names false tree
  | .operands _ left tree => Node.Shaped names false left → Node.Shaped names false tree
  | .block _ boundary tree => Node.Shaped names (!boundary) tree
  | .sequence _ statements => ∀ statement ∈ statements, Node.Shaped names false statement
  | .thenBranches branches | .blockBranches branches =>
    (∀ branch ∈ branches, Node.Shaped names false branch.1) ∧ ∀ branch ∈ branches, Node.Shaped names false branch.2

theorem shaped_filled {next : Token P} {statements : List (Node P)}
    (shaped : ∀ statement ∈ statements, Node.Shaped names false statement) :
    ∀ statement ∈ (filled next statements).1 :: (filled next statements).2, Node.Shaped names false statement := by
  cases statements with
  | nil => exact List.forall_mem_singleton.2 .literal
  | cons first rest => exact shaped

theorem Reads.shaped {phrase : Phrase P} (reads : Reads phrase before after) (named : Named names before) :
    phrase.Shaped names := by
  induction reads with
  | number => exact .literal
  | name => exact .retrieval
  | group _ _ _ ih => exact ih named.tail
  | negation _ _ ih | complement _ _ ih => exact .unary (ih named.tail)
  | fold _ first _ one others => exact others (named.mono first.suffix) (one named)
  | noOperand => exact id
  | operand _ first _ one others =>
    exact fun left => others (named.tail.mono first.suffix) (.binary left (one named.tail))
  | expression _ ih | bareBlock _ ih => exact ih named
  | assignment _ kind _ _ ih => exact .assignment (named _ (by simp) kind) (ih named.tail.tail.tail)
  | thenForm _ test _ first _ one two others =>
    have middle := (named.tail.mono test.suffix).tail
    obtain ⟨tests, bodies⟩ := others (middle.mono first.suffix)
    exact .choice (List.forall_mem_cons.2 ⟨one named.tail, tests⟩) (List.forall_mem_cons.2 ⟨two middle, bodies⟩)
  | blockForm _ test first _ one two others =>
    have middle := named.tail.mono test.suffix
    obtain ⟨tests, bodies⟩ := others (middle.mono first.suffix)
    exact .choice (List.forall_mem_cons.2 ⟨one named.tail, tests⟩) (List.forall_mem_cons.2 ⟨two middle, bodies⟩)
  | forLoop _ _ init _ test _ increment _ _ one two three four =>
    have second := (named.tail.tail.mono init.suffix).tail
    have third := (second.mono test.suffix).tail
    exact .forLoop (one named.tail.tail) (two second) (three third) (four (third.mono increment.suffix).tail)
  | whileLoop _ test _ one two => exact .whileLoop (one named.tail) (two (named.tail.mono test.suffix))
  | doLoop _ round _ _ _ one two =>
    have behind := named.tail.mono round.suffix
    exact .whileLoop (two (behind.mono (List.suffix_append _ _)).tail) (one named.tail)
  | block _ _ _ ih => exact .scope (shaped_filled (ih named.tail))
  | finished => exact List.forall_mem_nil _
  | separator _ _ ih => exact ih named.tail
  | hidden first _ _ one others =>
    exact List.forall_mem_cons.2 ⟨(one named).silenced, others (named.mono first.suffix).tail⟩
  | shown first _ _ one others =>
    exact List.forall_mem_cons.2 ⟨one named, others (named.mono first.suffix).tail⟩
  | final _ _ one => exact List.forall_mem_singleton.2 (one named)
  | noThen | noBlock => exact ⟨List.forall_mem_nil _, List.forall_mem_nil _⟩
  | elifThen _ test _ first _ one two others =>
    have middle := (named.tail.mono test.suffix).tail
    obtain ⟨tests, bodies⟩ := others (middle.mono first.suffix)
    exact ⟨List.forall_mem_cons.2 ⟨one named.tail, tests⟩, List.forall_mem_cons.2 ⟨two middle, bodies⟩⟩
  | elseThen _ _ one => exact ⟨List.forall_mem_singleton.2 .literal, List.forall_mem_singleton.2 (one named.tail)⟩
  | elifBlock _ _ test first _ one two others =>
    have inside := (named.mono (List.suffix_append _ _)).tail
    have middle := inside.mono test.suffix
    obtain ⟨tests, bodies⟩ := others (middle.mono first.suffix)
    exact ⟨List.forall_mem_cons.2 ⟨one inside, tests⟩, List.forall_mem_cons.2 ⟨two middle, bodies⟩⟩
  | elseBlock _ _ _ one =>
    have inside := (named.mono (List.suffix_append _ _)).tail
    exact ⟨List.forall_mem_singleton.2 .literal, List.forall_mem_singleton.2 (one inside)⟩

end Grammar

end Reckon
