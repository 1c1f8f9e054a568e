import Mathlib.Data.List.TakeWhile
import Reckon.Grammar

set_option autoImplicit false

/-!
# Outcomes of parsers

What each step of a parser does to the tokens ahead of it. Lists of tokens stand without the end of
the text, which `stop` is.
-/

namespace Reckon.Parser

variable {P α β : Type} {stop token : Token P} {ahead rest : List (Token P)}

def outcome (parser : Parser P α) (stop : Token P) (ahead : List (Token P)) :
    Except (Fault P) (α × List (Token P)) :=
  (parser.run stop).run ahead

def nextKind (ahead : List (Token P)) : Kind :=
  match ahead with
  | [] => .endOfText
  | token :: _ => token.kind

theorem kind_headD (ended : stop.kind = .endOfText) (ahead : List (Token P)) :
    (ahead.headD stop).kind = nextKind ahead := by
  cases ahead with
  | nil => exact ended
  | cons token rest => rfl

theorem exists_cons_of_nextKind {kind : Kind} (next : nextKind ahead = kind) (text : kind ≠ .endOfText) :
    ∃ token rest, ahead = token :: rest ∧ token.kind = kind := by
  cases ahead with
  | nil => exact absurd next.symm text
  | cons token rest => exact ⟨token, rest, rfl, next⟩

theorem outcome_bind_of_ok {parser : Parser P α} {value : α} (next : α → Parser P β)
    (reads : outcome parser stop ahead = .ok (value, rest)) :
    outcome (parser >>= next) stop ahead = outcome (next value) stop rest := by
  change (outcome parser stop ahead >>= fun read => outcome (next read.1) stop read.2) = _
  rw [reads]
  rfl

theorem outcome_bind_of_error {parser : Parser P α} {fault : Fault P} (next : α → Parser P β)
    (fails : outcome parser stop ahead = .error fault) :
    outcome (parser >>= next) stop ahead = .error fault := by
  change (outcome parser stop ahead >>= fun read => outcome (next read.1) stop read.2) = _
  rw [fails]
  rfl

theorem outcome_bind_eq_ok {parser : Parser P α} {next : α → Parser P β} {value : β} :
    outcome (parser >>= next) stop ahead = .ok (value, rest) ↔
      ∃ first middle, outcome parser stop ahead = .ok (first, middle) ∧
        outcome (next first) stop middle = .ok (value, rest) := by
  cases read : outcome parser stop ahead with
  | error fault => simp [outcome_bind_of_error next read]
  | ok pair =>
    obtain ⟨first, middle⟩ := pair
    rw [outcome_bind_of_ok next read]
    constructor
    · intro reads
      exact ⟨first, middle, rfl, reads⟩
    · rintro ⟨_, _, same, reads⟩
      cases same
      exact reads

theorem outcome_bind_congr {parser : Parser P α} {next other : α → Parser P β}
    (same : ∀ value rest, outcome parser stop ahead = .ok (value, rest) →
      outcome (next value) stop rest = outcome (other value) stop rest) :
    outcome (parser >>= next) stop ahead = outcome (parser >>= other) stop ahead := by
  cases read : outcome parser stop ahead with
  | error fault => rw [outcome_bind_of_error next read, outcome_bind_of_error other read]
  | ok pair =>
    obtain ⟨value, rest⟩ := pair
    rw [outcome_bind_of_ok next read, outcome_bind_of_ok other read, same value rest read]

theorem outcome_bind_of_eq {parser other : Parser P α} {behind : List (Token P)} (next : α → Parser P β)
    (same : outcome parser stop ahead = outcome other stop behind) :
    outcome (parser >>= next) stop ahead = outcome (other >>= next) stop behind := by
  change (outcome parser stop ahead >>= fun read => outcome (next read.1) stop read.2) = _
  rw [same]
  rfl

@[simp]
theorem outcome_peek : outcome peek stop ahead = .ok (ahead.headD stop, ahead) := rfl

@[simp]
theorem outcome_take : outcome take stop ahead = .ok (ahead.headD stop, ahead.tail) := rfl

@[simp]
theorem outcome_skip (kinds : List Kind) :
    outcome (skip kinds) stop ahead = .ok ((), ahead.dropWhile fun token => kinds.contains token.kind) := rfl

@[simp]
theorem outcome_refuse (cause : Cause) (help : Option String) :
    outcome (refuse cause help : Parser P α) stop ahead = .error ⟨cause, (ahead.headD stop).span, help⟩ := rfl

theorem outcome_get_bind (next : List (Token P) → Parser P β) :
    outcome (get >>= next) stop ahead = outcome (next ahead) stop ahead := rfl

theorem outcome_peek_bind (next : Token P → Parser P β) :
    outcome (peek >>= next) stop ahead = outcome (next (ahead.headD stop)) stop ahead := rfl

theorem outcome_take_bind (next : Token P → Parser P β) :
    outcome (take >>= next) stop ahead = outcome (next (ahead.headD stop)) stop ahead.tail := rfl

theorem outcome_skip_bind (kinds : List Kind) (next : Unit → Parser P β) :
    outcome (skip kinds >>= next) stop ahead =
      outcome (next ()) stop (ahead.dropWhile fun token => kinds.contains token.kind) := rfl

theorem outcome_acceptPastNewlines? (kinds : List Kind) :
    outcome (acceptPastNewlines? kinds) stop ahead =
      match ahead.dropWhile fun token => token.kind = .newline with
      | [] => .ok (none, ahead)
      | token :: rest =>
        if kinds.contains token.kind then .ok (some token, rest) else .ok (none, ahead) := by
  unfold acceptPastNewlines?
  rw [outcome_get_bind]
  cases ahead.dropWhile fun token => token.kind = .newline with
  | nil => rfl
  | cons token rest =>
    dsimp only
    split <;> rfl

def pastNewlines (ahead : List (Token P)) : List (Token P) :=
  ahead.dropWhile fun token => token.kind = .newline

theorem pastNewlines_suffix (ahead : List (Token P)) : pastNewlines ahead <:+ ahead :=
  List.dropWhile_suffix _

theorem suffix_of_pastNewlines (behind : pastNewlines ahead = token :: rest) : rest <:+ ahead :=
  (List.suffix_cons token rest).trans (behind ▸ pastNewlines_suffix ahead)

theorem length_lt_of_pastNewlines (behind : pastNewlines ahead = token :: rest) :
    rest.length < ahead.length := by
  have kept := (pastNewlines_suffix ahead).length_le
  rw [behind] at kept
  exact kept

theorem pastNewlines_cons (other : token.kind ≠ .newline) : pastNewlines (token :: ahead) = token :: ahead := by
  simp [pastNewlines, other]

theorem pastNewlines_line (newline : token.kind = .newline) :
    pastNewlines (token :: ahead) = pastNewlines ahead := by
  simp [pastNewlines, newline]

theorem pastNewlines_append {gap : List (Token P)} (blank : ∀ token ∈ gap, token.kind = .newline)
    (ahead : List (Token P)) : pastNewlines (gap ++ ahead) = pastNewlines ahead := by
  apply List.dropWhile_append_of_pos
  intro token member
  simp [blank token member]

theorem pastNewlines_gap {gap : List (Token P)} (blank : ∀ token ∈ gap, token.kind = .newline)
    (ahead : List (Token P)) (other : token.kind ≠ .newline) :
    pastNewlines (gap ++ token :: ahead) = token :: ahead := by
  rw [pastNewlines_append blank, pastNewlines_cons other]

theorem pastNewlines_append_nil {before : List (Token P)} (empty : pastNewlines before = [])
    (ahead : List (Token P)) : pastNewlines (before ++ ahead) = pastNewlines ahead := by
  apply pastNewlines_append
  intro token member
  simpa using List.dropWhile_eq_nil_iff.1 empty token member

theorem pastNewlines_append_line {before : List (Token P)} (empty : pastNewlines before = [])
    (newline : token.kind = .newline) (ahead : List (Token P)) :
    pastNewlines (before ++ token :: ahead) = pastNewlines ahead := by
  rw [pastNewlines_append_nil empty, pastNewlines_line newline]

theorem pastNewlines_append_cons {before : List (Token P)} (split : pastNewlines before = token :: rest)
    (ahead : List (Token P)) : pastNewlines (before ++ ahead) = token :: rest ++ ahead := by
  unfold pastNewlines at split ⊢
  rw [List.dropWhile_append, split]
  rfl

theorem outcome_skip_newlines_bind (next : Unit → Parser P β) :
    outcome (skip [.newline] >>= next) stop ahead = outcome (next ()) stop (pastNewlines ahead) := by
  have same : (ahead.dropWhile fun token => [Kind.newline].contains token.kind) = pastNewlines ahead := by
    unfold pastNewlines
    congr 1
    funext token
    simp
  rw [outcome_skip_bind, same]

theorem exists_gap (ahead : List (Token P)) :
    ∃ gap, (∀ token ∈ gap, token.kind = .newline) ∧ ahead = gap ++ pastNewlines ahead := by
  refine ⟨ahead.takeWhile fun token => token.kind = .newline, ?_, (List.takeWhile_append_dropWhile).symm⟩
  intro token member
  simpa using List.mem_takeWhile_imp member

theorem outcome_acceptPastNewlines?_none {kinds : List Kind} (ends : nextKind (pastNewlines ahead) ∉ kinds) :
    outcome (acceptPastNewlines? kinds) stop ahead = .ok (none, ahead) := by
  rw [outcome_acceptPastNewlines?]
  unfold pastNewlines at ends
  split
  · rfl
  · rename_i token rest behind
    rw [behind] at ends
    simp only [nextKind] at ends
    simp [ends]

theorem outcome_acceptPastNewlines?_some {kinds : List Kind} (member : token.kind ∈ kinds)
    (behind : pastNewlines ahead = token :: rest) :
    outcome (acceptPastNewlines? kinds) stop ahead = .ok (some token, rest) := by
  rw [outcome_acceptPastNewlines?]
  unfold pastNewlines at behind
  rw [behind]
  simp [member]

def surprise (stop : Token P) (expected : List Kind) (ahead : List (Token P)) : Cause :=
  if nextKind ahead = .endOfText then .unexpectedEnd expected
  else .unexpectedToken (ahead.headD stop).text expected

theorem outcome_unexpected (ended : stop.kind = .endOfText) (expected : List Kind) (help : Option String) :
    outcome (unexpected expected help : Parser P α) stop ahead =
      .error ⟨surprise stop expected ahead, (ahead.headD stop).span, help⟩ := by
  unfold unexpected surprise
  rw [outcome_peek_bind, kind_headD ended]
  split <;> rfl

theorem outcome_accept? (ended : stop.kind = .endOfText) (kinds : List Kind) :
    outcome (accept? kinds) stop ahead =
      if kinds.contains (nextKind ahead) then .ok (some (ahead.headD stop), ahead.tail)
      else .ok (none, ahead) := by
  unfold accept?
  rw [outcome_peek_bind, kind_headD ended]
  split <;> rfl

theorem outcome_expect (ended : stop.kind = .endOfText) (kind : Kind) (help : Option String) :
    outcome (expect kind help) stop ahead =
      if nextKind ahead = kind then .ok (ahead.headD stop, ahead.tail)
      else .error ⟨surprise stop [kind] ahead, (ahead.headD stop).span, help⟩ := by
  unfold expect
  rw [outcome_peek_bind, kind_headD ended]
  split
  · rfl
  · exact outcome_unexpected ended [kind] help

theorem outcome_expect_eq_ok (ended : stop.kind = .endOfText) {kind : Kind} (text : kind ≠ .endOfText)
    {help : Option String} :
    outcome (expect kind help) stop ahead = .ok (token, rest) ↔ token.kind = kind ∧ ahead = token :: rest := by
  rw [outcome_expect ended]
  cases ahead with
  | nil => simp [nextKind, text.symm]
  | cons first others =>
    by_cases same : first.kind = kind
    · simp [nextKind, same]
      grind
    · simp [nextKind, same]
      grind

theorem outcome_expect_cons (ended : stop.kind = .endOfText) {kind : Kind} (same : token.kind = kind)
    (help : Option String) : outcome (expect kind help) stop (token :: rest) = .ok (token, rest) := by
  rw [outcome_expect ended, nextKind, if_pos same]
  rfl

def beforeEnd (tokens : List (Token P)) : List (Token P) := tokens.takeWhile fun token => token.kind ≠ .endOfText

def lastEnd [Inhabited P] (tokens : List (Token P)) : Token P :=
  ⟨.endOfText, none, .point ((tokens.getLast?.map fun token => token.span.stop).getD default)⟩

/-- The first token that ends the text; where there is none, one behind the last token. -/
def endToken [Inhabited P] (tokens : List (Token P)) : Token P :=
  let stop := (tokens.getLast?.map fun token => token.span.stop).getD default
  (tokens.dropWhile fun token => token.kind ≠ .endOfText).headD ⟨.endOfText, none, .point stop⟩

theorem endToken_eq [Inhabited P] (tokens : List (Token P)) :
    endToken tokens = (tokens.dropWhile fun token => token.kind ≠ .endOfText).headD (lastEnd tokens) := rfl

theorem getElem?_ahead [Inhabited P] {tokens before rest : List (Token P)} (split : beforeEnd tokens = before ++ rest) :
    (tokens ++ [lastEnd tokens])[before.length]? = some (rest.headD (endToken tokens)) := by
  have whole : before ++ rest ++ (tokens.dropWhile fun token => token.kind ≠ .endOfText) = tokens :=
    split ▸ List.takeWhile_append_dropWhile
  have ahead : tokens ++ [lastEnd tokens] = before ++
      (rest ++ ((tokens.dropWhile fun token => token.kind ≠ .endOfText) ++ [lastEnd tokens])) := by
    rw [← List.append_assoc, ← List.append_assoc, whole]
  rw [ahead, List.getElem?_append_right (Nat.le_refl _), Nat.sub_self, endToken_eq]
  cases rest with
  | cons token others => rfl
  | nil => cases tokens.dropWhile fun token => token.kind ≠ .endOfText <;> rfl

theorem beforeEnd_eq {tokens : List (Token P)} (text : ∀ token ∈ tokens, token.kind ≠ .endOfText) :
    beforeEnd tokens = tokens :=
  List.takeWhile_eq_self_iff.2 (by simpa using text)

theorem text_of_beforeEnd {tokens : List (Token P)} (member : token ∈ beforeEnd tokens) : token.kind ≠ .endOfText := by
  simpa using List.mem_takeWhile_imp member

theorem parse_eq [Inhabited P] (parser : Parser P α) (tokens : List (Token P)) :
    parse parser tokens = (outcome parser (endToken tokens) (beforeEnd tokens)).map Prod.fst := rfl

theorem kind_endToken [Inhabited P] (tokens : List (Token P)) : (endToken tokens).kind = .endOfText := by
  unfold endToken
  cases behind : tokens.dropWhile fun token => token.kind ≠ .endOfText with
  | nil => rfl
  | cons token rest =>
    have stops := List.head?_dropWhile_not (fun token : Token P => decide (token.kind ≠ .endOfText)) tokens
    rw [behind] at stops
    simpa using stops

end Reckon.Parser
