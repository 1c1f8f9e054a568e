import Reckon.Proofs.Token.Scanning
import Reckon.Proofs.Token.Spelling

set_option autoImplicit false

/-!
# Nothing is lost in scanning

The tokens of a text, with blanks and comments between them, are the text again, and each of them is
as long as it can be.
-/

namespace Reckon

namespace Scan

/-- Blanks, then at most one comment, up to what stands behind it. -/
inductive Gap : List Char → List Char → Prop where
  | nothing {after : List Char} : Gap [] after
  | blank {c : Char} {gap after : List Char} (kind : c = ' ' ∨ c = '\t' ∨ c = '\r')
    (others : Gap gap after) : Gap (c :: gap) after
  -- A comment runs up to the end of its line.
  | comment {body after : List Char} (line : '\n' ∉ body) (ends : after = [] ∨ after.head? = some '\n') :
    Gap ('#' :: body) after

/-- The tokens of a text that begins at a position. -/
inductive Cover : Position → List Char → List (Token Position) → Prop where
  | stop {p : Position} {gap : List Char} (skipped : Gap gap []) :
    Cover p gap [⟨.endOfText, none, .point (p.after gap)⟩]
  | token {p : Position} {gap spelling rest : List Char} {kind : Kind} {payload : Option Payload}
    {tokens : List (Token Position)} (skipped : Gap gap (spelling ++ rest))
    (nonempty : spelling ≠ []) (spells : Spells kind payload spelling)
    (longest : Longest (spelling ++ rest) spelling)
    (others : Cover (p.after (gap ++ spelling)) rest tokens) :
    Cover p (gap ++ (spelling ++ rest))
      (⟨kind, payload, ⟨p.after gap, p.after (gap ++ spelling)⟩⟩ :: tokens)

theorem Cover.skip {p : Position} {blank text : List Char} {tokens : List (Token Position)}
    (cover : Cover (p.after blank) text tokens)
    (joins : ∀ gap after, gap ++ after = text → Gap gap after → Gap (blank ++ gap) after) :
    Cover p (blank ++ text) tokens := by
  cases cover with
  | stop skipped =>
    rw [← Position.after_append]
    exact .stop (joins text [] (List.append_nil _) skipped)
  | @token _ gap spelling rest kind payload tokens skipped nonempty spells longest others =>
    rw [← Position.after_append, ← List.append_assoc] at others
    have joined := Cover.token (joins gap _ rfl skipped) nonempty spells longest others
    simpa only [← Position.after_append, List.append_assoc] using joined

theorem Gap.nil_of_line {gap after : List Char} (skipped : Gap gap after)
    (line : gap ++ after = [] ∨ (gap ++ after).head? = some '\n') : gap = [] := by
  cases skipped with
  | nothing => rfl
  | @blank c gap _ kind others =>
    have same : c = '\n' := by simpa using line
    rw [same] at kind
    exact absurd kind (by decide)
  | comment closed ends => simp at line

theorem newline_notMem_takeWhile (text : List Char) : '\n' ∉ text.takeWhile (· ≠ '\n') := by
  intro member
  simpa using List.mem_takeWhile_imp member

theorem dropWhile_newline (text : List Char) :
    text.dropWhile (· ≠ '\n') = [] ∨ (text.dropWhile (· ≠ '\n')).head? = some '\n' := by
  cases behind : text.dropWhile (· ≠ '\n') with
  | nil => exact .inl rfl
  | cons next more =>
    have kept := List.head?_dropWhile_not (fun c => decide (c ≠ '\n')) text
    rw [behind] at kept
    right
    simpa using kept

theorem front_blank {c : Char} {rest blank left : List Char} (found : front c rest = .blank blank left) :
    ((c = ' ' ∨ c = '\t' ∨ c = '\r') ∧ blank = [c] ∧ left = rest) ∨
      (c = '#' ∧ blank = '#' :: rest.takeWhile (· ≠ '\n') ∧ left = rest.dropWhile (· ≠ '\n')) := by
  unfold front at found
  split at found
  next kind =>
    cases found
    exact .inl ⟨kind, rfl, rfl⟩
  next =>
    split at found
    next opens =>
      cases found
      exact .inr ⟨opens, by rw [opens], rfl⟩
    next =>
      split at found
      next digit =>
        unfold number numberToken at found
        split at found
        · split at found <;> cases found
        · cases found
      next =>
        split at found
        next =>
          unfold word wordToken at found
          split at found <;> cases found
        next =>
          unfold symbol at found
          split at found <;> cases found

theorem front_skip {c : Char} {rest blank left gap after : List Char}
    (found : front c rest = .blank blank left) (same : gap ++ after = left) (skipped : Gap gap after) :
    Gap (blank ++ gap) after := by
  obtain ⟨kind, rfl, rfl⟩ | ⟨rfl, rfl, rfl⟩ := front_blank found
  · exact .blank kind skipped
  · have ends := dropWhile_newline rest
    rw [← same] at ends
    have empty := skipped.nil_of_line ends
    subst empty
    rw [List.append_nil]
    exact .comment (newline_notMem_takeWhile rest) ends

theorem scan_cover (text : List Char) {p : Position} {tokens : List (Token Position)}
    (scanned : scan p text = .ok tokens) : Cover p text tokens := by
  induction text using text_induction generalizing p tokens with
  | nil =>
    cases scanned
    exact .stop .nothing
  | @blank c rest spelling left found ih =>
    rw [scan_blank p found] at scanned
    have takes := takes_of_front found
    rw [← takes.2]
    exact (ih scanned).skip fun gap after same skipped => front_skip found same skipped
  | @token c rest spelling left kind payload found ih =>
    rw [scan_token p found] at scanned
    have takes := takes_of_front found
    cases behind : scan (p.after spelling) left with
    | error fault =>
      rw [behind] at scanned
      cases scanned
    | ok others =>
      rw [behind] at scanned
      cases scanned
      obtain ⟨spells, longest⟩ := front_longest found
      rw [← takes.2] at longest ⊢
      have none : Gap [] (spelling ++ left) := .nothing
      exact .token none takes.1 spells longest (ih behind)
  | illegal found =>
    rw [scan_illegal p found] at scanned
    cases scanned

theorem Cover.parts {p : Position} {text : List Char} {tokens before after : List (Token Position)}
    {token : Token Position} (cover : Cover p text tokens) (split : tokens = before ++ token :: after) :
    ∃ done gap spelling rest, text = done ++ (gap ++ (spelling ++ rest)) ∧
      (before.getLast?.map fun token => token.span.stop).getD p = p.after done ∧
      token.span = ⟨p.after (done ++ gap), p.after (done ++ gap ++ spelling)⟩ ∧
      Gap gap (spelling ++ rest) ∧
      ((after = [] ∧ token.kind = .endOfText ∧ token.payload = none ∧ spelling = [] ∧ rest = []) ∨
        (after ≠ [] ∧ spelling ≠ [] ∧ Spells token.kind token.payload spelling ∧
          Longest (spelling ++ rest) spelling)) := by
  induction cover generalizing before with
  | @stop p gap skipped =>
    obtain ⟨rfl, single⟩ : before = [] ∧ [token] ++ after = [_] := by
      cases before with
      | nil => exact ⟨rfl, split.symm⟩
      | cons first others => simp at split
    cases single
    refine ⟨[], gap, [], [], by simp, rfl, by simp [Span.point], by simpa using skipped, ?_⟩
    exact .inl ⟨rfl, rfl, rfl, rfl, rfl⟩
  | @token p gap spelling rest kind payload tokens skipped nonempty spells longest others ih =>
    cases before with
    | nil =>
      cases split
      refine ⟨[], gap, spelling, rest, rfl, rfl, rfl, skipped, .inr ⟨?_, nonempty, spells, longest⟩⟩
      rintro rfl
      cases others
    | cons first before =>
      obtain ⟨rfl, behind⟩ := List.cons.inj split
      obtain ⟨done, between, written, later, text, reached, placed, facts⟩ := ih behind
      refine ⟨gap ++ spelling ++ done, between, written, later, by simp [text], ?_, ?_, facts⟩
      · rw [List.getLast?_cons, Position.after_append p (gap ++ spelling), ← reached]
        cases before.getLast? <;> rfl
      · rw [placed]
        simp only [← Position.after_append, List.append_assoc]

theorem Cover.ends {p : Position} {text : List Char} {tokens : List (Token Position)}
    (cover : Cover p text tokens) : ∃ before, tokens = before ++ [⟨.endOfText, none, .point (p.after text)⟩] := by
  induction cover with
  | stop skipped => exact ⟨[], rfl⟩
  | @token p gap spelling rest kind payload tokens skipped nonempty spells longest others ih =>
    obtain ⟨before, rfl⟩ := ih
    rw [← Position.after_append, List.append_assoc]
    exact ⟨_ :: before, rfl⟩

theorem Cover.behind {p : Position} {text : List Char} {tokens : List (Token Position)}
    (cover : Cover p text tokens) : ∀ token ∈ tokens, p.index ≤ token.span.start.index := by
  intro token member
  obtain ⟨before, after, split⟩ := List.append_of_mem member
  obtain ⟨done, gap, spelling, rest, _, _, placed, _⟩ := cover.parts split
  rw [placed, Position.index_after]
  exact Nat.le_add_right _ _

theorem Cover.ordered {p : Position} {text : List Char} {tokens : List (Token Position)}
    (cover : Cover p text tokens) :
    tokens.Pairwise fun first second => first.span.stop.index ≤ second.span.start.index := by
  induction cover with
  | stop skipped => exact List.pairwise_singleton _ _
  | token skipped nonempty spells longest others ih => exact List.pairwise_cons.2 ⟨others.behind, ih⟩

end Scan

namespace Source

def slice (source : Source) (start stop : Nat) : List Char :=
  (source.text.toList.drop start).take (stop - start)

def position (source : Source) (index : Nat) : Position :=
  (Position.start source).after (source.text.toList.take index)

end Source

def reached (tokens : List (Token Position)) : Nat :=
  (tokens.getLast?.map fun token => token.span.stop.index).getD 0

/-- The tokens of a source stand in its text, one behind the other, each where it is spelled. -/
structure Aligned (source : Source) (tokens : List (Token Position)) : Prop where
  ends : ∃ before, tokens =
    before ++ [⟨.endOfText, none, .point (source.position source.text.toList.length)⟩]
  only : ∀ token ∈ tokens.dropLast, token.kind ≠ .endOfText
  placed : ∀ token ∈ tokens, token.span.stop.index ≤ source.text.toList.length ∧
    token.span = ⟨source.position token.span.start.index, source.position token.span.stop.index⟩
  nonempty : ∀ token ∈ tokens.dropLast, token.span.start.index < token.span.stop.index
  ordered : tokens.Pairwise fun first second => first.span.stop.index ≤ second.span.start.index
  spelled : ∀ token ∈ tokens.dropLast, Scan.Spells token.kind token.payload
    (source.slice token.span.start.index token.span.stop.index)

/-- The text of a source is its tokens with gaps between them, and no token could be longer. -/
structure Lossless (source : Source) (tokens : List (Token Position)) : Prop extends Aligned source tokens where
  gaps : ∀ before token after, tokens = before ++ token :: after →
    Scan.Gap (source.slice (reached before) token.span.start.index)
      (source.text.toList.drop token.span.start.index)
  longest : ∀ token ∈ tokens.dropLast, Scan.Longest (source.text.toList.drop token.span.start.index)
    (source.slice token.span.start.index token.span.stop.index)

theorem tokens_parts {source : Source} {tokens before after : List (Token Position)} {token : Token Position}
    (scanned : source.tokens = .ok tokens) (split : tokens = before ++ token :: after) :
    ∃ done gap spelling rest, source.text.toList = done ++ (gap ++ (spelling ++ rest)) ∧
      reached before = done.length ∧ token.span.start.index = (done ++ gap).length ∧
      token.span.stop.index = (done ++ gap ++ spelling).length ∧
      token.span = ⟨source.position token.span.start.index, source.position token.span.stop.index⟩ ∧
      Scan.Gap gap (spelling ++ rest) ∧
      ((after = [] ∧ token.kind = .endOfText ∧ token.payload = none ∧ spelling = [] ∧ rest = []) ∨
        (after ≠ [] ∧ spelling ≠ [] ∧ Scan.Spells token.kind token.payload spelling ∧
          Scan.Longest (spelling ++ rest) spelling)) := by
  rw [Scan.tokens_eq_scan] at scanned
  obtain ⟨done, gap, spelling, rest, text, before', placed, skipped, facts⟩ :=
    (Scan.scan_cover _ scanned).parts split
  have starts : token.span.start.index = (done ++ gap).length := by
    rw [placed, Position.index_after]
    exact Nat.zero_add _
  have stops : token.span.stop.index = (done ++ gap ++ spelling).length := by
    rw [placed, Position.index_after]
    exact Nat.zero_add _
  refine ⟨done, gap, spelling, rest, text, ?_, starts, stops, ?_, skipped, facts⟩
  · have index := congrArg Position.index before'
    rw [Position.index_after] at index
    have same : reached before =
        ((before.getLast?.map fun token : Token Position => token.span.stop).getD (.start source)).index := by
      unfold reached
      cases before.getLast? <;> rfl
    rw [same, index]
    exact Nat.zero_add _
  · rw [starts, stops]
    unfold Source.position
    rw [text, ← List.append_assoc, List.take_left, ← List.append_assoc, List.take_left]
    exact placed

theorem facts_of_tokens {source : Source} {tokens : List (Token Position)} {token : Token Position}
    (scanned : source.tokens = .ok tokens) (member : token ∈ tokens.dropLast) :
    token.span.start.index < token.span.stop.index ∧
      Scan.Spells token.kind token.payload (source.slice token.span.start.index token.span.stop.index) ∧
      Scan.Longest (source.text.toList.drop token.span.start.index)
        (source.slice token.span.start.index token.span.stop.index) := by
  obtain ⟨front, ends⟩ := (Scan.scan_cover _ (Scan.tokens_eq_scan source ▸ scanned)).ends
  rw [ends, List.dropLast_concat] at member
  obtain ⟨before, after, rfl⟩ := List.append_of_mem member
  rw [List.append_assoc] at ends
  obtain ⟨done, gap, spelling, rest, text, _, starts, stops, _, _, kinds⟩ := tokens_parts scanned ends
  rcases kinds with ⟨none, _⟩ | ⟨_, nonempty, spells, longest⟩
  · simp at none
  · have positive := List.length_pos_iff.2 nonempty
    have behind : source.text.toList.drop token.span.start.index = spelling ++ rest := by
      rw [starts, text, ← List.append_assoc, List.drop_left]
    have slice : source.slice token.span.start.index token.span.stop.index = spelling := by
      unfold Source.slice
      rw [behind, starts, stops, List.length_append, Nat.add_sub_cancel_left, List.take_left]
    rw [slice, behind]
    refine ⟨?_, spells, longest⟩
    rw [starts, stops]
    simp only [List.length_append]
    omega

theorem aligned_of_tokens {source : Source} {tokens : List (Token Position)}
    (scanned : source.tokens = .ok tokens) : Aligned source tokens := by
  have cover := Scan.scan_cover _ (Scan.tokens_eq_scan source ▸ scanned)
  constructor
  case ends =>
    obtain ⟨front, ends⟩ := cover.ends
    refine ⟨front, ?_⟩
    rw [ends, Source.position, List.take_length]
  case only => exact fun token member => (facts_of_tokens scanned member).2.1.kind_ne
  case placed =>
    intro token member
    obtain ⟨before, after, split⟩ := List.append_of_mem member
    obtain ⟨done, gap, spelling, rest, text, _, _, stops, placed, _⟩ := tokens_parts scanned split
    refine ⟨?_, placed⟩
    rw [stops, text]
    simp only [List.length_append]
    omega
  case nonempty => exact fun token member => (facts_of_tokens scanned member).1
  case ordered => exact cover.ordered
  case spelled => exact fun token member => (facts_of_tokens scanned member).2.1

theorem tokens_lossless {source : Source} {tokens : List (Token Position)}
    (scanned : source.tokens = .ok tokens) : Lossless source tokens where
  toAligned := aligned_of_tokens scanned
  gaps := by
    intro before token after split
    obtain ⟨done, gap, spelling, rest, text, starts, stops, _, _, skipped, _⟩ := tokens_parts scanned split
    have slice : source.slice (reached before) token.span.start.index = gap := by
      unfold Source.slice
      rw [starts, stops, text, List.drop_left, List.length_append, Nat.add_sub_cancel_left, List.take_left]
    rw [slice, stops, text, ← List.append_assoc, List.drop_left]
    exact skipped
  longest := fun token member => (facts_of_tokens scanned member).2.2

theorem tokens_lossless_shift :
    let source : Source := ⟨"shift", "a>>>=b# 1\n$"⟩
    let tokens := [(Kind.identifier, some (Payload.name "a"), 0, 1), (.shiftRightZero, none, 1, 4),
      (.assign, none, 4, 5), (.identifier, some (.name "b"), 5, 6), (.newline, none, 9, 10),
      (.last, some (.name ""), 10, 11), (.endOfText, none, 11, 11)].map fun (kind, payload, start, stop) =>
        (⟨kind, payload, ⟨source.position start, source.position stop⟩⟩ : Token Position)
    source.tokens = .ok tokens ∧ Lossless source tokens := by
  refine ⟨rfl, tokens_lossless rfl⟩

end Reckon
