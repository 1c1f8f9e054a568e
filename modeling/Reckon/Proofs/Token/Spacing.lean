import Mathlib.Data.List.Infix
import Reckon.Proofs.Alike
import Reckon.Proofs.Token.Seam

set_option autoImplicit false

/-!
# Blanks and comments between tokens

A blank can be put anywhere but into a token, and a comment in front of every newline and at the end of a
text. The tokens stay what they are.
-/

namespace Reckon

namespace Scan

variable {c : Char} {rest spelling left left' gap : List Char} {kind : Kind} {payload : Option Payload}

def spacers : List Char := [' ', '\t', '\r', '#']

def Trails (left left' : List Char) : Prop :=
  left'.head? = left.head? ∨ ∃ mark ∈ spacers, left'.head? = some mark

theorem Trails.all {p : Char → Bool} (trails : Trails left left') (spaced : spacers.any p = false)
    (stops : ∀ next ∈ left.head?, p next = false) : ∀ next ∈ left'.head?, p next = false := by
  intro next first
  rcases trails with same | ⟨mark, listed, same⟩
  · exact stops next (same ▸ first)
  · obtain rfl := Option.some.inj (same.symm.trans first)
    exact Bool.eq_false_iff.2 (List.any_eq_false.1 spaced _ listed)

theorem takeWhile_stop {p : Char → Bool} (all : ∀ next ∈ spelling, p next = true)
    (stops : ∀ next ∈ left.head?, p next = false) :
    (spelling ++ left).takeWhile p = spelling ∧ (spelling ++ left).dropWhile p = left := by
  rw [List.takeWhile_append_of_pos all, List.dropWhile_append_of_pos all]
  cases left with
  | nil => simp
  | cons next more =>
    have stop := stops next rfl
    simp [stop]

theorem head?_dropWhile (p : Char → Bool) (text : List Char) : ∀ next ∈ (text.dropWhile p).head?, p next = false := by
  intro next first
  have kept := List.head?_dropWhile_not p text
  rw [Option.mem_def.1 first] at kept
  simpa using kept

theorem word_kept {text : List Char} (found : word text = .token kind payload spelling left)
    (trails : Trails left left') : word (spelling ++ left') = .token kind payload spelling left' := by
  have parts : spelling = text.takeWhile isLetter ∧ left = text.dropWhile isLetter := by
    unfold word wordToken at found
    split at found <;> cases found <;> exact ⟨rfl, rfl⟩
  have letters : ∀ next ∈ spelling, isLetter next = true := by
    intro next member
    rw [parts.1] at member
    exact List.mem_takeWhile_imp member
  have stops := trails.all (p := isLetter) (by decide) (parts.2 ▸ head?_dropWhile isLetter text)
  obtain ⟨front, behind⟩ := takeWhile_stop letters stops
  rw [word, ← parts.1] at found
  rw [word, front, behind]
  unfold wordToken at found ⊢
  split at found <;> cases found <;> rfl

theorem number_kept {text : List Char} (found : number text = .token kind payload spelling left)
    (trails : Trails left left') : number (spelling ++ left') = .token kind payload spelling left' := by
  have digits (text : List Char) : ∀ next ∈ text.takeWhile Char.isDigit, next.isDigit = true :=
    fun next member => List.mem_takeWhile_imp member
  -- What trails goes on with neither a digit nor a point.
  have calm {text : List Char} (same : left = text.dropWhile Char.isDigit) (plain : left.head? ≠ some '.') :
      (∀ next ∈ left'.head?, next.isDigit = false) ∧ left'.head? ≠ some '.' := by
    refine ⟨trails.all (by decide) (same ▸ head?_dropWhile Char.isDigit text), fun pointed => ?_⟩
    have points := trails.all (p := fun next => next = '.') (by decide) fun next first => ?_
    · simpa using points '.' pointed
    · rw [decide_eq_false_iff_not]
      rintro rfl
      exact plain first
  by_cases pointed : (text.dropWhile Char.isDigit).head? = some '.'
  · obtain ⟨fraction, point⟩ := List.head?_eq_some_iff.1 pointed
    by_cases dotted : (fraction.dropWhile Char.isDigit).head? = some '.'
    · obtain ⟨last, second⟩ := List.head?_eq_some_iff.1 dotted
      rw [number_dotted point second] at found
      cases found
    · rw [number_pointed point dotted] at found
      cases found
      obtain ⟨stops, plain⟩ := calm rfl dotted
      obtain ⟨places, later⟩ := takeWhile_stop (digits fraction) stops
      have stop : ∀ next ∈ ('.' :: (fraction.takeWhile Char.isDigit ++ left')).head?, next.isDigit = false := by simp
      have whole := takeWhile_stop (digits text) stop
      rw [List.append_assoc, List.cons_append, number_pointed whole.2, whole.1, places, later]
      · rfl
      · rwa [later]
  · rw [number_plain pointed] at found
    cases found
    obtain ⟨stops, plain⟩ := calm rfl pointed
    obtain ⟨whole, behind⟩ := takeWhile_stop (digits text) stops
    rw [number_plain (by rwa [behind]), whole, behind]
    rfl

theorem symbols_closed {longer short : List Char × Kind} {next : Char} {more : List Char} (listed : longer ∈ symbols)
    (listed' : short ∈ symbols) (same : longer.1 = short.1 ++ next :: more) :
    next ∉ spacers ∧ ∃ symbol ∈ symbols, symbol.1 = short.1 ++ [next] := by
  have table : ∀ longer ∈ symbols, ∀ short ∈ symbols, short.1 <+: longer.1 → short.1.length < longer.1.length →
      longer.1.tail.any (· ∈ spacers) = false ∧
      ∃ symbol ∈ symbols, symbol.1 = longer.1.take (short.1.length + 1) := by decide +kernel
  have nonempty : ∀ symbol ∈ symbols, symbol.1 ≠ [] := by decide
  obtain ⟨unspaced, symbol, third, taken⟩ :=
    table longer listed short listed' (same ▸ List.prefix_append _ _) (by simp [same])
  refine ⟨fun spaced => List.any_eq_false.1 unspaced next ?_ (decide_eq_true spaced), symbol, third, ?_⟩
  · rw [same, List.tail_append_of_ne_nil (nonempty short listed')]
    simp
  · rw [taken, same, List.take_append]
    simp

theorem symbol_kept {rest' : List Char} (symbolic : c.isDigit = false ∧ isLetter c = false)
    (found : symbol c rest = .token kind payload spelling left) (trails : Trails left left')
    (same : spelling ++ left' = c :: rest') : symbol c rest' = .token kind payload spelling left' := by
  have longest := (symbol_longest symbolic found).2
  unfold symbol at found
  split at found
  next first entry search =>
    cases found
    obtain ⟨fits, earlier, later, table, misses⟩ := List.find?_eq_some_iff_append.1 search
    have listed := List.mem_of_find?_eq_some search
    obtain ⟨behind, text⟩ := List.isPrefixOf_iff_prefix.1 fits
    rw [← text, List.drop_left] at trails
    have found' : (symbols.find? fun entry => entry.1.isPrefixOf (c :: rest')) = some (spelling, kind) := by
      refine List.find?_eq_some_iff_append.2 ⟨List.isPrefixOf_iff_prefix.2 ⟨left', same⟩, earlier, later, table, ?_⟩
      intro other before
      rw [Bool.not_eq_true', ← Bool.not_eq_true, List.isPrefixOf_iff_prefix]
      intro ahead
      have missed := misses other before
      rw [Bool.not_eq_true', ← Bool.not_eq_true, List.isPrefixOf_iff_prefix, ← text] at missed
      have listed' : other ∈ symbols := by simp [table, before]
      rw [← same] at ahead
      -- A symbol that fits now and did not fit before reaches into what follows.
      obtain inside | ⟨more, written⟩ := List.prefix_or_prefix_of_prefix ahead (List.prefix_append spelling left')
      · exact missed (inside.trans (List.prefix_append _ _))
      cases more with
      | nil =>
        rw [List.append_nil] at written
        exact missed (written ▸ List.prefix_append _ _)
      | cons next more =>
        obtain ⟨unspaced, symbol, third, spelled⟩ := symbols_closed listed' listed written.symm
        rw [← written] at ahead
        obtain ⟨others, rfl⟩ := (List.prefix_append_right_inj spelling).1 ahead
        rcases trails with head | ⟨mark, spacer, head⟩
        · obtain ⟨others', rfl⟩ := List.head?_eq_some_iff.1 head.symm
          have ahead : symbol.1 <+: c :: rest := ⟨others', by rw [spelled, ← text]; simp⟩
          have short := longest _ _ _ (mark_of_mem_symbols third) ahead
          rw [spelled, List.length_append, List.length_singleton] at short
          exact absurd short (Nat.not_succ_le_self _)
        · cases head
          exact unspaced spacer
    unfold symbol
    erw [found']
    dsimp only
    rw [← same, List.drop_left]
  next => cases found

theorem front_kept {rest' : List Char} (found : front c rest = .token kind payload spelling left)
    (trails : Trails left left') (same : spelling ++ left' = c :: rest') :
    front c rest' = .token kind payload spelling left' := by
  unfold front at found ⊢
  split at found
  next => cases found
  next blank =>
    rw [if_neg blank]
    split at found
    next => cases found
    next comment =>
      rw [if_neg comment]
      split at found
      next digit =>
        rw [if_pos digit, ← same]
        exact number_kept found trails
      next plain =>
        rw [if_neg plain]
        split at found
        next letter =>
          rw [if_pos letter, ← same]
          exact word_kept found trails
        next other =>
          rw [if_neg other]
          exact symbol_kept ⟨by simpa using plain, by simpa using other⟩ found trails same

theorem scan_kept (found : front c rest = .token kind payload spelling left) (trails : Trails left left')
    (p : Position) : scan p (spelling ++ left') =
      (scan (p.after spelling) left').map (⟨kind, payload, ⟨p, p.after spelling⟩⟩ :: ·) := by
  obtain ⟨nonempty, text⟩ := takes_of_front found
  cases spelling with
  | nil => exact absurd rfl nonempty
  | cons first more =>
    obtain ⟨rfl, _⟩ := List.cons.inj text
    exact scan_token p (front_kept found trails rfl)

theorem Gap.newline_notMem {after : List Char} (skipped : Gap gap after) : '\n' ∉ gap := by
  induction skipped with
  | nothing => simp
  | @blank mark _ _ kind _ ih =>
    have other : '\n' ≠ mark := by
      rintro rfl
      exact absurd kind (by decide)
    simp [other, ih]
  | comment line => simp [line]

theorem Gap.trails {after : List Char} (skipped : Gap gap after) : Trails after (gap ++ after) := by
  cases skipped with
  | nothing => exact .inl rfl
  | @blank mark _ _ kind =>
    refine .inr ⟨mark, ?_, rfl⟩
    rcases kind with rfl | rfl | rfl <;> decide
  | comment => exact .inr ⟨'#', by decide, rfl⟩

theorem takeWhile_comment {body : List Char} (line : '\n' ∉ body) (after : List Char) :
    (body ++ after).takeWhile (· ≠ '\n') = body ++ after.takeWhile (· ≠ '\n') ∧
      (body ++ after).dropWhile (· ≠ '\n') = after.dropWhile (· ≠ '\n') := by
  have all : ∀ next ∈ body, decide (next ≠ '\n') = true := by
    intro next member
    rw [decide_eq_true_eq]
    rintro rfl
    exact line member
  exact ⟨List.takeWhile_append_of_pos all, List.dropWhile_append_of_pos all⟩

theorem front_comment (body after : List Char) (line : '\n' ∉ body) :
    front '#' (body ++ after) =
      .blank ('#' :: (body ++ after.takeWhile (· ≠ '\n'))) (after.dropWhile (· ≠ '\n')) := by
  obtain ⟨inside, behind⟩ := takeWhile_comment line after
  rw [← inside, ← behind]
  rfl

theorem dropWhile_line_start {after : List Char} (ends : after = [] ∨ after.head? = some '\n') :
    after.takeWhile (· ≠ '\n') = [] ∧ after.dropWhile (· ≠ '\n') = after := by
  rcases ends with rfl | first
  · exact ⟨rfl, rfl⟩
  · obtain ⟨more, rfl⟩ := List.head?_eq_some_iff.1 first
    simp

theorem scan_gap {after : List Char} (skipped : Gap gap after) (p : Position) :
    scan p (gap ++ after) = scan (p.after gap) after := by
  induction skipped generalizing p with
  | nothing => rfl
  | @blank mark gap after kind others ih =>
    have found : front mark (gap ++ after) = .blank [mark] (gap ++ after) := if_pos kind
    rw [List.cons_append, scan_blank p found, ih]
    rfl
  | @comment body after line ends =>
    have found := front_comment body after line
    rw [(dropWhile_line_start ends).1, (dropWhile_line_start ends).2, List.append_nil] at found
    rw [List.cons_append, scan_blank p found]

def unplaced (result : Except (Fault Position) (List (Token Position))) :
    Except (Fault Unit) (List (Token Unit)) :=
  placed (fun _ => ()) result

theorem unplaced_map (token : Token Position) (result : Except (Fault Position) (List (Token Position))) :
    unplaced (result.map (token :: ·)) = (unplaced result).map (token.map (fun _ => ()) :: ·) :=
  placed_map token result

theorem unplaced_scan (p q : Position) (text : List Char) : unplaced (scan p text) = unplaced (scan q text) :=
  placed_scan (fun _ _ => rfl) text rfl

def Apart (index : Nat) (token : Token Position) : Prop :=
  token.span.stop.index ≤ index ∨ index ≤ token.span.start.index

theorem apart_after {first : List Char} {p : Position} {tokens : List (Token Position)}
    (apart : ∀ token ∈ tokens, Apart (p.index + (spelling ++ first).length) token) :
    ∀ token ∈ tokens, Apart ((p.after spelling).index + first.length) token := by
  rw [Position.index_after, Nat.add_assoc, ← List.length_append]
  exact apart

/-- The text has the same tokens when the gap is put in front of its end `second`, unless that is inside a token. -/
def Absorbs (gap second text : List Char) : Prop :=
  ∀ {first : List Char} {p q : Position} {tokens : List (Token Position)}, first ++ second = text →
    scan p text = .ok tokens → (∀ token ∈ tokens, Apart (p.index + first.length) token) →
    unplaced (scan q (first ++ (gap ++ second))) = unplaced (scan p text)

variable {second : List Char}

theorem unplaced_gap (skipped : Gap gap second) (p q : Position) :
    unplaced (scan q (gap ++ second)) = unplaced (scan p second) := by
  rw [scan_gap skipped]
  exact unplaced_scan _ _ _

theorem absorbs_blank (skipped : Gap gap second) (kind : c = ' ' ∨ c = '\t' ∨ c = '\r')
    (absorbs : Absorbs gap second rest) : Absorbs gap second (c :: rest) := by
  intro first p q tokens split scanned apart
  have found (after : List Char) : front c after = .blank [c] after := if_pos kind
  cases first with
  | nil => exact split ▸ unplaced_gap skipped p q
  | cons d first =>
    rw [List.cons_append] at split
    obtain ⟨rfl, rfl⟩ := List.cons.inj split
    rw [scan_blank p (found _)] at scanned ⊢
    rw [List.cons_append, scan_blank q (found _)]
    exact absorbs rfl scanned (apart_after apart)

theorem absorbs_comment (skipped : Gap gap second) (absorbs : Absorbs gap second (rest.dropWhile (· ≠ '\n'))) :
    Absorbs gap second ('#' :: rest) := by
  intro first p q tokens split scanned apart
  cases first with
  | nil => exact split ▸ unplaced_gap skipped p q
  | cons d first =>
    rw [List.cons_append] at split
    obtain ⟨rfl, rfl⟩ := List.cons.inj split
    obtain ⟨body, line, rfl, closed, ends⟩ : ∃ body line, first = body ++ line ∧ '\n' ∉ body ∧
        (line = [] ∨ line.head? = some '\n') :=
      ⟨_, _, List.takeWhile_append_dropWhile.symm, newline_notMem_takeWhile first, dropWhile_newline first⟩
    rcases ends with rfl | begins
    · -- The gap is put into the comment, which goes on as far as before.
      have closed' : '\n' ∉ body ++ gap := by simp [closed, skipped.newline_notMem]
      rw [List.append_nil, scan_blank p (front_comment body second closed), List.cons_append, ← List.append_assoc,
        scan_blank q (front_comment (body ++ gap) second closed')]
      exact unplaced_scan _ _ _
    · obtain ⟨more, rfl⟩ := List.head?_eq_some_iff.1 begins
      have found (after : List Char) : front '#' (body ++ ('\n' :: more ++ after)) =
          .blank ('#' :: body) ('\n' :: more ++ after) := by
        have found := front_comment body ('\n' :: more ++ after) closed
        rwa [(dropWhile_line_start (.inr rfl)).1, (dropWhile_line_start (.inr rfl)).2, List.append_nil] at found
      have ended : (body ++ '\n' :: more ++ second).dropWhile (· ≠ '\n') = '\n' :: more ++ second := by
        rw [List.append_assoc, (takeWhile_comment closed _).2, (dropWhile_line_start (.inr rfl)).2]
      rw [ended] at absorbs
      rw [List.append_assoc, scan_blank p (found second)] at scanned
      rw [List.append_assoc body, scan_blank p (found second), List.cons_append, List.append_assoc,
        scan_blank q (found (gap ++ second))]
      exact absorbs rfl scanned (apart_after apart)

theorem absorbs_token (skipped : Gap gap second) (found : front c rest = .token kind payload spelling left)
    (absorbs : Absorbs gap second left) : Absorbs gap second (c :: rest) := by
  intro first p q tokens split scanned apart
  obtain ⟨_, text⟩ := takes_of_front found
  cases first with
  | nil => exact split ▸ unplaced_gap skipped p q
  | cons d first =>
    rw [scan_token p found] at scanned ⊢
    cases behind : scan (p.after spelling) left with
    | error fault =>
      rw [behind] at scanned
      cases scanned
    | ok others =>
      rw [behind] at scanned
      cases scanned
      obtain ⟨front, later⟩ := List.forall_mem_cons.1 apart
      -- The place is not inside this token and not in front of it, so it is behind it.
      have whole : spelling.length ≤ (d :: first).length := by
        dsimp only [Apart] at front
        rw [Position.index_after, List.length_cons] at front
        rw [List.length_cons]
        omega
      obtain ⟨more, same⟩ := List.prefix_of_prefix_length_le (text ▸ List.prefix_append spelling left)
        (split ▸ List.prefix_append (d :: first) second) whole
      rw [← same] at split later ⊢
      rw [List.append_assoc, ← text] at split
      obtain rfl := List.append_cancel_left split
      have trails : Trails (more ++ second) (more ++ (gap ++ second)) := by
        cases more with
        | nil => exact skipped.trails
        | cons next more => exact .inl rfl
      have same := absorbs (q := q.after spelling) rfl behind (apart_after later)
      rw [List.append_assoc, scan_kept found trails, ← behind, unplaced_map, unplaced_map, same]
      rfl

theorem absorbs_text (skipped : Gap gap second) (text : List Char) : Absorbs gap second text := by
  induction text using text_induction with
  | nil =>
    intro first p q tokens split scanned apart
    obtain ⟨rfl, rfl⟩ := List.append_eq_nil_iff.1 split
    exact unplaced_gap skipped p q
  | blank found ih =>
    obtain ⟨kind, rfl, rfl⟩ | ⟨rfl, rfl, rfl⟩ := front_blank found
    · exact absorbs_blank skipped kind ih
    · exact absorbs_comment skipped ih
  | token found ih => exact absorbs_token skipped found ih
  | illegal found =>
    intro first p q tokens split scanned apart
    rw [scan_illegal p found] at scanned
    cases scanned

end Scan

open Scan

def Source.insert (source : Source) (index : Nat) (inserted : List Char) : Source :=
  ⟨source.name, String.ofList (source.text.toList.take index ++ (inserted ++ source.text.toList.drop index))⟩

variable {source : Source} {tokens : List (Token Position)} {index : Nat}

theorem alike_of_unplaced {result : Except (Fault Position) (List (Token Position))}
    (same : unplaced result = unplaced (.ok tokens)) :
    ∃ others, result = .ok others ∧ List.Forall₂ Token.Alike others tokens := by
  cases result with
  | error fault => cases same
  | ok others => exact ⟨others, rfl, tokens_alike_iff.2 (Except.ok.inj same)⟩

theorem tokens_insert_gap (scanned : source.tokens = .ok tokens) (within : index ≤ source.text.toList.length)
    (apart : ∀ token ∈ tokens, Apart index token) {gap : List Char}
    (skipped : Gap gap (source.text.toList.drop index)) :
    ∃ others, (source.insert index gap).tokens = .ok others ∧ List.Forall₂ Token.Alike others tokens := by
  apply alike_of_unplaced
  rw [← scanned, tokens_eq_scan, tokens_eq_scan, Source.insert, String.toList_ofList]
  refine absorbs_text skipped _ (List.take_append_drop index _) (tokens_eq_scan source ▸ scanned) ?_
  rw [List.length_take, Nat.min_eq_left within]
  simpa [Position.start] using apart

theorem apart_line (scanned : source.tokens = .ok tokens)
    (ends : index = source.text.toList.length ∨ source.text.toList[index]? = some '\n') :
    ∀ token ∈ tokens, Apart index token := by
  intro token member
  obtain ⟨before, after, split⟩ := List.append_of_mem member
  obtain ⟨done, gap, spelling, rest, text, _, starts, stops, _, _, kinds⟩ := tokens_parts scanned split
  by_contra inside
  rw [Apart, starts, stops, not_or, Nat.not_le, Nat.not_le] at inside
  obtain ⟨early, late⟩ := inside
  obtain ⟨offset, rfl⟩ := Nat.exists_eq_add_of_le (Nat.le_of_lt late)
  rw [@List.length_append _ (done ++ gap) spelling] at early
  rcases ends with ends | newline
  · rw [text] at ends
    simp only [List.length_append] at ends early
    omega
  · have there : spelling[offset]? = some '\n' := by
      rw [text, ← List.append_assoc, List.getElem?_append_right (Nat.le_add_right _ _), Nat.add_sub_cancel_left,
        List.getElem?_append_left (by omega)] at newline
      exact newline
    rcases kinds with ⟨_, _, _, rfl, _⟩ | ⟨_, _, spells, _⟩
    · cases there
    · rcases spells.flat with flat | alone
      · exact flat (List.mem_of_getElem? there)
      · rw [alone, List.length_singleton] at early
        omega

/-- A blank that is put anywhere but into a token leaves the tokens what they are, and so does a comment
that is put in front of a newline or at the end of the text. -/
theorem tokens_insert (scanned : source.tokens = .ok tokens) :
    (∀ (index : Nat) (blank : Char), index ≤ source.text.toList.length →
      (∀ token ∈ tokens, ¬ (token.span.start.index < index ∧ index < token.span.stop.index)) →
      blank = ' ' ∨ blank = '\t' ∨ blank = '\r' →
      ∃ others, (source.insert index [blank]).tokens = .ok others ∧ List.Forall₂ Token.Alike others tokens) ∧
    ∀ (index : Nat) (body : List Char),
      index = source.text.toList.length ∨ source.text.toList[index]? = some '\n' → '\n' ∉ body →
      ∃ others, (source.insert index ('#' :: body)).tokens = .ok others ∧ List.Forall₂ Token.Alike others tokens := by
  constructor
  · intro index blank within outside kind
    refine tokens_insert_gap scanned within (fun token member => ?_) (.blank kind .nothing)
    have free := outside token member
    unfold Apart
    omega
  · intro index body ends line
    have within : index ≤ source.text.toList.length := by
      rcases ends with same | newline
      · exact Nat.le_of_eq same
      · exact Nat.le_of_lt (List.getElem?_eq_some_iff.1 newline).1
    refine tokens_insert_gap scanned within (apart_line scanned ends) (.comment line ?_)
    rcases ends with rfl | newline
    · exact .inl List.drop_length
    · exact .inr (List.head?_drop.trans newline)

theorem tokens_insert_operators :
    let source : Source := ⟨"operators", "a>>>>4.x\n"⟩
    let tokens := [(Kind.identifier, some (Payload.name "a"), 0, 1), (.shiftRightZero, none, 1, 4),
      (.greater, none, 4, 5), (.number, some (.number 4), 5, 7), (.identifier, some (.name "x"), 7, 8),
      (.newline, none, 8, 9), (.endOfText, none, 9, 9)].map fun (kind, payload, start, stop) =>
        (⟨kind, payload, ⟨source.position start, source.position stop⟩⟩ : Token Position)
    source.tokens = .ok tokens ∧
      (∃ others, (source.insert 4 [' ']).tokens = .ok others ∧ List.Forall₂ Token.Alike others tokens) ∧
      (∃ others, (source.insert 8 "#=".toList).tokens = .ok others ∧ List.Forall₂ Token.Alike others tokens) ∧
      (source.insert 4 [' ']).text = "a>>> >4.x\n" ∧ (source.insert 8 "#=".toList).text = "a>>>>4.x#=\n" := by
  intro source tokens
  have scanned : source.tokens = .ok tokens := by decide +kernel
  have insert := tokens_insert scanned
  exact ⟨scanned, insert.1 4 ' ' (by decide) (by decide +kernel) (.inl rfl),
    insert.2 8 ['='] (.inr (by decide)) (by decide), by decide +kernel, by decide +kernel⟩

end Reckon
