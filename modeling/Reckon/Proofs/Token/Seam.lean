import Mathlib.Data.List.Find
import Reckon.Proofs.Token.Lossless

set_option autoImplicit false

/-!
# Tokens across a newline

A newline ends every token, so that a text and the lines added to it are scanned one after the
other.
-/

namespace Reckon

namespace Scan

def Front.before (more : List Char) : Front → Front
  | .blank spelling rest => .blank spelling (rest ++ more)
  | .token kind payload spelling rest => .token kind payload spelling (rest ++ more)
  | .illegal before c help => .illegal before c help

section Fronts

variable (text more : List Char)

theorem takeWhile_line {p : Char → Bool} (stops : p '\n' = false) :
    (text ++ '\n' :: more).takeWhile p = text.takeWhile p := by
  induction text with
  | nil => simp [stops]
  | cons c rest ih => rw [List.cons_append, List.takeWhile_cons, List.takeWhile_cons, ih]

theorem dropWhile_line {p : Char → Bool} (stops : p '\n' = false) :
    (text ++ '\n' :: more).dropWhile p = text.dropWhile p ++ '\n' :: more := by
  induction text with
  | nil => simp [stops]
  | cons c rest ih =>
    rw [List.cons_append, List.dropWhile_cons, List.dropWhile_cons, ih]
    split <;> rfl

theorem head?_line {mark : Char} (other : mark ≠ '\n') (unmarked : text.head? ≠ some mark) :
    (text ++ '\n' :: more).head? ≠ some mark := by
  cases text with
  | nil => simpa using other.symm
  | cons c rest => exact unmarked

theorem number_plain {text : List Char} (plain : (text.dropWhile Char.isDigit).head? ≠ some '.') :
    number text = numberToken (text.takeWhile Char.isDigit) (text.dropWhile Char.isDigit) := by
  unfold number
  split
  next pointed => simp [pointed] at plain
  next => rfl

theorem number_pointed {text fraction : List Char} (pointed : text.dropWhile Char.isDigit = '.' :: fraction)
    (plain : (fraction.dropWhile Char.isDigit).head? ≠ some '.') :
    number text = numberToken (text.takeWhile Char.isDigit ++ '.' :: fraction.takeWhile Char.isDigit)
      (fraction.dropWhile Char.isDigit) := by
  unfold number
  split
  next more same =>
    cases pointed.symm.trans same
    split
    next dotted => simp [dotted] at plain
    next => rfl
  next unpointed => exact absurd pointed (unpointed fraction)

theorem number_dotted {text fraction last : List Char} (pointed : text.dropWhile Char.isDigit = '.' :: fraction)
    (dotted : fraction.dropWhile Char.isDigit = '.' :: last) :
    number text = .illegal (text.takeWhile Char.isDigit ++ '.' :: fraction.takeWhile Char.isDigit) '.'
      (some "A number may contain at most one decimal point.") := by
  unfold number
  split
  next more same =>
    cases pointed.symm.trans same
    split
    next => rfl
    next undotted => exact absurd dotted (undotted last)
  next unpointed => exact absurd pointed (unpointed fraction)

theorem number_line : number (text ++ '\n' :: more) = (number text).before ('\n' :: more) := by
  have digits := takeWhile_line text more (p := Char.isDigit) (by decide)
  have behind := dropWhile_line text more (p := Char.isDigit) (by decide)
  by_cases plain : (text.dropWhile Char.isDigit).head? = some '.'
  · obtain ⟨fraction, pointed⟩ := List.head?_eq_some_iff.1 plain
    have places := takeWhile_line fraction more (p := Char.isDigit) (by decide)
    have later := dropWhile_line fraction more (p := Char.isDigit) (by decide)
    rw [pointed, List.cons_append] at behind
    by_cases dotted : (fraction.dropWhile Char.isDigit).head? = some '.'
    · obtain ⟨last, same⟩ := List.head?_eq_some_iff.1 dotted
      rw [same, List.cons_append] at later
      rw [number_dotted pointed same, number_dotted behind later, digits, places]
      rfl
    · rw [number_pointed pointed dotted, number_pointed behind, digits, places, later]
      · rfl
      · rw [later]
        exact head?_line _ more (by decide) dotted
  · rw [number_plain plain, number_plain, digits, behind]
    · rfl
    · rw [behind]
      exact head?_line _ more (by decide) plain

theorem word_line : word (text ++ '\n' :: more) = (word text).before ('\n' :: more) := by
  unfold word
  rw [takeWhile_line text more (p := isLetter) (by decide), dropWhile_line text more (p := isLetter) (by decide)]
  unfold wordToken
  split <;> rfl

theorem isPrefixOf_line {spelling : List Char} (single : '\n' ∉ spelling) :
    spelling.isPrefixOf (text ++ '\n' :: more) = spelling.isPrefixOf text := by
  induction spelling generalizing text with
  | nil => simp
  | cons first others ih =>
    simp only [List.mem_cons, not_or] at single
    cases text with
    | nil => simp [List.isPrefixOf, Ne.symm single.1]
    | cons c rest => rw [List.cons_append, List.isPrefixOf_cons_cons, List.isPrefixOf_cons_cons, ih rest single.2]

theorem find?_symbols_line (c : Char) :
    (symbols.find? fun entry => entry.1.isPrefixOf (c :: (text ++ '\n' :: more))) =
      symbols.find? fun entry => entry.1.isPrefixOf (c :: text) := by
  apply List.find?_congr
  rintro ⟨spelling, kind⟩ member
  have table : ∀ entry ∈ symbols, '\n' ∉ entry.1.tail := by decide
  have single := table _ member
  cases spelling with
  | nil => simp
  | cons first others =>
    dsimp only [List.tail_cons] at single ⊢
    rw [List.isPrefixOf_cons_cons, List.isPrefixOf_cons_cons, isPrefixOf_line text more single]

theorem symbol_line (c : Char) : symbol c (text ++ '\n' :: more) = (symbol c text).before ('\n' :: more) := by
  unfold symbol
  -- The search matches a pair, which `rw` does not see through.
  cases found : symbols.find? fun entry => entry.1.isPrefixOf (c :: text) with
  | none =>
    erw [find?_symbols_line text more c, found]
    rfl
  | some entry =>
    have fitting := List.find?_some found
    have fits : entry.1 <+: c :: text := List.isPrefixOf_iff_prefix.1 fitting
    erw [find?_symbols_line text more c, found]
    dsimp only [Front.before]
    rw [← List.cons_append, List.drop_append_of_le_length fits.length_le]

theorem front_line (c : Char) : front c (text ++ '\n' :: more) = (front c text).before ('\n' :: more) := by
  unfold front
  split
  next => rfl
  next =>
    split
    next =>
      rw [takeWhile_line text more (by decide), dropWhile_line text more (by decide)]
      rfl
    next =>
      split
      next => exact number_line (c :: text) more
      next =>
        split
        next => exact word_line (c :: text) more
        next => exact symbol_line text more c

theorem front_longer {c : Char} {rest : List Char} {found : Front} (same : front c rest = found) :
    front c (rest ++ '\n' :: more) = found.before ('\n' :: more) :=
  same ▸ front_line rest more c

end Fronts

theorem scan_ne_nil {p : Position} {text : List Char} {tokens : List (Token Position)}
    (scanned : scan p text = .ok tokens) : tokens ≠ [] := by
  obtain ⟨before, rfl⟩ := (scan_cover text scanned).ends
  simp

theorem scan_line_ok (text more : List Char) {p : Position} {before : List (Token Position)}
    {stop : Token Position} (scanned : scan p text = .ok (before ++ [stop])) :
    scan p (text ++ '\n' :: more) = (scan (p.after text) ('\n' :: more)).map (before ++ ·) := by
  induction text using text_induction generalizing p before with
  | nil =>
    cases before with
    | nil =>
      rw [List.nil_append, Position.after_nil]
      cases scan p ('\n' :: more) <;> rfl
    | cons first others =>
      have two := congrArg List.length (Except.ok.inj scanned)
      simp at two
  | @blank c rest spelling left found ih =>
    rw [scan_blank p found] at scanned
    have takes := takes_of_front found
    have longer := front_longer more found
    rw [List.cons_append, scan_blank p longer, ih scanned, ← Position.after_append, takes.2]
  | @token c rest spelling left kind payload found ih =>
    rw [scan_token p found] at scanned
    have takes := takes_of_front found
    have longer := front_longer more found
    cases behind : scan (p.after spelling) left with
    | error fault =>
      rw [behind] at scanned
      cases scanned
    | ok others =>
      rw [behind] at scanned
      cases before with
      | nil =>
        have empty : others = [] := (List.cons.inj (Except.ok.inj scanned)).2
        exact absurd empty (scan_ne_nil behind)
      | cons first before =>
        obtain ⟨rfl, rfl⟩ := List.cons.inj (Except.ok.inj scanned)
        rw [List.cons_append, scan_token p longer, ih behind, ← Position.after_append, takes.2]
        cases scan (p.after (c :: rest)) ('\n' :: more) <;> rfl
  | illegal found =>
    rw [scan_illegal p found] at scanned
    cases scanned

theorem scan_line_error (text more : List Char) {p : Position} {fault : Fault Position}
    (failed : scan p text = .error fault) : scan p (text ++ '\n' :: more) = .error fault := by
  induction text using text_induction generalizing p with
  | nil => cases failed
  | @blank c rest spelling left found ih =>
    rw [scan_blank p found] at failed
    have longer := front_longer more found
    rw [List.cons_append, scan_blank p longer]
    exact ih failed
  | @token c rest spelling left kind payload found ih =>
    rw [scan_token p found] at failed
    have longer := front_longer more found
    cases behind : scan (p.after spelling) left with
    | error early =>
      rw [behind] at failed
      cases failed
      rw [List.cons_append, scan_token p longer]
      change Except.map _ (scan (p.after spelling) (left ++ '\n' :: more)) = _
      rw [ih behind]
      rfl
    | ok others =>
      rw [behind] at failed
      cases failed
  | @illegal c wrong rest before help found =>
    rw [scan_illegal p found] at failed
    cases failed
    have longer := front_longer more found
    rw [List.cons_append, scan_illegal p longer]

theorem scan_newline (p : Position) (more : List Char) :
    scan p ('\n' :: more) =
      (scan (p.next '\n') more).map (⟨.newline, none, ⟨p, p.next '\n'⟩⟩ :: ·) := by
  have found : front '\n' more = .token .newline none ['\n'] more := rfl
  exact scan_token p found

theorem scan_error (text : List Char) {p : Position} {fault : Fault Position}
    (failed : scan p text = .error fault) : ∃ before c rest, text = before ++ c :: rest ∧
      fault.cause = .illegalCharacter c ∧ fault.span = ⟨p.after before, (p.after before).next c⟩ := by
  induction text using text_induction generalizing p with
  | nil => cases failed
  | @blank c rest spelling left found ih =>
    have takes := takes_of_front found
    rw [scan_blank p found] at failed
    obtain ⟨before, wrong, later, same, cause, span⟩ := ih failed
    refine ⟨spelling ++ before, wrong, later, ?_, cause, ?_⟩
    · rw [← takes.2, same, List.append_assoc]
    · rw [span, Position.after_append]
  | @token c rest spelling left kind payload found ih =>
    have takes := takes_of_front found
    rw [scan_token p found] at failed
    cases behind : scan (p.after spelling) left with
    | error early =>
      rw [behind] at failed
      cases failed
      obtain ⟨before, wrong, later, same, cause, span⟩ := ih behind
      refine ⟨spelling ++ before, wrong, later, ?_, cause, ?_⟩
      · rw [← takes.2, same, List.append_assoc]
      · rw [span, Position.after_append]
    | ok others =>
      rw [behind] at failed
      cases failed
  | @illegal c wrong rest before help found =>
    have takes := takes_of_front found
    rw [scan_illegal p found] at failed
    cases failed
    obtain ⟨later, same⟩ := takes
    exact ⟨before, wrong, later, same.symm, rfl, rfl⟩

theorem scan_error_within {text : List Char} {p : Position} {fault : Fault Position}
    (failed : scan p text = .error fault) :
    p.index ≤ fault.span.start.index ∧ fault.span.start.index < p.index + text.length := by
  obtain ⟨before, c, rest, rfl, _, span⟩ := scan_error text failed
  rw [span, Position.index_after, List.length_append, List.length_cons]
  omega

section Placed

variable {Q : Type} {f : Position → Q}

def placed (f : Position → Q) :
    Except (Fault Position) (List (Token Position)) → Except (Fault Q) (List (Token Q))
  | .ok tokens => .ok (tokens.map (Token.map f))
  | .error fault => .error (fault.map f)

theorem placed_map (token : Token Position) (result : Except (Fault Position) (List (Token Position))) :
    placed f (result.map (token :: ·)) = (placed f result).map (token.map f :: ·) := by
  cases result <;> rfl

theorem placed_after (moves : ∀ {p q : Position} (c : Char), f p = f q → f (p.next c) = f (q.next c))
    (spelling : List Char) {p q : Position} (same : f p = f q) : f (p.after spelling) = f (q.after spelling) := by
  induction spelling generalizing p q with
  | nil => exact same
  | cons c rest ih => exact ih (moves c same)

theorem placed_scan (moves : ∀ {p q : Position} (c : Char), f p = f q → f (p.next c) = f (q.next c))
    (text : List Char) {p q : Position} (same : f p = f q) : placed f (scan p text) = placed f (scan q text) := by
  induction text using text_induction generalizing p q with
  | nil =>
    change Except.ok [Token.map f _] = Except.ok [Token.map f _]
    simp only [Token.map, Span.map_point, same]
  | blank found ih =>
    rw [scan_blank p found, scan_blank q found]
    exact ih (placed_after moves _ same)
  | @token c rest spelling left kind payload found ih =>
    have stops := placed_after moves spelling same
    rw [scan_token p found, scan_token q found, placed_map, placed_map, ih stops]
    simp only [Token.map, Span.map, same, stops]
  | @illegal c wrong rest before help found =>
    have starts := placed_after moves before same
    rw [scan_illegal p found, scan_illegal q found]
    change Except.error (Fault.map f _) = Except.error (Fault.map f _)
    simp only [Fault.map, Span.map, starts, moves wrong starts]

theorem scan_anywhere {text : List Char} {p : Position} {tokens : List (Token Position)}
    (scanned : scan p text = .ok tokens) (q : Position) :
    ∃ others, scan q text = .ok others ∧
      others.map (Token.map fun _ => ()) = tokens.map (Token.map fun _ => ()) := by
  have same := placed_scan (f := fun _ => ()) (fun _ _ => rfl) text (p := p) (q := q) rfl
  rw [scanned] at same
  cases there : scan q text with
  | error fault =>
    rw [there] at same
    cases same
  | ok others =>
    rw [there] at same
    exact ⟨others, rfl, (Except.ok.inj same).symm⟩

end Placed

def indexed : Except (Fault Position) (List (Token Position)) → Except (Fault Nat) (List (Token Nat))
  | .ok tokens => .ok (tokens.map (Token.map Position.index))
  | .error fault => .error (fault.map Position.index)

theorem indexed_eq (result : Except (Fault Position) (List (Token Position))) :
    indexed result = placed Position.index result := by
  cases result <;> rfl

theorem indexed_scan (text : List Char) {p q : Position} (same : p.index = q.index) :
    indexed (scan p text) = indexed (scan q text) := by
  rw [indexed_eq, indexed_eq]
  exact placed_scan (fun _ equal => congrArg (· + 1) equal) text same

end Scan

end Reckon
