import Reckon.Proofs.Token.Lossless
import Reckon.Proofs.Token.Seam

set_option autoImplicit false

/-!
# Which texts can be scanned

Whether a character is legal depends on the characters before it alone: on whether a comment is open,
and, for a point, on the numeral that it would continue. A scan stops at the first character that is not.
-/

namespace Reckon

namespace Scan

def InComment (before : List Char) : Prop :=
  '#' ∈ before.reverse.takeWhile (· ≠ '\n')

def isNumeric (c : Char) : Bool := c.isDigit || c = '.'

def numeralBefore (before : List Char) : List Char :=
  before.reverse.takeWhile isNumeric

def marks : List Char :=
  [' ', '\t', '\r', '\n', '+', '-', '*', '/', '%', '&', '|', '^', '<', '>', '!', '=', '(', ')', '\x7b', '\x7d', ';', '$', '#']

def isPlain (c : Char) : Bool := isLetter c || c.isDigit || c ∈ marks

/-- A character can stand behind others: anything in a comment, and a point behind digits that have none. -/
def Allowed (before : List Char) (c : Char) : Prop :=
  InComment before ∨ isPlain c = true ∨ c = '.' ∧ numeralBefore before ≠ [] ∧ '.' ∉ numeralBefore before

instance (before : List Char) (c : Char) : Decidable (Allowed before c) :=
  inferInstanceAs (Decidable (_ ∈ _ ∨ _ ∨ _ ∧ _ ∧ _))

/-- Every character of a text can stand where it does, when others come before the text. -/
def LegalAfter : List Char → List Char → Prop
  | _, [] => True
  | before, c :: rest => Allowed before c ∧ LegalAfter (before ++ [c]) rest

def Legal (text : List Char) : Prop :=
  ∀ (index : Nat) (c : Char), text[index]? = some c → Allowed (text.take index) c

variable {before spelling rest text : List Char} {c : Char}

theorem legalAfter_append : LegalAfter before (spelling ++ rest) ↔ LegalAfter before spelling ∧ LegalAfter (before ++ spelling) rest := by
  induction spelling generalizing before with
  | nil => simp [LegalAfter]
  | cons c more ih => simp [LegalAfter, ih, and_assoc]

theorem legalAfter_iff : LegalAfter before text ↔
    ∀ (index : Nat) (c : Char), text[index]? = some c → Allowed (before ++ text.take index) c := by
  induction text generalizing before with
  | nil => simp [LegalAfter]
  | cons first rest ih =>
    rw [LegalAfter, ih]
    constructor
    · rintro ⟨here, further⟩ index c there
      cases index with
      | zero =>
        cases there
        simpa using here
      | succ index => simpa using further index c there
    · intro all
      refine ⟨by simpa using all 0 first rfl, fun index c there => ?_⟩
      simpa using all (index + 1) c there

theorem legal_iff : Legal text ↔ LegalAfter [] text := by
  simp [Legal, legalAfter_iff]

theorem inComment_concat : InComment (before ++ [c]) ↔ c ≠ '\n' ∧ (c = '#' ∨ InComment before) := by
  unfold InComment
  by_cases newline : c = '\n'
  · simp [newline]
  · simp [newline, eq_comm]

theorem numeralBefore_concat :
    numeralBefore (before ++ [c]) = if isNumeric c = true then c :: numeralBefore before else [] := by
  unfold numeralBefore
  by_cases numeric : isNumeric c = true <;> simp [numeric]

theorem not_inComment_append (unmarked : '#' ∉ spelling) (outside : ¬ InComment before ∨ '\n' ∈ spelling) :
    ¬ InComment (before ++ spelling) := by
  induction spelling generalizing before with
  | nil => simpa using outside
  | cons c more ih =>
    simp only [List.mem_cons, not_or] at unmarked outside
    rw [List.append_cons]
    refine ih unmarked.2 ?_
    rw [inComment_concat]
    grind

theorem numeralBefore_append (numeric : ∀ c ∈ spelling, isNumeric c = true) :
    numeralBefore (before ++ spelling) = spelling.reverse ++ numeralBefore before := by
  unfold numeralBefore
  rw [List.reverse_append, List.takeWhile_append_of_pos (by simpa using numeric)]

theorem numeralBefore_plain (nonempty : spelling ≠ []) (plain : ∀ c ∈ spelling, isNumeric c = false) :
    numeralBefore (before ++ spelling) = [] := by
  obtain ⟨init, last, rfl⟩ := (List.eq_nil_or_concat spelling).resolve_left nonempty
  have other := plain last (by simp)
  rw [List.concat_eq_append, ← List.append_assoc, numeralBefore_concat, other]
  rfl

theorem legalAfter_plain (plain : ∀ c ∈ spelling, isPlain c = true) : LegalAfter before spelling := by
  induction spelling generalizing before with
  | nil => trivial
  | cons c more ih =>
    obtain ⟨one, others⟩ := List.forall_mem_cons.1 plain
    exact ⟨.inr (.inl one), ih others⟩

theorem legalAfter_comment (inside : InComment before) (line : '\n' ∉ spelling) : LegalAfter before spelling := by
  induction spelling generalizing before with
  | nil => trivial
  | cons c more ih =>
    simp only [List.mem_cons, not_or] at line
    exact ⟨.inl inside, ih (inComment_concat.2 ⟨fun same => line.1 same.symm, .inr inside⟩) line.2⟩

structure Joint (before rest : List Char) : Prop where
  comment : InComment before → rest = [] ∨ rest.head? = some '\n'
  numeral : numeralBefore before = [] ∨ ∀ c ∈ rest.head?, isNumeric c = false

theorem joint_start (text : List Char) : Joint [] text :=
  ⟨fun inside => by simp [InComment] at inside, .inl rfl⟩

theorem Joint.outside (joint : Joint before (c :: rest)) (other : c ≠ '\n') : ¬ InComment before := by
  intro inside
  simpa [other] using joint.comment inside

theorem Joint.unnumbered (joint : Joint before (c :: rest)) (numeric : isNumeric c = true) :
    numeralBefore before = [] := by
  refine joint.numeral.resolve_right fun all => ?_
  rw [all c rfl] at numeric
  cases numeric

theorem joint_plain (outside : ¬ InComment before ∨ '\n' ∈ spelling) (nonempty : spelling ≠ []) (unmarked : '#' ∉ spelling)
    (plain : ∀ c ∈ spelling, isNumeric c = false) (rest : List Char) : Joint (before ++ spelling) rest :=
  ⟨fun inside => absurd inside (not_inComment_append unmarked outside), .inl (numeralBefore_plain nonempty plain)⟩

def Front.Legal (before : List Char) : Front → Prop
  | .blank spelling rest | .token _ _ spelling rest => LegalAfter before spelling ∧ Joint (before ++ spelling) rest
  | .illegal spelling c _ => LegalAfter before spelling ∧ ¬ Allowed (before ++ spelling) c

theorem comment_legal (before rest : List Char) :
    (Front.blank ('#' :: rest.takeWhile (· ≠ '\n')) (rest.dropWhile (· ≠ '\n'))).Legal before := by
  have opened : InComment (before ++ ['#']) := inComment_concat.2 ⟨by decide, .inl rfl⟩
  refine ⟨⟨.inr (.inl (by decide)), legalAfter_comment opened (newline_notMem_takeWhile rest)⟩, ?_⟩
  have ends := dropWhile_newline rest
  refine ⟨fun _ => ends, .inr fun c first => ?_⟩
  rcases ends with none | newline
  · rw [none] at first
    cases first
  · rw [newline] at first
    cases first
    decide

theorem isPlain_of_digit (digit : c.isDigit = true) : isPlain c = true := by simp [isPlain, digit]

theorem isNumeric_of_digit (digit : c.isDigit = true) : isNumeric c = true := by simp [isNumeric, digit]

section Digits

variable {whole fraction : List Char}

theorem not_mem_of_digits {mark : Char} (digits : ∀ c ∈ whole, c.isDigit = true) (other : mark.isDigit = false) :
    mark ∉ whole := by
  intro member
  rw [digits mark member] at other
  cases other

theorem legalAfter_numeral (free : numeralBefore before = []) (nonempty : whole ≠ [])
    (digits : ∀ c ∈ whole, c.isDigit = true) (places : ∀ c ∈ fraction, c.isDigit = true) :
    LegalAfter before (whole ++ '.' :: fraction) := by
  have behind : numeralBefore (before ++ whole) = whole.reverse := by
    rw [numeralBefore_append fun c member => isNumeric_of_digit (digits c member), free, List.append_nil]
  have point : Allowed (before ++ whole) '.' := by
    refine .inr (.inr ⟨rfl, ?_, ?_⟩)
    · simpa [behind] using nonempty
    · simpa [behind] using not_mem_of_digits digits (by decide)
  exact legalAfter_append.2 ⟨legalAfter_plain fun c member => isPlain_of_digit (digits c member), point,
    legalAfter_plain fun c member => isPlain_of_digit (places c member)⟩

theorem second_point_illegal (outside : ¬ InComment before) (digits : ∀ c ∈ whole, c.isDigit = true)
    (places : ∀ c ∈ fraction, c.isDigit = true) : ¬ Allowed (before ++ (whole ++ '.' :: fraction)) '.' := by
  have unmarked : '#' ∉ whole ++ '.' :: fraction := by
    have one : '#' ∉ whole := not_mem_of_digits digits (by decide)
    have two : '#' ∉ fraction := not_mem_of_digits places (by decide)
    simp [one, two]
  have numeric : ∀ c ∈ whole ++ '.' :: fraction, isNumeric c = true := by
    intro c member
    simp only [List.mem_append, List.mem_cons] at member
    rcases member with member | rfl | member
    · exact isNumeric_of_digit (digits c member)
    · rfl
    · exact isNumeric_of_digit (places c member)
  rintro (inside | plain | ⟨_, _, none⟩)
  · exact not_inComment_append unmarked (.inl outside) inside
  · exact absurd plain (by decide)
  · rw [numeralBefore_append numeric] at none
    simp at none

end Digits

theorem joint_numeral (outside : ¬ InComment before) (unmarked : '#' ∉ spelling) (text : List Char)
    (plain : (text.dropWhile Char.isDigit).head? ≠ some '.') :
    Joint (before ++ spelling) (text.dropWhile Char.isDigit) := by
  refine ⟨fun inside => absurd inside (not_inComment_append unmarked (.inl outside)), .inr fun next first => ?_⟩
  have kept := List.head?_dropWhile_not Char.isDigit text
  rw [Option.mem_def] at first
  rw [first] at kept plain
  have other : next ≠ '.' := fun same => plain (congrArg some same)
  simpa [isNumeric, other] using kept

theorem number_legal (joint : Joint before (c :: rest)) (digit : c.isDigit = true) :
    (number (c :: rest)).Legal before := by
  have outside : ¬ InComment before := joint.outside (by rintro rfl; cases digit)
  have free : numeralBefore before = [] := joint.unnumbered (isNumeric_of_digit digit)
  have nonempty : (c :: rest).takeWhile Char.isDigit ≠ [] := by simp [digit]
  have digits (text : List Char) : ∀ c ∈ text.takeWhile Char.isDigit, c.isDigit = true :=
    fun c member => List.mem_takeWhile_imp member
  have unmarked (text : List Char) : '#' ∉ text.takeWhile Char.isDigit :=
    not_mem_of_digits (digits text) (by decide)
  by_cases pointed : ((c :: rest).dropWhile Char.isDigit).head? = some '.'
  · obtain ⟨more, point⟩ := List.head?_eq_some_iff.1 pointed
    -- The first point belongs to the numeral, a second one is what the scan stops at.
    by_cases dotted : (more.dropWhile Char.isDigit).head? = some '.'
    · obtain ⟨last, second⟩ := List.head?_eq_some_iff.1 dotted
      rw [number_dotted point second]
      exact ⟨legalAfter_numeral free nonempty (digits _) (digits _), second_point_illegal outside (digits _) (digits _)⟩
    · rw [number_pointed point dotted]
      have inner : '#' ∉ (c :: rest).takeWhile Char.isDigit ++ '.' :: more.takeWhile Char.isDigit := by simp [unmarked]
      exact ⟨legalAfter_numeral free nonempty (digits _) (digits _), joint_numeral outside inner more dotted⟩
  · rw [number_plain pointed]
    exact ⟨legalAfter_plain fun c member => isPlain_of_digit (digits _ c member),
      joint_numeral outside (unmarked _) _ pointed⟩

theorem word_legal (joint : Joint before (c :: rest)) (letter : isLetter c = true) :
    (word (c :: rest)).Legal before := by
  have outside : ¬ InComment before := joint.outside (by rintro rfl; cases letter)
  have nonempty : (c :: rest).takeWhile isLetter ≠ [] := by simp [letter]
  have letters : ∀ {next}, next ∈ (c :: rest).takeWhile isLetter → isLetter next = true := List.mem_takeWhile_imp
  have unmarked : '#' ∉ (c :: rest).takeWhile isLetter := fun member => absurd (letters member) (by decide)
  have unnumeric : ∀ next ∈ (c :: rest).takeWhile isLetter, isNumeric next = false := by
    intro next member
    have other : next ≠ '.' := by
      rintro rfl
      exact absurd (letters member) (by decide)
    simp [isNumeric, not_digit_of_letter (letters member), other]
  have legal : LegalAfter before ((c :: rest).takeWhile isLetter) :=
    legalAfter_plain fun next member => by simp [isPlain, letters member]
  unfold word wordToken
  split <;> exact ⟨legal, joint_plain (.inl outside) nonempty unmarked unnumeric _⟩

theorem symbols_plain {kind : Kind} (listed : (spelling, kind) ∈ symbols) :
    (∀ c ∈ spelling, isPlain c = true) ∧ spelling ≠ [] ∧ '#' ∉ spelling ∧ ∀ c ∈ spelling, isNumeric c = false := by
  have table : ∀ entry ∈ symbols, entry.1.all isPlain = true ∧ entry.1 ≠ [] ∧ '#' ∉ entry.1 ∧
      entry.1.any isNumeric = false := by decide
  obtain ⟨plain, nonempty, unmarked, unnumeric⟩ := table _ listed
  exact ⟨List.all_eq_true.1 plain, nonempty, unmarked, by simpa using unnumeric⟩

theorem exists_symbol (mark : c ∈ marks) (unspaced : c ∉ [' ', '\t', '\r', '#']) : ∃ entry ∈ symbols, entry.1 = [c] := by
  have table : marks.all (fun mark =>
      [' ', '\t', '\r', '#'].contains mark || symbols.any (·.1 = [mark])) = true := by decide
  have either := List.all_eq_true.1 table c mark
  rw [Bool.or_eq_true, List.contains_iff_mem] at either
  obtain ⟨entry, listed, single⟩ := List.any_eq_true.1 (either.resolve_left unspaced)
  exact ⟨entry, listed, of_decide_eq_true single⟩

theorem symbol_legal (joint : Joint before (c :: rest)) (unspaced : c ∉ [' ', '\t', '\r', '#'])
    (other : c.isDigit = false ∧ isLetter c = false) : (symbol c rest).Legal before := by
  unfold symbol
  split
  next spelling kind found =>
    obtain ⟨plain, nonempty, unmarked, unnumeric⟩ := symbols_plain (List.mem_of_find?_eq_some found)
    have fitting := List.find?_some found
    have fits := List.isPrefixOf_iff_prefix.1 fitting
    -- In a comment the only symbol that can come next is the newline that ends it.
    refine ⟨legalAfter_plain plain, joint_plain ?_ nonempty unmarked unnumeric _⟩
    by_cases newline : c = '\n'
    · obtain ⟨first, more, rfl⟩ := List.exists_cons_of_ne_nil nonempty
      have same : first = c := (List.cons_prefix_cons.1 fits).1
      exact .inr (by simp [same, newline])
    · exact .inl (joint.outside newline)
  next missing =>
    have unmarked : c ∉ marks := by
      intro member
      obtain ⟨entry, listed, same⟩ := exists_symbol member unspaced
      have misses := List.find?_eq_none.1 missing entry listed
      simp [same] at misses
    have outside : ¬ InComment before := by
      refine joint.outside ?_
      rintro rfl
      exact unmarked (by decide)
    refine ⟨trivial, ?_⟩
    rw [List.append_nil]
    rintro (inside | plain | ⟨rfl, numeral, _⟩)
    · exact outside inside
    · simp [isPlain, other.1, other.2, unmarked] at plain
    · exact numeral (joint.unnumbered rfl)

theorem front_legal (joint : Joint before (c :: rest)) : (front c rest).Legal before := by
  unfold front
  split
  next blank =>
    have outside : ¬ InComment before := joint.outside (by rintro rfl; simp at blank)
    obtain ⟨plain, unmarked, unnumeric⟩ : isPlain c = true ∧ '#' ≠ c ∧ isNumeric c = false := by
      rcases blank with rfl | rfl | rfl <;> decide
    exact ⟨legalAfter_plain (by simpa using plain),
      joint_plain (.inl outside) (by simp) (by simpa using unmarked) (by simpa using unnumeric) _⟩
  next unspaced =>
    split
    next comment =>
      subst comment
      exact comment_legal before rest
    next unmarked =>
      split
      next digit => exact number_legal joint digit
      next plain =>
        split
        next letter => exact word_legal joint letter
        next other => exact symbol_legal joint (by simp_all) ⟨by simpa using plain, by simpa using other⟩

theorem scan_ok_legal {p : Position} {tokens : List (Token Position)} (scanned : scan p text = .ok tokens)
    (joint : Joint before text) : LegalAfter before text := by
  induction text using text_induction generalizing before p tokens with
  | nil => trivial
  | @blank c rest spelling left found ih =>
    rw [scan_blank p found] at scanned
    have legal := front_legal joint
    rw [found] at legal
    rw [← (takes_of_front found).2]
    exact legalAfter_append.2 ⟨legal.1, ih scanned legal.2⟩
  | @token c rest spelling left kind payload found ih =>
    rw [scan_token p found] at scanned
    have legal := front_legal joint
    rw [found] at legal
    cases behind : scan (p.after spelling) left with
    | error fault =>
      rw [behind] at scanned
      cases scanned
    | ok others =>
      rw [← (takes_of_front found).2]
      exact legalAfter_append.2 ⟨legal.1, ih behind legal.2⟩
  | illegal found =>
    rw [scan_illegal p found] at scanned
    cases scanned

def BlamesFirst (before text : List Char) (p : Position) (fault : Fault Position) : Prop :=
  ∃ front c rest, text = front ++ c :: rest ∧ LegalAfter before front ∧ ¬ Allowed (before ++ front) c ∧
    fault.cause = .illegalCharacter c ∧ fault.span = ⟨p.after front, (p.after front).next c⟩

theorem BlamesFirst.behind {p : Position} {fault : Fault Position} (legal : LegalAfter before spelling)
    (first : BlamesFirst (before ++ spelling) rest (p.after spelling) fault) :
    BlamesFirst before (spelling ++ rest) p fault := by
  obtain ⟨front, c, later, rfl, inside, outside, cause, span⟩ := first
  refine ⟨spelling ++ front, c, later, (List.append_assoc _ _ _).symm, legalAfter_append.2 ⟨legal, inside⟩, ?_, cause, ?_⟩
  · rwa [← List.append_assoc]
  · rwa [Position.after_append]

theorem scan_error_first {p : Position} {fault : Fault Position} (failed : scan p text = .error fault)
    (joint : Joint before text) : BlamesFirst before text p fault := by
  induction text using text_induction generalizing before p with
  | nil => cases failed
  | @blank c rest spelling left found ih =>
    have legal := front_legal joint
    rw [scan_blank p found] at failed
    rw [found] at legal
    rw [← (takes_of_front found).2]
    exact (ih failed legal.2).behind legal.1
  | @token c rest spelling left kind payload found ih =>
    have legal := front_legal joint
    rw [scan_token p found] at failed
    rw [found] at legal
    cases behind : scan (p.after spelling) left with
    | error early =>
      rw [behind] at failed
      cases failed
      rw [← (takes_of_front found).2]
      exact (ih behind legal.2).behind legal.1
    | ok others =>
      rw [behind] at failed
      cases failed
  | @illegal c wrong rest front help found =>
    have legal := front_legal joint
    rw [scan_illegal p found] at failed
    rw [found] at legal
    cases failed
    obtain ⟨later, same⟩ := takes_of_front found
    exact ⟨front, wrong, later, same.symm, legal.1, legal.2, rfl, rfl⟩

structure Stops (fault : Fault Position) (index : Nat) (c : Char) : Prop where
  cause : fault.cause = .illegalCharacter c
  start : fault.span.start.index = index
  stop : fault.span.stop.index = index + 1

structure FirstIllegal (text : List Char) (index : Nat) (c : Char) : Prop where
  there : text[index]? = some c
  illegal : ¬ Allowed (text.take index) c
  first : ∀ (earlier : Nat) (other : Char), earlier < index → text[earlier]? = some other →
    Allowed (text.take earlier) other

theorem firstIllegal_append (legal : LegalAfter [] spelling) (illegal : ¬ Allowed spelling c) (rest : List Char) :
    FirstIllegal (spelling ++ c :: rest) spelling.length c where
  there := by simp
  illegal := by rwa [List.take_left]
  first := by
    intro earlier other before there
    rw [List.getElem?_append_left before] at there
    rw [List.take_append_of_le_length (Nat.le_of_lt before)]
    exact legal_iff.2 legal earlier other there

theorem length_le_of_illegal {early later : List Char} {wrong : Char}
    (same : spelling ++ c :: rest = early ++ wrong :: later) (legal : LegalAfter [] early)
    (illegal : ¬ Allowed spelling c) : early.length ≤ spelling.length := by
  by_contra longer
  -- Otherwise the character would be one of the longer front, whose characters are legal.
  have there : early[spelling.length]? = some c := by
    rw [← List.getElem?_append_left (by omega), ← same]
    simp
  have taken : early.take spelling.length = spelling := by
    rw [← List.take_append_of_le_length (by omega), ← same, List.take_left]
  have allowed := legal_iff.2 legal _ _ there
  rw [taken] at allowed
  exact illegal allowed

end Scan

open Scan

variable {source : Source} {front rest : List Char} {c : Char}

theorem legal_of_tokens {tokens : List (Token Position)} (scanned : source.tokens = .ok tokens) :
    Legal source.text.toList :=
  legal_iff.2 (scan_ok_legal (tokens_eq_scan source ▸ scanned) (joint_start _))

theorem take_concat (front rest : List Char) (c : Char) : (front ++ c :: rest).take (front.length + 1) = front ++ [c] := by
  rw [List.append_cons, List.take_left' (by simp)]

theorem stops_of_text (text : source.text.toList = front ++ c :: rest) (legal : LegalAfter [] front)
    (illegal : ¬ Allowed front c) : ∃ fault, source.tokens = .error fault ∧ Stops fault front.length c ∧
      fault.span = ⟨source.position front.length, source.position (front.length + 1)⟩ := by
  cases scanned : source.tokens with
  | ok tokens =>
    have whole := legal_iff.1 (legal_of_tokens scanned)
    rw [text, legalAfter_append] at whole
    exact absurd whole.2.1 illegal
  | error fault =>
    obtain ⟨early, wrong, later, same, inside, outside, cause, span⟩ :=
      scan_error_first (tokens_eq_scan source ▸ scanned) (joint_start _)
    rw [text] at same
    have lengths : front.length = early.length :=
      Nat.le_antisymm (length_le_of_illegal same.symm legal outside) (length_le_of_illegal same inside illegal)
    obtain ⟨rfl, behind⟩ := List.append_inj same lengths
    obtain ⟨rfl, _⟩ := List.cons.inj behind
    refine ⟨fault, rfl, ⟨cause, ?_, ?_⟩, ?_⟩
    · simp [span, Position.index_after, Position.start]
    · simp [span, Position.next, Position.index_after, Position.start]
    · have one : ((Position.start source).after front).next c = (Position.start source).after (front ++ [c]) :=
        (Position.after_append _ front [c]).symm
      rw [span, one, Source.position, Source.position, text, List.take_left, take_concat]

theorem tokens_of_legal (legal : LegalAfter [] source.text.toList) : ∃ tokens, source.tokens = .ok tokens := by
  cases scanned : source.tokens with
  | ok tokens => exact ⟨tokens, rfl⟩
  | error fault =>
    obtain ⟨front, wrong, later, text, _, outside, _⟩ := scan_error_first (tokens_eq_scan source ▸ scanned) (joint_start _)
    rw [text, legalAfter_append] at legal
    exact absurd legal.2.1 outside

/-- A text can be scanned exactly when all its characters are legal. Otherwise the first that is not is the
fault: the text before it can be scanned, and whatever comes behind it the fault stays the same. -/
theorem tokens_iff_legal (source : Source) :
    ((∃ tokens, source.tokens = .ok tokens) ↔ Legal source.text.toList) ∧
    ∀ fault, source.tokens = .error fault → ∃ index c, FirstIllegal source.text.toList index c ∧
      Stops fault index c ∧ fault.span = ⟨source.position index, source.position (index + 1)⟩ ∧
      (∃ tokens, (Source.mk source.name (String.ofList (source.text.toList.take index))).tokens = .ok tokens) ∧
      ∀ other : Source, other.text.toList.take (index + 1) = source.text.toList.take (index + 1) →
        ∃ late, other.tokens = .error late ∧ Stops late index c := by
  refine ⟨⟨fun ⟨tokens, scanned⟩ => legal_of_tokens scanned, fun legal => tokens_of_legal (legal_iff.1 legal)⟩, ?_⟩
  intro fault failed
  obtain ⟨front, c, rest, text, inside, outside, _⟩ :=
    scan_error_first (tokens_eq_scan source ▸ failed) (joint_start _)
  rw [List.nil_append] at outside
  obtain ⟨same, failed', stops, span⟩ := stops_of_text text inside outside
  cases failed.symm.trans failed'
  refine ⟨front.length, c, text ▸ firstIllegal_append inside outside rest, stops, span, ?_, ?_⟩
  · refine tokens_of_legal ?_
    simpa [text] using inside
  · intro other shared
    have split := List.take_append_drop (front.length + 1) other.text.toList
    rw [shared, text, take_concat, List.append_assoc] at split
    obtain ⟨late, failed, stops, _⟩ := stops_of_text split.symm inside outside
    exact ⟨late, failed, stops⟩

theorem tokens_iff_legal_points :
    let source : Source := ⟨"points", "a#?\n1.2.3"⟩
    let fault : Fault Position := ⟨.illegalCharacter '.', ⟨source.position 7, source.position 8⟩,
      some "A number may contain at most one decimal point."⟩
    source.tokens = .error fault ∧ ∃ index c, FirstIllegal source.text.toList index c ∧ Stops fault index c ∧
      ∀ other : Source, other.text.toList.take (index + 1) = source.text.toList.take (index + 1) →
        ∃ late, other.tokens = .error late ∧ Stops late index c := by
  intro source fault
  have failed : source.tokens = .error fault := by decide +kernel
  obtain ⟨index, c, first, stops, _, _, stable⟩ := (tokens_iff_legal source).2 fault failed
  exact ⟨failed, index, c, first, stops, stable⟩

end Reckon
