import Reckon.Proofs.Token.Numbers
import Reckon.Token.Scan

set_option autoImplicit false

/-!
# Spellings

How each kind of token is written, without a scanner, and that the front of a text is the longest
spelling there.
-/

namespace Reckon

namespace Kind

def mark? : Kind → Option String
  | plus => some "+"
  | minus => some "-"
  | times => some "*"
  | divide => some "/"
  | floorDivide => some "//"
  | remainder => some "%"
  | power => some "**"
  | and => some "&"
  | or => some "|"
  | xor => some "^"
  | shiftLeft => some "<<"
  | shiftRight => some ">>"
  | shiftRightZero => some ">>>"
  | not => some "!"
  | assign => some "="
  | equal => some "=="
  | notEqual => some "!="
  | less => some "<"
  | lessEqual => some "<="
  | greater => some ">"
  | greaterEqual => some ">="
  | openParen => some "("
  | closeParen => some ")"
  | openBrace => some "\x7b"
  | closeBrace => some "\x7d"
  | newline => some "\n"
  | terminator => some ";"
  | _ => none

def word? : Kind → Option String
  | letWord => some "let"
  | ifWord => some "if"
  | thenWord => some "then"
  | elifWord => some "elif"
  | elseWord => some "else"
  | forWord => some "for"
  | whileWord => some "while"
  | doWord => some "do"
  | last => some "last"
  | _ => none

end Kind

namespace Scan

def Numeral (spelling : List Char) : Prop :=
  ∃ whole fraction, whole ≠ [] ∧ (∀ c ∈ whole ++ fraction, c.isDigit = true) ∧
    (spelling = whole ∨ spelling = whole ++ '.' :: fraction)

def withoutFinalPoint (spelling : List Char) : List Char :=
  if spelling.getLast? = some '.' then spelling.dropLast else spelling

/-- A kind of token with what it carries, and the characters it can be written with. -/
inductive Spells : Kind → Option Payload → List Char → Prop where
  | mark {kind : Kind} {text : String} (written : kind.mark? = some text) :
    Spells kind none text.toList
  | word {kind : Kind} {text : String} (written : kind.word? = some text) (other : kind ≠ .last) :
    Spells kind (some (.name text)) text.toList
  | last {spelling : List Char} (written : spelling = "$".toList ∨ spelling = "last".toList) :
    Spells .last (some (.name "")) spelling
  | identifier {spelling : List Char} (nonempty : spelling ≠ [])
    (letters : ∀ c ∈ spelling, isLetter c = true)
    (free : ∀ (kind : Kind) (text : String), kind.word? = some text → text.toList ≠ spelling) :
    Spells .identifier (some (.name (String.ofList spelling))) spelling
  | number {spelling : List Char} (numeral : Numeral spelling) :
    Spells .number (some (.number (Decimal.ofSpelling (withoutFinalPoint spelling)).toFloat)) spelling

/-- No spelling at the front of the text is longer. -/
def Longest (text spelling : List Char) : Prop :=
  ∀ (kind : Kind) (payload : Option Payload) (other : List Char),
    Spells kind payload other → other <+: text → other.length ≤ spelling.length

theorem mem_symbols_of_mark {kind : Kind} {text : String} (written : kind.mark? = some text) :
    (text.toList, kind) ∈ symbols := by
  cases kind <;> first | (cases written; decide) | cases written

theorem mem_keywords_of_word {kind : Kind} {text : String} (written : kind.word? = some text) :
    (text.toList, kind) ∈ keywords := by
  cases kind <;> first | (cases written; decide) | cases written

theorem mark_of_mem_symbols {spelling : List Char} {kind : Kind} (member : (spelling, kind) ∈ symbols) :
    Spells kind (symbolPayload kind) spelling := by
  have table : ∀ entry ∈ symbols, (entry.2.mark?.map String.toList = some entry.1 ∧
      symbolPayload entry.2 = none) ∨ (entry.2 = .last ∧ entry.1 = "$".toList) := by decide
  rcases table _ member with ⟨written, plain⟩ | ⟨same, written⟩
  · obtain ⟨text, mark, rfl⟩ := Option.map_eq_some_iff.1 written
    simp only at plain mark
    rw [plain]
    exact .mark mark
  · simp only at same written
    subst same
    exact .last (.inl written)

theorem word_of_mem_keywords {spelling : List Char} {kind : Kind} (member : (spelling, kind) ∈ keywords) :
    kind.word?.map String.toList = some spelling := by
  have table : ∀ entry ∈ keywords, entry.2.word?.map String.toList = some entry.1 := by decide
  exact table _ member

theorem letters_of_mem_keywords {spelling : List Char} {kind : Kind} (member : (spelling, kind) ∈ keywords) :
    ∀ c ∈ spelling, isLetter c = true := by
  have table : ∀ entry ∈ keywords, entry.1.all isLetter = true := by decide
  exact List.all_eq_true.1 (table _ member)

theorem Spells.kind_ne {kind : Kind} {payload : Option Payload} {spelling : List Char}
    (spells : Spells kind payload spelling) : kind ≠ .endOfText := by
  rintro rfl
  cases spells with
  | mark written => cases written
  | word written other => cases written

theorem Spells.shape {kind : Kind} {payload : Option Payload} {spelling : List Char}
    (spells : Spells kind payload spelling) :
    (∃ symbol, (spelling, symbol) ∈ symbols) ∨ (∀ c ∈ spelling, isLetter c = true) ∨ Numeral spelling := by
  cases spells with
  | mark written => exact .inl ⟨kind, mem_symbols_of_mark written⟩
  | word written other => exact .inr (.inl (letters_of_mem_keywords (mem_keywords_of_word written)))
  | last written =>
    rcases written with rfl | rfl
    · exact .inl ⟨.last, by decide⟩
    · have member : ("last".toList, Kind.last) ∈ keywords := by decide
      exact .inr (.inl (letters_of_mem_keywords member))
  | identifier nonempty letters free => exact .inr (.inl letters)
  | number numeral => exact .inr (.inr numeral)

theorem newline_notMem_letters {spelling : List Char} (letters : ∀ c ∈ spelling, isLetter c = true) :
    '\n' ∉ spelling :=
  fun member => absurd (letters _ member) (by decide)

theorem Spells.flat {kind : Kind} {payload : Option Payload} {spelling : List Char}
    (spells : Spells kind payload spelling) : '\n' ∉ spelling ∨ spelling = ['\n'] := by
  rcases spells.shape with ⟨symbol, listed⟩ | letters | ⟨whole, fraction, _, digits, written⟩
  · have table : ∀ entry ∈ symbols, '\n' ∉ entry.1 ∨ entry.1 = ['\n'] := by decide
    exact table _ listed
  · exact .inl (newline_notMem_letters letters)
  · have unmarked : '\n' ∉ whole ++ fraction := fun member => absurd (digits _ member) (by decide)
    rw [List.mem_append, not_or] at unmarked
    rcases written with rfl | rfl
    · exact .inl unmarked.1
    · exact .inl (by simp [unmarked])

theorem le_toNat_of_letter {c : Char} (letter : isLetter c = true) : 'A'.toNat ≤ c.toNat := by
  rcases Bool.or_eq_true_iff.1 letter with alphabetic | line
  · rcases Bool.or_eq_true_iff.1 alphabetic with upper | lower
    · exact UInt32.le_iff_toNat_le.1 (of_decide_eq_true upper).1
    · have least := of_decide_eq_true (Bool.and_eq_true_iff.1 lower).1
      exact Nat.le_trans (by decide) (UInt32.le_iff_toNat_le.1 least)
  · rw [of_decide_eq_true line]
    decide

theorem not_digit_of_letter {c : Char} (letter : isLetter c = true) : c.isDigit = false := by
  rw [Bool.eq_false_iff]
  intro digit
  have most := (Char.isDigit_iff_toNat.1 digit).2
  exact absurd (Nat.le_trans (le_toNat_of_letter letter) most) (by decide)

theorem Spells.begins {kind : Kind} {payload : Option Payload} {spelling rest : List Char} {c : Char}
    (spells : Spells kind payload spelling) (fits : spelling <+: c :: rest) :
    spelling = [] ∨
      ((∃ symbol, (spelling, symbol) ∈ symbols) ∧ c.isDigit = false ∧ isLetter c = false) ∨
      ((∀ c ∈ spelling, isLetter c = true) ∧ isLetter c = true) ∨ (Numeral spelling ∧ c.isDigit = true) := by
  rcases List.prefix_cons_iff.1 fits with rfl | ⟨more, rfl, _⟩
  · exact .inl rfl
  right
  rcases spells.shape with ⟨symbol, member⟩ | letters | numeral
  · have table : ∀ entry ∈ symbols, entry.1.all (fun c => !c.isDigit && !isLetter c) = true := by decide
    have plain := List.all_eq_true.1 (table _ member) c (by simp)
    simp only [Bool.and_eq_true, Bool.not_eq_true'] at plain
    exact .inl ⟨⟨symbol, member⟩, plain⟩
  · exact .inr (.inl ⟨letters, letters c (by simp)⟩)
  · right
    right
    refine ⟨numeral, ?_⟩
    obtain ⟨whole, fraction, nonempty, digits, written⟩ := numeral
    obtain ⟨first, others, rfl⟩ := List.exists_cons_of_ne_nil nonempty
    have same : c = first := by
      rcases written with written | written <;> exact (List.cons.inj written).1
    exact digits c (by simp [same])

theorem prefix_takeWhile {p : Char → Bool} {first text : List Char} (all : ∀ c ∈ first, p c = true)
    (fits : first <+: text) : first <+: text.takeWhile p := by
  obtain ⟨more, rfl⟩ := fits
  rw [List.takeWhile_append_of_pos all]
  exact List.prefix_append _ _

theorem mem_keywords_of_lookup {spelling : List Char} {kind : Kind}
    (found : keywords.lookup spelling = some kind) : (spelling, kind) ∈ keywords := by
  obtain ⟨before, after, table, _⟩ := List.lookup_eq_some_iff.1 found
  rw [table]
  simp

theorem symbol_longest {c : Char} {rest spelling left : List Char} {kind : Kind} {payload : Option Payload}
    (symbolic : c.isDigit = false ∧ isLetter c = false)
    (found : symbol c rest = .token kind payload spelling left) :
    Spells kind payload spelling ∧ Longest (c :: rest) spelling := by
  unfold symbol at found
  split at found
  next first entry search =>
    cases found
    obtain ⟨fits, earlier, later, table, misses⟩ := List.find?_eq_some_iff_append.1 search
    have member : (spelling, kind) ∈ symbols := List.mem_of_find?_eq_some search
    refine ⟨mark_of_mem_symbols member, ?_⟩
    intro kind' payload' other spells ahead
    rcases spells.begins ahead with rfl | ⟨⟨symbol, listed⟩, _⟩ | ⟨_, letter⟩ | ⟨_, digit⟩
    · exact Nat.zero_le _
    · by_contra longer
      have fits := List.isPrefixOf_iff_prefix.1 fits
      have begins : spelling <+: other := List.prefix_of_prefix_length_le fits ahead (by omega)
      -- The table has no spelling behind one that it begins with.
      have apart : symbols.Pairwise fun first second => ¬ first.1 <+: second.1 := by decide
      rw [table] at listed apart
      rcases List.mem_append.1 listed with before | behind
      · have missed := misses _ before
        simp only [List.isPrefixOf_iff_prefix.2 ahead] at missed
        cases missed
      · rcases List.mem_cons.1 behind with same | after
        · cases same
          exact longer (Nat.le_refl _)
        · exact (List.pairwise_cons.1 (List.pairwise_append.1 apart).2.1).1 _ after begins
    · rw [symbolic.2] at letter
      cases letter
    · rw [symbolic.1] at digit
      cases digit
  next => cases found

theorem word_longest {c : Char} {rest spelling left : List Char} {kind : Kind} {payload : Option Payload}
    (letter : isLetter c = true) (found : word (c :: rest) = .token kind payload spelling left) :
    Spells kind payload spelling ∧ Longest (c :: rest) spelling := by
  have spelled : spelling = (c :: rest).takeWhile isLetter := by
    unfold word wordToken at found
    split at found <;> cases found <;> rfl
  have letters : ∀ c ∈ spelling, isLetter c = true := by
    intro c member
    rw [spelled] at member
    exact List.mem_takeWhile_imp member
  constructor
  · unfold word wordToken at found
    split at found
    next same =>
      cases found
      have written := word_of_mem_keywords (mem_keywords_of_lookup same)
      exact .last (.inr (Option.some.inj written).symm)
    next keyword other same =>
      cases found
      have written := word_of_mem_keywords (mem_keywords_of_lookup same)
      obtain ⟨text, word, same⟩ := Option.map_eq_some_iff.1 written
      rw [← same, String.ofList_toList]
      exact .word word other
    next missing =>
      cases found
      refine .identifier (by simp [letter]) letters ?_
      intro kind text word same
      have member := mem_keywords_of_word word
      rw [List.lookup_eq_none_iff] at missing
      simpa [same] using missing _ member
  · intro kind' payload' other spells ahead
    rcases spells.begins ahead with rfl | ⟨_, _, plain⟩ | ⟨letters, _⟩ | ⟨_, digit⟩
    · exact Nat.zero_le _
    · rw [letter] at plain
      cases plain
    · rw [spelled]
      exact (prefix_takeWhile letters ahead).length_le
    · rw [not_digit_of_letter letter] at digit
      cases digit

theorem getLast?_pointed (whole : List Char) {fraction : List Char}
    (digits : ∀ c ∈ fraction, c.isDigit = true) (nonempty : fraction ≠ []) :
    (whole ++ '.' :: fraction).getLast? ≠ some '.' := by
  intro last
  obtain ⟨before, final, rfl⟩ := (List.eq_nil_or_concat fraction).resolve_left nonempty
  have digit := digits final (by simp)
  have same : final = '.' := by simpa [List.getLast?_append, List.getLast?_cons] using last
  rw [same] at digit
  exact absurd digit (by decide)

theorem ofSpelling_withoutFinalPoint {whole fraction : List Char}
    (digits : ∀ c ∈ whole ++ fraction, c.isDigit = true) :
    Decimal.ofSpelling (withoutFinalPoint (whole ++ '.' :: fraction)) =
      Decimal.ofSpelling (whole ++ '.' :: fraction) := by
  have plain := pointless_of_digits fun c member => digits c (List.mem_append_left fraction member)
  cases fraction with
  | nil =>
    have cut : withoutFinalPoint (whole ++ ['.']) = whole := by simp [withoutFinalPoint]
    rw [cut]
    unfold Decimal.ofSpelling
    rw [List.takeWhile_append_of_pos plain, List.dropWhile_append_of_pos plain]
    have first := List.takeWhile_eq_self_iff.2 plain
    have second := List.dropWhile_eq_nil_iff.2 plain
    rw [first, second]
    simp
  | cons first others =>
    have kept : (whole ++ '.' :: first :: others).getLast? ≠ some '.' :=
      getLast?_pointed whole (fun c member => digits c (List.mem_append_right _ member)) (by simp)
    rw [withoutFinalPoint, if_neg kept]

theorem withoutFinalPoint_digits {whole : List Char} (digits : ∀ c ∈ whole, c.isDigit = true) :
    withoutFinalPoint whole = whole := by
  unfold withoutFinalPoint
  split
  next last =>
    have digit := digits '.' (List.mem_of_getLast? last)
    exact absurd digit (by decide)
  next => rfl

theorem pointed_prefix {whole fraction text : List Char} (digits : ∀ c ∈ whole, c.isDigit = true)
    (fits : whole ++ '.' :: fraction <+: text) :
    text.takeWhile Char.isDigit = whole ∧
      ∃ more, text.dropWhile Char.isDigit = '.' :: more ∧ fraction <+: more := by
  obtain ⟨later, rfl⟩ := fits
  rw [List.append_assoc, List.takeWhile_append_of_pos digits, List.dropWhile_append_of_pos digits,
    List.cons_append, List.takeWhile_cons_of_neg (by decide), List.dropWhile_cons_of_neg (by decide)]
  exact ⟨List.append_nil _, fraction ++ later, rfl, List.prefix_append _ _⟩

theorem number_spells {whole fraction : List Char} (nonempty : whole ≠ [])
    (digits : ∀ c ∈ whole ++ fraction, c.isDigit = true) {spelling : List Char}
    (written : spelling = whole ∨ spelling = whole ++ '.' :: fraction) :
    Spells .number (some (.number (Decimal.ofSpelling spelling).toFloat)) spelling := by
  have same : Decimal.ofSpelling (withoutFinalPoint spelling) = Decimal.ofSpelling spelling := by
    rcases written with rfl | rfl
    · rw [withoutFinalPoint_digits fun c member => digits c (List.mem_append_left _ member)]
    · exact ofSpelling_withoutFinalPoint digits
  rw [← same]
  exact .number ⟨whole, fraction, nonempty, digits, written⟩

theorem number_longest {c : Char} {rest spelling left : List Char} {kind : Kind} {payload : Option Payload}
    (digit : c.isDigit = true) (found : number (c :: rest) = .token kind payload spelling left) :
    Spells kind payload spelling ∧ Longest (c :: rest) spelling := by
  have whole : (c :: rest).takeWhile Char.isDigit ≠ [] := by simp [digit]
  have digits : ∀ text : List Char, ∀ c ∈ text.takeWhile Char.isDigit, c.isDigit = true :=
    fun text c member => List.mem_takeWhile_imp member
  -- Whatever else fits here is a numeral too.
  have longest : ∀ spelling : List Char, ((c :: rest).takeWhile Char.isDigit).length ≤ spelling.length →
      (∀ fraction more, (c :: rest).dropWhile Char.isDigit = '.' :: more → fraction <+: more →
        (∀ c ∈ fraction, c.isDigit = true) →
        ((c :: rest).takeWhile Char.isDigit).length + (fraction.length + 1) ≤ spelling.length) →
      Longest (c :: rest) spelling := by
    intro spelling short pointed kind' payload' other spells ahead
    rcases spells.begins ahead with rfl | ⟨_, plain, _⟩ | ⟨_, letter⟩ | ⟨numeral, _⟩
    · exact Nat.zero_le _
    · rw [digit] at plain
      cases plain
    · rw [not_digit_of_letter letter] at digit
      cases digit
    · obtain ⟨first, fraction, _, all, written⟩ := numeral
      have front : ∀ c ∈ first, c.isDigit = true := fun c member => all c (List.mem_append_left _ member)
      have back : ∀ c ∈ fraction, c.isDigit = true := fun c member => all c (List.mem_append_right _ member)
      rcases written with rfl | rfl
      · exact Nat.le_trans (prefix_takeWhile front ahead).length_le short
      · obtain ⟨same, more, behind, fits⟩ := pointed_prefix front ahead
        have enough := pointed fraction more behind fits back
        rw [same] at enough
        simpa using enough
  unfold number at found
  split at found
  next more behind =>
    split at found
    next => cases found
    next =>
      cases found
      have both : ∀ d ∈ (c :: rest).takeWhile Char.isDigit ++ more.takeWhile Char.isDigit,
          d.isDigit = true := by
        intro d member
        rcases List.mem_append.1 member with front | back
        · exact digits _ d front
        · exact digits _ d back
      refine ⟨number_spells whole both (.inr rfl), longest _ ?_ ?_⟩
      · simp
      · intro fraction more' same fits all
        rw [behind] at same
        cases same
        have short := (prefix_takeWhile all fits).length_le
        simp only [List.length_append, List.length_cons]
        omega
  next unpointed =>
    cases found
    have all : ∀ d ∈ (c :: rest).takeWhile Char.isDigit ++ [], d.isDigit = true := by simpa using digits _
    refine ⟨number_spells whole all (.inl rfl), longest _ (Nat.le_refl _) ?_⟩
    intro fraction more behind
    exact absurd behind (unpointed more)

theorem front_longest {c : Char} {rest spelling left : List Char} {kind : Kind} {payload : Option Payload}
    (found : front c rest = .token kind payload spelling left) :
    Spells kind payload spelling ∧ Longest (c :: rest) spelling := by
  unfold front at found
  split at found
  next => cases found
  next =>
    split at found
    next => cases found
    next =>
      split at found
      next digit => exact number_longest digit found
      next plain =>
        split at found
        next letter => exact word_longest letter found
        next other => exact symbol_longest ⟨by simpa using plain, by simpa using other⟩ found

end Scan

end Reckon
