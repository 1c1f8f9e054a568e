import Reckon.Fault

set_option autoImplicit false

/-!
# Scanning

A text is cut from the front into blanks, comments and the longest tokens that fit. The first
character that starts neither is a fault.
-/

namespace Reckon

namespace Scan

def isLetter (c : Char) : Bool := c.isAlpha || c = '_'

def symbols : List (List Char × Kind) :=
  -- A spelling stands before the ones it begins with, so the first that fits is the longest.
  [(['>', '>', '>'], .shiftRightZero), (['>', '>'], .shiftRight), (['>', '='], .greaterEqual),
   (['<', '<'], .shiftLeft), (['<', '='], .lessEqual), (['=', '='], .equal), (['!', '='], .notEqual),
   (['*', '*'], .power), (['/', '/'], .floorDivide),
   (['>'], .greater), (['<'], .less), (['='], .assign), (['!'], .not), (['*'], .times),
   (['/'], .divide), (['+'], .plus), (['-'], .minus), (['%'], .remainder), (['&'], .and),
   (['|'], .or), (['^'], .xor), (['('], .openParen), ([')'], .closeParen), (['\x7b'], .openBrace),
   (['\x7d'], .closeBrace), ([';'], .terminator), (['\n'], .newline), (['$'], .last)]

def keywords : List (List Char × Kind) :=
  [(['l', 'e', 't'], .letWord), (['i', 'f'], .ifWord), (['t', 'h', 'e', 'n'], .thenWord),
   (['e', 'l', 'i', 'f'], .elifWord), (['e', 'l', 's', 'e'], .elseWord), (['f', 'o', 'r'], .forWord),
   (['w', 'h', 'i', 'l', 'e'], .whileWord), (['d', 'o'], .doWord), (['l', 'a', 's', 't'], .last)]

inductive Front where
  | blank (spelling rest : List Char)
  | token (kind : Kind) (payload : Option Payload) (spelling rest : List Char)
  | illegal (before : List Char) (c : Char) (help : Option String)

def symbolPayload : Kind → Option Payload
  -- The last result is kept under the empty name.
  | .last => some (.name "")
  | _ => none

def symbol (c : Char) (rest : List Char) : Front :=
  match symbols.find? fun (spelling, _) => spelling.isPrefixOf (c :: rest) with
  | some (spelling, kind) =>
    .token kind (symbolPayload kind) spelling ((c :: rest).drop spelling.length)
  | none => .illegal [] c none

def wordToken (spelling rest : List Char) : Front :=
  match keywords.lookup spelling with
  | some .last => .token .last (some (.name "")) spelling rest
  | some kind => .token kind (some (.name (String.ofList spelling))) spelling rest
  | none => .token .identifier (some (.name (String.ofList spelling))) spelling rest

def word (text : List Char) : Front :=
  wordToken (text.takeWhile isLetter) (text.dropWhile isLetter)

def numberToken (spelling rest : List Char) : Front :=
  .token .number (some (.number (Decimal.ofSpelling spelling).toFloat)) spelling rest

def number (text : List Char) : Front :=
  let whole := text.takeWhile Char.isDigit
  match text.dropWhile Char.isDigit with
  | '.' :: more =>
    let spelling := whole ++ '.' :: more.takeWhile Char.isDigit
    match more.dropWhile Char.isDigit with
    -- A second point is at fault where it stands.
    | '.' :: _ => .illegal spelling '.' (some "A number may contain at most one decimal point.")
    | rest => numberToken spelling rest
  | rest => numberToken whole rest

def front (c : Char) (rest : List Char) : Front :=
  if c = ' ' ∨ c = '\t' ∨ c = '\r' then .blank [c] rest
  else if c = '#' then .blank (c :: rest.takeWhile (· ≠ '\n')) (rest.dropWhile (· ≠ '\n'))
  else if c.isDigit then number (c :: rest)
  else if isLetter c then word (c :: rest)
  else symbol c rest

def Front.Takes (text : List Char) : Front → Prop
  | .blank spelling rest | .token _ _ spelling rest => spelling ≠ [] ∧ spelling ++ rest = text
  | .illegal before c _ => ∃ rest, before ++ c :: rest = text

theorem symbol_takes (c : Char) (rest : List Char) : (symbol c rest).Takes (c :: rest) := by
  unfold symbol
  split
  · rename_i spelling kind found
    have fits := List.find?_some found
    have spelled : spelling ≠ [] := by
      have member := List.mem_of_find?_eq_some found
      have nonempty : ∀ entry ∈ symbols, entry.1 ≠ [] := by decide
      exact nonempty _ member
    obtain ⟨more, h⟩ := List.isPrefixOf_iff_prefix.1 fits
    exact ⟨spelled, by rw [← h]; simp⟩
  · exact ⟨rest, rfl⟩

theorem number_takes {c : Char} {rest : List Char} (digit : c.isDigit = true) :
    (number (c :: rest)).Takes (c :: rest) := by
  have parts := List.takeWhile_append_dropWhile (p := Char.isDigit) (l := c :: rest)
  have whole : (c :: rest).takeWhile Char.isDigit ≠ [] := by simp [digit]
  unfold number
  split
  · rename_i more pointed
    have fraction := List.takeWhile_append_dropWhile (p := Char.isDigit) (l := more)
    split
    · rename_i later dotted
      refine ⟨later, ?_⟩
      rw [List.append_assoc, List.cons_append, ← dotted, fraction, ← pointed, parts]
    · refine ⟨by simp, ?_⟩
      rw [List.append_assoc, List.cons_append, fraction, ← pointed, parts]
  · exact ⟨whole, parts⟩

theorem word_takes {c : Char} {rest : List Char} (letter : isLetter c = true) :
    (word (c :: rest)).Takes (c :: rest) := by
  have parts := List.takeWhile_append_dropWhile (p := isLetter) (l := c :: rest)
  have spelled : (c :: rest).takeWhile isLetter ≠ [] := by simp [letter]
  unfold word wordToken
  split <;> exact ⟨spelled, parts⟩

theorem front_takes (c : Char) (rest : List Char) : (front c rest).Takes (c :: rest) := by
  unfold front
  split
  · exact ⟨by simp, rfl⟩
  · split
    · exact ⟨by simp, by rw [List.cons_append, List.takeWhile_append_dropWhile]⟩
    · split
      · rename_i digit
        exact number_takes digit
      · split
        · rename_i letter
          exact word_takes letter
        · exact symbol_takes c rest

def tokensFrom : Nat → Position → List Char → Except (Fault Position) (List (Token Position))
  | steps + 1, p, c :: rest =>
    match front c rest with
    | .blank spelling rest => tokensFrom steps (p.after spelling) rest
    | .token kind payload spelling rest => do
      let stop := p.after spelling
      return ⟨kind, payload, ⟨p, stop⟩⟩ :: (← tokensFrom steps stop rest)
    | .illegal before c help =>
      let start := p.after before
      throw ⟨.illegalCharacter c, ⟨start, start.next c⟩, help⟩
  -- Every front takes a character, so without a step left the text is at its end.
  | _, p, _ => return [⟨.endOfText, none, .point p⟩]

end Scan

def Source.tokens (source : Source) : Except (Fault Position) (List (Token Position)) :=
  let text := source.text.toList
  Scan.tokensFrom text.length (.start source) text

end Reckon
