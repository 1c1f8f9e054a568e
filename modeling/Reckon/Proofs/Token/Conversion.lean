import Reckon.Proofs.Token.Lossless

set_option autoImplicit false

/-!
# Converting numerals

Scanning with a conversion of numerals that may refuse one. A conversion that takes every run of digits
with at most one point inside is never given anything else.
-/

namespace Reckon

namespace Scan

def PlainNumeral (spelling : List Char) : Prop :=
  ∃ whole fraction, whole ≠ [] ∧ (∀ c ∈ whole ++ fraction, c.isDigit = true) ∧
    (spelling = whole ∨ fraction ≠ [] ∧ spelling = whole ++ '.' :: fraction)

abbrev Conversion := List Char → Option Float

abbrev Fallback := Position → List Char → Fault Position

def illegalNumeral : Fallback := fun p spelling =>
  ⟨.illegalCharacter (spelling.headD ' '), ⟨p, p.after spelling⟩, none⟩

def Conversion.Total (convert : Conversion) : Prop :=
  ∀ spelling, PlainNumeral spelling → ∃ value, convert spelling = some value

def Conversion.Nearest (convert : Conversion) : Prop :=
  ∀ spelling, PlainNumeral spelling → convert spelling = some (Decimal.ofSpelling spelling).toFloat

section Scanner

variable (convert : Conversion) (fallback : Fallback)

def convertedPayload (p : Position) (kind : Kind) (payload : Option Payload) (spelling : List Char) :
    Except (Fault Position) (Option Payload) :=
  if kind = .number then
    match convert (withoutFinalPoint spelling) with
    | some value => return some (.number value)
    | none => throw (fallback p spelling)
  else return payload

def convertedFrom : Nat → Position → List Char → Except (Fault Position) (List (Token Position))
  | steps + 1, p, c :: rest =>
    match front c rest with
    | .blank spelling rest => convertedFrom steps (p.after spelling) rest
    | .token kind payload spelling rest => do
      let payload ← convertedPayload convert fallback p kind payload spelling
      let stop := p.after spelling
      return ⟨kind, payload, ⟨p, stop⟩⟩ :: (← convertedFrom steps stop rest)
    | .illegal before c help =>
      let start := p.after before
      throw ⟨.illegalCharacter c, ⟨start, start.next c⟩, help⟩
  | _, p, _ => return [⟨.endOfText, none, .point p⟩]

end Scanner

variable {convert : Conversion} {fallback : Fallback} {c : Char} {rest spelling left : List Char} {kind : Kind}
  {payload : Option Payload}

theorem Numeral.plain (numeral : Numeral spelling) : PlainNumeral (withoutFinalPoint spelling) := by
  obtain ⟨whole, fraction, nonempty, digits, written⟩ := numeral
  have front : ∀ c ∈ whole, c.isDigit = true := fun c member => digits c (List.mem_append_left _ member)
  refine ⟨whole, fraction, nonempty, digits, ?_⟩
  rcases written with rfl | rfl
  · exact .inl (withoutFinalPoint_digits front)
  -- The final point is left out, and any other stands between digits.
  · by_cases none : fraction = []
    · subst none
      exact .inl (by simp [withoutFinalPoint])
    · have last := getLast?_pointed whole (fun c member => digits c (List.mem_append_right _ member)) none
      exact .inr ⟨none, by rw [withoutFinalPoint, if_neg last]⟩

theorem convertedPayload_total (total : convert.Total) (fallback : Fallback) (p : Position)
    (spells : Spells kind payload spelling) :
    ∃ converted, convertedPayload convert fallback p kind payload spelling = .ok converted := by
  unfold convertedPayload
  split
  next number =>
    subst number
    cases spells with
    | mark written | word written => cases written
    | number numeral =>
      obtain ⟨value, converted⟩ := total _ numeral.plain
      exact ⟨some (.number value), by rw [converted]; rfl⟩
  next => exact ⟨payload, rfl⟩

theorem convertedPayload_nearest (nearest : convert.Nearest) (p : Position) (spells : Spells kind payload spelling) :
    convertedPayload convert fallback p kind payload spelling = .ok payload := by
  unfold convertedPayload
  split
  next number =>
    subst number
    cases spells with
    | mark written | word written => cases written
    | number numeral =>
      rw [nearest _ numeral.plain]
      rfl
  next => rfl

/-- The fallback is not reached: the faults are the ones of a scanner that has none. -/
theorem convertedFrom_fails (total : convert.Total) (steps : Nat) (p : Position) (text : List Char)
    (fault : Fault Position) :
    convertedFrom convert fallback steps p text = .error fault ↔ tokensFrom steps p text = .error fault := by
  induction steps generalizing p text fault with
  | zero => exact Iff.rfl
  | succ steps ih =>
    cases text with
    | nil => exact Iff.rfl
    | cons c rest =>
      rw [convertedFrom, tokensFrom]
      cases found : front c rest with
      | blank spelling left => exact ih _ _ _
      | illegal before wrong help => exact Iff.rfl
      | token kind payload spelling left =>
        -- A token in front is spelled as one of its kind, so its numeral is converted.
        obtain ⟨converted, same⟩ := convertedPayload_total total fallback p (front_longest found).1
        have behind := fun fault => ih (p.after spelling) left fault
        simp only [same]
        cases one : convertedFrom convert fallback steps (p.after spelling) left with
        | ok tokens =>
          cases two : tokensFrom steps (p.after spelling) left with
          | ok others => constructor <;> intro failed <;> cases failed
          | error early => exact absurd ((behind early).2 two) (by simp [one])
        | error early =>
          rw [(behind early).1 one]
          exact Iff.rfl

theorem convertedFrom_nearest (nearest : convert.Nearest) (steps : Nat) (p : Position) (text : List Char) :
    convertedFrom convert fallback steps p text = tokensFrom steps p text := by
  induction steps generalizing p text with
  | zero => rfl
  | succ steps ih =>
    cases text with
    | nil => rfl
    | cons c rest =>
      rw [convertedFrom, tokensFrom]
      cases found : front c rest with
      | blank spelling left => exact ih _ _
      | illegal before wrong help => rfl
      | token kind payload spelling left =>
        simp only [convertedPayload_nearest nearest p (front_longest found).1, ih]
        rfl

end Scan

open Scan

def Source.convertedTokens (source : Source) (convert : Conversion) (fallback : Fallback) :
    Except (Fault Position) (List (Token Position)) :=
  convertedFrom convert fallback source.text.toList.length (.start source) source.text.toList

theorem convertedTokens_fails {convert : Conversion} (total : convert.Total) (source : Source) (fallback : Fallback)
    (fault : Fault Position) :
    source.convertedTokens convert fallback = .error fault ↔ source.tokens = .error fault :=
  convertedFrom_fails total _ _ _ fault

theorem convertedTokens_nearest {convert : Conversion} (nearest : convert.Nearest) (source : Source)
    (fallback : Fallback) : source.convertedTokens convert fallback = source.tokens :=
  convertedFrom_nearest nearest _ _ _

end Reckon
