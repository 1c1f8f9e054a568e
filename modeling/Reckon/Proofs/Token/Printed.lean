import Mathlib
import Reckon.Proofs.Number.Numerals
import Reckon.Proofs.Token.Conversion
import Reckon.Proofs.Token.Seam
import Reckon.Value

set_option autoImplicit false

/-!
# Printed numbers

What a number is printed as is scanned as this number again: a token with all its digits, and a value unless it is
printed with a power of ten. A minus sign in front is a token of its own.
-/

namespace Reckon

open Float.Model
open Float.Model.UnpackedFloat (Sign)

namespace Scan

section Numerals

variable {spelling whole fraction : List Char}

theorem number_numeral (plain : PlainNumeral spelling) : number spelling = numberToken spelling [] := by
  obtain ⟨whole, fraction, _, digits, written⟩ := plain
  have front : ∀ c ∈ whole, c.isDigit = true := fun c member => digits c (List.mem_append_left fraction member)
  have back : ∀ c ∈ fraction, c.isDigit = true := fun c member => digits c (List.mem_append_right whole member)
  rcases written with rfl | ⟨_, rfl⟩
  · have behind := List.dropWhile_eq_nil_iff.2 front
    rw [number_plain (by rw [behind]; decide), List.takeWhile_eq_self_iff.2 front, behind]
  · have stop : (whole ++ '.' :: fraction).dropWhile Char.isDigit = '.' :: fraction := by
      rw [List.dropWhile_append_of_pos front, List.dropWhile_cons_of_neg (by decide)]
    have start : (whole ++ '.' :: fraction).takeWhile Char.isDigit = whole := by
      rw [List.takeWhile_append_of_pos front, List.takeWhile_cons_of_neg (by decide), List.append_nil]
    have behind := List.dropWhile_eq_nil_iff.2 back
    rw [number_pointed stop (by rw [behind]; decide), start, List.takeWhile_eq_self_iff.2 back, behind]

theorem front_digit {c : Char} (digit : c.isDigit = true) (rest : List Char) : front c rest = number (c :: rest) := by
  have other (mark : Char) (symbol : mark.isDigit = false) : c ≠ mark := by
    rintro rfl
    rw [digit] at symbol
    cases symbol
  have spaced : ¬ (c = ' ' ∨ c = '\t' ∨ c = '\r') := by
    rintro (space | tab | back)
    · exact other ' ' (by decide) space
    · exact other '\t' (by decide) tab
    · exact other '\r' (by decide) back
  rw [front, if_neg spaced, if_neg (other '#' (by decide)), if_pos digit]

theorem scan_numeral (plain : PlainNumeral spelling) (p : Position) :
    scan p spelling =
      .ok [⟨.number, some (.number (Decimal.ofSpelling spelling).toFloat), ⟨p, p.after spelling⟩⟩,
        ⟨.endOfText, none, .point (p.after spelling)⟩] := by
  cases spelling with
  | nil =>
    obtain ⟨whole, fraction, nonempty, _, written⟩ := plain
    rcases written with rfl | ⟨_, written⟩
    · exact absurd rfl nonempty
    · exact absurd written.symm (by simp)
  | cons c rest =>
    have digit : c.isDigit = true := by
      obtain ⟨whole, fraction, nonempty, digits, written⟩ := plain
      cases whole with
      | nil => exact absurd rfl nonempty
      | cons first others =>
        rcases written with same | ⟨_, same⟩
        all_goals
          cases same
          exact digits _ (by simp)
    rw [scan_token p ((front_digit digit rest).trans (number_numeral plain))]
    rfl

theorem front_minus (rest : List Char) : front '-' rest = .token .minus none ['-'] rest := by
  rfl

theorem scan_minus (p : Position) (text : List Char) :
    scan p ('-' :: text) = (scan (p.next '-') text).map (⟨.minus, none, ⟨p, p.next '-'⟩⟩ :: ·) :=
  scan_token p (front_minus text)

theorem plainNumeral_positional (d : Decimal) : PlainNumeral d.positional := by
  obtain ⟨whole, fraction, parts⟩ := d.exists_parts
  refine ⟨whole, fraction, parts.nonempty, parts.digits, ?_⟩
  rw [parts.written]
  split
  next none => exact .inl rfl
  next some' => exact .inr ⟨some', rfl⟩

end Numerals

end Scan

open Scan

def Source.ScansAs (source : Source) (expected : List (Kind × Option Payload)) : Prop :=
  ∃ tokens, source.tokens = .ok tokens ∧
    tokens.map (fun token => (token.kind, token.payload)) = expected ++ [(.endOfText, none)]

def signTokens : Sign → List (Kind × Option Payload)
  | .negative => [(.minus, none)]
  | .positive => []

theorem scansAs_signed (sign : Sign) (d : Decimal) (name : String) :
    (Source.mk name (String.ofList (signed sign d.positional))).ScansAs
      (signTokens sign ++ [(.number, some (.number d.toFloat))]) := by
  have numeral := scan_numeral (plainNumeral_positional d)
  have text := tokens_eq_scan ⟨name, String.ofList (signed sign d.positional)⟩
  rw [String.toList_ofList] at text
  rw [Decimal.ofSpelling_positional] at numeral
  cases sign with
  | positive => exact ⟨_, text.trans (numeral _), rfl⟩
  | negative =>
    rw [signed, scan_minus, numeral] at text
    exact ⟨_, text, rfl⟩

section Printing

variable {x : Float}

theorem abs_eq (x : Float) : x.abs = .ofModel (.pack x.toModel.unpack.abs) := rfl

theorem Decimal.toFloat_shortest_abs (finite : x.isFinite = true) : (shortest x).toFloat = x.abs := by
  rw [abs_eq]
  obtain ⟨sign, unpacked⟩ | ⟨sign, m, e, positive, unpacked⟩ := unpack_of_finite finite
  · rw [shortest, unpacked]
    rfl
  · rw [toFloat_shortest unpacked, unpacked]
    rfl

theorem ofBitVec_unpackSign {bits : BitVec Format.binary64.numBits} (clear : bits.toNat < 2 ^ 63) :
    Sign.ofBitVec (UnpackedFloat.unpackSign bits) = .positive := by
  refine if_pos (BitVec.eq_of_toNat_eq ?_)
  rw [UnpackedFloat.unpackSign, BitVec.toNat_cast, BitVec.extractLsb_toNat, Nat.shiftRight_eq_div_pow]
  change bits.toNat / 2 ^ 63 % 2 = 0
  omega

theorem abs_unpack {bits : BitVec Format.binary64.numBits} (clear : bits.toNat < 2 ^ 63) :
    (UnpackedFloat.unpack .binary64 bits).abs = UnpackedFloat.unpack .binary64 bits := by
  unfold UnpackedFloat.unpack
  simp only [ofBitVec_unpackSign clear]
  split_ifs <;> rfl

theorem abs_of_clear (clear : x.toBits.toNat < 2 ^ 63) : x.abs = x := by
  have same : x.toModel.unpack.abs = x.toModel.unpack := abs_unpack clear
  rw [abs_eq, same, pack_unpack]

theorem zero_positional : (Decimal.mk 0 0).positional = ['0'] := by
  decide +kernel

theorem payload_text_signed (finite : x.isFinite = true) (clear : x.toBits.toNat < 2 ^ 63) :
    (Payload.number x).text = signed .positive (Decimal.shortest x).positional := by
  have same : x.toModel.unpack.abs = x.toModel.unpack := abs_unpack clear
  obtain ⟨sign, unpacked⟩ | ⟨sign, m, e, positive, unpacked⟩ := unpack_of_finite finite
  · rw [unpacked] at same
    cases same
    simp only [Payload.text, Decimal.shortest, unpacked, zero_positional]
  · rw [unpacked] at same
    cases same
    simp only [Payload.text, unpacked]

theorem value_text_signed (finite : x.isFinite = true) (range : (x == 0) = true ∨ 1e-6 ≤ x.abs ∧ x.abs < 1e21) :
    (Value.number x).text =
      String.ofList (signed (if x < 0 then .negative else .positive) (Decimal.shortest x).positional) := by
  have side := lt_zero_iff x
  obtain ⟨sign, unpacked⟩ | ⟨sign, m, e, positive, unpacked⟩ := unpack_of_finite finite
  · rw [unpacked] at side
    rw [if_neg (side.not.2 (by rintro ⟨⟩))]
    simp only [Value.text, Value.numberText, Decimal.shortest, unpacked, zero_positional, signed]
  · have other : ¬ (x == 0) = true := by
      change ¬ (UnpackedFloat.compare x.toModel.unpack (.zero .positive) == some .eq) = true
      rw [unpacked]
      cases sign <;> rintro ⟨⟩
    have printed : (Value.number x).text = String.ofList (signed sign (Decimal.shortest x).positional) := by
      simp only [Value.text, Value.numberText, unpacked, if_pos (range.resolve_left other)]
    rw [unpacked] at side
    rw [printed]
    cases sign with
    | positive => rw [if_neg (side.not.2 (by rintro ⟨⟩))]
    | negative => rw [if_pos (side.2 rfl)]

/-- The text of a token with a number that has a clear sign bit is scanned as this number, and the text of a value that
is printed without a power of ten as its magnitude, behind a minus sign if it is below zero. -/
theorem printed_number_scans (x : Float) (finite : x.isFinite = true) (name : String) :
    (x.toBits.toNat < 2 ^ 63 →
      (Source.mk name (String.ofList (Payload.number x).text)).ScansAs [(.number, some (.number x))]) ∧
    ((x == 0) = true ∨ 1e-6 ≤ x.abs ∧ x.abs < 1e21 →
      (Source.mk name (Value.number x).text).ScansAs
        ((if x < 0 then [(.minus, none)] else []) ++ [(.number, some (.number x.abs))])) := by
  have magnitude := Decimal.toFloat_shortest_abs finite
  refine ⟨fun clear => ?_, fun range => ?_⟩
  · have scanned := scansAs_signed .positive (Decimal.shortest x) name
    rw [magnitude, abs_of_clear clear] at scanned
    rwa [payload_text_signed finite clear]
  · have scanned := scansAs_signed (if x < 0 then .negative else .positive) (Decimal.shortest x) name
    rw [magnitude, apply_ite signTokens] at scanned
    rwa [value_text_signed finite range]

theorem printed_number_scans_minus :
    (Source.mk "text" (String.ofList (Payload.number 0.1).text)).ScansAs [(.number, some (.number 0.1))] ∧
    (Value.number (-2.5)).text = "-2.5" ∧
    (Source.mk "text" (Value.number (-2.5)).text).ScansAs [(.minus, none), (.number, some (.number 2.5))] ∧
    (Source.mk "text" (Value.number (-0)).text).ScansAs [(.number, some (.number 0))] := by
  have below := (printed_number_scans (-2.5) rfl "text").2 (.inr (by decide +kernel))
  have zero := (printed_number_scans (-0) rfl "text").2 (.inl (by decide +kernel))
  rw [if_pos (by decide +kernel)] at below
  rw [if_neg (by decide +kernel)] at zero
  exact ⟨(printed_number_scans 0.1 rfl "text").1 (by decide +kernel), by decide +kernel, below, zero⟩

end Printing

end Reckon
