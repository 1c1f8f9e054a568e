import Reckon.Number

set_option autoImplicit false

/-!
# Decimal numerals

A numeral is a run of digits with at most one point. Reading rounds it to the nearest number;
writing a number looks for the numeral with the fewest digits that reads back, and of those the
nearest.
-/

namespace Reckon

open Float.Model

/-- The numeral whose last `places` digits stand after the point. -/
structure Decimal where
  digits : Nat
  places : Nat
deriving DecidableEq, Repr

namespace Decimal

def ofSpelling (spelling : List Char) : Decimal :=
  -- A point at the end has no fraction behind it and changes nothing.
  let whole := spelling.takeWhile (· ≠ '.')
  let fraction := (spelling.dropWhile (· ≠ '.')).drop 1
  { digits := Nat.ofDigitChars 10 (whole ++ fraction) 0, places := fraction.length }

def toFloat (d : Decimal) : Float :=
  .ofModel (.ofScientific d.digits (-d.places))

def trimmed (digits : Nat) : Nat → Decimal
  | 0 => ⟨digits, 0⟩
  | places + 1 => if digits % 10 = 0 then trimmed (digits / 10) places else ⟨digits, places + 1⟩

def ofUnits (digits : Nat) (places : Int) : Decimal :=
  trimmed (digits * Nat.pow 10 (-places).toNat) places.toNat

/-- The power of ten just above the fraction: `10 ^ (magnitude - 1) ≤ num / den < 10 ^ magnitude`. -/
def magnitude (num den : Nat) : Int :=
  if den ≤ num then (Nat.toDigits 10 (num / den)).length
  else 1 - (Nat.toDigits 10 ((den - 1) / num)).length

/-- The two numerals with a given number of digits around a fraction, the nearer one first. -/
def neighbours (num den count : Nat) : List Decimal :=
  let places : Int := count - magnitude num den
  let num := num * Nat.pow 10 places.toNat
  let den := den * Nat.pow 10 (-places).toNat
  let below := ofUnits (num / den) places
  let above := ofUnits (num / den + 1) places
  if 2 * (num % den) < den then [below, above] else [above, below]

def exactly (mantissa : Nat) (exponent : Int) : Decimal :=
  trimmed (mantissa * Nat.pow 2 exponent.toNat * Nat.pow 5 (-exponent).toNat) (-exponent).toNat

/-- The shortest numeral that reads back as the magnitude of a number, nearest of its length.
Seventeen digits always suffice. -/
def shortest (x : Float) : Decimal :=
  match x.toModel.unpack with
  | .finite _ mantissa exponent positive =>
    let magnitude := Float.ofModel (.pack (.finite .positive mantissa exponent positive))
    let num := mantissa * Nat.pow 2 exponent.toNat
    let den := Nat.pow 2 (-exponent).toNat
    ((List.range' 1 17).findSome? fun count =>
        (neighbours num den count).find? fun d => d.toFloat = magnitude).getD
      (exactly mantissa exponent)
  | _ => ⟨0, 0⟩

def split (d : Decimal) : List Char × List Char :=
  let all := Nat.toDigits 10 d.digits
  -- At least one digit stands in front of the point.
  let padded := List.replicate (d.places + 1 - all.length) '0' ++ all
  padded.splitAt (padded.length - d.places)

def positional (d : Decimal) : List Char :=
  match d.split with
  | (whole, []) => whole
  | (whole, fraction) => whole ++ '.' :: fraction

def scientific (d : Decimal) : List Char :=
  let all := Nat.toDigits 10 d.digits
  let exponent : Int := all.length - 1 - d.places
  let significant :=
    match (all.reverse.dropWhile (· = '0')).reverse with
    | first :: [] => [first]
    | first :: rest => first :: '.' :: rest
    | [] => ['0']
  let sign := if exponent < 0 then '-' else '+'
  significant ++ 'e' :: sign :: Nat.toDigits 10 exponent.natAbs

end Decimal

end Reckon
