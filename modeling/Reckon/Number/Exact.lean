import Reckon.Number

set_option autoImplicit false

/-!
# Exact arithmetic on numbers

Remainders and whole parts, computed from the exact value that a number holds.
-/

namespace Reckon

open Float.Model

/-- The value without its fraction; zero for what is not finite. -/
def wholePart (x : Float) : Int :=
  match x.toModel.unpack with
  | .finite sign mantissa exponent _ =>
    sign.apply (mantissa * Nat.pow 2 exponent.toNat / Nat.pow 2 (-exponent).toNat : Nat)
  | _ => 0

/-- What is left of `x` after taking `y` away as often as it fits; the sign is that of `x`. -/
def remainder (x y : Float) : Float :=
  match x.toModel.unpack, y.toModel.unpack with
  | .finite sign m e _, .finite _ n f _ =>
    let scale := min e f
    let left := m * Nat.pow 2 (e - scale).toNat % (n * Nat.pow 2 (f - scale).toNat)
    .ofModel (.pack (UnpackedFloat.normalize .binary64 (sign.apply left) scale sign))
  | .finite .., .infinity _ | .zero _, .finite .. | .zero _, .infinity _ => x
  | _, _ => notANumber

def word (x : Float) : UInt32 :=
  .ofInt (wholePart x)

def signedWord (w : UInt32) : Int :=
  w.toInt32.toInt

end Reckon
