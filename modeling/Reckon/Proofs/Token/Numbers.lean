import Mathlib.Data.List.TakeWhile
import Reckon.Number.Decimal

set_option autoImplicit false

/-!
# Numerals are numbers

Rounding the exact value of a numeral gives a number, a zero or an infinity. Digits without a point have no
places behind it.
-/

namespace Reckon

open Float.Model

theorem isNaN_unpack {format : Format} {bits : BitVec format.numBits}
    (settled : UnpackedFloat.unpackExponent bits = -1#_ → UnpackedFloat.unpackMantissa bits = 0#_) :
    (UnpackedFloat.unpack format bits).isNaN = false := by
  unfold UnpackedFloat.unpack
  by_cases full : UnpackedFloat.unpackExponent bits = -1#_
  · rw [if_pos full, if_pos (settled full)]
    rfl
  rw [if_neg full]
  by_cases least : UnpackedFloat.unpackExponent bits = 0#_
  · rw [if_pos least]
    by_cases empty : UnpackedFloat.unpackMantissa bits = 0#_
    · rw [dif_pos empty]
      rfl
    · rw [dif_neg empty]
      rfl
  · rw [if_neg least]
    rfl

theorem isNaN_unpack_packComponents (format : Format) (sign : UnpackedFloat.Sign)
    {exponent : BitVec format.exponentBits} {mantissa : BitVec format.mantissaBitsWithoutImplicit}
    (settled : exponent = -1#_ → mantissa = 0#_) :
    (UnpackedFloat.unpack format (UnpackedFloat.packComponents format sign exponent mantissa)).isNaN = false := by
  refine isNaN_unpack ?_
  rwa [UnpackedFloat.unpackExponent_packComponents, UnpackedFloat.unpackMantissa_packComponents]

theorem isNaN_pack {x : UnpackedFloat} (number : x.isNaN = false) : (Float.Model.pack x).isNaN = false := by
  change (UnpackedFloat.unpack Format.binary64 (UnpackedFloat.pack Format.binary64 x)).isNaN = false
  cases x with
  | notANumber => cases number
  | infinity sign => exact isNaN_unpack_packComponents _ _ fun _ => rfl
  | zero sign => exact isNaN_unpack_packComponents _ _ fun _ => rfl
  | finite sign mantissa exponent positive =>
    unfold UnpackedFloat.pack
    dsimp only
    split
    -- Too large a number becomes an infinity, so the exponent of any other is not full.
    next => exact isNaN_unpack_packComponents _ _ fun _ => rfl
    next fits =>
      split
      next =>
        refine isNaN_unpack_packComponents _ _ fun full => ?_
        have value := congrArg BitVec.toNat full
        simp only [BitVec.toNat_ofNat, BitVec.toNat_neg] at value
        omega
      next => exact isNaN_unpack_packComponents _ _ fun full => absurd full (by decide)

theorem isNaN_roundWithAccuracy (format : Format) (sign : UnpackedFloat.Sign) (mantissa : Nat) (exponent : Int)
    (accuracy : UnpackedFloat.Accuracy) :
    (UnpackedFloat.roundWithAccuracy format sign mantissa exponent accuracy).isNaN = false := by
  unfold UnpackedFloat.roundWithAccuracy
  dsimp only
  rw [apply_dite UnpackedFloat.isNaN]
  exact dite_eq_right_iff.2 fun _ => rfl

theorem isNaN_ite {choice : Prop} [Decidable choice] {x y : UnpackedFloat} (one : x.isNaN = false)
    (other : y.isNaN = false) : (if choice then x else y).isNaN = false := by
  split
  · exact one
  · exact other

theorem isNaN_ofScientific (format : Format) (mantissa : Nat) (exponent : Int) :
    (UnpackedFloat.ofScientific format mantissa exponent).isNaN = false := by
  unfold UnpackedFloat.ofScientific
  by_cases empty : mantissa = 0
  · rw [dif_pos empty]
    rfl
  · rw [dif_neg empty]
    refine isNaN_ite rfl (isNaN_ite rfl (isNaN_ite ?_ ?_))
    · exact isNaN_roundWithAccuracy _ _ _ _ _
    · exact isNaN_roundWithAccuracy _ _ _ _ _

theorem Decimal.isNaN_toFloat (d : Decimal) : d.toFloat.isNaN = false :=
  isNaN_pack (isNaN_ofScientific _ _ _)

theorem pointless_of_digits {digits : List Char} (plain : ∀ c ∈ digits, c.isDigit = true) :
    ∀ c ∈ digits, decide (c ≠ '.') = true := by
  intro c member
  have digit := plain c member
  simp only [ne_eq, decide_not, Bool.not_eq_true', decide_eq_false_iff_not]
  rintro rfl
  exact absurd digit (by decide)

theorem Decimal.ofSpelling_digits {digits : List Char} (plain : ∀ c ∈ digits, c.isDigit = true) :
    ofSpelling digits = ⟨Nat.ofDigitChars 10 digits 0, 0⟩ := by
  have pointless := pointless_of_digits plain
  unfold ofSpelling
  rw [List.takeWhile_eq_self_iff.2 pointless, List.dropWhile_eq_nil_iff.2 pointless]
  simp

end Reckon
