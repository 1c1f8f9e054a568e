import Mathlib
import Reckon.Number

set_option autoImplicit false

/-!
# Canonical mantissas and exponents

Every finite number that is not zero is stored with one mantissa and one exponent. A value that has them is rounded
to itself, from whatever mantissa and exponent it is given with, and packing keeps them.
-/

namespace Reckon

open Float.Model
open Float.Model.UnpackedFloat (Sign ExtendedMantissa roundWithAccuracy shiftToTargetExponent)

theorem log2_shifted {m : Nat} (positive : m ≠ 0) (k : Nat) : (m * 2 ^ k).log2 = m.log2 + k := by
  induction k with
  | zero => simp
  | succ k ih => rw [Nat.pow_succ, ← Nat.mul_assoc, Nat.mul_comm, Nat.log2_two_mul (by positivity), ih, Nat.add_assoc]

theorem shiftRight_shifted (m k : Nat) : (⟨m * 2 ^ k, false, false⟩ : ExtendedMantissa) >>> k = ⟨m, false, false⟩ := by
  change Nat.repeat ExtendedMantissa.shiftRightOne k _ = _
  induction k generalizing m with
  | zero => simp [Nat.repeat]
  | succ k ih =>
    rw [Nat.repeat]
    have doubled := ih (m * 2)
    rw [Nat.pow_succ, Nat.mul_comm (2 ^ k), ← Nat.mul_assoc, doubled]
    simp [ExtendedMantissa.shiftRightOne]

theorem two_zpow_split {e f : Int} (below : f ≤ e) : (2 : ℚ) ^ e = 2 ^ (e - f).toNat * 2 ^ f := by
  rw [← zpow_natCast, ← zpow_add₀ (by norm_num)]
  congr 1
  omega

theorem two_zpow_mul (e : Int) : (2 : ℚ) ^ e * 2 ^ (-e).toNat = 2 ^ e.toNat := by
  rw [← zpow_natCast, ← zpow_natCast, ← zpow_add₀ (by norm_num)]
  congr 1
  omega

theorem natCast_eq_of_scaled {x m : Nat} {f e : Int} (same : (x : ℚ) * 2 ^ f = m * 2 ^ e) (below : f ≤ e) :
    x = m * 2 ^ (e - f).toNat := by
  rw [two_zpow_split below, ← mul_assoc] at same
  exact_mod_cast mul_right_cancel₀ (zpow_ne_zero f (by norm_num)) same

theorem targetExponent_eq (x : Nat) (f : Int) :
    Format.binary64.targetExponent (totalExponent x f) = max (x.log2 + f - 52) (-1074) := by
  simp only [Format.targetExponent, totalExponent, Format.mantissaBits, Format.minExponent]
  omega

/-- A mantissa of 53 binary digits, or fewer with the least exponent. -/
structure Canonical (m : Nat) (e : Int) : Prop where
  positive : 0 < m
  bounded : m < 2 ^ 53
  least : -1074 ≤ e
  most : e ≤ 971
  full : 2 ^ 52 ≤ m ∨ e = -1074

namespace Canonical

variable {m : Nat} {e : Int} {sign : Sign}

theorem log2_le (canonical : Canonical m e) : m.log2 ≤ 52 :=
  Nat.le_of_lt_succ ((Nat.log2_lt canonical.positive.ne').2 canonical.bounded)

theorem log2_eq (canonical : Canonical m e) : m.log2 = 52 ∨ e = -1074 := by
  have most := canonical.log2_le
  refine canonical.full.imp_left fun full => ?_
  have least := (Nat.le_log2 canonical.positive.ne').2 full
  omega

theorem target_scaled (canonical : Canonical m e) {x : Nat} {f : Int} (same : (x : ℚ) * 2 ^ f = m * 2 ^ e) :
    Format.binary64.targetExponent (totalExponent x f) = e := by
  have most := canonical.log2_le
  have digits := canonical.log2_eq
  have least := canonical.least
  rw [targetExponent_eq]
  rcases Int.le_total f e with below | above
  · have shifted := natCast_eq_of_scaled same below
    rw [shifted, log2_shifted canonical.positive.ne']
    omega
  · have shifted := natCast_eq_of_scaled same.symm above
    have some' : x ≠ 0 := by
      rintro rfl
      have positive := canonical.positive
      omega
    have log := log2_shifted some' (f - e).toNat
    rw [← shifted] at log
    omega

theorem scaled_shifted (m : Nat) (e : Int) (k : Nat) : ((m * 2 ^ k : Nat) : ℚ) * 2 ^ (e - k) = m * 2 ^ e := by
  have exponent : (e - (e - k)).toNat = k := by omega
  rw [two_zpow_split (by omega : e - k ≤ e), exponent]
  push_cast
  ring

theorem shiftToTargetExponent_shifted (canonical : Canonical m e) (k : Nat) :
    shiftToTargetExponent .binary64 (m * 2 ^ k) (e - k) .exact = (⟨m, false, false⟩, e) := by
  have amount : (e - (e - k)).toNat = k := by omega
  unfold shiftToTargetExponent UnpackedFloat.shiftToExponent
  simp only [canonical.target_scaled (scaled_shifted m e k), amount, ExtendedMantissa.ofMantissaAndAccuracy,
    shiftRight_shifted, Int.sub_add_cancel]

theorem roundWithAccuracy_shifted (canonical : Canonical m e) (sign : Sign) (k : Nat) :
    roundWithAccuracy .binary64 sign (m * 2 ^ k) (e - k) .exact = .finite sign m e canonical.positive := by
  have again := canonical.shiftToTargetExponent_shifted 0
  simp only [Nat.pow_zero, Nat.mul_one, Int.natCast_zero, Int.sub_zero] at again
  unfold roundWithAccuracy
  rw [canonical.shiftToTargetExponent_shifted k]
  have rounded : ExtendedMantissa.roundedMantissa ⟨m, false, false⟩ = m := rfl
  simp only [rounded, again, canonical.positive.ne', dite_false]

theorem roundWithAccuracy_scaled (canonical : Canonical m e) {x : Nat} {f : Int}
    (same : (x : ℚ) * 2 ^ f = m * 2 ^ e) (below : f ≤ e) :
    roundWithAccuracy .binary64 sign x f .exact = .finite sign m e canonical.positive := by
  have rounds := canonical.roundWithAccuracy_shifted sign (e - f).toNat
  have start : e - ((e - f).toNat : Int) = f := by omega
  rwa [← natCast_eq_of_scaled same below, start] at rounds

theorem round_scaled (canonical : Canonical m e) {x : Nat} {f : Int} (same : (x : ℚ) * 2 ^ f = m * 2 ^ e) :
    UnpackedFloat.round .binary64 sign x f = .finite sign m e canonical.positive := by
  unfold UnpackedFloat.round UnpackedFloat.decreaseExponent
  rw [canonical.target_scaled same]
  refine canonical.roundWithAccuracy_scaled ?_ (by omega)
  rw [Nat.shiftLeft_eq, scaled_shifted, same]

end Canonical

theorem round_zero (sign : Sign) (f : Int) : UnpackedFloat.round .binary64 sign 0 f = .zero sign := by
  have shifted : ∀ k : Nat, (⟨0, false, false⟩ : ExtendedMantissa) >>> k = ⟨0, false, false⟩ := fun k => by
    simpa using shiftRight_shifted 0 k
  have rounded : ExtendedMantissa.roundedMantissa ⟨0, false, false⟩ = 0 := rfl
  simp [UnpackedFloat.round, UnpackedFloat.decreaseExponent, roundWithAccuracy, shiftToTargetExponent,
    UnpackedFloat.shiftToExponent, ExtendedMantissa.ofMantissaAndAccuracy, shifted, rounded]

section Packing

variable {sign : Sign} {m : Nat} {e : Int}

theorem unpack_pack_full (positive : 0 < m) (digits : m.log2 = 52) (least : -1074 ≤ e) (most : e ≤ 971) :
    (Float.Model.pack (.finite sign m e positive)).unpack = .finite sign m e positive := by
  obtain ⟨high, low⟩ := (Nat.log2_eq_iff (by omega)).1 digits
  have biased : (e + Format.binary64.exponentBias + Format.binary64.mantissaBitsWithoutImplicit).toNat =
      (e + 1075).toNat := by
    change (e + 1023 + 52).toNat = _
    omega
  have exponent : (BitVec.ofNat 11 (e + 1075).toNat).toNat = (e + 1075).toNat := by
    rw [BitVec.toNat_ofNat]
    omega
  -- The highest digit is not packed.
  have mantissa : (1#1 ++ BitVec.ofNat 52 m).toNat = m := by
    rw [BitVec.toNat_append, ← Nat.shiftLeft_add_eq_or_of_lt (BitVec.isLt _), BitVec.toNat_ofNat]
    simp
    omega
  have between : BitVec.ofNat 11 (e + 1075).toNat ≠ -1#11 ∧ BitVec.ofNat 11 (e + 1075).toNat ≠ 0#11 := by
    constructor <;> intro same <;> simp [← BitVec.toNat_inj] at same <;> omega
  have packed : UnpackedFloat.pack .binary64 (.finite sign m e positive) =
      UnpackedFloat.packComponents .binary64 sign (BitVec.ofNat 11 (e + 1075).toNat) (BitVec.ofNat 52 m) := by
    have fits : ¬ 2 ^ Format.binary64.exponentBits ≤ (e + 1075).toNat + 1 := by
      change ¬ 2048 ≤ _
      omega
    simp only [UnpackedFloat.pack, biased, if_neg fits, digits, Format.mantissaBits]
    rfl
  change UnpackedFloat.unpack .binary64 (UnpackedFloat.pack .binary64 (.finite sign m e positive)) = _
  have start : ((e + 1075).toNat : Int) -
      (Format.binary64.exponentBias + Format.binary64.mantissaBitsWithoutImplicit) = e := by
    change ((e + 1075).toNat : Int) - (1023 + 52) = e
    omega
  rw [packed]
  unfold UnpackedFloat.unpack
  simp only [UnpackedFloat.unpackExponent_packComponents, UnpackedFloat.unpackMantissa_packComponents,
    UnpackedFloat.unpackSign_packComponents, Sign.ofBitVec_toBitVec, between, if_false, exponent, mantissa, start]

theorem unpack_pack_least (positive : 0 < m) (small : m < 2 ^ 52) :
    (Float.Model.pack (.finite sign m (-1074) positive)).unpack = .finite sign m (-1074) positive := by
  have digits : m.log2 + 1 ≠ 53 := by
    have log := (Nat.log2_lt positive.ne').2 small
    omega
  have mantissa : (BitVec.ofNat 52 m).toNat = m := by
    rw [BitVec.toNat_ofNat]
    omega
  have some' : BitVec.ofNat 52 m ≠ 0#52 := by
    intro same
    simp [← BitVec.toNat_inj] at same
    omega
  have packed : UnpackedFloat.pack .binary64 (.finite sign m (-1074) positive) =
      UnpackedFloat.packComponents .binary64 sign 0#11 (BitVec.ofNat 52 m) := by
    have biased : (-1074 + (Format.binary64.exponentBias : Int) + Format.binary64.mantissaBitsWithoutImplicit).toNat = 1 :=
      rfl
    have fits : ¬ 2 ^ Format.binary64.exponentBits ≤ 1 + 1 := by decide
    have width : Format.binary64.mantissaBits = 53 := rfl
    simp only [UnpackedFloat.pack, biased, if_neg fits, width, if_neg digits]
  change UnpackedFloat.unpack .binary64 (UnpackedFloat.pack .binary64 (.finite sign m (-1074) positive)) = _
  rw [packed]
  unfold UnpackedFloat.unpack
  simp only [UnpackedFloat.unpackExponent_packComponents, UnpackedFloat.unpackMantissa_packComponents,
    UnpackedFloat.unpackSign_packComponents, Sign.ofBitVec_toBitVec, some', mantissa]
  rfl

theorem Canonical.unpack_pack (canonical : Canonical m e) :
    (Float.Model.pack (.finite sign m e canonical.positive)).unpack = .finite sign m e canonical.positive := by
  rcases canonical.log2_eq with digits | rfl
  · exact unpack_pack_full canonical.positive digits canonical.least canonical.most
  · rcases Nat.lt_or_ge m (2 ^ 52) with small | large
    · exact unpack_pack_least canonical.positive small
    · have digits : m.log2 = 52 := (Nat.log2_eq_iff canonical.positive.ne').2 ⟨large, canonical.bounded⟩
      exact unpack_pack_full canonical.positive digits (by decide) (by decide)

theorem unpack_pack_zero (sign : Sign) : (Float.Model.pack (.zero sign)).unpack = .zero sign := by
  cases sign <;> rfl

theorem canonical_unpack {bits : BitVec Format.binary64.numBits} {positive : 0 < m}
    (unpacked : UnpackedFloat.unpack .binary64 bits = .finite sign m e positive) : Canonical m e := by
  have mantissa : (UnpackedFloat.unpackMantissa bits).toNat < 2 ^ 52 := BitVec.isLt _
  have exponent : (UnpackedFloat.unpackExponent bits).toNat < 2 ^ 11 := BitVec.isLt _
  have start : ((Format.binary64.exponentBias : Int) + Format.binary64.mantissaBitsWithoutImplicit) = 1075 := rfl
  unfold UnpackedFloat.unpack at unpacked
  simp only [start] at unpacked
  split at unpacked
  · split at unpacked <;> cases unpacked
  · rename_i notFull
    have below : (UnpackedFloat.unpackExponent bits).toNat ≠ 2 ^ 11 - 1 := fun same => notFull (BitVec.toNat_inj.1 same)
    split at unpacked
    · rename_i least
      split at unpacked
      · cases unpacked
      · have zero : (UnpackedFloat.unpackExponent bits).toNat = 0 := congrArg BitVec.toNat least
        cases unpacked
        exact ⟨positive, by omega, by omega, by omega, .inr (by omega)⟩
    · rename_i normal
      have above : (UnpackedFloat.unpackExponent bits).toNat ≠ 0 := fun same => normal (BitVec.toNat_inj.1 same)
      have digits : (1#1 ++ UnpackedFloat.unpackMantissa bits).toNat =
          2 ^ 52 + (UnpackedFloat.unpackMantissa bits).toNat := by
        rw [BitVec.toNat_append, ← Nat.shiftLeft_add_eq_or_of_lt (BitVec.isLt _), Nat.shiftLeft_eq]
        rfl
      cases unpacked
      exact ⟨positive, by omega, by omega, by omega, .inl (by omega)⟩

theorem unpack_of_finite {x : Float} (finite : x.isFinite = true) :
    (∃ sign, x.toModel.unpack = .zero sign) ∨ ∃ sign m e positive, x.toModel.unpack = .finite sign m e positive := by
  have status : x.toModel.unpack.isFinite = true := finite
  cases unpacked : x.toModel.unpack with
  | notANumber | infinity sign =>
    rw [unpacked] at status
    cases status
  | zero sign => exact .inl ⟨sign, rfl⟩
  | finite sign m e positive => exact .inr ⟨sign, m, e, positive, rfl⟩

theorem pack_unpack (x : Float) : Float.ofModel (.pack x.toModel.unpack) = x := by
  have bits : UnpackedFloat.pack .binary64 x.toModel.unpack = x.toModel.toBits.toBitVec :=
    UnpackedFloat.pack_unpack_of_valid x.toModel.valid
  apply Float.toBits_inj.1
  change UInt64.ofBitVec (UnpackedFloat.pack .binary64 x.toModel.unpack) = _
  rw [bits]
  rfl

end Packing

end Reckon
