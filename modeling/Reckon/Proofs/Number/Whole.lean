import Mathlib
import Reckon.Proofs.Number.Canonical

set_option autoImplicit false

/-!
# Whole numbers

Whole numbers up to `2 ^ 53` are stored with all their digits, so that adding them and comparing them is exact.
-/

namespace Reckon

open Float.Model
open Float.Model.UnpackedFloat (Sign)

/-- The number is `m * 2 ^ e`, and `m` has all its 53 digits. -/
structure Stored (n m : Nat) (e : Int) : Prop where
  digits : m.log2 = 52
  least : -52 ≤ e
  most : e ≤ 1
  value : (m : ℚ) * 2 ^ e = n

section Whole

variable {n m : Nat} {e : Int}

theorem Stored.canonical (stored : Stored n m e) : Canonical m e where
  positive := by
    refine Nat.pos_of_ne_zero ?_
    rintro rfl
    cases stored.digits
  bounded := by
    rw [← Nat.log2_lt fun empty => ?_, stored.digits]
    · decide
    · subst empty
      cases stored.digits
  least := by linarith [stored.least]
  most := by linarith [stored.most]
  full := by
    refine .inl ((Nat.le_log2 fun empty => ?_).1 stored.digits.ge)
    subst empty
    cases stored.digits

theorem exists_stored (positive : 0 < n) (small : n ≤ 2 ^ 53) : ∃ m e, Stored n m e := by
  rcases Nat.lt_or_eq_of_le small with below | rfl
  · have log : n.log2 < 53 := (Nat.log2_lt (by omega)).2 below
    refine ⟨n * 2 ^ (52 - n.log2), -(52 - n.log2 : Nat), ?_, by omega, by omega, ?_⟩
    · rw [log2_shifted (by omega)]
      omega
    · push_cast
      rw [zpow_neg, zpow_natCast]
      field_simp
  · exact ⟨2 ^ 52, 1, Nat.log2_two_pow, by omega, by omega, by norm_num⟩

theorem exists_sign (z : Int) : ∃ sign : Sign, z = sign.apply z.natAbs := by
  rcases Int.le_total 0 z with above | below
  · exact ⟨.positive, (Int.natAbs_of_nonneg above).symm⟩
  · exact ⟨.negative, by rw [Sign.apply]; omega⟩

theorem normalize_stored (stored : Stored n m e) {x f : Int} {sign : Sign} (same : (x : ℚ) * 2 ^ f = sign.apply n)
    (zeroSign : Sign) :
    UnpackedFloat.normalize .binary64 x f zeroSign = .finite sign m e stored.canonical.positive := by
  have scale : (0 : ℚ) < 2 ^ f := by positivity
  have value := stored.value
  have some' : (0 : ℚ) < n := by
    rw [← value]
    have positive := stored.canonical.positive
    positivity
  unfold UnpackedFloat.normalize
  cases sign with
  | positive =>
    simp only [Sign.apply, Int.cast_natCast] at same
    have above : 0 < x := by
      rw [← same] at some'
      exact_mod_cast pos_of_mul_pos_left some' scale.le
    have whole : ((x.toNat : Nat) : ℚ) = x := by exact_mod_cast Int.toNat_of_nonneg above.le
    rw [Int.compare_eq_gt.2 above]
    exact stored.canonical.round_scaled (by rw [whole, same, value])
  | negative =>
    simp only [Sign.apply, Int.cast_neg, Int.cast_natCast] at same
    have below : x < 0 := by
      have negative : (x : ℚ) * 2 ^ f < 0 := by rw [same]; exact neg_neg_of_pos some'
      exact_mod_cast neg_of_mul_neg_left negative scale.le
    have whole : (((-x).toNat : Nat) : ℚ) = -x := by exact_mod_cast Int.toNat_of_nonneg (by omega : 0 ≤ -x)
    rw [Int.compare_eq_lt.2 below]
    exact stored.canonical.round_scaled (by rw [whole, neg_mul, same, neg_neg, value])

theorem numberOfInt_stored (stored : Stored n m e) (sign : Sign) :
    numberOfInt (sign.apply n) = .ofModel (.pack (.finite sign m e stored.canonical.positive)) := by
  have same : ((sign.apply n : Int) : ℚ) * 2 ^ (0 : Int) = sign.apply n := by simp
  unfold numberOfInt Float.Model.ofInt UnpackedFloat.ofInt
  rw [normalize_stored stored same]

theorem unpack_numberOfInt (stored : Stored n m e) (sign : Sign) :
    (numberOfInt (sign.apply n)).toModel.unpack = .finite sign m e stored.canonical.positive := by
  rw [numberOfInt_stored stored]
  exact stored.canonical.unpack_pack

theorem unpack_zero : (numberOfInt 0).toModel.unpack = .zero .positive := rfl

theorem shiftLeft_scaled (m : Nat) {e f : Int} (below : f ≤ e) :
    ((m <<< (e - f).toNat : Nat) : ℚ) * 2 ^ f = m * 2 ^ e := by
  rw [two_zpow_split below, Nat.shiftLeft_eq]
  push_cast
  exact mul_assoc _ _ _

theorem pack_normalize {x f z : Int} (same : (x : ℚ) * 2 ^ f = z) (small : z.natAbs ≤ 2 ^ 53) :
    Float.ofModel (.pack (UnpackedFloat.normalize .binary64 x f .positive)) = numberOfInt z := by
  rcases eq_or_ne z 0 with rfl | some'
  · have empty : x = 0 := by
      have scale : (2 : ℚ) ^ f ≠ 0 := zpow_ne_zero f (by norm_num)
      simpa [scale] using same
    rw [empty]
    rfl
  · obtain ⟨sign, signed⟩ := exists_sign z
    obtain ⟨m, e, stored⟩ := exists_stored (Int.natAbs_pos.2 some') small
    rw [signed] at same ⊢
    rw [normalize_stored stored same, numberOfInt_stored stored]

theorem cast_apply (sign : Sign) (n : Nat) : ((sign.apply n : Int) : ℚ) = (sign.apply 1 : Int) * n := by
  cases sign <;> simp [Sign.apply]

theorem apply_shiftLeft (sign : Sign) (m : Nat) {e f : Int} (below : f ≤ e) :
    ((sign.apply (m <<< (e - f).toNat : Nat) : Int) : ℚ) * 2 ^ f = sign.apply m * 2 ^ e := by
  rw [cast_apply, mul_assoc, shiftLeft_scaled m below, ← mul_assoc, ← cast_apply]

theorem Stored.signed (stored : Stored n m e) (sign : Sign) : ((sign.apply m : Int) : ℚ) * 2 ^ e = sign.apply n := by
  rw [cast_apply, mul_assoc, stored.value, ← cast_apply]

theorem numberOfInt_add {a b : Int} (small : a.natAbs ≤ 2 ^ 53) (small' : b.natAbs ≤ 2 ^ 53)
    (sum : (a + b).natAbs ≤ 2 ^ 53) : numberOfInt a + numberOfInt b = numberOfInt (a + b) := by
  change Float.ofModel (.pack (.add .binary64 (numberOfInt a).toModel.unpack (numberOfInt b).toModel.unpack)) = _
  rcases eq_or_ne a 0 with rfl | one
  · rcases eq_or_ne b 0 with rfl | two
    · rfl
    · obtain ⟨sign, signed⟩ := exists_sign b
      obtain ⟨m, e, stored⟩ := exists_stored (Int.natAbs_pos.2 two) small'
      rw [Int.zero_add, unpack_zero, signed, unpack_numberOfInt stored, numberOfInt_stored stored]
      rfl
  · obtain ⟨sign, signed⟩ := exists_sign a
    obtain ⟨m, e, stored⟩ := exists_stored (Int.natAbs_pos.2 one) small
    rcases eq_or_ne b 0 with rfl | two
    · rw [Int.add_zero, unpack_zero, signed, unpack_numberOfInt stored, numberOfInt_stored stored]
      rfl
    · obtain ⟨sign', signed'⟩ := exists_sign b
      obtain ⟨m', e', stored'⟩ := exists_stored (Int.natAbs_pos.2 two) small'
      rw [← pack_normalize (x := sign.apply (m <<< (e - min e e').toNat : Nat) +
        sign'.apply (m' <<< (e' - min e e').toNat : Nat)) (f := min e e') ?_ sum, signed, signed',
        unpack_numberOfInt stored, unpack_numberOfInt stored']
      · rfl
      · rw [Int.cast_add, add_mul, apply_shiftLeft sign m (min_le_left e e'), apply_shiftLeft sign' m' (min_le_right e e'),
          stored.signed, stored'.signed, ← signed, ← signed', Int.cast_add]

theorem Stored.lt_of_exponents {n' m' : Nat} {e' : Int} (stored : Stored n m e) (stored' : Stored n' m' e')
    (less : e < e') : n < n' := by
  have below : m < 2 ^ 53 := ((Nat.log2_eq_iff stored.canonical.positive.ne').1 stored.digits).2
  have above : 2 ^ 52 ≤ m' := ((Nat.log2_eq_iff stored'.canonical.positive.ne').1 stored'.digits).1
  rw [← Nat.cast_lt (α := ℚ), ← stored.value, ← stored'.value]
  calc (m : ℚ) * 2 ^ e < 2 ^ 53 * 2 ^ e := by gcongr; exact_mod_cast below
    _ = 2 ^ 52 * 2 ^ (e + 1) := by rw [zpow_add_one₀ (by norm_num)]; ring
    _ ≤ m' * 2 ^ e' := by gcongr; exact_mod_cast above; norm_num; omega

theorem Stored.lt_iff {n' m' : Nat} {e' : Int} (stored : Stored n m e) (stored' : Stored n' m' e') :
    (compare e e').then (compare m m') = .lt ↔ n < n' := by
  rcases Int.lt_trichotomy e e' with less | rfl | more
  · simp [compare_lt_iff_lt.2 less, stored.lt_of_exponents stored' less]
  · have values : (n : ℚ) < n' ↔ (m : ℚ) < m' := by
      rw [← stored.value, ← stored'.value]
      exact mul_lt_mul_iff_left₀ (by positivity)
    have same : compare e e = .eq := compare_eq_iff_eq.2 rfl
    rw [same, ← Nat.cast_lt (α := ℚ), values, Nat.cast_lt]
    exact compare_lt_iff_lt
  · have greater := stored'.lt_of_exponents stored more
    simp [compare_gt_iff_gt.2 more, greater.le]

theorem float_lt_iff (x y : Float) : x < y ↔ UnpackedFloat.compare x.toModel.unpack y.toModel.unpack = some .lt := by
  change decide ((UnpackedFloat.compare x.toModel.unpack y.toModel.unpack == some .lt) = true) = true ↔ _
  simp

theorem lt_zero_iff (x : Float) : x < 0 ↔ UnpackedFloat.compare x.toModel.unpack (.zero .positive) = some .lt :=
  float_lt_iff x 0

theorem numberOfInt_lt (a b : Nat) (small : a ≤ 2 ^ 53) (small' : b ≤ 2 ^ 53) :
    numberOfInt a < numberOfInt b ↔ a < b := by
  rw [float_lt_iff]
  rcases Nat.eq_zero_or_pos a with rfl | one
  · rcases Nat.eq_zero_or_pos b with rfl | two
    · simp [unpack_zero, UnpackedFloat.compare]
    · obtain ⟨m, e, stored⟩ := exists_stored two (by omega)
      have unpacked := unpack_numberOfInt stored .positive
      simp only [Sign.apply] at unpacked
      simp [unpack_zero, unpacked, UnpackedFloat.compare, two]
  · obtain ⟨m, e, stored⟩ := exists_stored one (by omega)
    have unpacked := unpack_numberOfInt stored .positive
    simp only [Sign.apply] at unpacked
    rcases Nat.eq_zero_or_pos b with rfl | two
    · simp [unpack_zero, unpacked, UnpackedFloat.compare]
    · obtain ⟨m', e', stored'⟩ := exists_stored two (by omega)
      have unpacked' := unpack_numberOfInt stored' .positive
      simp only [Sign.apply] at unpacked'
      rw [unpacked, unpacked']
      simpa [UnpackedFloat.compare] using stored.lt_iff stored'

end Whole

end Reckon
