import Mathlib
import Reckon.Proofs.Number.Whole
import Reckon.Proofs.Token.Numbers

set_option autoImplicit false

/-!
# Numerals

A numeral that stands for a number exactly is read as this number. So is the numeral that a number is written with,
and a numeral written in full is the numeral that its characters spell.
-/

namespace Reckon

open Float.Model
open Float.Model.UnpackedFloat (roundWithAccuracy)

section Quotients

variable {n m d : Nat} {e : Int}

theorem Canonical.log2_quotient (canonical : Canonical m e) (positive : 0 < d) (same : (n : ℚ) = m * 2 ^ e * d)
    (below : e ≤ 0) : (n.log2 : Int) - d.log2 - 53 ≤ e := by
  have shifted : m * d = n * 2 ^ (0 - e).toNat := by
    refine natCast_eq_of_scaled ?_ below
    rw [same, zpow_zero, Nat.cast_mul]
    ring
  have product : m * d ≠ 0 := (Nat.mul_pos canonical.positive positive).ne'
  have some' : n ≠ 0 := by
    rintro rfl
    exact product (shifted.trans (Nat.zero_mul _))
  have bound : m * d < 2 ^ (53 + (d.log2 + 1)) := by
    rw [Nat.pow_add]
    exact Nat.mul_lt_mul'' canonical.bounded Nat.lt_log2_self
  have log := (Nat.log2_lt product).2 bound
  rw [shifted, log2_shifted some'] at log
  omega

theorem divCore_exact (canonical : Canonical m e) (positive : 0 < d) (same : (n : ℚ) = m * 2 ^ e * d) :
    ∃ t, t ≤ e ∧ UnpackedFloat.divCore .binary64 n 0 d 0 = (m * 2 ^ (e - t).toNat, t, .exact) := by
  obtain ⟨t, target⟩ : ∃ t, t = min (0 - 0)
    (Format.binary64.targetExponent (totalExponent n 0 - totalExponent d 0)) := ⟨_, rfl⟩
  have units : t ≤ 0 := by omega
  have below : t ≤ e := by
    rcases Int.le_total e 0 with small | large
    · have log := canonical.log2_quotient positive same small
      have least := canonical.least
      simp only [Format.targetExponent, totalExponent, Format.mantissaBits, Format.minExponent] at target
      omega
    · omega
  have shifted : n <<< (0 - 0 - t).toNat = m * 2 ^ (e - t).toNat * d := by
    have value : ((n <<< (0 - t).toNat : Nat) : ℚ) * 2 ^ t = (m * d : Nat) * 2 ^ e := by
      rw [shiftLeft_scaled n units, same, zpow_zero, Nat.cast_mul]
      ring
    rw [Int.sub_zero, natCast_eq_of_scaled value below]
    ring
  refine ⟨t, below, ?_⟩
  unfold UnpackedFloat.divCore
  rw [← target]
  simp only [shifted, Nat.mul_div_cancel _ positive, Nat.mul_mod_left, UnpackedFloat.accuracyOfFraction, if_true]

end Quotients

namespace Decimal

def StandsFor (d : Decimal) (m : Nat) (e : Int) : Prop :=
  (d.digits : ℚ) = m * 2 ^ e * 10 ^ d.places

section Reading

variable {d : Decimal} {n p m : Nat} {e : Int}

theorem StandsFor.digits_ne (canonical : Canonical m e) (stands : d.StandsFor m e) : d.digits ≠ 0 := by
  intro none
  have positive := canonical.positive
  have some' : (m : ℚ) * 2 ^ e * 10 ^ d.places ≠ 0 := by positivity
  exact some' (by rw [← stands, none, Nat.cast_zero])

theorem ofScientific_whole (some' : n ≠ 0) :
    UnpackedFloat.ofScientific .binary64 n 0 = roundWithAccuracy .binary64 .positive (n * 2 ^ 53) (-53) .exact := by
  have large : ¬ ((0 : Int) > 2 ^ Format.binary64.exponentBits) := by decide
  have tiny : ¬ ((0 : Int) < -((2 ^ Format.binary64.exponentBits : Int) + n.log2)) := by
    change ¬ (0 : Int) < -((2 ^ 11 : Int) + n.log2)
    omega
  have mantissa : n <<< Format.binary64.mantissaBits * 10 ^ Int.toNat 0 = n * 2 ^ 53 := by
    rw [Nat.shiftLeft_eq, Int.toNat_zero, Nat.pow_zero, Nat.mul_one]
    rfl
  unfold UnpackedFloat.ofScientific
  rw [dif_neg some', if_neg large, if_neg tiny, if_pos (Int.le_refl 0), UnpackedFloat.mul, mantissa]
  rfl

theorem ofScientific_fraction (some' : n ≠ 0) (behind : 0 < p) (few : p ≤ 2 ^ 11) :
    UnpackedFloat.ofScientific .binary64 n (-p) =
      let quotient := UnpackedFloat.divCore .binary64 n 0 (10 ^ p) 0
      roundWithAccuracy .binary64 .positive quotient.1 quotient.2.1 quotient.2.2 := by
  have large : ¬ (-(p : Int) > 2 ^ Format.binary64.exponentBits) := by
    change ¬ -(p : Int) > 2 ^ 11
    omega
  have tiny : ¬ (-(p : Int) < -((2 ^ Format.binary64.exponentBits : Int) + n.log2)) := by
    change ¬ -(p : Int) < -((2 ^ 11 : Int) + n.log2)
    omega
  have power : (- -(p : Int)).toNat = p := by omega
  unfold UnpackedFloat.ofScientific
  rw [dif_neg some', if_neg large, if_neg tiny, if_neg (by omega), UnpackedFloat.div]
  simp only [power]
  rfl

theorem toFloat_exact (canonical : Canonical m e) (stands : d.StandsFor m e) (few : d.places ≤ 2 ^ 11) :
    d.toFloat = .ofModel (.pack (.finite .positive m e canonical.positive)) := by
  have some' := stands.digits_ne canonical
  obtain ⟨n, p⟩ := d
  change n ≠ 0 at some'
  have reads : UnpackedFloat.ofScientific .binary64 n (-p) = .finite .positive m e canonical.positive := by
    rcases Nat.eq_zero_or_pos p with rfl | behind
    · have value : (n : ℚ) * 2 ^ (0 : Int) = m * 2 ^ e := by
        rw [zpow_zero, mul_one]
        simpa [StandsFor] using stands
      -- A mantissa has too few digits for a whole number with a smaller exponent.
      have least : -53 ≤ e := by
        by_contra less
        have bounded := canonical.bounded
        have shifted := natCast_eq_of_scaled value.symm (by omega)
        have large : 2 ^ 53 ≤ 2 ^ (0 - e).toNat := Nat.pow_le_pow_right (by decide) (by omega)
        have above : 2 ^ (0 - e).toNat ≤ m := shifted ▸ Nat.le_mul_of_pos_left _ (Nat.pos_of_ne_zero some')
        omega
      have scaled : ((n * 2 ^ 53 : Nat) : ℚ) * 2 ^ (-53 : Int) = m * 2 ^ e := (Canonical.scaled_shifted n 0 53).trans value
      exact (ofScientific_whole some').trans (canonical.roundWithAccuracy_scaled scaled least)
    · have value : (n : ℚ) = m * 2 ^ e * (10 ^ p : Nat) := by
        rw [Nat.cast_pow]
        exact stands
      obtain ⟨t, below, quotient⟩ := divCore_exact canonical (Nat.pow_pos (by decide)) value
      have start : e - ((e - t).toNat : Int) = t := by omega
      have rounds := canonical.roundWithAccuracy_shifted .positive (e - t).toNat
      rw [ofScientific_fraction some' behind few, quotient]
      rwa [start] at rounds
  exact congrArg (fun value => Float.ofModel (.pack value)) reads

theorem toFloat_whole (small : n ≤ 2 ^ 53) : (Decimal.mk n 0).toFloat = numberOfInt n := by
  rcases Nat.eq_zero_or_pos n with rfl | positive
  · rfl
  · obtain ⟨m, e, stored⟩ := exists_stored positive small
    have stands : (Decimal.mk n 0).StandsFor m e := by simp [StandsFor, stored.value]
    exact (toFloat_exact stored.canonical stands (by simp)).trans (numberOfInt_stored stored .positive).symm

theorem toFloat_toDigits (small : n ≤ 2 ^ 53) : (ofSpelling (Nat.toDigits 10 n)).toFloat = numberOfInt n := by
  rw [ofSpelling_digits fun c => Nat.isDigit_of_mem_toDigits (by decide) (by decide),
    Nat.ofDigitChars_ten_toDigits, toFloat_whole small]

end Reading

section Writing

variable {x : Float} {sign : UnpackedFloat.Sign} {m : Nat} {e : Int}

theorem trimmed_value (n p : Nat) :
    (trimmed n p).digits * 10 ^ (p - (trimmed n p).places) = n ∧ (trimmed n p).places ≤ p := by
  induction p generalizing n with
  | zero => exact ⟨Nat.mul_one n, Nat.le_refl 0⟩
  | succ p ih =>
    rw [trimmed]
    split
    next divides =>
      obtain ⟨value, fewer⟩ := ih (n / 10)
      refine ⟨?_, by omega⟩
      rw [Nat.succ_sub fewer, Nat.pow_succ, ← Nat.mul_assoc, value]
      omega
    next => exact ⟨by simp, Nat.le_refl _⟩

theorem exactly_standsFor (m : Nat) (e : Int) : (exactly m e).StandsFor m e := by
  obtain ⟨value, fewer⟩ := trimmed_value (m * 2 ^ e.toNat * 5 ^ (-e).toNat) (-e).toNat
  change (exactly m e).digits * 10 ^ ((-e).toNat - (exactly m e).places) = _ at value
  change (exactly m e).places ≤ _ at fewer
  have powers : (2 : ℚ) ^ e * 10 ^ (-e).toNat = 2 ^ e.toNat * 5 ^ (-e).toNat := by
    rw [← two_zpow_mul, mul_assoc, ← mul_pow]
    norm_num
  have scale : (10 : ℚ) ^ ((-e).toNat - (exactly m e).places) ≠ 0 := by positivity
  refine mul_right_cancel₀ scale ?_
  rw [mul_assoc, ← pow_add, Nat.add_sub_cancel' fewer, mul_assoc, powers, ← mul_assoc]
  exact_mod_cast value

theorem places_exactly (canonical : Canonical m e) : (exactly m e).places ≤ 2 ^ 11 := by
  have fewer := (trimmed_value (m * 2 ^ e.toNat * 5 ^ (-e).toNat) (-e).toNat).2
  have least := canonical.least
  refine fewer.trans ?_
  omega

/-- Whether or not fewer digits were enough, the numeral is read as the number without its sign. -/
theorem toFloat_shortest {positive : 0 < m} (unpacked : x.toModel.unpack = .finite sign m e positive) :
    (shortest x).toFloat = .ofModel (.pack (.finite .positive m e positive)) := by
  have canonical := canonical_unpack unpacked
  unfold shortest
  rw [unpacked]
  dsimp only
  cases found : (List.range' 1 17).findSome? fun count =>
      (neighbours (m * Nat.pow 2 e.toNat) (Nat.pow 2 (-e).toNat) count).find? fun d =>
        d.toFloat = .ofModel (.pack (.finite .positive m e positive)) with
  | none => exact toFloat_exact canonical (exactly_standsFor m e) (places_exactly canonical)
  | some d =>
    obtain ⟨count, _, read⟩ := List.exists_of_findSome?_eq_some found
    have reads := List.find?_some read
    exact of_decide_eq_true reads

end Writing

section Spelling

variable {whole fraction : List Char}

theorem ofSpelling_pointed (digits : ∀ c ∈ whole, c.isDigit = true) :
    ofSpelling (whole ++ '.' :: fraction) = ⟨Nat.ofDigitChars 10 (whole ++ fraction) 0, fraction.length⟩ := by
  have plain := pointless_of_digits digits
  unfold ofSpelling
  rw [List.takeWhile_append_of_pos plain, List.dropWhile_append_of_pos plain, List.takeWhile_cons_of_neg (by simp),
    List.dropWhile_cons_of_neg (by simp), List.append_nil]
  rfl

structure Parts (d : Decimal) (whole fraction : List Char) : Prop where
  nonempty : whole ≠ []
  digits : ∀ c ∈ whole ++ fraction, c.isDigit = true
  value : Nat.ofDigitChars 10 (whole ++ fraction) 0 = d.digits
  places : fraction.length = d.places
  written : d.positional = if fraction = [] then whole else whole ++ '.' :: fraction

theorem exists_parts (d : Decimal) : ∃ whole fraction, d.Parts whole fraction := by
  obtain ⟨padded, padding⟩ : ∃ padded, padded =
    List.replicate (d.places + 1 - (Nat.toDigits 10 d.digits).length) '0' ++ Nat.toDigits 10 d.digits := ⟨_, rfl⟩
  have long : d.places < padded.length := by
    rw [padding, List.length_append, List.length_replicate]
    omega
  have cut : d.split = (padded.take (padded.length - d.places), padded.drop (padded.length - d.places)) := by
    rw [split, ← padding, List.splitAt_eq]
  have together := List.take_append_drop (padded.length - d.places) padded
  refine ⟨padded.take (padded.length - d.places), padded.drop (padded.length - d.places), ?_, ?_, ?_, ?_, ?_⟩
  · intro none
    have length := congrArg List.length none
    rw [List.length_take, List.length_nil] at length
    omega
  · rw [together, padding]
    intro c member
    rcases List.mem_append.1 member with zero | digit
    · rw [List.eq_of_mem_replicate zero]
      rfl
    · exact Nat.isDigit_of_mem_toDigits (by decide) (by decide) digit
  · rw [together, padding, Nat.ofDigitChars_append, Nat.ofDigitChars_replicate_zero, Nat.mul_zero,
      Nat.ofDigitChars_ten_toDigits]
  · rw [List.length_drop]
    omega
  · rw [positional, cut]
    cases padded.drop (padded.length - d.places) <;> rfl

theorem ofSpelling_positional (d : Decimal) : ofSpelling d.positional = d := by
  obtain ⟨whole, fraction, parts⟩ := d.exists_parts
  have front : ∀ c ∈ whole, c.isDigit = true := fun c member => parts.digits c (List.mem_append_left fraction member)
  have value := parts.value
  have places := parts.places
  rw [parts.written]
  split
  next none =>
    subst none
    rw [List.append_nil] at value
    rw [ofSpelling_digits front, value]
    exact congrArg (Decimal.mk d.digits) places
  next => rw [ofSpelling_pointed front, value, places]

end Spelling

end Decimal

end Reckon
