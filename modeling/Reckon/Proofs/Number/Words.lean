import Mathlib
import Reckon.Proofs.Number.Whole
import Reckon.Value.Operation

set_option autoImplicit false

/-!
# Words

Bitwise operators take the exact value of a number to a word of 32 bits and read a word back as a whole number. The
word can also be had by floating point operations and a cast, and nothing is lost on that way.
-/

namespace Reckon

open Float.Model
open Float.Model.UnpackedFloat (Sign)

def exactValue? (x : Float) : Option ℚ :=
  match x.toModel.unpack with
  | .finite sign mantissa exponent _ => some (sign.apply mantissa * 2 ^ exponent)
  | .zero _ => some 0
  | .infinity _ | .notANumber => none

def truncate (q : ℚ) : Int :=
  if q < 0 then ⌈q⌉ else ⌊q⌋

/-- The whole part modulo `2 ^ 32`, or zero for what is not finite. -/
def residue (x : Float) : Nat :=
  match exactValue? x with
  | some q => (truncate q % 2 ^ 32).toNat
  | none => 0

def twosComplement (w : Nat) : Int :=
  if w < 2 ^ 31 then w else w - 2 ^ 32

def signedResidue (x : Float) : Int :=
  twosComplement (residue x)

theorem truncate_intCast (z : Int) : truncate z = z := by
  simp [truncate]

theorem truncate_apply (sign : Sign) {q : ℚ} (above : 0 ≤ q) : truncate (sign.apply 1 * q) = sign.apply ⌊q⌋ := by
  cases sign with
  | positive => simp [Sign.apply, truncate, not_lt.2 above]
  | negative =>
    rcases above.eq_or_lt with rfl | positive
    · simp [Sign.apply, truncate]
    · simp [Sign.apply, truncate, positive, Int.ceil_neg]

theorem floor_scaled (m : Nat) (e : Int) : ⌊(m : ℚ) * 2 ^ e⌋ = (m * 2 ^ e.toNat / 2 ^ (-e).toNat : Nat) := by
  have fraction : (m : ℚ) * 2 ^ e = ((m * 2 ^ e.toNat : Nat) : ℚ) / ((2 ^ (-e).toNat : Nat) : ℚ) := by
    push_cast
    rw [← two_zpow_mul, ← mul_assoc, mul_div_cancel_right₀ _ (by positivity)]
  rw [fraction, Rat.floor_natCast_div_natCast]
  rfl

theorem wholePart_eq (x : Float) : wholePart x = ((exactValue? x).map truncate).getD 0 := by
  unfold wholePart exactValue?
  split
  next sign m e _ unpacked =>
    have value : ((sign.apply m : Int) : ℚ) * 2 ^ e = (sign.apply 1 : Int) * ((m : ℚ) * 2 ^ e) := by
      rw [cast_apply, mul_assoc]
    rw [unpacked]
    simp only [Option.map_some, Option.getD_some, value, truncate_apply sign (by positivity : (0 : ℚ) ≤ m * 2 ^ e),
      floor_scaled]
    rfl
  next other =>
    split
    next unpacked => exact absurd unpacked (other _ _ _ _)
    · rfl
    · rfl
    · rfl

theorem exactValue?_numberOfInt {z : Int} (small : z.natAbs ≤ 2 ^ 53) : exactValue? (numberOfInt z) = some (z : ℚ) := by
  rcases eq_or_ne z 0 with rfl | some'
  · rfl
  · obtain ⟨sign, signed⟩ := exists_sign z
    obtain ⟨m, e, stored⟩ := exists_stored (Int.natAbs_pos.2 some') small
    rw [exactValue?, signed, unpack_numberOfInt stored]
    exact congrArg some (stored.signed sign)

theorem toNat_ofInt (z : Int) : (UInt32.ofInt z).toNat = (z % 2 ^ 32).toNat := by
  rw [UInt32.ofInt, UInt32.toNat_ofNat_of_lt']
  change _ < 2 ^ 32
  omega

theorem toNat_word (x : Float) : (word x).toNat = residue x := by
  rw [word, toNat_ofInt, wholePart_eq, residue]
  cases exactValue? x <;> rfl

theorem signedWord_eq (w : UInt32) : signedWord w = twosComplement w.toNat := by
  change w.toBitVec.toInt = _
  rw [BitVec.toInt_eq_toNat_cond, twosComplement]
  change (if 2 * w.toNat < 2 ^ 32 then (w.toNat : Int) else w.toNat - (2 ^ 32 : Nat)) = _
  split <;> split <;> omega

theorem signedWord_not (w : UInt32) : signedWord (~~~ w) = -signedWord w - 1 := by
  have bound := w.toNat_lt
  have size : UInt32.size = 2 ^ 32 := rfl
  rw [signedWord_eq, signedWord_eq, UInt32.toNat_not, twosComplement, twosComplement]
  split <;> split <;> omega

theorem twosComplement_bounds {w : Nat} (bound : w < 2 ^ 32) : -2 ^ 31 ≤ twosComplement w ∧ twosComplement w < 2 ^ 31 := by
  unfold twosComplement
  split <;> omega

theorem residue_lt (x : Float) : residue x < 2 ^ 32 := by
  rw [← toNat_word]
  exact (word x).toNat_lt

theorem residue_numberOfInt {z : Int} (small : z.natAbs ≤ 2 ^ 53) : residue (numberOfInt z) = (z % 2 ^ 32).toNat := by
  simp only [residue, exactValue?_numberOfInt small, truncate_intCast]

theorem signedResidue_bounds (x : Float) : -2 ^ 31 ≤ signedResidue x ∧ signedResidue x < 2 ^ 31 :=
  twosComplement_bounds (residue_lt x)

theorem signedResidue_numberOfInt {z : Int} (least : -2 ^ 31 ≤ z) (most : z < 2 ^ 31) :
    signedResidue (numberOfInt z) = z := by
  rw [signedResidue, residue_numberOfInt (by omega), twosComplement]
  split <;> omega

/-- The value without its fraction. It keeps its sign, also where nothing else is left. -/
def truncated (x : Float) : Float :=
  match x.toModel.unpack with
  | .finite sign mantissa exponent _ =>
    .ofModel (.pack (UnpackedFloat.round .binary64 sign (mantissa * 2 ^ exponent.toNat / 2 ^ (-exponent).toNat) 0))
  | _ => x

def euclideanRemainder (x y : Float) : Float :=
  if remainder x y < 0 then remainder x y + y.abs else remainder x y

def modulus : Float :=
  numberOfInt (2 ^ 32)

/-- The word by floating point operations and a cast that stops at the largest word. -/
def castWord (x : Float) : UInt32 :=
  if x.isFinite then (euclideanRemainder (truncated x) modulus).toUInt32 else 0

theorem stored_modulus : Stored (2 ^ 32) (2 ^ 52) (-20) where
  digits := Nat.log2_two_pow
  least := by decide
  most := by decide
  value := by norm_num

theorem unpack_modulus : modulus.toModel.unpack = .finite .positive (2 ^ 52) (-20) stored_modulus.canonical.positive :=
  unpack_numberOfInt stored_modulus .positive

theorem toUInt32_zero {x : Float} {sign : Sign} (unpacked : x.toModel.unpack = .zero sign) : x.toUInt32 = 0 := by
  change x.toModel.unpack.toUInt32 = 0
  rw [unpacked]
  rfl

theorem toUInt32_numberOfInt {n : Nat} (positive : 0 < n) (small : n < 2 ^ 32) :
    (numberOfInt n).toUInt32.toNat = n := by
  obtain ⟨m, e, stored⟩ := exists_stored positive (by omega)
  have unpacked := unpack_numberOfInt stored .positive
  -- The mantissa is shifted up and then down again, to where the units are.
  have shifted : m <<< e.toNat = n * 2 ^ (-e).toNat := by
    have value : ((m <<< e.toNat : Nat) : ℚ) * 2 ^ (e - e.toNat) = n * 2 ^ (0 : Int) := by
      rw [Nat.shiftLeft_eq, Canonical.scaled_shifted, stored.value, zpow_zero, mul_one]
    rw [natCast_eq_of_scaled value (by omega)]
    congr 2
    omega
  have rounds : (numberOfInt n).toModel.unpack.toInt 0 (UInt32.size - 1) = n := by
    change (numberOfInt (Sign.positive.apply n)).toModel.unpack.toInt 0 (UInt32.size - 1) = n
    have amount : (0 - (e - (e.toNat : Int))).toNat = (-e).toNat := by omega
    rw [unpacked]
    simp only [UnpackedFloat.toInt, UnpackedFloat.roundToInt, UnpackedFloat.decreaseExponent,
      UnpackedFloat.shiftToExponent, UnpackedFloat.ExtendedMantissa.ofMantissaAndAccuracy, Int.sub_zero, shifted, amount,
      shiftRight_shifted, Sign.apply]
  change (UInt32.ofNatClamp ((numberOfInt n).toModel.unpack.toInt 0 (UInt32.size - 1)).toNat).toNat = n
  rw [rounds, Int.toNat_natCast, UInt32.toNat_ofNatClamp_of_lt small]

section Remainder

variable {x : Float} {sign : Sign} {n m : Nat} {e : Int}

theorem remainder_modulus {positive : 0 < m} (unpacked : x.toModel.unpack = .finite sign m e positive)
    (value : (m : ℚ) * 2 ^ e = n) :
    ∃ (left : Nat) (scale : Int), (left : ℚ) * 2 ^ scale = (n % 2 ^ 32 : Nat) ∧
      remainder x modulus = .ofModel (.pack (UnpackedFloat.normalize .binary64 (sign.apply left) scale sign)) := by
  have front : m * 2 ^ (e - min e (-20)).toNat = n * 2 ^ (0 - min e (-20)).toNat := by
    refine natCast_eq_of_scaled ?_ (by omega)
    rw [← Nat.shiftLeft_eq, shiftLeft_scaled m (min_le_left e (-20)), value, zpow_zero, mul_one]
  have behind : 2 ^ 52 * 2 ^ (-20 - min e (-20)).toNat = 2 ^ 32 * 2 ^ (0 - min e (-20)).toNat := by
    refine natCast_eq_of_scaled ?_ (by omega)
    rw [← Nat.shiftLeft_eq, shiftLeft_scaled _ (min_le_right e (-20)), stored_modulus.value, zpow_zero, mul_one]
  refine ⟨n % 2 ^ 32 * 2 ^ (0 - min e (-20)).toNat, min e (-20), ?_, ?_⟩
  · have units := two_zpow_split (by omega : min e (-20) ≤ 0)
    rw [zpow_zero] at units
    rw [Nat.cast_mul, Nat.cast_pow, Nat.cast_two, mul_assoc, ← units, mul_one]
  · rw [← Nat.mul_mod_mul_right, ← front, ← behind]
    unfold remainder
    rw [unpacked, unpack_modulus]
    rfl

theorem normalize_zero (f : Int) : UnpackedFloat.normalize .binary64 0 f sign = .zero sign := rfl

theorem remainder_whole {positive : 0 < m} (unpacked : x.toModel.unpack = .finite sign m e positive)
    (value : (m : ℚ) * 2 ^ e = n) :
    n % 2 ^ 32 = 0 ∧ (remainder x modulus).toModel.unpack = .zero sign ∨
      0 < n % 2 ^ 32 ∧ remainder x modulus = numberOfInt (sign.apply (n % 2 ^ 32 : Nat)) := by
  obtain ⟨left, scale, same, remains⟩ := remainder_modulus unpacked value
  rcases Nat.eq_zero_or_pos (n % 2 ^ 32) with none | some'
  · have empty : left = 0 := by
      have scaled : (2 : ℚ) ^ scale ≠ 0 := zpow_ne_zero scale (by norm_num)
      rw [none, Nat.cast_zero, mul_eq_zero, or_iff_left scaled] at same
      exact_mod_cast same
    have signless : sign.apply ((0 : Nat) : Int) = 0 := by cases sign <;> rfl
    refine .inl ⟨none, ?_⟩
    rw [remains, empty, signless, normalize_zero]
    exact unpack_pack_zero sign
  · obtain ⟨m', e', stored⟩ := exists_stored some' (by omega)
    have signed : ((sign.apply left : Int) : ℚ) * 2 ^ scale = sign.apply (n % 2 ^ 32 : Nat) := by
      rw [cast_apply, mul_assoc, same, ← cast_apply]
    refine .inr ⟨some', ?_⟩
    rw [remains, normalize_stored stored signed, numberOfInt_stored stored]

theorem euclideanRemainder_zero {y : Float} (remains : (remainder x y).toModel.unpack = .zero sign) :
    (euclideanRemainder x y).toUInt32 = 0 := by
  have above : ¬ remainder x y < 0 := by
    rw [lt_zero_iff, remains]
    rintro ⟨⟩
  rw [euclideanRemainder, if_neg above, toUInt32_zero remains]

theorem euclideanRemainder_whole {r : Nat} (positive : 0 < r) (small : r < 2 ^ 32)
    (remains : remainder x modulus = numberOfInt (sign.apply r)) :
    (euclideanRemainder x modulus).toUInt32.toNat = (sign.apply r % 2 ^ 32).toNat := by
  obtain ⟨m, e, stored⟩ := exists_stored positive (by omega)
  have side := lt_zero_iff (numberOfInt (sign.apply r))
  rw [unpack_numberOfInt stored] at side
  rw [euclideanRemainder, remains]
  cases sign with
  | positive =>
    rw [if_neg (side.not.2 (by rintro ⟨⟩))]
    exact (toUInt32_numberOfInt positive small).trans (by rw [Sign.apply]; omega)
  | negative =>
    have magnitude : modulus.abs = modulus := by
      change Float.ofModel (.pack modulus.toModel.unpack.abs) = _
      rw [unpack_modulus]
      exact (numberOfInt_stored stored_modulus .positive).symm
    have complement : -(r : Int) + 2 ^ 32 = (2 ^ 32 - r : Nat) := by omega
    rw [if_pos (side.2 rfl), magnitude, modulus, Sign.apply, numberOfInt_add (by omega) (by omega) (by omega), complement,
      toUInt32_numberOfInt (by omega) (by omega)]
    omega

theorem exists_canonical_whole (canonical : Canonical m e) (positive : 0 < m * 2 ^ e.toNat / 2 ^ (-e).toNat) :
    ∃ m' e', Canonical m' e' ∧ (m' : ℚ) * 2 ^ e' = (m * 2 ^ e.toNat / 2 ^ (-e).toNat : Nat) := by
  rcases Int.le_total 0 e with above | below
  · refine ⟨m, e, canonical, ?_⟩
    have units : (-e).toNat = 0 := by omega
    rw [units, Nat.pow_zero, Nat.div_one, Nat.cast_mul, Nat.cast_pow, ← zpow_natCast, Int.toNat_of_nonneg above]
    rfl
  · have small : m * 2 ^ e.toNat / 2 ^ (-e).toNat ≤ 2 ^ 53 := by
      have bounded := canonical.bounded
      have units : e.toNat = 0 := by omega
      rw [units, Nat.pow_zero, Nat.mul_one]
      exact (Nat.div_le_self _ _).trans bounded.le
    obtain ⟨m', e', stored⟩ := exists_stored positive small
    exact ⟨m', e', stored.canonical, stored.value⟩

theorem unpack_truncated {positive : 0 < m} (unpacked : x.toModel.unpack = .finite sign m e positive) :
    wholePart x = 0 ∧ (truncated x).toModel.unpack = .zero sign ∨
      ∃ (n m' : Nat) (e' : Int) (canonical : Canonical m' e'), wholePart x = sign.apply n ∧
        (truncated x).toModel.unpack = .finite sign m' e' canonical.positive ∧ (m' : ℚ) * 2 ^ e' = n := by
  have whole : wholePart x = sign.apply (m * 2 ^ e.toNat / 2 ^ (-e).toNat : Nat) := by rw [wholePart, unpacked]; rfl
  have rounds : (truncated x).toModel.unpack =
      (Float.Model.pack (.round .binary64 sign (m * 2 ^ e.toNat / 2 ^ (-e).toNat) 0)).unpack := by
    rw [truncated, unpacked]
  rcases Nat.eq_zero_or_pos (m * 2 ^ e.toNat / 2 ^ (-e).toNat) with none | some'
  · rw [none, round_zero, unpack_pack_zero] at rounds
    rw [none] at whole
    exact .inl ⟨by cases sign <;> exact whole, rounds⟩
  · obtain ⟨m', e', canonical, value⟩ := exists_canonical_whole (canonical_unpack unpacked) some'
    rw [canonical.round_scaled (by rw [zpow_zero, mul_one, value]), canonical.unpack_pack] at rounds
    exact .inr ⟨_, m', e', canonical, whole, rounds, value⟩

end Remainder

theorem word_zero {x : Float} (whole : wholePart x = 0) : word x = 0 := by
  rw [word, whole]
  rfl

theorem castWord_zero {x : Float} {sign : Sign} (finite : x.isFinite)
    (none : (truncated x).toModel.unpack = .zero sign) : castWord x = 0 := by
  have stays : remainder (truncated x) modulus = truncated x := by rw [remainder, none, unpack_modulus]
  rw [castWord, if_pos finite, euclideanRemainder_zero (stays ▸ none)]

/-- Nothing is lost: truncating is exact, and so is taking the modulus away. -/
theorem castWord_eq (x : Float) : castWord x = word x := by
  have status : x.isFinite = x.toModel.unpack.isFinite := rfl
  cases unpacked : x.toModel.unpack with
  | notANumber | infinity sign =>
    rw [unpacked] at status
    rw [castWord, status, word_zero (by rw [wholePart, unpacked])]
    rfl
  | zero sign =>
    rw [unpacked] at status
    rw [castWord_zero status (by rw [truncated, unpacked, unpacked]), word_zero (by rw [wholePart, unpacked])]
  | finite sign m e positive =>
    rw [unpacked] at status
    rcases unpack_truncated unpacked with ⟨whole, none⟩ | ⟨n, m', e', canonical, whole, rest, value⟩
    · rw [castWord_zero status none, word_zero whole]
    · have cast : castWord x = (euclideanRemainder (truncated x) modulus).toUInt32 := if_pos status
      apply UInt32.toNat_inj.1
      rw [cast, word, whole, toNat_ofInt]
      rcases remainder_whole rest value with ⟨none, remains⟩ | ⟨some', remains⟩
      · rw [euclideanRemainder_zero remains, UInt32.toNat_zero]
        cases sign <;> simp only [Sign.apply] <;> omega
      · rw [euclideanRemainder_whole some' (by omega) remains]
        cases sign <;> simp only [Sign.apply] <;> omega

/-- What a bitwise operator makes of two words. Only the low five bits of the second one count where it shifts. -/
def bitwise? : Kind → Option (Nat → Nat → Int)
  | .and => some fun a b => twosComplement (a &&& b)
  | .or => some fun a b => twosComplement (a ||| b)
  | .xor => some fun a b => twosComplement (a ^^^ b)
  | .shiftLeft => some fun a b => twosComplement (a * 2 ^ (b % 32) % 2 ^ 32)
  | .shiftRight => some fun a b => ⌊(twosComplement a : ℚ) / 2 ^ (b % 32)⌋
  | .shiftRightZero => some fun a b => ⌊(a : ℚ) / 2 ^ (b % 32)⌋
  | _ => none

section Operators

variable {P : Type} {kind : Kind} {f : Nat → Nat → Int}

theorem floor_shifted (z : Int) (k : Nat) : ⌊(z : ℚ) / 2 ^ k⌋ = z / 2 ^ k := by
  have floors := Rat.floor_intCast_div_natCast z (2 ^ k)
  push_cast at floors
  exact floors

theorem floor_shifted_natCast (w k : Nat) : ⌊(w : ℚ) / 2 ^ k⌋ = (w / 2 ^ k : Nat) := by
  have floors := floor_shifted w k
  rw [Int.cast_natCast] at floors
  rw [floors, Int.natCast_ediv, Nat.cast_pow]
  rfl

theorem toNat_amount (w : UInt32) : (w % 32).toNat = w.toNat % 32 :=
  UInt32.toNat_mod w 32

theorem exists_wordwise (found : bitwise? kind = some f) :
    ∃ g, Value.numberOperation? kind = some (Value.wordwise g) ∧ ∀ v w : UInt32, g v w = f v.toNat w.toNat := by
  cases kind with
  | and =>
    cases found
    exact ⟨fun a b => signedWord (a &&& b), rfl, fun v w => by simp only [signedWord_eq, UInt32.toNat_and]⟩
  | or =>
    cases found
    exact ⟨fun a b => signedWord (a ||| b), rfl, fun v w => by simp only [signedWord_eq, UInt32.toNat_or]⟩
  | xor =>
    cases found
    exact ⟨fun a b => signedWord (a ^^^ b), rfl, fun v w => by simp only [signedWord_eq, UInt32.toNat_xor]⟩
  | shiftLeft =>
    cases found
    refine ⟨fun a b => signedWord (a <<< (b % 32)), rfl, fun v w => ?_⟩
    simp only [signedWord_eq, UInt32.toNat_shiftLeft, toNat_amount, Nat.mod_mod, Nat.shiftLeft_eq]
  | shiftRight =>
    cases found
    refine ⟨fun a b => signedWord a >>> (b % 32).toNat, rfl, fun v w => ?_⟩
    beta_reduce
    rw [signedWord_eq, toNat_amount, floor_shifted, Int.shiftRight_eq_div_pow, Nat.cast_pow]
    rfl
  | shiftRightZero =>
    cases found
    refine ⟨fun a b => (a >>> (b % 32)).toNat, rfl, fun v w => ?_⟩
    simp only [UInt32.toNat_shiftRight, toNat_amount, Nat.mod_mod, Nat.shiftRight_eq_div_pow, floor_shifted_natCast]
  | _ => cases found

theorem natAbs_bitwise (found : bitwise? kind = some f) {a b : Nat} (word : a < 2 ^ 32) (word' : b < 2 ^ 32) :
    (f a b).natAbs ≤ 2 ^ 53 := by
  have read {w : Nat} (bound : w < 2 ^ 32) : (twosComplement w).natAbs ≤ 2 ^ 53 := by
    have bounds := twosComplement_bounds bound
    omega
  cases kind with
  | and =>
    cases found
    exact read (Nat.and_lt_two_pow a word')
  | or =>
    cases found
    exact read (Nat.or_lt_two_pow word word')
  | xor =>
    cases found
    exact read (Nat.xor_lt_two_pow word word')
  | shiftLeft =>
    cases found
    exact read (Nat.mod_lt _ (by decide))
  | shiftRight =>
    cases found
    beta_reduce
    rw [floor_shifted]
    exact (Int.natAbs_ediv_le_natAbs _ _).trans (read word)
  | shiftRightZero =>
    cases found
    beta_reduce
    rw [floor_shifted_natCast, Int.natAbs_natCast]
    exact (Nat.div_le_self _ _).trans (word.le.trans (by decide))
  | _ => cases found

theorem binary_bitwise {operator : Token P} (found : bitwise? operator.kind = some f) (a b : Float) :
    (Value.number a).binary operator (.number b) = .ok (.number (numberOfInt (f (residue a) (residue b)))) := by
  obtain ⟨g, table, same⟩ := exists_wordwise found
  simp only [Value.binary, Value.operation?, table, Value.wordwise, Value.asNumber, same, toNat_word, Except.mapError]

theorem unary_not {operator : Token P} (complements : operator.kind = .not) (a : Float) :
    (Value.number a).unary operator = .ok (.number (numberOfInt (-signedResidue a - 1))) := by
  rw [signedResidue, ← toNat_word, ← signedWord_eq, ← signedWord_not, Value.unary, complements]
  rfl

theorem unary_not_twice {first second : Token P} (one : first.kind = .not) (two : second.kind = .not) (a : Float) :
    (Value.number a).unary first >>= Value.unary second = .ok (.number (numberOfInt (signedResidue a))) := by
  have bounds := signedResidue_bounds a
  have back : -(-signedResidue a - 1) - 1 = signedResidue a := by omega
  rw [unary_not one]
  change Value.unary second _ = _
  rw [unary_not two, signedResidue_numberOfInt (by omega) (by omega), back]

def IsWhole (outcome : Except (Fault P) Value) (z : Int) : Prop :=
  outcome = .ok (.number (numberOfInt z)) ∧ exactValue? (numberOfInt z) = some (z : ℚ)

/-- Bitwise operators work on the words of the exact values, and floating point operations give the same words. -/
theorem bitwise_exact (a b : Float) :
    (∀ (operator : Token P) (f : Nat → Nat → Int), bitwise? operator.kind = some f →
      IsWhole ((Value.number a).binary operator (.number b)) (f (residue a) (residue b))) ∧
    (∀ operator : Token P, operator.kind = .not →
      IsWhole ((Value.number a).unary operator) (-signedResidue a - 1)) ∧
    (∀ first second third : Token P, first.kind = .not → second.kind = .not → third.kind = .not →
      IsWhole ((Value.number a).unary first >>= Value.unary second) (signedResidue a) ∧
      (Value.number a).unary first >>= Value.unary second >>= Value.unary third = (Value.number a).unary third) ∧
    (castWord a).toNat = residue a := by
  have bounds := signedResidue_bounds a
  refine ⟨fun operator f found => ⟨binary_bitwise found a b, ?_⟩, fun operator complements => ⟨unary_not complements a, ?_⟩,
    fun first second third one two three => ⟨⟨unary_not_twice one two a, ?_⟩, ?_⟩, ?_⟩
  · exact exactValue?_numberOfInt (natAbs_bitwise found (residue_lt a) (residue_lt b))
  · exact exactValue?_numberOfInt (by omega)
  · exact exactValue?_numberOfInt (by omega)
  · rw [unary_not_twice one two]
    change Value.unary third _ = _
    rw [unary_not three, signedResidue_numberOfInt bounds.1 bounds.2, unary_not three]
  · rw [castWord_eq, toNat_word]

theorem bitwise_exact_fraction :
    residue (-1.5) = 2 ^ 32 - 1 ∧ residue 18014398509481996 = 12 ∧
    IsWhole ((Value.number (-1.5)).binary (⟨.shiftRightZero, none, ⟨(), ()⟩⟩ : Token Unit) (.number 18014398509481996))
      1048575 ∧
    IsWhole ((Value.number (-1.5)).unary (⟨.not, none, ⟨(), ()⟩⟩ : Token Unit)) 0 ∧
    IsWhole ((Value.number (-1.5)).unary (⟨.not, none, ⟨(), ()⟩⟩ : Token Unit) >>= Value.unary ⟨.not, none, ⟨(), ()⟩⟩)
      (-1) := by
  have one : residue (-1.5) = 2 ^ 32 - 1 := by
    have value : exactValue? (-1.5) = some (-3 / 2) := by
      change some (((-(3 * 2 ^ 51 : Nat) : Int) : ℚ) * 2 ^ (-52 : Int)) = _
      norm_num
    have whole : truncate (-3 / 2) = -1 := by norm_num [truncate]
    simp only [residue, value, whole]
    rfl
  have two : residue 18014398509481996 = 12 := by
    have value : exactValue? 18014398509481996 = some ((18014398509481996 : Int) : ℚ) := by
      change some ((((2 ^ 52 + 3 : Nat) : Int) : ℚ) * 2 ^ (2 : Int)) = _
      norm_num
    simp only [residue, value, truncate_intCast]
    rfl
  have read : signedResidue (-1.5) = -1 := by
    rw [signedResidue, one]
    rfl
  obtain ⟨shifts, complements, twice, -⟩ :=
    bitwise_exact (P := Unit) (-1.5) 18014398509481996
  have shifted := shifts ⟨.shiftRightZero, none, ⟨(), ()⟩⟩ _ rfl
  have complemented := complements ⟨.not, none, ⟨(), ()⟩⟩ rfl
  have again := (twice ⟨.not, none, ⟨(), ()⟩⟩ ⟨.not, none, ⟨(), ()⟩⟩ ⟨.not, none, ⟨(), ()⟩⟩ rfl rfl rfl).1
  have amount : ⌊((2 ^ 32 - 1 : Nat) : ℚ) / 2 ^ (12 % 32)⌋ = 1048575 := by
    rw [floor_shifted_natCast]
    rfl
  rw [one, two, amount] at shifted
  rw [read] at complemented again
  exact ⟨one, two, shifted, complemented, again⟩

end Operators

end Reckon
