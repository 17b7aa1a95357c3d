import ImageGraph.Proofs.Rounding
import Mathlib

/-!
Doubles and their bits. A sign and a pattern make a double from which both can be told again, and the
sign is what negation changes.
-/

set_option autoImplicit false

namespace ImageGraph.Number

open Float.Model

theorem exponent_bits (bits : UInt64) :
    (@UnpackedFloat.unpackExponent Format.binary64 bits.toBitVec).toNat =
      bits.toNat / 2 ^ 52 % 2 ^ 11 := by
  rw [UnpackedFloat.unpackExponent_def, BitVec.extractLsb'_toNat, Nat.shiftRight_eq_div_pow]
  rfl

theorem mantissa_bits (bits : UInt64) :
    (@UnpackedFloat.unpackMantissa Format.binary64 bits.toBitVec).toNat =
      bits.toNat % 2 ^ 52 := by
  rw [UnpackedFloat.unpackMantissa_def, BitVec.extractLsb'_toNat, Nat.shiftRight_eq_div_pow]
  simp

theorem sign_bit (bits : UInt64) :
    (@UnpackedFloat.unpackSign Format.binary64 bits.toBitVec).toNat =
      bits.toNat / 2 ^ 63 % 2 := by
  rw [UnpackedFloat.unpackSign_def, BitVec.extractLsb'_toNat, Nat.shiftRight_eq_div_pow]
  rfl

theorem valid_of_number {bits : UInt64} (number : bits.toNat % signPlace ≤ infinityPattern) :
    Format.binary64.Valid bits.toBitVec where
  eq_packedNaN exponent mantissa := by
    have exponent := congrArg BitVec.toNat exponent
    have mantissa := mt BitVec.eq_of_toNat_eq mantissa
    rw [exponent_bits] at exponent
    rw [mantissa_bits] at mantissa
    simp [signPlace, infinityPattern] at *
    omega

theorem to_bits_of_bits {bits : UInt64} (number : bits.toNat % signPlace ≤ infinityPattern) :
    (Float.ofBits bits).toBits = bits :=
  congrArg UInt64.ofBitVec (UnpackedFloat.pack_unpack_of_valid (valid_of_number number))

/-- The same bits with the sign set are those of the negated number. -/
theorem unpack_signed {bits signed : UInt64} (unsigned : bits.toNat < signPlace)
    (sign : signed.toNat = bits.toNat + signPlace) :
    UnpackedFloat.unpack Format.binary64 signed.toBitVec =
      (UnpackedFloat.unpack Format.binary64 bits.toBitVec).neg := by
  have exponent : @UnpackedFloat.unpackExponent Format.binary64 signed.toBitVec =
      @UnpackedFloat.unpackExponent Format.binary64 bits.toBitVec := by
    apply BitVec.eq_of_toNat_eq
    rw [exponent_bits, exponent_bits, sign, signPlace]
    omega
  have mantissa : @UnpackedFloat.unpackMantissa Format.binary64 signed.toBitVec =
      @UnpackedFloat.unpackMantissa Format.binary64 bits.toBitVec := by
    apply BitVec.eq_of_toNat_eq
    rw [mantissa_bits, mantissa_bits, sign, signPlace]
    omega
  have negative : @UnpackedFloat.unpackSign Format.binary64 signed.toBitVec = 1#1 := by
    apply BitVec.eq_of_toNat_eq
    rw [sign_bit, sign]
    unfold signPlace at *
    simp
    omega
  have positive : @UnpackedFloat.unpackSign Format.binary64 bits.toBitVec = 0#1 := by
    apply BitVec.eq_of_toNat_eq
    rw [sign_bit]
    unfold signPlace at *
    simp
    omega
  have flipped : UnpackedFloat.Sign.ofBitVec 1#1 = -UnpackedFloat.Sign.ofBitVec 0#1 := rfl
  simp only [UnpackedFloat.unpack, exponent, mantissa, negative, positive, flipped]
  split
  · split <;> rfl
  · split
    · split <;> rfl
    · rfl

theorem unpack_of_bits (bits : UInt64) (number : bits.toNat % signPlace ≤ infinityPattern) :
    (Float.Model.ofBits bits).unpack = UnpackedFloat.unpack Format.binary64 bits.toBitVec := by
  have kept : (Float.Model.ofBits bits).toBits = bits := to_bits_of_bits number
  rw [Float.Model.unpack, kept]

theorem neg_of_bits {bits signed : UInt64} (number : bits.toNat ≤ infinityPattern)
    (sign : signed.toNat = bits.toNat + signPlace) :
    -(Float.ofBits bits) = Float.ofBits signed := by
  have unsigned : bits.toNat < signPlace := Nat.lt_of_le_of_lt number (by decide)
  have opened := unpack_of_bits bits (by rwa [Nat.mod_eq_of_lt unsigned])
  change Float.ofModel (Float.Model.pack (Float.Model.ofBits bits).unpack.neg) = _
  rw [opened, ← unpack_signed unsigned sign]
  rfl

theorem neg_of_signed_bits {bits signed : UInt64} (number : bits.toNat ≤ infinityPattern)
    (sign : signed.toNat = bits.toNat + signPlace) :
    -(Float.ofBits signed) = Float.ofBits bits := by
  have unsigned : bits.toNat < signPlace := Nat.lt_of_le_of_lt number (by decide)
  have opened := unpack_of_bits signed (by
    rwa [sign, Nat.add_mod_right, Nat.mod_eq_of_lt unsigned])
  have twice (unpacked : UnpackedFloat) : unpacked.neg.neg = unpacked := by
    rcases unpacked with (_ | _) | _ | (_ | _) | ⟨_ | _, _, _, _⟩ <;> rfl
  change Float.ofModel (Float.Model.pack (Float.Model.ofBits signed).unpack.neg) = _
  rw [opened, unpack_signed unsigned sign, twice]
  rfl

theorem to_nat_of_pattern (negative : Bool) {bits : Nat} (number : bits ≤ infinityPattern) :
    (bits + if negative then signPlace else 0).toUInt64.toNat =
      bits + if negative then signPlace else 0 := by
  rw [Nat.toUInt64_eq, UInt64.toNat_ofNat', Nat.mod_eq_of_lt]
  unfold infinityPattern at number
  unfold signPlace
  split <;> omega

theorem to_bits_of_pattern (negative : Bool) {bits : Nat} (number : bits ≤ infinityPattern) :
    (ofPattern negative bits).toBits.toNat = bits + if negative then signPlace else 0 := by
  have value := to_nat_of_pattern negative number
  rw [ofPattern, to_bits_of_bits, value]
  rw [value]
  unfold infinityPattern at *
  unfold signPlace
  split <;> omega

theorem pattern_of_pattern (negative : Bool) {bits : Nat} (number : bits ≤ infinityPattern) :
    pattern (ofPattern negative bits) = bits := by
  rw [pattern, to_bits_of_pattern negative number]
  unfold infinityPattern at number
  unfold signPlace
  split <;> omega

theorem is_negative_of_pattern (negative : Bool) {bits : Nat} (number : bits ≤ infinityPattern) :
    isNegative (ofPattern negative bits) = negative := by
  rw [isNegative, to_bits_of_pattern negative number]
  unfold infinityPattern at number
  unfold signPlace
  cases negative
  · simp
    omega
  · simp

theorem of_pattern_pattern (x : Float) : ofPattern (isNegative x) (pattern x) = x := by
  have size := x.toBits.toNat_lt
  have bits : pattern x + (if isNegative x then signPlace else 0) = x.toBits.toNat := by
    unfold isNegative pattern signPlace
    by_cases sign : 0x8000000000000000 ≤ x.toBits.toNat
    · simp [sign]
      omega
    · simp [sign]
      omega
  rw [ofPattern, bits, Nat.toUInt64_eq, UInt64.ofNat_toNat, Float.ofBits_toBits]

theorem neg_of_pattern {bits : Nat} (number : bits ≤ infinityPattern) :
    -(ofPattern false bits) = ofPattern true bits := by
  have unsigned := to_nat_of_pattern false number
  have signed := to_nat_of_pattern true number
  apply neg_of_bits
  · rw [unsigned]
    simpa
  · rw [unsigned, signed]
    simp

theorem neg_of_signed_pattern {bits : Nat} (number : bits ≤ infinityPattern) :
    -(ofPattern true bits) = ofPattern false bits := by
  have unsigned := to_nat_of_pattern false number
  have signed := to_nat_of_pattern true number
  apply neg_of_signed_bits
  · rw [unsigned]
    simpa
  · rw [unsigned, signed]
    simp

theorem pattern_neg {x : Float} (number : pattern x ≤ infinityPattern) : pattern (-x) = pattern x := by
  rw [← of_pattern_pattern x]
  cases isNegative x with
  | false =>
      rw [neg_of_pattern number, pattern_of_pattern true number, pattern_of_pattern false number]
  | true =>
      rw [neg_of_signed_pattern number, pattern_of_pattern false number,
        pattern_of_pattern true number]

theorem is_finite_neg {x : Float} (finite : isFinite x = true) : isFinite (-x) = true := by
  have below : pattern x < infinityPattern := of_decide_eq_true finite
  rwa [isFinite, pattern_neg (Nat.le_of_lt below)]

end ImageGraph.Number
