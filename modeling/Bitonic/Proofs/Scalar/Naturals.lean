import Bitonic.Proofs.Scalar.Infinity
/-!
# Lane values of naturals

A natural below `2 ^ 64` is rounded to a finite number of a floating-point type, and cut down to the
largest value of an integer type that does not reach as far, so it comes to a value in range,
`inRange_ofNat`.
-/

namespace Bitonic

namespace BinaryFormat

variable {n : Nat}

theorem roundShift_le {shift top : Nat} (h : n < top * 2 ^ shift) : roundShift n shift ≤ top := by
  have hquotient : n / Nat.pow 2 shift < top := by
    rw [Nat.pow_eq]
    exact Nat.div_lt_of_lt_mul (by rwa [Nat.mul_comm])
  unfold roundShift
  dsimp only
  split <;> omega

/-- The significand stays below the next power of two or rounds up to it. -/
theorem bitsOfNat_le (f : BinaryFormat) (hn : n ≠ 0) :
    f.bitsOfNat n ≤ (n.log2 + f.bias + 1) * 2 ^ f.fractionBits := by
  have hbinade : n < 2 ^ (n.log2 + 1) := Nat.lt_log2_self
  have hsignificand : (if n.log2 ≤ f.fractionBits then n * Nat.pow 2 (f.fractionBits - n.log2)
      else roundShift n (n.log2 - f.fractionBits)) ≤ 2 * 2 ^ f.fractionBits := by
    split
    · next hsmall =>
      calc n * 2 ^ (f.fractionBits - n.log2)
          ≤ 2 ^ (n.log2 + 1) * 2 ^ (f.fractionBits - n.log2) :=
            Nat.mul_le_mul_right _ hbinade.le
        _ = 2 * 2 ^ f.fractionBits := by
            rw [← Nat.pow_add, ← Nat.pow_succ']
            congr 1
            omega
    · next hlarge =>
      apply roundShift_le
      rw [← Nat.pow_succ', ← Nat.pow_add]
      convert hbinade using 2
      omega
  unfold bitsOfNat
  rw [if_neg hn, Nat.succ_mul]
  dsimp only
  rw [Nat.pow_eq]
  omega

/-- Whatever 64 bits count is a finite number of a format with a large enough bias. -/
theorem bitsOfNat_lt_of_lt (f : BinaryFormat) (hn : n < 2 ^ 64) :
    f.bitsOfNat n < (f.bias + 65) * 2 ^ f.fractionBits := by
  have hpos := Nat.two_pow_pos f.fractionBits
  rcases Nat.eq_zero_or_pos n with rfl | hnpos
  · exact Nat.mul_pos (Nat.succ_pos _) hpos
  · have hlog : n.log2 < 64 := (Nat.log2_lt hnpos.ne').2 hn
    apply (f.bitsOfNat_le hnpos.ne').trans_lt
    exact Nat.mul_lt_mul_of_pos_right (by omega) hpos

end BinaryFormat

namespace Binary32

theorem isNumber_of_toNat_le {x : Binary32} (h : x.bits.toNat ≤ 0x7f800000) :
    Scalar.IsNumber x := by
  have hnot : x.isNaN = false := by
    rw [isNaN, decide_eq_false_iff_not, UInt32.lt_iff_toNat_lt, UInt32.toNat_and,
      show UInt32.toNat 0x7fffffff = 2 ^ 31 - 1 from rfl, Nat.and_two_pow_sub_one_eq_mod]
    exact Nat.not_lt.2 ((Nat.mod_le _ _).trans h)
  simp [Scalar.IsNumber, Scalar.eq, eq, hnot]

theorem toNat_bits_ofNat {n : Nat} (hn : n < 2 ^ 64) : (ofNat n).bits.toNat < 0x7f800000 := by
  have hbits := BinaryFormat.single.bitsOfNat_lt_of_lt hn
  have hroom : (BinaryFormat.single.bias + 65) * 2 ^ BinaryFormat.single.fractionBits ≤
      0x7f800000 := by decide
  rw [ofNat, UInt32.toNat_ofNat_of_lt' (show _ < 2 ^ 32 by omega)]
  omega

end Binary32

namespace Binary64

theorem isNumber_of_toNat_le {x : Binary64} (h : x.bits.toNat ≤ 0x7ff0000000000000) :
    Scalar.IsNumber x := by
  have hnot : x.isNaN = false := by
    rw [isNaN, decide_eq_false_iff_not, UInt64.lt_iff_toNat_lt, UInt64.toNat_and,
      show UInt64.toNat 0x7fffffffffffffff = 2 ^ 63 - 1 from rfl,
      Nat.and_two_pow_sub_one_eq_mod]
    exact Nat.not_lt.2 ((Nat.mod_le _ _).trans h)
  simp [Scalar.IsNumber, Scalar.eq, eq, hnot]

theorem toNat_bits_ofNat {n : Nat} (hn : n < 2 ^ 64) :
    (ofNat n).bits.toNat < 0x7ff0000000000000 := by
  have hbits := BinaryFormat.double.bitsOfNat_lt_of_lt hn
  have hroom : (BinaryFormat.double.bias + 65) * 2 ^ BinaryFormat.double.fractionBits ≤
      0x7ff0000000000000 := by decide
  rw [ofNat, UInt64.toNat_ofNat_of_lt' (show _ < 2 ^ 64 by omega)]
  omega

end Binary64

namespace Scalar

theorem inRange_ofNat (ty : ScalarType) {n : Nat} (hn : n < 2 ^ 64) :
    InRange (ofNat n : ty.Value) := by
  apply inRange_iff.2
  cases ty with
  | int32 | uint32 | int64 | uint64 =>
      exact ⟨beq_self_eq_true _, fun d hinfinity => by cases d <;> cases hinfinity⟩
  | float =>
      have hbits := Binary32.toNat_bits_ofNat hn
      refine ⟨Binary32.isNumber_of_toNat_le hbits.le, fun d hinfinity => ?_⟩
      have hsame : ∀ x : Binary32, some x = some (Binary32.ofNat n) →
          x.bits.toNat < 0x7f800000 := by
        intro x hx
        rwa [Option.some.inj hx]
      cases d with
      | ascending => exact absurd (hsame _ hinfinity) (by decide)
      | descending => exact absurd (hsame _ hinfinity) (by decide)
  | double =>
      have hbits := Binary64.toNat_bits_ofNat hn
      refine ⟨Binary64.isNumber_of_toNat_le hbits.le, fun d hinfinity => ?_⟩
      have hsame : ∀ x : Binary64, some x = some (Binary64.ofNat n) → x.bits.toNat <
          0x7ff0000000000000 := by
        intro x hx
        rwa [Option.some.inj hx]
      cases d with
      | ascending => exact absurd (hsame _ hinfinity) (by decide)
      | descending => exact absurd (hsame _ hinfinity) (by decide)

end Scalar

end Bitonic
