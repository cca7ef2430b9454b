import Bitonic.Proofs.Scalar.Naturals
/-!
# Naturals that lane values hold exactly

A natural whose bits fit into the significand is not rounded: its bits are those of the natural,
shifted up to the place of the hidden bit.  The narrowest type is the single format, which holds all
naturals up to `2 ^ 24` and not the next one.

* `BinaryFormat.holds_bitsOfNat` — a natural within the significand of a format;
* `Scalar.holds_ofNat` — a natural up to `2 ^ 24`, in all element types;
* `Scalar.not_holds_float` — the first natural that is rounded.
-/

namespace Bitonic

def BinaryNumber.IsNat (x : BinaryNumber) (n : Nat) : Prop :=
  x.significand * 2 ^ x.exponent.toNat = n * 2 ^ (-x.exponent).toNat

instance (x : BinaryNumber) (n : Nat) : Decidable (x.IsNat n) :=
  inferInstanceAs (Decidable (_ = _))

namespace BinaryFormat

/-- The bits are those of a finite number without sign, and the number is this natural. -/
def Holds (f : BinaryFormat) (bits n : Nat) : Prop :=
  bits.testBit (f.exponentBits + f.fractionBits) = false ∧
    ∃ x, f.magnitude? bits = some x ∧ x.IsNat n

variable {f : BinaryFormat} {stored fraction n : Nat}

theorem magnitude?_normal (hstored : stored ≠ 0) (hfinite : stored < 2 ^ f.exponentBits - 1)
    (hfraction : fraction < 2 ^ f.fractionBits) :
    ∃ narrow, f.magnitude? (stored * 2 ^ f.fractionBits + fraction) =
      some ⟨2 ^ f.fractionBits + fraction,
        1 - (f.bias : Int) - f.fractionBits + (stored - 1), narrow⟩ := by
  have hpos := Nat.two_pow_pos f.fractionBits
  have hrest : (stored * 2 ^ f.fractionBits + fraction) % 2 ^ f.fractionBits = fraction := by
    rw [Nat.mul_add_mod_self_right, Nat.mod_eq_of_lt hfraction]
  have hquotient : (stored * 2 ^ f.fractionBits + fraction) / 2 ^ f.fractionBits = stored := by
    rw [Nat.mul_comm, Nat.mul_add_div hpos, Nat.div_eq_of_lt hfraction, Nat.add_zero]
  have hexponent : stored % 2 ^ f.exponentBits = stored := Nat.mod_eq_of_lt (by omega)
  unfold magnitude?
  simp only [Nat.pow_eq, hrest, hquotient, hexponent]
  rw [if_neg hfinite.ne, if_neg hstored]
  exact ⟨_, rfl⟩

theorem testBit_sign (hfinite : stored < 2 ^ f.exponentBits - 1)
    (hfraction : fraction < 2 ^ f.fractionBits) :
    (stored * 2 ^ f.fractionBits + fraction).testBit (f.exponentBits + f.fractionBits) = false := by
  apply Nat.testBit_lt_two_pow
  have hle : (stored + 1) * 2 ^ f.fractionBits ≤ 2 ^ f.exponentBits * 2 ^ f.fractionBits :=
    Nat.mul_le_mul_right _ (by omega)
  rw [Nat.pow_add]
  rw [Nat.succ_mul] at hle
  omega

theorem holds_zero (hroom : 0 < 2 ^ f.exponentBits - 1) : f.Holds (f.bitsOfNat 0) 0 := by
  refine ⟨Nat.zero_testBit _, ⟨0, 1 - (f.bias : Int) - f.fractionBits, false⟩, ?_, ?_⟩
  · simp only [bitsOfNat, magnitude?, Nat.pow_eq, if_true, Nat.zero_mod, Nat.zero_div]
    rw [if_neg hroom.ne]
  · simp only [BinaryNumber.IsNat, Nat.zero_mul]

/-- A natural within the significand is shifted and not rounded. -/
theorem holds_bitsOfNat (hbias : 0 < f.bias)
    (hroom : f.fractionBits + f.bias < 2 ^ f.exponentBits - 1)
    (hn : n < 2 ^ (f.fractionBits + 1)) : f.Holds (f.bitsOfNat n) n := by
  rcases Nat.eq_zero_or_pos n with rfl | hpos
  · exact holds_zero (by omega)
  · have hlog : n.log2 ≤ f.fractionBits := Nat.lt_succ_iff.1 ((Nat.log2_lt hpos.ne').2 hn)
    have hlow : 2 ^ n.log2 ≤ n := Nat.log2_self_le hpos.ne'
    have hhigh : n < 2 ^ (n.log2 + 1) := Nat.lt_log2_self
    obtain ⟨shift, hshift⟩ := Nat.exists_eq_add_of_le hlog
    have hhidden : 2 ^ f.fractionBits = 2 ^ n.log2 * 2 ^ shift := by rw [hshift, Nat.pow_add]
    have hfrom : 2 ^ f.fractionBits ≤ n * 2 ^ shift := by
      rw [hhidden]
      exact Nat.mul_le_mul_right _ hlow
    have hbelow : n * 2 ^ shift - 2 ^ f.fractionBits < 2 ^ f.fractionBits := by
      have hlt : n * 2 ^ shift < 2 ^ (n.log2 + 1) * 2 ^ shift :=
        Nat.mul_lt_mul_of_pos_right hhigh (Nat.two_pow_pos _)
      rw [Nat.pow_succ', Nat.mul_assoc, ← hhidden] at hlt
      omega
    have hbits : f.bitsOfNat n =
        (n.log2 + f.bias) * 2 ^ f.fractionBits + (n * 2 ^ shift - 2 ^ f.fractionBits) := by
      simp only [bitsOfNat, if_neg hpos.ne', if_pos hlog, Nat.pow_eq]
      rw [hshift, Nat.add_sub_cancel_left, ← hshift]
    have hstored : n.log2 + f.bias < 2 ^ f.exponentBits - 1 := by omega
    obtain ⟨narrow, hmagnitude⟩ := magnitude?_normal (by omega) hstored hbelow
    rw [hbits]
    refine ⟨testBit_sign hstored hbelow, _, hmagnitude, ?_⟩
    -- the exponent of the number undoes the shift
    have hexponent : 1 - (f.bias : Int) - f.fractionBits + ((n.log2 + f.bias : Nat) - 1) =
        -(shift : Int) := by
      omega
    simp only [BinaryNumber.IsNat]
    rw [hexponent, Nat.add_sub_cancel' hfrom]
    simp

end BinaryFormat

namespace Scalar

def Holds : (ty : ScalarType) → ty.Value → Nat → Prop
  | .int32, a, n => Int32.toInt a = n
  | .uint32, a, n => UInt32.toNat a = n
  | .float, a, n => BinaryFormat.single.Holds (Binary32.bits a).toNat n
  | .int64, a, n => Int64.toInt a = n
  | .uint64, a, n => UInt64.toNat a = n
  | .double, a, n => BinaryFormat.double.Holds (Binary64.bits a).toNat n

theorem holds_float_ofNat {n : Nat} (hn : n ≤ 2 ^ 24) : Holds .float (ofNat n) n := by
  have hbits := BinaryFormat.single.bitsOfNat_lt_of_lt (show n < 2 ^ 64 by omega)
  have hroom : (BinaryFormat.single.bias + 65) * 2 ^ BinaryFormat.single.fractionBits < 2 ^ 32 := by
    decide
  have hsame : (Binary32.ofNat n).bits.toNat = BinaryFormat.single.bitsOfNat n :=
    UInt32.toNat_ofNat_of_lt' (hbits.trans hroom)
  show BinaryFormat.single.Holds (Binary32.ofNat n).bits.toNat n
  rw [hsame]
  rcases hn.lt_or_eq with hlt | rfl
  · exact BinaryFormat.holds_bitsOfNat (by decide) (by decide) hlt
  · exact ⟨by decide, _, rfl, by decide⟩

theorem holds_double_ofNat {n : Nat} (hn : n ≤ 2 ^ 24) : Holds .double (ofNat n) n := by
  have hbits := BinaryFormat.double.bitsOfNat_lt_of_lt (show n < 2 ^ 64 by omega)
  have hroom : (BinaryFormat.double.bias + 65) * 2 ^ BinaryFormat.double.fractionBits < 2 ^ 64 := by
    decide
  have hsame : (Binary64.ofNat n).bits.toNat = BinaryFormat.double.bitsOfNat n :=
    UInt64.toNat_ofNat_of_lt' (hbits.trans hroom)
  show BinaryFormat.double.Holds (Binary64.ofNat n).bits.toNat n
  rw [hsame]
  exact BinaryFormat.holds_bitsOfNat (by decide) (by decide) (hn.trans_lt (by decide))

theorem holds_ofNat (ty : ScalarType) {n : Nat} (hn : n ≤ 2 ^ 24) : Holds ty (ofNat n) n := by
  cases ty with
  | int32 =>
      show (Int32.ofNat (min n 2147483647)).toInt = n
      rw [Nat.min_eq_left (by omega), Int32.toInt_ofNat_of_lt (by omega)]
  | uint32 =>
      show (UInt32.ofNat (min n 4294967295)).toNat = n
      rw [Nat.min_eq_left (by omega), UInt32.toNat_ofNat_of_lt' (hn.trans_lt (by decide))]
  | float => exact holds_float_ofNat hn
  | int64 =>
      show (Int64.ofNat (min n 9223372036854775807)).toInt = n
      rw [Nat.min_eq_left (by omega), Int64.toInt_ofNat_of_lt (by omega)]
  | uint64 =>
      show (UInt64.ofNat (min n 18446744073709551615)).toNat = n
      rw [Nat.min_eq_left (by omega), UInt64.toNat_ofNat_of_lt' (hn.trans_lt (by decide))]
  | double => exact holds_double_ofNat hn

/-- The next natural is halfway between two numbers of the single format. -/
theorem not_holds_float : ¬ Holds .float (ofNat (2 ^ 24 + 1)) (2 ^ 24 + 1) := by
  rintro ⟨_, x, hx, hnat⟩
  cases hx
  exact absurd hnat (by decide)

end Scalar

end Bitonic
