import Bitonic.Proofs.Scalar.Arranged
import Mathlib.Algebra.Group.Nat.Defs
/-!
# Values past the sentinels

The sentinels of an integer type are its outermost values.  Those of a floating-point type are its
outermost finite numbers, so exactly one number comes after the sentinel of a direction, the
infinity at that end: `noLater_sentinel_eq_false_iff`.  In range are therefore all integers and all
finite numbers, `inRange_iff`.
-/

namespace Bitonic

/-- The infinity that comes last in a direction, if the type has infinities. -/
def ScalarType.lastInfinity? : (ty : ScalarType) → Direction → Option ty.Value
  | .float, .ascending => some (⟨0x7f800000⟩ : Binary32)
  | .float, .descending => some (⟨0xff800000⟩ : Binary32)
  | .double, .ascending => some (⟨0x7ff0000000000000⟩ : Binary64)
  | .double, .descending => some (⟨0xfff0000000000000⟩ : Binary64)
  | _, _ => none

namespace BinaryFormat

/-- The place in numeric order of the number with some bits, where the sign bit stands for `half`. -/
def placeOf (half bits : Nat) : Nat := if bits < half then bits + half else 2 * half - bits

variable {half infinity bits : Nat}

theorem placeOf_largest_lt_iff (hbits : bits < 2 * half) (hnumber : bits % half ≤ infinity)
    (hpos : 0 < infinity) (hlt : infinity < half) :
    placeOf half (infinity - 1) < placeOf half bits ↔ bits = infinity := by
  unfold placeOf
  rw [if_pos (show infinity - 1 < half by omega)]
  by_cases hsign : bits < half
  · rw [Nat.mod_eq_of_lt hsign] at hnumber
    rw [if_pos hsign]
    omega
  · rw [if_neg hsign]
    omega

theorem placeOf_lt_smallest_iff (hbits : bits < 2 * half) (hnumber : bits % half ≤ infinity)
    (hpos : 0 < infinity) (hlt : infinity < half) :
    placeOf half bits < placeOf half (half + infinity - 1) ↔ bits = half + infinity := by
  unfold placeOf
  rw [if_neg (show ¬ half + infinity - 1 < half by omega)]
  by_cases hsign : bits < half
  · rw [if_pos hsign]
    omega
  · rw [Nat.mod_eq_sub_mod (by omega), Nat.mod_eq_of_lt (by omega)] at hnumber
    rw [if_neg hsign]
    omega

end BinaryFormat

namespace Binary32

theorem toNat_rank (x : Binary32) : x.rank.toNat = BinaryFormat.placeOf (2 ^ 31) x.bits.toNat := by
  have hlt := x.bits.toNat_lt
  have hsign : x.bits < 0x80000000 ↔ x.bits.toNat < 2 ^ 31 := UInt32.lt_iff_toNat_lt
  unfold rank BinaryFormat.placeOf
  simp only [hsign]
  split
  · rw [UInt32.toNat_add]
    exact Nat.mod_eq_of_lt (show x.bits.toNat + 2 ^ 31 < 2 ^ 32 by omega)
  · rw [UInt32.toNat_sub]
    exact Nat.mod_eq_of_lt (show 2 ^ 32 - x.bits.toNat + 0 < 2 ^ 32 by omega)

theorem mod_le_of_isNumber {x : Binary32} (h : Scalar.IsNumber x) :
    x.bits.toNat % 2 ^ 31 ≤ 0x7f800000 := by
  have hnot : x.isNaN = false := by
    rw [Scalar.IsNumber] at h
    simpa [Scalar.eq, eq] using h
  rw [isNaN, decide_eq_false_iff_not, UInt32.lt_iff_toNat_lt, UInt32.toNat_and,
    show UInt32.toNat 0x7fffffff = 2 ^ 31 - 1 from rfl, Nat.and_two_pow_sub_one_eq_mod] at hnot
  exact Nat.le_of_not_lt hnot

end Binary32

namespace Binary64

theorem toNat_rank (x : Binary64) : x.rank.toNat = BinaryFormat.placeOf (2 ^ 63) x.bits.toNat := by
  have hlt := x.bits.toNat_lt
  have hsign : x.bits < 0x8000000000000000 ↔ x.bits.toNat < 2 ^ 63 := UInt64.lt_iff_toNat_lt
  unfold rank BinaryFormat.placeOf
  simp only [hsign]
  split
  · rw [UInt64.toNat_add]
    exact Nat.mod_eq_of_lt (show x.bits.toNat + 2 ^ 63 < 2 ^ 64 by omega)
  · rw [UInt64.toNat_sub]
    exact Nat.mod_eq_of_lt (show 2 ^ 64 - x.bits.toNat + 0 < 2 ^ 64 by omega)

theorem mod_le_of_isNumber {x : Binary64} (h : Scalar.IsNumber x) :
    x.bits.toNat % 2 ^ 63 ≤ 0x7ff0000000000000 := by
  have hnot : x.isNaN = false := by
    rw [Scalar.IsNumber] at h
    simpa [Scalar.eq, eq] using h
  rw [isNaN, decide_eq_false_iff_not, UInt64.lt_iff_toNat_lt, UInt64.toNat_and,
    show UInt64.toNat 0x7fffffffffffffff = 2 ^ 63 - 1 from rfl,
    Nat.and_two_pow_sub_one_eq_mod] at hnot
  exact Nat.le_of_not_lt hnot

end Binary64

namespace Scalar

open Ranked (rank)

section Ranks

variable {α : Type} [Scalar α] [Ranked α] {d : Direction} {a b : α}

theorem noLater_eq_false_iff (ha : IsNumber a) (hb : IsNumber b) :
    noLater d a b = false ↔ ¬ d.Before (rank a) (rank b) := by
  rw [← Bool.not_eq_true, noLater_iff_before ha hb]

theorem noLater_sentinel_of_rank (ha : IsNumber a) (hlow : rank (smallest : α) ≤ rank a)
    (hhigh : rank a ≤ rank (largest : α)) (d : Direction) :
    noLater d a (sentinel d.sentinel) = true := by
  apply (noLater_iff_before ha (isNumber_sentinel d.sentinel)).2
  cases d
  · exact hhigh
  · exact hlow

end Ranks

theorem noLater_sentinel_binary32 (d : Direction) {a : Binary32} (ha : IsNumber a) :
    noLater d a (sentinel d.sentinel) = false ↔ ScalarType.float.lastInfinity? d = some a := by
  have hbits := a.bits.toNat_lt
  have hnumber := Binary32.mod_le_of_isNumber ha
  have hinfinity : ∀ bits : UInt32, some (⟨bits⟩ : Binary32) = some a ↔
      a.bits.toNat = bits.toNat := by
    intro bits
    rw [UInt32.toNat_inj, Option.some.injEq, eq_comm, Binary32.mk.injEq]
  rw [noLater_eq_false_iff ha (isNumber_sentinel d.sentinel)]
  cases d with
  | ascending =>
      have hiff := BinaryFormat.placeOf_largest_lt_iff hbits hnumber (by decide) (by decide)
      rw [← Binary32.toNat_rank] at hiff
      exact (Int.not_le.trans Int.ofNat_lt).trans (hiff.trans (hinfinity 0x7f800000).symm)
  | descending =>
      have hiff := BinaryFormat.placeOf_lt_smallest_iff hbits hnumber (by decide) (by decide)
      rw [← Binary32.toNat_rank] at hiff
      exact (Int.not_le.trans Int.ofNat_lt).trans (hiff.trans (hinfinity 0xff800000).symm)

theorem noLater_sentinel_binary64 (d : Direction) {a : Binary64} (ha : IsNumber a) :
    noLater d a (sentinel d.sentinel) = false ↔ ScalarType.double.lastInfinity? d = some a := by
  have hbits := a.bits.toNat_lt
  have hnumber := Binary64.mod_le_of_isNumber ha
  have hinfinity : ∀ bits : UInt64, some (⟨bits⟩ : Binary64) = some a ↔
      a.bits.toNat = bits.toNat := by
    intro bits
    rw [UInt64.toNat_inj, Option.some.injEq, eq_comm, Binary64.mk.injEq]
  rw [noLater_eq_false_iff ha (isNumber_sentinel d.sentinel)]
  cases d with
  | ascending =>
      have hiff := BinaryFormat.placeOf_largest_lt_iff hbits hnumber (by decide) (by decide)
      rw [← Binary64.toNat_rank] at hiff
      exact (Int.not_le.trans Int.ofNat_lt).trans (hiff.trans (hinfinity 0x7ff0000000000000).symm)
  | descending =>
      have hiff := BinaryFormat.placeOf_lt_smallest_iff hbits hnumber (by decide) (by decide)
      rw [← Binary64.toNat_rank] at hiff
      exact (Int.not_le.trans Int.ofNat_lt).trans (hiff.trans (hinfinity 0xfff0000000000000).symm)

theorem noLater_sentinel_eq_false_iff {ty : ScalarType} {a : ty.Value} (ha : IsNumber a)
    (d : Direction) :
    noLater d a (sentinel d.sentinel) = false ↔ ty.lastInfinity? d = some a := by
  -- an integer is never past its sentinels
  have hinteger : noLater d a (sentinel d.sentinel) = true → ty.lastInfinity? d = none →
      (noLater d a (sentinel d.sentinel) = false ↔ ty.lastInfinity? d = some a) := by
    intro h hnone
    rw [h, hnone]
    exact ⟨Bool.noConfusion, fun hsome => nomatch hsome⟩
  cases ty with
  | int32 =>
      have hhigh := Int32.toInt_lt a
      exact hinteger (noLater_sentinel_of_rank (α := Int32) ha (Int32.le_toInt a)
        (Int.le_of_lt_add_one hhigh) d) (by cases d <;> rfl)
  | uint32 =>
      have hhigh := UInt32.toNat_lt a
      exact hinteger (noLater_sentinel_of_rank (α := UInt32) ha (Int.natCast_nonneg _)
        (Int.ofNat_le.2 (Nat.le_of_lt_succ hhigh)) d) (by cases d <;> rfl)
  | float => exact noLater_sentinel_binary32 d ha
  | int64 =>
      have hhigh := Int64.toInt_lt a
      exact hinteger (noLater_sentinel_of_rank (α := Int64) ha (Int64.le_toInt a)
        (Int.le_of_lt_add_one hhigh) d) (by cases d <;> rfl)
  | uint64 =>
      have hhigh := UInt64.toNat_lt a
      exact hinteger (noLater_sentinel_of_rank (α := UInt64) ha (Int.natCast_nonneg _)
        (Int.ofNat_le.2 (Nat.le_of_lt_succ hhigh)) d) (by cases d <;> rfl)
  | double => exact noLater_sentinel_binary64 d ha

theorem inRange_iff {ty : ScalarType} {a : ty.Value} :
    InRange a ↔ IsNumber a ∧ ∀ d, ty.lastInfinity? d ≠ some a := by
  constructor
  · rintro ⟨hnum, hlow, hhigh⟩
    refine ⟨hnum, fun d hinfinity => ?_⟩
    have hpast := (noLater_sentinel_eq_false_iff hnum d).2 hinfinity
    cases d
    · exact Bool.noConfusion (hhigh.symm.trans hpast)
    · exact Bool.noConfusion (hlow.symm.trans hpast)
  · rintro ⟨hnum, hfinite⟩
    have hnoLater : ∀ d : Direction, noLater d a (sentinel d.sentinel) = true := by
      intro d
      rw [← Bool.not_eq_false]
      exact mt (noLater_sentinel_eq_false_iff hnum d).1 (hfinite d)
    exact ⟨hnum, hnoLater .descending, hnoLater .ascending⟩

end Scalar

end Bitonic
