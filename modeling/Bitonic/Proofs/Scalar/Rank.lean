import Bitonic.Proofs.Wires.Exchange
import Bitonic.Scalar.Value
/-!
# Ranks of lane values

The rank of a value is its place in numeric order.  Values that compare equal share a rank, as the
two zeros of a floating-point type do, and a value that is no number has a rank without meaning.
Networks only compare values, so what they do can be read off the ranks.
-/

namespace Bitonic

namespace Scalar

variable {α : Type} [Scalar α]

/-- Whether a value is a number: what is none does not even equal itself. -/
def IsNumber (a : α) : Prop := eq a a = true

instance (a : α) : Decidable (IsNumber a) := inferInstanceAs (Decidable (eq a a = true))

end Scalar

/-- Types whose numbers are ordered by their ranks. -/
class Ranked (α : Type) [Scalar α] where
  rank : α → Int
  lt_iff_rank_lt : ∀ {a b : α}, Scalar.IsNumber a → Scalar.IsNumber b →
    (Scalar.lt a b = true ↔ rank a < rank b)
  eq_iff_rank_eq : ∀ {a b : α},
    Scalar.eq a b = true ↔ Scalar.IsNumber a ∧ Scalar.IsNumber b ∧ rank a = rank b
  isNumber_largest : Scalar.IsNumber (Scalar.largest : α)
  isNumber_smallest : Scalar.IsNumber (Scalar.smallest : α)

namespace Ranked

instance : Ranked Int32 where
  rank a := a.toInt
  lt_iff_rank_lt _ _ := by simp [Scalar.lt, Int32.lt_iff_toInt_lt]
  eq_iff_rank_eq := by simp [Scalar.IsNumber, Scalar.eq, Int32.toInt_inj]
  isNumber_largest := by decide
  isNumber_smallest := by decide

instance : Ranked UInt32 where
  rank a := a.toNat
  lt_iff_rank_lt _ _ := by simp [Scalar.lt, UInt32.lt_iff_toNat_lt]
  eq_iff_rank_eq := by
    simp only [Scalar.IsNumber, Scalar.eq, beq_iff_eq, ← UInt32.toNat_inj, Int.ofNat_inj, true_and,
      implies_true]
  isNumber_largest := by decide
  isNumber_smallest := by decide

instance : Ranked Int64 where
  rank a := a.toInt
  lt_iff_rank_lt _ _ := by simp [Scalar.lt, Int64.lt_iff_toInt_lt]
  eq_iff_rank_eq := by simp [Scalar.IsNumber, Scalar.eq, Int64.toInt_inj]
  isNumber_largest := by decide
  isNumber_smallest := by decide

instance : Ranked UInt64 where
  rank a := a.toNat
  lt_iff_rank_lt _ _ := by simp [Scalar.lt, UInt64.lt_iff_toNat_lt]
  eq_iff_rank_eq := by
    simp only [Scalar.IsNumber, Scalar.eq, beq_iff_eq, ← UInt64.toNat_inj, Int.ofNat_inj, true_and,
      implies_true]
  isNumber_largest := by decide
  isNumber_smallest := by decide

instance : Ranked Binary32 where
  rank a := a.rank.toNat
  lt_iff_rank_lt := by
    simp only [Scalar.IsNumber, Scalar.eq, Scalar.lt, Binary32.eq, Binary32.lt]
    simp +contextual [UInt32.lt_iff_toNat_lt]
  eq_iff_rank_eq := by
    simp only [Scalar.IsNumber, Scalar.eq, Binary32.eq, Bool.and_eq_true, Bool.not_eq_true',
      beq_iff_eq, ← UInt32.toNat_inj, Int.ofNat_inj, and_assoc, and_self, and_true, implies_true]
  isNumber_largest := by decide
  isNumber_smallest := by decide

instance : Ranked Binary64 where
  rank a := a.rank.toNat
  lt_iff_rank_lt := by
    simp only [Scalar.IsNumber, Scalar.eq, Scalar.lt, Binary64.eq, Binary64.lt]
    simp +contextual [UInt64.lt_iff_toNat_lt]
  eq_iff_rank_eq := by
    simp only [Scalar.IsNumber, Scalar.eq, Binary64.eq, Bool.and_eq_true, Bool.not_eq_true',
      beq_iff_eq, ← UInt64.toNat_inj, Int.ofNat_inj, and_assoc, and_self, and_true, implies_true]
  isNumber_largest := by decide
  isNumber_smallest := by decide

instance (ty : ScalarType) : Ranked ty.Value :=
  match ty with
  | .int32 => inferInstanceAs (Ranked Int32)
  | .uint32 => inferInstanceAs (Ranked UInt32)
  | .float => inferInstanceAs (Ranked Binary32)
  | .int64 => inferInstanceAs (Ranked Int64)
  | .uint64 => inferInstanceAs (Ranked UInt64)
  | .double => inferInstanceAs (Ranked Binary64)

end Ranked

namespace Scalar

variable {α : Type} [Scalar α] [Ranked α]

open Ranked (rank)

theorem noLater_iff_before {d : Direction} {a b : α} (ha : IsNumber a) (hb : IsNumber b) :
    noLater d a b = true ↔ d.Before (rank a) (rank b) := by
  have hba := Ranked.lt_iff_rank_lt hb ha
  have hab := Ranked.lt_iff_rank_lt ha hb
  cases d
  · simp only [noLater, Direction.Before, Bool.not_eq_true', Bool.eq_false_iff, ne_eq, hba]
    omega
  · simp only [noLater, Direction.Before, Bool.not_eq_true', Bool.eq_false_iff, ne_eq, hab]
    omega

theorem isNumber_sentinel (s : Sentinel) : IsNumber (sentinel s : α) := by
  cases s
  · exact Ranked.isNumber_largest
  · exact Ranked.isNumber_smallest

end Scalar

end Bitonic
