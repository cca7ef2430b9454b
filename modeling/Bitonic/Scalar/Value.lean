import Bitonic.Direction
import Bitonic.Scalar.Basic
import Bitonic.Number.Shortest
/-!
# Lane values

The operations that networks need on the values of a lane: the numeric order, the sentinels and a
few conversions.  Every element type has its type of values.
-/

namespace Bitonic

/-- Types whose values lanes can hold. -/
class Scalar (α : Type) where
  element : ScalarType
  /-- The numeric order; a value that is no number is below nothing and above nothing. -/
  lt : α → α → Bool
  /-- Numeric equality. -/
  eq : α → α → Bool
  /-- The largest value; of floating-point types the largest finite one. -/
  largest : α
  /-- The smallest value; of floating-point types the smallest finite one. -/
  smallest : α
  /-- The value nearest to a natural number. -/
  ofNat : Nat → α
  text : α → String

namespace Scalar

instance int32 : Scalar Int32 where
  element := .int32
  lt a b := a < b
  eq a b := a == b
  largest := 2147483647
  smallest := -2147483648
  ofNat n := Int32.ofNat (min n 2147483647)
  text a := Int.repr a.toInt

instance uint32 : Scalar UInt32 where
  element := .uint32
  lt a b := a < b
  eq a b := a == b
  largest := 4294967295
  smallest := 0
  ofNat n := UInt32.ofNat (min n 4294967295)
  text a := Nat.repr a.toNat

instance float : Scalar Binary32 where
  element := .float
  lt := Binary32.lt
  eq := Binary32.eq
  largest := Binary32.largest
  smallest := Binary32.smallest
  ofNat := Binary32.ofNat
  text := Binary32.text

instance int64 : Scalar Int64 where
  element := .int64
  lt a b := a < b
  eq a b := a == b
  largest := 9223372036854775807
  smallest := -9223372036854775808
  ofNat n := Int64.ofNat (min n 9223372036854775807)
  text a := Int.repr a.toInt

instance uint64 : Scalar UInt64 where
  element := .uint64
  lt a b := a < b
  eq a b := a == b
  largest := 18446744073709551615
  smallest := 0
  ofNat n := UInt64.ofNat (min n 18446744073709551615)
  text a := Nat.repr a.toNat

instance double : Scalar Binary64 where
  element := .double
  lt := Binary64.lt
  eq := Binary64.eq
  largest := Binary64.largest
  smallest := Binary64.smallest
  ofNat := Binary64.ofNat
  text := Binary64.text

variable {α : Type} [Scalar α]

def noLater (direction : Direction) (a b : α) : Bool :=
  match direction with
  | .ascending => !lt b a
  | .descending => !lt a b

def sentinel : Sentinel → α
  | .max => largest
  | .min => smallest

/-- The values in a direction; those that compare equal keep their order. -/
def sorted (direction : Direction) (values : List α) : List α :=
  values.mergeSort (noLater direction)

def eqLists : List α → List α → Bool
  | [], [] => true
  | a :: as, b :: bs => eq a b && eqLists as bs
  | _, _ => false

end Scalar

namespace ScalarType

abbrev Value : ScalarType → Type
  | int32 => Int32
  | uint32 => UInt32
  | float => Binary32
  | int64 => Int64
  | uint64 => UInt64
  | double => Binary64

instance (ty : ScalarType) : Scalar ty.Value :=
  match ty with
  | int32 => Scalar.int32
  | uint32 => Scalar.uint32
  | float => Scalar.float
  | int64 => Scalar.int64
  | uint64 => Scalar.uint64
  | double => Scalar.double

theorem element_value (ty : ScalarType) : Scalar.element ty.Value = ty := by
  cases ty <;> rfl

end ScalarType

end Bitonic
