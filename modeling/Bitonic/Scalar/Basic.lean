/-!
# Element types

The six numeric types that lanes can hold, their sizes and their names.
-/

namespace Bitonic

inductive ScalarType where
  | int32
  | uint32
  | float
  | int64
  | uint64
  | double
  deriving DecidableEq

namespace ScalarType

def all : List ScalarType := [int32, uint32, float, int64, uint64, double]

def byteSize : ScalarType → Nat
  | int32 | uint32 | float => 4
  | int64 | uint64 | double => 8

def name : ScalarType → String
  | int32 => "int32"
  | uint32 => "uint32"
  | float => "float"
  | int64 => "int64"
  | uint64 => "uint64"
  | double => "double"

/-- Kind and bits in three characters, as in the written form of a step. -/
def code : ScalarType → String
  | int32 => "I32"
  | uint32 => "U32"
  | float => "F32"
  | int64 => "I64"
  | uint64 => "U64"
  | double => "F64"

def ofLowerName? : String → Option ScalarType
  | "int32" | "i32" => some int32
  | "uint32" | "u32" => some uint32
  | "float" | "f32" => some float
  | "int64" | "i64" => some int64
  | "uint64" | "u64" => some uint64
  | "double" | "f64" => some double
  | _ => none

end ScalarType

end Bitonic
