/-!
# Sort directions and sentinels
-/

namespace Bitonic

/-- The value that fills residual lanes. -/
inductive Sentinel where
  /-- The largest value of the element type. -/
  | max
  /-- The smallest value of the element type. -/
  | min
  deriving DecidableEq

namespace Sentinel

def name : Sentinel → String
  | max => "max"
  | min => "min"

/-- The name as one word, as in the written form of a step. -/
def code : Sentinel → String
  | max => "Max"
  | min => "Min"

end Sentinel

inductive Direction where
  | ascending
  | descending
  deriving DecidableEq

namespace Direction

def both : List Direction := [ascending, descending]

def reverse : Direction → Direction
  | ascending => descending
  | descending => ascending

def name : Direction → String
  | ascending => "ascending"
  | descending => "descending"

/-- The sentinel that comes last in this direction. -/
def sentinel : Direction → Sentinel
  | ascending => .max
  | descending => .min

@[simp] theorem reverse_reverse (d : Direction) : d.reverse.reverse = d := by cases d <;> rfl

end Direction

end Bitonic
