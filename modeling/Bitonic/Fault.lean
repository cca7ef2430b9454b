/-!
# Faults

A fault is a computation that has no answer: a count that leaves 64 bits, a division by zero, a
lane that does not exist, a list that no memory holds.  It is kept apart from the errors that a
caller can be told about, because no routine of the library recovers from one.
-/

namespace Bitonic

inductive Fault where
  | overflow
  | divisionByZero
  | shiftTooWide
  | indexOutOfRange
  | lengthMismatch
  | listTooLong
  | laneCountNotPowerOfTwo
  | xorDistanceOutOfRange (distance lanes : Nat)
  | mirrorBlockOutOfRange (block lanes : Nat)
  deriving DecidableEq

/-- Computations that may run into a fault and fail in no other way. -/
abbrev Checked := Except Fault

namespace Fault

def precondition? : Fault → Option String
  | laneCountNotPowerOfTwo => some "lane count must be a power of two"
  | xorDistanceOutOfRange distance lanes =>
      some s!"xor distance {distance} out of range for {lanes} lanes"
  | mirrorBlockOutOfRange block lanes =>
      some s!"mirror block {block} out of range for {lanes} lanes"
  | _ => none

end Fault

end Bitonic
