/-!
# Binary floating point

Values of the two binary interchange formats as bits.  They are only moved, compared, made from
naturals and written down; no arithmetic is done on them.
-/

namespace Bitonic

/-- The layout of a format: a sign bit, the exponent and the fraction, from the high end. -/
structure BinaryFormat where
  exponentBits : Nat
  fractionBits : Nat

namespace BinaryFormat

def single : BinaryFormat := ⟨8, 23⟩

def double : BinaryFormat := ⟨11, 52⟩

def bias (f : BinaryFormat) : Nat := Nat.pow 2 (f.exponentBits - 1) - 1

/-- `n / 2 ^ shift`, rounded to the nearest number and a tie to the even one. -/
def roundShift (n shift : Nat) : Nat :=
  let unit := Nat.pow 2 shift
  let quotient := n / unit
  let rest := 2 * (n % unit)
  if unit < rest || (rest == unit && quotient % 2 == 1) then quotient + 1 else quotient

/-- The bits of the number nearest to `n`.  A significand that rounds up to the next power of two
carries into the exponent. -/
def bitsOfNat (f : BinaryFormat) (n : Nat) : Nat :=
  if n = 0 then 0
  else
    let e := n.log2
    let hidden := Nat.pow 2 f.fractionBits
    let significand :=
      if e ≤ f.fractionBits then n * Nat.pow 2 (f.fractionBits - e)
      else roundShift n (e - f.fractionBits)
    (e + f.bias) * hidden + (significand - hidden)

end BinaryFormat

structure Binary32 where
  bits : UInt32
  deriving DecidableEq

namespace Binary32

def isNaN (x : Binary32) : Bool := 0x7f800000 < (x.bits &&& 0x7fffffff)

/-- The position of the number in numeric order; the two zeros share one. -/
def rank (x : Binary32) : UInt32 :=
  if x.bits < 0x80000000 then x.bits + 0x80000000 else 0 - x.bits

def lt (x y : Binary32) : Bool := !x.isNaN && !y.isNaN && x.rank < y.rank

def eq (x y : Binary32) : Bool := !x.isNaN && !y.isNaN && x.rank == y.rank

def largest : Binary32 := ⟨0x7f7fffff⟩

def smallest : Binary32 := ⟨0xff7fffff⟩

def ofNat (n : Nat) : Binary32 := ⟨UInt32.ofNat (BinaryFormat.single.bitsOfNat n)⟩

end Binary32

structure Binary64 where
  bits : UInt64
  deriving DecidableEq

namespace Binary64

def isNaN (x : Binary64) : Bool := 0x7ff0000000000000 < (x.bits &&& 0x7fffffffffffffff)

def rank (x : Binary64) : UInt64 :=
  if x.bits < 0x8000000000000000 then x.bits + 0x8000000000000000 else 0 - x.bits

def lt (x y : Binary64) : Bool := !x.isNaN && !y.isNaN && x.rank < y.rank

def eq (x y : Binary64) : Bool := !x.isNaN && !y.isNaN && x.rank == y.rank

def largest : Binary64 := ⟨0x7fefffffffffffff⟩

def smallest : Binary64 := ⟨0xffefffffffffffff⟩

def ofNat (n : Nat) : Binary64 := ⟨UInt64.ofNat (BinaryFormat.double.bitsOfNat n)⟩

end Binary64

end Bitonic
