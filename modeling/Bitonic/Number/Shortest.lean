import Bitonic.Number.Binary
/-!
# Shortest decimal text

The text of a floating-point number has the fewest digits that read back as the number, and of those
the nearest to it.  The reals that read back as `m * 2 ^ q` are an interval around it, ends included
exactly when `m` is even, so everything is decided by comparing naturals.
-/

namespace Bitonic

/-- The number `significand * 2 ^ exponent`.  At a power of two the gap below is half of the one
above. -/
structure BinaryNumber where
  significand : Nat
  exponent : Int
  narrowBelow : Bool

/-- The number `digits * 10 ^ exponent`. -/
structure DecimalNumber where
  digits : Nat
  exponent : Int
  deriving DecidableEq

namespace BinaryNumber

/-- The number in quarters of its unit, over a denominator that makes it whole. -/
def quarters (x : BinaryNumber) (count : Nat) : Nat := count * Nat.pow 2 (x.exponent - 2).toNat

def denominator (x : BinaryNumber) : Nat := Nat.pow 2 (2 - x.exponent).toNat

def compareQuarters (x : BinaryNumber) (d : DecimalNumber) (count : Nat) : Ordering :=
  compare (d.digits * Nat.pow 10 d.exponent.toNat * x.denominator)
    (x.quarters count * Nat.pow 10 (-d.exponent).toNat)

def readsBack (x : BinaryNumber) (d : DecimalNumber) : Bool :=
  let m := 4 * x.significand
  let low := x.compareQuarters d (if x.narrowBelow then m - 1 else m - 2)
  let high := x.compareQuarters d (m + 2)
  (low == .gt && high == .lt) ||
    (x.significand % 2 == 0 && (low == .eq || high == .eq))

/-- The least `k` below which the number lies as `10 ^ k`, searched from `k` up. -/
def scaleFrom (x : BinaryNumber) (k : Int) : Nat → Int
  | 0 => k
  | fuel + 1 =>
    if x.compareQuarters ⟨1, k⟩ (4 * x.significand) == .gt then k else x.scaleFrom (k + 1) fuel

def scale (x : BinaryNumber) : Int :=
  let log2 : Int := x.significand.log2 + x.exponent
  x.scaleFrom (log2 * 30103 / 100000 - 1) 4

/-- The grid point of `10 ^ exponent` at or below the number. -/
def below (x : BinaryNumber) (exponent : Int) : DecimalNumber :=
  ⟨x.quarters (4 * x.significand) * Nat.pow 10 (-exponent).toNat /
    (x.denominator * Nat.pow 10 exponent.toNat), exponent⟩

/-- The one of two neighbouring grid points that is nearer to the number, the upper one on a tie. -/
def nearer (x : BinaryNumber) (low high : DecimalNumber) : DecimalNumber :=
  if x.compareQuarters ⟨low.digits + high.digits, low.exponent⟩ (8 * x.significand) == .gt then low
  else high

/-- The decimal of `count` digits that reads back, if there is one. -/
def withDigits? (x : BinaryNumber) (scale : Int) (count : Nat) : Option DecimalNumber :=
  let low := x.below (scale - count)
  let high : DecimalNumber := ⟨low.digits + 1, low.exponent⟩
  match x.readsBack low, x.readsBack high with
  | true, true => some (x.nearer low high)
  | true, false => some low
  | false, true => some high
  | false, false => none

/-- The decimal of fewest digits that reads back.  Seventeen digits are always enough. -/
def shortest (x : BinaryNumber) : DecimalNumber :=
  let scale := x.scale
  ((List.range' 1 17).findSome? (x.withDigits? scale)).getD (x.below (scale - 17))

end BinaryNumber

namespace DecimalNumber

/-- The significant digits and the place of the point: `0.d₁d₂… * 10 ^ point`. -/
def significant (d : DecimalNumber) : List Char × Int :=
  let written := (Nat.repr d.digits).toList
  let trimmed := (written.reverse.dropWhile (· == '0')).reverse
  (trimmed, d.exponent + written.length)

/-- Positional from `10 ^ -4` up to below `10 ^ 16` and with at least one decimal place, otherwise
with an exponent. -/
def text (d : DecimalNumber) : String :=
  let (digits, point) := d.significant
  let zeros (n : Int) : List Char := List.replicate n.toNat '0'
  if point ≤ -4 || 16 < point then
    let fraction := if digits.length ≤ 1 then [] else '.' :: digits.tail
    String.ofList (digits.take 1 ++ fraction) ++ "e" ++ Int.repr (point - 1)
  else
    let whole := digits.take point.toNat ++ zeros (point - digits.length)
    let fraction := zeros (-point) ++ digits.drop point.toNat
    let whole := if whole.isEmpty then ['0'] else whole
    let fraction := if fraction.isEmpty then ['0'] else fraction
    String.ofList (whole ++ '.' :: fraction)

end DecimalNumber

namespace BinaryFormat

/-- The magnitude that bits stand for, if it is finite. -/
def magnitude? (f : BinaryFormat) (bits : Nat) : Option BinaryNumber :=
  let hidden := Nat.pow 2 f.fractionBits
  let exponents := Nat.pow 2 f.exponentBits
  let fraction := bits % hidden
  let stored := bits / hidden % exponents
  let unit : Int := 1 - (f.bias : Int) - f.fractionBits
  if stored = exponents - 1 then none
  else if stored = 0 then some ⟨fraction, unit, false⟩
  else some ⟨hidden + fraction, unit + (stored - 1), fraction == 0 && stored != 1⟩

def text (f : BinaryFormat) (bits : Nat) : String :=
  let sign := if bits.testBit (f.exponentBits + f.fractionBits) then "-" else ""
  match f.magnitude? bits with
  | some x => sign ++ if x.significand = 0 then "0.0" else x.shortest.text
  | none => if bits % Nat.pow 2 f.fractionBits = 0 then sign ++ "inf" else "NaN"

end BinaryFormat

def Binary32.text (x : Binary32) : String := BinaryFormat.single.text x.bits.toNat

def Binary64.text (x : Binary64) : String := BinaryFormat.double.text x.bits.toNat

end Bitonic
