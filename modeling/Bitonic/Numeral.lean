/-!
# Numerals

Decimal numbers of at least two digits, and hexadecimal ones.
-/

namespace Bitonic.Numeral

/-- Decimal digits, with a zero in front of a single one. -/
def twoDigit (n : Nat) : String :=
  if n < 10 then "0" ++ Nat.repr n else Nat.repr n

/-- Lower-case hexadecimal digits without padding. -/
def hex (n : Nat) : String := String.ofList (Nat.toDigits 16 n)

end Bitonic.Numeral
