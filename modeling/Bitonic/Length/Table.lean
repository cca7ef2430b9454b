import Bitonic.Count
import Bitonic.Direction
import Bitonic.Memory
/-!
# Length tables

A length table maps the length of an array to the entry point that sorts it.  Row `i` serves the
arrays that need `i + 1` registers; longer arrays than the table is made for go to the fallback
sort.
-/

namespace Bitonic

structure LengthRow where
  /-- Registers that the entry point loads. -/
  width : Nat
  /-- The shortest length that the row serves. -/
  minLength : Nat
  /-- The longest length that the row serves. -/
  maxLength : Nat
  ascending : String
  descending : String
  deriving DecidableEq

namespace LengthRow

/-- The bytes of a row in a list: three counts and two texts. -/
def byteSize : Nat := 72

def entryPoint (row : LengthRow) : Direction → String
  | .ascending => row.ascending
  | .descending => row.descending

def includes (row : LengthRow) (length : Nat) : Bool :=
  row.minLength ≤ length && length ≤ row.maxLength

end LengthRow

structure LengthTable where
  /-- Lanes in a register. -/
  lanes : Nat
  /-- Rows by increasing length. -/
  rows : List LengthRow
  /-- Lengths above this go to the fallback sort. -/
  longest : Nat
  deriving DecidableEq

inductive Lookup where
  | row (row : LengthRow)
  /-- No generated routine serves the length. -/
  | fallback
  deriving DecidableEq

namespace LengthTable

/-- Registers of `lanes` lanes that hold `length` values; an empty array still takes one. -/
def registersFor (lanes length : Nat) : Nat := max ((length + lanes - 1) / lanes) 1

def lookup (table : LengthTable) (length : Nat) : Checked Lookup :=
  if table.longest < length then .ok .fallback
  else if table.lanes = 0 then .error .divisionByZero
  else match table.rows[registersFor table.lanes length - 1]? with
    | some row => .ok (.row row)
    | none => .ok .fallback

end LengthTable

end Bitonic
