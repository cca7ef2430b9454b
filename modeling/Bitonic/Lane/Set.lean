import Bitonic.Count
import Bitonic.Numeral
/-!
# Lane sets

A set of lanes of one register, kept as the bits of a 64-bit word.
-/

namespace Bitonic

structure LaneSet where
  bits : Nat
  deriving DecidableEq

namespace LaneSet

def empty : LaneSet := ⟨0⟩

/-- Lanes past the word are in no set. -/
def contains (s : LaneSet) (lane : Nat) : Bool :=
  lane < 64 && s.bits.testBit lane

/-- Only the 64 lanes of the word can be added. -/
def insert (s : LaneSet) (lane : Nat) : Checked LaneSet :=
  if lane < 64 then .ok ⟨s.bits ||| Nat.pow 2 lane⟩ else .error .shiftTooWide

def text (s : LaneSet) : String := "0x" ++ Numeral.hex s.bits

theorem contains_empty (lane : Nat) : empty.contains lane = false := by
  simp [contains, empty]

theorem contains_insert {s s' : LaneSet} {lane : Nat} (h : s.insert lane = .ok s')
    (i : Nat) : s'.contains i = (s.contains i || i == lane) := by
  unfold insert at h
  split at h
  · cases h
    by_cases hi : i = lane
    · subst hi; simp_all [contains]
    · simp [contains, hi, Ne.symm hi]
  · cases h

end LaneSet

end Bitonic
