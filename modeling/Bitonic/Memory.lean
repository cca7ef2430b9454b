import Bitonic.Fault
/-!
# Memory

A list that is made at one stroke is refused at once if no memory holds it.  How much memory there
is, is up to the caller: without a bound every list can be made.

The bound is asked for where a number that comes from outside is the length of such a list: in
pairings, in length tables and entry points that are asked for on their own, and in the inputs of a
verification.  Everywhere else memory is taken to be enough.  So a plan is generated without a bound,
and the registers that a machine loads and the lists that grow item by item are never refused.
-/

namespace Bitonic

structure Memory where
  /-- The bytes that a list may take; none for no bound. -/
  bytes : Option Nat

namespace Memory

def unlimited : Memory := ⟨none⟩

/-- As much as a size of 64 bits with a sign can count. -/
def addressable : Memory := ⟨some 0x7fffffffffffffff⟩

/-- Refuses a list of `count` items of `size` bytes that does not fit. -/
def reserve (memory : Memory) (count size : Nat) : Checked Unit :=
  match memory.bytes with
  | none => .ok ()
  | some bytes => if count * size ≤ bytes then .ok () else .error .listTooLong

@[simp] theorem reserve_unlimited (count size : Nat) : unlimited.reserve count size = .ok () := rfl

theorem reserve_addressable {count size : Nat} (h : count * size < 0x8000000000000000) :
    addressable.reserve count size = .ok () := by
  rw [reserve, addressable]
  exact if_pos (Nat.le_of_lt_succ h)

end Memory

end Bitonic
