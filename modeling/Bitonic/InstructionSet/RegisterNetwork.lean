import Bitonic.InstructionSet.Profile
/-!
# Single-register networks

The compare-exchange layers that sort or merge the lanes of one register.  The sorter takes blocks
of 2, 4, 8, … lanes: each block is first folded onto its mirror image and then cleaned at halving
distances.  The merger cleans the whole register.
-/

namespace Bitonic

namespace IsaProfile

variable (profile : IsaProfile) (ty : ScalarType)

/-- One layer inside a register.  The pairing has to cover exactly one register and be its own
inverse. -/
def exchangeOf (pairing : Pairing) (direction : Direction) : Outcome Exchange := do
  let lanes ← profile.lanes ty
  if pairing.length ≠ lanes then
    Outcome.refuse (.pairingLength profile.isa pairing ty lanes)
  else if !pairing.isSelfInverse then
    Outcome.refuse (.pairingNotSelfInverse pairing)
  else
    let reach :=
      if pairing.spansGroups (profile.groupLanes ty) then Reach.acrossGroups else .insideGroup
    return ⟨pairing, ← pairing.lowerLanes, direction, reach⟩

/-- The exchanges at distances `2 ^ (count - 1)`, …, 2, 1. -/
def cleaningExchanges (lanes count : Nat) (direction : Direction) : Outcome (List Exchange) :=
  (List.range count).reverse.mapM fun e => do
    profile.exchangeOf ty (← Pairing.atDistance lanes (Nat.pow 2 e)) direction

/-- How blocks of `2 ^ (e + 1)` lanes are folded.  A block that fills the register is reversed. -/
def blockPairing (lanes e : Nat) : Outcome Pairing :=
  if Nat.pow 2 (e + 1) = lanes then profile.reversal ty
  else Pairing.folded lanes (Nat.pow 2 (e + 1))

/-- The exchanges that sort every block of `2 ^ (e + 1)` lanes whose halves are sorted. -/
def blockExchanges (lanes e : Nat) (direction : Direction) : Outcome (List Exchange) := do
  let fold ← profile.exchangeOf ty (← profile.blockPairing ty lanes e) direction
  return fold :: (← profile.cleaningExchanges ty lanes e direction)

def registerSorter (direction : Direction) : Outcome (List Exchange) := do
  let lanes ← profile.lanes ty
  let blocks ← (List.range lanes.log2).mapM fun e => profile.blockExchanges ty lanes e direction
  return blocks.flatten

/-- The exchanges that merge one register that holds a bitonic sequence. -/
def registerMerger (direction : Direction) : Outcome (List Exchange) := do
  let lanes ← profile.lanes ty
  profile.cleaningExchanges ty lanes lanes.log2 direction

end IsaProfile

end Bitonic
