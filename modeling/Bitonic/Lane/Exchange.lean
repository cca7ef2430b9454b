import Bitonic.Direction
import Bitonic.Lane.Pairing
/-!
# Lane exchanges

One compare-exchange layer inside a register.  After it, for every pair of the pairing, the lane in
`lowerLanes` holds the value that comes first in `direction`.
-/

namespace Bitonic

/-- How the pairs of a layer lie to the groups inside which lanes are moved cheaply. -/
inductive Reach where
  /-- Every pair lies inside one group. -/
  | insideGroup
  /-- Some pair crosses groups and needs a full permutation. -/
  | acrossGroups
  deriving DecidableEq

def Reach.name : Reach → String
  | insideGroup => "in-lane"
  | acrossGroups => "cross-lane"

structure Exchange where
  pairing : Pairing
  lowerLanes : LaneSet
  direction : Direction
  reach : Reach
  deriving DecidableEq

end Bitonic
