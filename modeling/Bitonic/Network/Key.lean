import Bitonic.Direction
import Bitonic.Numeral
/-!
# Network keys

A key identifies one network: whether it sorts or merges, its width in vectors and its direction.
-/

namespace Bitonic

inductive NetworkTask where
  | sort
  | merge
  deriving DecidableEq

namespace NetworkTask

def all : List NetworkTask := [sort, merge]

def agent : NetworkTask → String
  | sort => "sorter"
  | merge => "merger"

end NetworkTask

structure NetworkKey where
  task : NetworkTask
  width : Nat
  direction : Direction
  deriving DecidableEq

namespace NetworkKey

def sort (width : Nat) (direction : Direction) : NetworkKey := ⟨.sort, width, direction⟩

def merge (width : Nat) (direction : Direction) : NetworkKey := ⟨.merge, width, direction⟩

def reverse (key : NetworkKey) : NetworkKey := { key with direction := key.direction.reverse }

/-- The name of the routine that implements the network.  The merger of a single register is named
after the sorter that it belongs to. -/
def name (key : NetworkKey) : String :=
  match key.task, key.width with
  | .merge, 1 => "sort_01v_merge_" ++ key.direction.name
  | .sort, width => "sort_" ++ Numeral.twoDigit width ++ "v_" ++ key.direction.name
  | .merge, width => "merge_" ++ Numeral.twoDigit width ++ "v_" ++ key.direction.name

end NetworkKey

end Bitonic
