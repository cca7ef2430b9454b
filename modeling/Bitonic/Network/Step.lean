import Bitonic.Length.Table
import Bitonic.Scalar.Basic
import Bitonic.InstructionSet.Basic
import Bitonic.Lane.Exchange
import Bitonic.Network.Key
/-!
# Steps

A routine's body is a list of steps.  Layers and calls make up networks and name registers; the
outer steps load, store and dispatch around them.
-/

namespace Bitonic

inductive Layer where
  /-- A compare-exchange between the lanes of one register. -/
  | inside (register : Nat) (exchange : Exchange)
  /-- A lane-wise minimum and maximum of two registers. -/
  | between (low high : Nat) (direction : Direction)
  deriving DecidableEq

namespace Layer

def movedBy (offset : Nat) : Layer → Checked Layer
  | inside register exchange => return inside (← Count.add register offset) exchange
  | between low high direction =>
      return between (← Count.add low offset) (← Count.add high offset) direction

def topRegister : Layer → Nat
  | inside register _ => register
  | between low high _ => max low high

end Layer

/-- The routine that an instruction set's dispatch picks for an element type. -/
structure TypeChoice where
  element : ScalarType
  routine : String
  deriving DecidableEq

/-- A step outside the networks. -/
inductive OuterStep where
  /-- Loads registers from the input and fills the residual lanes with a sentinel. -/
  | load (vectors : Nat) (residual : ResidualMode) (pad : Sentinel)
  /-- Stores registers back and leaves the residual lanes out. -/
  | store (vectors : Nat) (residual : ResidualMode)
  /-- Picks an entry point by length. -/
  | byLength (table : LengthTable)
  /-- Picks a length dispatch by element type. -/
  | byType (choices : List TypeChoice)
  deriving DecidableEq

inductive Step where
  | layer (layer : Layer)
  /-- Runs a network that is a routine on the registers from `first` on. -/
  | call (callee : NetworkKey) (first : Nat)
  | outer (step : OuterStep)
  deriving DecidableEq

namespace Step

/-- The same step `offset` registers further along; outer steps name no registers. -/
def movedBy (offset : Nat) : Step → Checked Step
  | layer l => return layer (← l.movedBy offset)
  | call callee first => return call callee (← Count.add first offset)
  | outer s => .ok (outer s)

end Step

end Bitonic
