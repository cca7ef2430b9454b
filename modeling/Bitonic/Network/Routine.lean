import Bitonic.Network.Step
/-!
# Routines

A routine is a named list of steps together with the part that it plays in its plan.
-/

namespace Bitonic

inductive RoutineRole where
  /-- A sorter or merger of a single register. -/
  | registerNetwork
  /-- A sorter of several registers. -/
  | sorter
  /-- A merger of several registers. -/
  | merger
  /-- Sorts the arrays whose length lies in a range. -/
  | entryPoint (minLength maxLength : Nat)
  /-- Dispatches by length for one element type. -/
  | lengthDispatch
  /-- Dispatches by element type for one instruction set. -/
  | typeDispatch
  deriving DecidableEq

def RoutineRole.name : RoutineRole → String
  | registerNetwork => "base-sorter"
  | sorter => "compounded-sorter"
  | merger => "compounded-merger"
  | entryPoint _ _ => "entry-point"
  | lengthDispatch => "master-dispatch"
  | typeDispatch => "isa-dispatch"

structure Routine where
  name : String
  role : RoutineRole
  /-- The network that the routine implements, for sorters and mergers. -/
  key : Option NetworkKey
  /-- Width in vectors. -/
  width : Nat
  direction : Option Direction
  /-- Whether the routine is to be inlined wherever it is called. -/
  inline : Bool
  body : List Step
  deriving DecidableEq

namespace Routine

/-- The bytes of a routine in a list. -/
def byteSize : Nat := 104

/-- The layers of the body, those of called networks not counted. -/
def layerCount (r : Routine) : Nat :=
  r.body.countP fun
    | .layer _ => true
    | _ => false

def calls (r : Routine) : List NetworkKey :=
  r.body.filterMap fun
    | .call callee _ => some callee
    | _ => none

end Routine

end Bitonic
