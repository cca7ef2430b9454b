import Bitonic.Network.Synthesis
/-!
# Entry points

For every width and direction an entry point loads that many registers, pads the residual lanes
with the value that comes last, sorts the registers and stores them back.  The length dispatch picks
among them.
-/

namespace Bitonic

def entryPointName (width : Nat) (direction : Direction) : String :=
  "sort_" ++ Numeral.twoDigit width ++ "v_alt_" ++ direction.name

def lengthDispatchName (ty : ScalarType) : String := "sort_" ++ ty.name

/-- The shortest and the longest array that take `width` registers; a single register also serves
the empty array. -/
def lengthRange (width lanes : Nat) : Checked (Nat × Nat) := do
  let shortest ←
    if width = 1 then pure 0
    else Count.add (← Count.mul (← Count.sub width 1) lanes) 1
  return (shortest, ← Count.mul width lanes)

namespace Synthesis

def lengthRow (lanes width : Nat) : Checked LengthRow := do
  let (minLength, maxLength) ← lengthRange width lanes
  return {
    width
    minLength
    maxLength
    ascending := entryPointName width .ascending
    descending := entryPointName width .descending }

def lengthTable (s : Synthesis) (memory : Memory) : Checked LengthTable := do
  let lanes := s.limits.lanes
  memory.reserve s.limits.widest LengthRow.byteSize
  let rows ← Count.mapFrom (lengthRow lanes) 1 s.limits.widest
  return { lanes, rows, longest := ← s.limits.capacity }

def entryRoutine (s : Synthesis) (width : Nat) (direction : Direction) : Outcome Routine := do
  let residual ← s.profile.residualModeFor s.limits.element
  let network ← s.invocation (.sort width direction) 0
  let (minLength, maxLength) ← lengthRange width s.limits.lanes
  return {
    name := entryPointName width direction
    role := .entryPoint minLength maxLength
    key := none
    width
    direction := some direction
    inline := s.limits.inlines width
    body := .outer (.load width residual direction.sentinel) :: network ++
      [.outer (.store width residual)] }

/-- Every entry point, by width and with the ascending one first. -/
def entryRoutines (s : Synthesis) (memory : Memory) : Outcome (List Routine) := do
  memory.reserve (← Count.mul s.limits.widest 2) Routine.byteSize
  let perWidth ← Count.mapFrom (fun width => Direction.both.mapM (s.entryRoutine width)) 1
    s.limits.widest
  return perWidth.flatten

def lengthDispatch (s : Synthesis) (memory : Memory) : Outcome Routine := do
  return {
    name := lengthDispatchName s.limits.element
    role := .lengthDispatch
    key := none
    width := s.limits.widest
    direction := none
    inline := false
    body := [.outer (.byLength (← s.lengthTable memory))] }

end Synthesis

end Bitonic
