import Bitonic.Machine
/-!
# Vector machines in place

Here a machine works on the caller's own row of values.  The lanes of all registers lie in one row,
one register after the other, and every lane is read and written at a place, which is counted in 64
bits and refused if the row has no such place.  What was written before a failure stays written.
-/

namespace Bitonic

/-- Computations on a row of values; a failure leaves the row as it then is. -/
abbrev OnRow (α β : Type) := EStateM Failure (List α) β

variable {α β : Type}

namespace OnRow

/-- A computation that does not touch the row. -/
def ofOutcome : Outcome β → OnRow α β
  | .ok b => pure b
  | .error failure => throw failure

instance : MonadLift Outcome (OnRow α) := ⟨ofOutcome⟩

def memberAt (values : List α) (place : Nat) : Checked α :=
  match values[place]? with
  | some a => .ok a
  | none => .error .indexOutOfRange

def slice (values : List α) (first count : Nat) : Checked (List α) :=
  if first + count ≤ values.length then .ok ((values.drop first).take count)
  else .error .indexOutOfRange

def read (place : Nat) : OnRow α α := do
  memberAt (← get) place

def write (place : Nat) (a : α) : OnRow α Unit := do
  let row ← get
  if place < row.length then set (row.set place a) else throw (.fault .indexOutOfRange)

/-- Copies values over the whole row. -/
def replace (values : List α) : OnRow α Unit := do
  if values.length = (← get).length then set values else throw (.fault .lengthMismatch)

/-- What a computation makes of a row of its own. -/
def onCopy (work : OnRow α Unit) (values : List α) : Outcome (List α) :=
  match work.run values with
  | .ok _ values => .ok values
  | .error failure _ => .error failure

end OnRow

open OnRow

/-- The row for an array of `length` values, its number counted down from the registers. -/
def LengthTable.select (table : LengthTable) (length : Nat) : Checked Lookup := do
  if table.longest < length then return .fallback
  else if table.lanes = 0 then throw .divisionByZero
  else
    let place ← Count.sub (registersFor table.lanes length) 1
    return match table.rows[place]? with
      | some row => .row row
      | none => .fallback

variable [Scalar α]

namespace Exchange

/-- Puts the new value of a lane in its place, the register being the lanes from `first` on. -/
def runLane (x : Exchange) (first : Nat) (others : List α) (lane : Nat) : OnRow α Unit := do
  let place ← Count.add first lane
  let own ← read place
  let other ← memberAt others lane
  let partner ← x.pairing.partnerOf lane
  write place (x.newValue lane partner own other)

/-- Applies the exchange to the register of the `lanes` lanes from `first` on.  The partners' values
are gathered first, since the lanes change one by one. -/
def runAt (x : Exchange) (first lanes : Nat) : OnRow α Unit := do
  let register ← slice (← get) first lanes
  if register.length = x.pairing.length then
    let others ← (x.pairing.partners.mapM (memberAt register) : Checked (List α))
    (List.range lanes).forM (x.runLane first others)
  else Outcome.defective (.pairingMisfit x.pairing register.length)

end Exchange

namespace Layer

def placeOf (lanes base register lane : Nat) : Checked Nat := do
  Count.add (← Count.mul (← Count.add base register) lanes) lane

/-- Swaps the values of a lane of two registers if they are out of order. -/
def orderLane (lanes base low high : Nat) (direction : Direction) (lane : Nat) : OnRow α Unit := do
  let lowPlace ← placeOf lanes base low lane
  let highPlace ← placeOf lanes base high lane
  let a ← read lowPlace
  let b ← read highPlace
  if Scalar.noLater direction a b then return ()
  else
    write lowPlace b
    write highPlace a

/-- Applies the layer to a row of `registers` registers of `lanes` lanes, register 0 of the layer
being register `base`. -/
def runAt (lanes registers base : Nat) (layer : Layer) : OnRow α Unit := do
  let top ← Count.add base layer.topRegister
  if registers ≤ top then Outcome.defective (.registerOutOfRange top registers)
  else match layer with
    | .inside register exchange => do
      exchange.runAt (← placeOf lanes base register 0) lanes
    | .between low high direction =>
      (List.range lanes).forM (orderLane lanes base low high direction)

end Layer

namespace Machine

variable (machine : Machine)

/-- Runs steps on the row with at most `levels` bodies open at a time, the steps' register 0 being
register `base`. -/
def runStepsInPlace (levels base : Nat) (steps : List Step) : OnRow α Unit :=
  match levels with
  | 0 => Outcome.defective (α := Unit) .callTooDeep
  | levels + 1 => do
    if machine.lanes = 0 then throw (.fault .divisionByZero)
    else
      let registers := (← get).length / machine.lanes
      steps.forM fun step =>
        match step with
        | .layer layer => layer.runAt machine.lanes registers base
        | .call callee first => do
          let routine ← machine.routineFor callee
          runStepsInPlace levels (← Count.add base first) routine.body
        | .outer step => Outcome.defective (α := Unit) (.notNetworkStep step)

def runBodyInPlace (steps : List Step) : OnRow α Unit :=
  machine.runStepsInPlace (callLimit + 1) 0 steps

/-- Runs a sorter or merger, of the plan or not, on registers of its own, and copies them back. -/
def runOnInPlace (routine : Routine) : OnRow α Unit := do
  machine.requireType (Scalar.element α)
  let expected ← Count.mul routine.width machine.lanes
  let values ← get
  if values.length ≠ expected then
    Outcome.defective (α := Unit) (.wrongLaneCount routine.name expected values.length)
  else
    replace (← onCopy (machine.runBodyInPlace routine.body) values)

def runByKeyInPlace (key : NetworkKey) : OnRow α Unit := do
  machine.runOnInPlace (← machine.routineFor key)

def loadLanes (name : String) (vectors : Nat) (pad : Sentinel) (values : List α) :
    Outcome (List α) := do
  let total ← Count.mul vectors machine.lanes
  if total < values.length then
    Outcome.defective (.loadTooSmall name total values.length)
  else return values ++ List.replicate (total - values.length) (Scalar.sentinel pad)

def entryStepInPlace (name : String) (registers : Option (List α)) (step : Step) :
    OnRow α (Option (List α)) :=
  match step, registers with
  | .outer (.load vectors _ pad), _ => do
    return some (← machine.loadLanes name vectors pad (← get))
  | .outer (.store _ _), some lanes => do
    replace (← slice lanes 0 (← get).length)
    return some lanes
  | .outer (.store _ _), none =>
    Outcome.defective (α := Option (List α)) (.storeBeforeLoad name)
  | step, some lanes => do
    return some (← onCopy (machine.runBodyInPlace [step]) lanes)
  | _, none => Outcome.defective (α := Option (List α)) (.stepBeforeLoad name)

def sortInPlace (direction : Direction) : OnRow α SortRoute := do
  machine.requireType (Scalar.element α)
  match machine.plan.lengthTable? with
  | none => Outcome.defective (α := SortRoute) (.noLengthDispatch machine.plan.title)
  | some table =>
    match ← table.select (← get).length with
    | .fallback => do
      replace (Scalar.sorted direction (← get))
      return .fallback
    | .row row => do
      let name := row.entryPoint direction
      match machine.plan.findNamed? name with
      | none => Outcome.fail (α := SortRoute) (.unknownRoutine name)
      | some routine => do
        let _ ← routine.body.foldlM (machine.entryStepInPlace name) none
        return .entryPoint name row.width

end Machine

end Bitonic
