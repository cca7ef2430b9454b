import Bitonic.Failure
import Bitonic.Plan
import Bitonic.Scalar.Value
/-!
# Vector machines

A machine runs the routines of a plan on concrete lane values, as generated code would run them on
registers.  A register file is a list of registers and a register a list of lanes.
-/

namespace Bitonic

abbrev RegisterFile (α : Type) := List (List α)

variable {α : Type} [Scalar α]

namespace RegisterFile

def take (lanes : Nat) : Nat → List α → RegisterFile α
  | 0, _ => []
  | count + 1, values => values.take lanes :: take lanes count (values.drop lanes)

/-- The values as full registers of `lanes` lanes. -/
def ofValues (lanes : Nat) (values : List α) : RegisterFile α :=
  take lanes (values.length / lanes) values

end RegisterFile

namespace Exchange

/-- The new value of a lane: the one of the pair that comes first at a low or unpaired lane, the
other one elsewhere. -/
def newValue (x : Exchange) (lane partner : Nat) (own other : α) : α :=
  let low := x.lowerLanes.contains lane || partner == lane
  if Scalar.noLater x.direction own other == low then own else other

def newValues (x : Exchange) (lane : Nat) : List Nat → List α → List α → List α
  | partner :: partners, own :: owns, other :: others =>
    x.newValue lane partner own other :: newValues x (lane + 1) partners owns others
  | _, _, _ => []

def run (x : Exchange) (register : List α) : Outcome (List α) :=
  if h : register.length = x.pairing.length then
    return x.newValues 0 x.pairing.partners register (x.pairing.gather register h)
  else Outcome.defective (.pairingMisfit x.pairing register.length)

end Exchange

namespace Layer

def lowValue (direction : Direction) (a b : α) : α :=
  if Scalar.noLater direction a b then a else b

def highValue (direction : Direction) (a b : α) : α :=
  if Scalar.noLater direction a b then b else a

/-- Applies the layer to a register file, register 0 of the layer being register `base`. -/
def run (base : Nat) (layer : Layer) (file : RegisterFile α) :
    Outcome (RegisterFile α) := do
  let top ← Count.add base layer.topRegister
  if file.length ≤ top then
    Outcome.defective (.registerOutOfRange top file.length)
  else match layer with
    | .inside register exchange =>
      return file.set (base + register) (← exchange.run (file.getD (base + register) []))
    | .between low high direction =>
      let a := file.getD (base + low) []
      let b := file.getD (base + high) []
      return (file.set (base + low) (a.zipWith (lowValue direction) b)).set (base + high)
        (a.zipWith (highValue direction) b)

end Layer

structure Machine where
  plan : Plan
  element : ScalarType
  lanes : Nat

inductive SortRoute where
  | entryPoint (name : String) (width : Nat)
  | fallback
  deriving DecidableEq

/-- An entry point on its way: the caller's data and the registers, once they are loaded. -/
structure EntryRun (α : Type) where
  data : List α
  file : Option (RegisterFile α)

namespace Machine

/-- Calls nest at most this deep. -/
def callLimit : Nat := 64

def ofPlan (plan : Plan) : Outcome Machine :=
  match plan.limits? with
  | some limits => return ⟨plan, limits.element, limits.lanes⟩
  | none => Outcome.defective (.nothingToRun plan.title)

variable (machine : Machine)

def requireType (found : ScalarType) : Outcome Unit :=
  if found = machine.element then return () else Outcome.fail (.typeMismatch machine.element found)

def routineFor (key : NetworkKey) : Outcome Routine :=
  match machine.plan.find? key with
  | some r => return r
  | none => Outcome.fail (.unknownRoutine key.name)

/-- Runs steps on a register file with at most `levels` bodies open at a time, the steps' register 0
being register `base`. -/
def runSteps (levels base : Nat) (steps : List Step) (file : RegisterFile α) :
    Outcome (RegisterFile α) :=
  match levels with
  | 0 => Outcome.defective .callTooDeep
  | levels + 1 =>
    if machine.lanes = 0 then .error (.fault .divisionByZero)
    else steps.foldlM (fun file step =>
      match step with
      | .layer layer => layer.run base file
      | .call callee first => do
        let routine ← machine.routineFor callee
        runSteps levels (← Count.add base first) routine.body file
      | .outer step => Outcome.defective (.notNetworkStep step)) file

def runBody (steps : List Step) (file : RegisterFile α) : Outcome (RegisterFile α) :=
  machine.runSteps (callLimit + 1) 0 steps file

/-- Runs a sorter or merger, of the plan or not, on exactly its registers. -/
def runOn (routine : Routine) (values : List α) : Outcome (List α) := do
  machine.requireType (Scalar.element α)
  let expected ← Count.mul routine.width machine.lanes
  if values.length ≠ expected then
    Outcome.defective (.wrongLaneCount routine.name expected values.length)
  else
    return (← machine.runBody routine.body (RegisterFile.ofValues machine.lanes values)).flatten

def runByKey (key : NetworkKey) (values : List α) : Outcome (List α) := do
  machine.runOn (← machine.routineFor key) values

/-- The values in registers, filled up with a sentinel. -/
def load (name : String) (vectors : Nat) (pad : Sentinel) (data : List α) :
    Outcome (RegisterFile α) := do
  let total ← Count.mul vectors machine.lanes
  if total < data.length then
    Outcome.defective (.loadTooSmall name total data.length)
  else
    return RegisterFile.ofValues machine.lanes
      (data ++ List.replicate (total - data.length) (Scalar.sentinel pad))

def entryStep (name : String) (step : Step) (run : EntryRun α) : Outcome (EntryRun α) :=
  match step, run.file with
  | .outer (.load vectors _ pad), _ => do
    return { run with file := some (← machine.load name vectors pad run.data) }
  | .outer (.store _ _), some file =>
    return { run with data := file.flatten.take run.data.length }
  | .outer (.store _ _), none => Outcome.defective (.storeBeforeLoad name)
  | step, some file => do return { run with file := some (← machine.runBody [step] file) }
  | _, none => Outcome.defective (.stepBeforeLoad name)

/-- The steps of an entry point up to the first failure, with the data as they then are. -/
def entrySteps (name : String) : List Step → EntryRun α → List α × Outcome Unit
  | [], run => (run.data, .ok ())
  | step :: rest, run =>
    match machine.entryStep name step run with
    | .ok run => entrySteps name rest run
    | .error failure => (run.data, .error failure)

/-- The row of the length table for a length and the routine that it names, or nothing for the
fallback sort. -/
def entryFor (direction : Direction) (length : Nat) :
    Outcome (Option (LengthRow × Routine)) := do
  match machine.plan.lengthTable? with
  | none => Outcome.defective (.noLengthDispatch machine.plan.title)
  | some table =>
    match ← table.lookup length with
    | .fallback => return none
    | .row row =>
      let name := row.entryPoint direction
      match machine.plan.findNamed? name with
      | some routine => return some (row, routine)
      | none => Outcome.fail (.unknownRoutine name)

def route (found : ScalarType) (direction : Direction) (length : Nat) :
    Outcome (Option (LengthRow × Routine)) := do
  machine.requireType found
  machine.entryFor direction length

/-- Sorts data as the length dispatch would, and returns the data as they are in the end. -/
def sort (direction : Direction) (data : List α) : List α × Outcome SortRoute :=
  match machine.route (Scalar.element α) direction data.length with
  | .error failure => (data, .error failure)
  | .ok none => (Scalar.sorted direction data, .ok .fallback)
  | .ok (some (row, routine)) =>
    let name := row.entryPoint direction
    let (data, result) := machine.entrySteps name routine.body ⟨data, none⟩
    (data, result.map fun _ => .entryPoint name row.width)

end Machine

end Bitonic
