import Bitonic.Machine
import Bitonic.Memory
/-!
# Verification of plans

Runs every sorter and merger of a plan, and every length around its length table, on a fixed set
of inputs and compares the results with sorted copies.
-/

namespace Bitonic

namespace Verify

/-- Noise values are below this number, `2 ^ 20`. -/
def noiseRange : Nat := 0x100000

def noiseSeed : UInt64 := 0x9e3779b97f4a7c15

def noiseStep (state : UInt64) : UInt64 := state * 6364136223846793005 + 1442695040888963407

def noiseFrom : Nat → UInt64 → List Nat
  | 0, _ => []
  | count + 1, state =>
    let state := noiseStep state
    (state >>> 33).toNat % noiseRange :: noiseFrom count state

inductive InputShape where
  | falling
  | risingAndFalling
  | sawtooth
  | constant
  | noise
  deriving DecidableEq

namespace InputShape

def all : List InputShape := [falling, risingAndFalling, sawtooth, constant, noise]

def values (shape : InputShape) (length : Nat) : List Nat :=
  match shape with
  | falling => (List.range length).reverse
  | risingAndFalling => (List.range length).map fun i => min i (length - 1 - i)
  | sawtooth => (List.range length).map (· % 7)
  | constant => List.replicate length 42
  | noise => noiseFrom length (noiseSeed ^^^ UInt64.ofNat length)

end InputShape

def inputsOfLength (length : Nat) : List (List Nat) := InputShape.all.map (·.values length)

def valueBytes : Nat := 8

def inputsIn (memory : Memory) (length : Nat) : Checked (List (List Nat)) := do
  memory.reserve length valueBytes
  return inputsOfLength length

structure Report where
  /-- Sorters and mergers that were run. -/
  networks : Nat := 0
  /-- Lengths that went through the dispatch. -/
  lengths : Nat := 0
  /-- Inputs in all. -/
  cases : Nat := 0
  deriving DecidableEq

namespace Report

def countCase (report : Report) : Checked Report := do
  return { report with cases := ← Count.add report.cases 1 }

def countNetwork (report : Report) : Checked Report := do
  return { report with networks := ← Count.add report.networks 1 }

def countLength (report : Report) : Checked Report := do
  return { report with lengths := ← Count.add report.lengths 1 }

def text (report : Report) : String :=
  s!"{report.networks} networks and {report.lengths} lengths verified over {report.cases} inputs"

end Report

variable {α : Type} [Scalar α]

/-- An input that a merger accepts: a run against the direction, then a run along it. -/
def bitonicInput (direction : Direction) (values : List α) : List α :=
  let (first, second) := values.splitAt (values.length / 2)
  Scalar.sorted direction.reverse first ++ Scalar.sorted direction second

def networkInput (key : NetworkKey) (values : List α) : List α :=
  match key.task with
  | .sort => values
  | .merge => bitonicInput key.direction values

def checkNetwork (machine : Machine) (routine : Routine) (key : NetworkKey) (values : List α) :
    Outcome Unit := do
  let result ← machine.runOn routine (networkInput key values)
  if Scalar.eqLists result (Scalar.sorted key.direction values) then return ()
  else
    let defect :=
      PlanDefect.networkMissorted routine.name machine.plan.title (result.map Scalar.text)
    Outcome.defective defect

def checkLength (machine : Machine) (direction : Direction) (values : List α) : Outcome Unit := do
  let (result, path) := machine.sort direction values
  let _ ← path
  if Scalar.eqLists result (Scalar.sorted direction values) then return ()
  else
    let defect := PlanDefect.lengthMissorted machine.plan.title direction values.length
      (result.map Scalar.text)
    Outcome.defective defect

def laneValues (values : List Nat) : List α := values.map Scalar.ofNat

/-- Puts every input of a length to a check and counts the ones that pass. -/
def checkInputs (check : List α → Outcome Unit) (memory : Memory) (length : Nat)
    (report : Report) : Outcome Report := do
  let inputs ← inputsIn memory length
  inputs.foldlM (fun report values => do
    check (laneValues values)
    report.countCase) report

def checkRoutine (α : Type) [Scalar α] (memory : Memory) (machine : Machine) (report : Report)
    (routine : Routine) (key : NetworkKey) : Outcome Report := do
  let length ← Count.mul key.width machine.lanes
  let report ← checkInputs (fun values : List α => checkNetwork machine routine key values) memory
    length report
  report.countNetwork

/-- Sorts every input of a length in both directions. -/
def checkLengthInputs (α : Type) [Scalar α] (memory : Memory) (machine : Machine)
    (report : Report) (length : Nat) : Outcome Report := do
  let report ← Direction.both.foldlM (fun report direction =>
    checkInputs (fun values : List α => checkLength machine direction values) memory length report)
    report
  report.countLength

def checkLengths (α : Type) [Scalar α] (memory : Memory) (machine : Machine) (report : Report)
    (length : Nat) : Nat → Outcome Report
  | 0 => return report
  | count + 1 => do
    let report ← checkLengthInputs α memory machine report length
    checkLengths α memory machine report (length + 1) count

/-- The sorters and mergers of a plan with their keys. -/
def keyedNetworks (plan : Plan) : List (Routine × NetworkKey) :=
  plan.routines.filterMap fun routine => routine.key.map (routine, ·)

/-- Runs every network of a plan and every length up to one past its table's longest. -/
def run (α : Type) [Scalar α] (memory : Memory) (plan : Plan) : Outcome Report := do
  let machine ← Machine.ofPlan plan
  let report ← (keyedNetworks plan).foldlM (fun report (routine, key) =>
    checkRoutine α memory machine report routine key) {}
  match plan.lengthTable? with
  | none => return report
  | some table =>
    let last ← Count.add table.longest 1
    checkLengths α memory machine report 0 (last + 1)

end Verify

def Plan.verify (plan : Plan) (memory : Memory) : Outcome Verify.Report :=
  match plan.element? with
  | some ty => Verify.run ty.Value memory plan
  | none => Outcome.defective (.nothingToVerify plan.title)

/-- The reports on the per-type plans among some plans. -/
def Plan.verifyEach (plans : List Plan) (memory : Memory) : Outcome (List Verify.Report) :=
  (plans.filter (·.element?.isSome)).mapM (·.verify memory)

end Bitonic
