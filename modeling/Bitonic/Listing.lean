import Bitonic.Plan
/-!
# Listings

The line-oriented text of a plan.  A line is put together before any of it is written, so a register
number that leaves 64 bits costs exactly the lines from its own on; the listing is therefore a list
of lines each of which may be a fault.
-/

namespace Bitonic

/-- The version that listings and the command line state. -/
def toolVersion : String := "0.1.0"

namespace Listing

/-- A register in a listing; they are numbered from 1. -/
def registerName (index : Nat) : Checked String := do
  return "d" ++ Numeral.twoDigit (← Count.add index 1)

def lastRegister (first width : Nat) : Checked Nat := do
  Count.sub (← Count.add first width) 1

def layerLine : Layer → Checked String
  | .inside register exchange => do
    let name ← registerName register
    return s!"  exchange {name} {exchange.pairing.text} low={exchange.lowerLanes.text} " ++
      s!"{exchange.direction.name} {exchange.reach.name}\n"
  | .between low high direction => do
    let low ← registerName low
    let high ← registerName high
    return s!"  minmax {low} {high} {direction.name}\n"

def callLine (callee : NetworkKey) (first : Nat) : Checked String := do
  let firstName ← registerName first
  let lastName ← registerName (← lastRegister first callee.width)
  return s!"  call {callee.name} {firstName}..{lastName}\n"

def rowLine (row : LengthRow) : String :=
  s!"    {row.minLength}..={row.maxLength} {row.ascending} {row.descending}\n"

def outerLines : OuterStep → List String
  | .load vectors residual pad => [s!"  load {vectors} {residual.name} pad={pad.name}\n"]
  | .store vectors residual => [s!"  store {vectors} {residual.name}\n"]
  | .byLength table =>
      s!"  dispatch lanes={table.lanes} fallback-above={table.longest}\n" ::
        table.rows.map rowLine
  | .byType choices =>
      choices.map fun choice => s!"  select {choice.element.name} {choice.routine}\n"

def stepLines : Step → List (Checked String)
  | .layer layer => [layerLine layer]
  | .call callee first => [callLine callee first]
  | .outer step => (outerLines step).map .ok

def routineHead (r : Routine) : String :=
  let direction := match r.direction with
    | some d => " " ++ d.name
    | none => ""
  let inlining := if r.inline then "inline" else "noinline"
  s!"routine {r.name} {r.role.name} width={r.width}{direction} {inlining}\n"

def routineLines (r : Routine) : List (Checked String) :=
  .ok (routineHead r) :: r.body.flatMap stepLines ++ [.ok "end\n"]

def headingLines : PlanHeading → List String
  | .unit limits residual hasMinMax longest =>
    let minMax := if hasMinMax then "native" else "emulated"
    [s!"  lanes {limits.lanes}\n",
      s!"  max-vectors {limits.widest}\n",
      s!"  merge-ceiling {limits.widestMerger}\n",
      s!"  fallback-above {longest}\n",
      s!"  partial-vector {residual.name}\n",
      s!"  min-max {minMax}\n"]
  | .isa _ elements =>
    let names := ",".intercalate (elements.map ScalarType.name)
    [s!"  elements {names}\n"]

def lines (plan : Plan) : List (Checked String) :=
  .ok s!"// Generated by bitonic-gen {toolVersion}. Do not edit.\n" ::
    .ok s!"unit {plan.title}\n" ::
    (headingLines plan.heading).map .ok ++
    plan.routines.flatMap routineLines ++
    [.ok s!"end unit {plan.title}\n"]

end Listing

namespace Plan

def listing (plan : Plan) : Checked String := do
  return String.join (← (Listing.lines plan).mapM id)

def fileName (plan : Plan) (extension : String) : String :=
  s!"BitonicSort.{plan.title}.generated.{extension}"

end Plan

end Bitonic
