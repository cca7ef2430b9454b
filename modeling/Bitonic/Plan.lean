import Bitonic.Settings
import Bitonic.Network.Routine
/-!
# Plans

A plan is what a unit generates: a heading and an ordered list of routines.  It is a plain value, so
a plan can also be edited by hand before it is listed or run.
-/

namespace Bitonic

inductive PlanHeading where
  /-- A plan for one instruction set and element type. -/
  | unit (limits : UnitLimits) (residual : ResidualMode) (hasMinMax : Bool) (longest : Nat)
  /-- The dispatch of one instruction set over its element types. -/
  | isa (isa : InstructionSet) (elements : List ScalarType)
  deriving DecidableEq

structure Plan where
  heading : PlanHeading
  routines : List Routine
  deriving DecidableEq

namespace Plan

def isa (plan : Plan) : InstructionSet :=
  match plan.heading with
  | .unit limits _ _ _ => limits.isa
  | .isa isa _ => isa

def limits? (plan : Plan) : Option UnitLimits :=
  match plan.heading with
  | .unit limits _ _ _ => some limits
  | .isa _ _ => none

def element? (plan : Plan) : Option ScalarType := plan.limits?.map UnitLimits.element

/-- The name of a unit: its instruction set and, if it has one, its element type. -/
def titleOf (isa : InstructionSet) : Option ScalarType → String
  | some ty => s!"{isa.name}.{ty.name}"
  | none => isa.name

def title (plan : Plan) : String := titleOf plan.isa plan.element?

def find? (plan : Plan) (key : NetworkKey) : Option Routine :=
  plan.routines.find? fun r => r.key == some key

def findNamed? (plan : Plan) (name : String) : Option Routine :=
  plan.routines.find? fun r => r.name == name

/-- The table of the first step that dispatches by length in a routine of that role. -/
def lengthTable? (plan : Plan) : Option LengthTable :=
  ((plan.routines.filter (·.role == .lengthDispatch)).flatMap Routine.body).findSome? fun
    | .outer (.byLength table) => some table
    | _ => none

def keyedRoutines (plan : Plan) : List Routine := plan.routines.filter (·.key.isSome)

end Plan

end Bitonic
