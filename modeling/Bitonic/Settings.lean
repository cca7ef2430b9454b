import Bitonic.InstructionSet.Profile
/-!
# Generation settings

The settings of a run and the limits that they come to for one instruction set and element type.
Every ceiling is checked where the limits are resolved.
-/

namespace Bitonic

structure Settings where
  /-- Networks narrower than this are unrolled into their callers; those of a single register are
  unrolled unless this is 0. -/
  unroll : Nat := 0
  /-- Routines whose width is a multiple of this are not inlined; 0 inlines all. -/
  inlineBreak : Nat := 0
  /-- The widest network, if narrower than the registers allow. -/
  widest : Option Nat := none
  /-- The widest merger of an instruction set, where it is set. -/
  widestMerger : InstructionSet → Option Nat := fun _ => none
  /-- Generate for every instruction set. -/
  everyIsa : Bool := true
  /-- The instruction sets to generate for otherwise. -/
  isas : List InstructionSet := []
  /-- Units that are planned at the same time.  The command asks the system for its number of
  processors where none is given; one stands for that number here. -/
  jobs : Nat := 1

namespace Settings

def only (isas : List InstructionSet) : Settings := { everyIsa := false, isas }

def withWidestMerger (settings : Settings) (isa : InstructionSet) (width : Nat) : Settings :=
  { settings with widestMerger := fun i => if i = isa then some width else settings.widestMerger i }

/-- The instruction sets of the run, in generation order. -/
def chosenIsas (settings : Settings) : List InstructionSet :=
  if settings.everyIsa then InstructionSet.all else settings.isas

/-- The first member of a list that occurs earlier in it. -/
def firstRepeated? (seen : List InstructionSet) : List InstructionSet → Option InstructionSet
  | [] => none
  | isa :: rest => if isa ∈ seen then some isa else firstRepeated? (isa :: seen) rest

def check (settings : Settings) : Outcome Unit :=
  if settings.jobs = 0 then Outcome.refuse .noJobs
  else if settings.everyIsa then .ok ()
  else if settings.isas.isEmpty then Outcome.refuse .noIsaSelected
  else match firstRepeated? [] settings.isas with
    | some isa => Outcome.refuse (.isaSelectedTwice isa)
    | none => .ok ()

end Settings

/-- The limits of one unit: an instruction set and an element type. -/
structure UnitLimits where
  isa : InstructionSet
  element : ScalarType
  /-- Lanes in a register. -/
  lanes : Nat
  /-- The widest network. -/
  widest : Nat
  /-- The widest merger that becomes a routine. -/
  widestMerger : Nat
  unroll : Nat
  inlineBreak : Nat
  deriving DecidableEq

namespace UnitLimits

def inlines (limits : UnitLimits) (width : Nat) : Bool :=
  limits.inlineBreak == 0 || width % limits.inlineBreak != 0

/-- The longest array that the unit's routines sort. -/
def capacity (limits : UnitLimits) : Checked Nat := Count.mul limits.widest limits.lanes

end UnitLimits

namespace Settings

def resolveWidest (settings : Settings) (profile : IsaProfile) (ty : ScalarType) :
    Outcome Nat := do
  let ceiling ← profile.widest ty
  let vectors := settings.widest.getD ceiling
  if vectors = 0 then Outcome.refuse .noVectors
  else if ceiling < vectors then
    Outcome.refuse (.vectorsAboveCeiling vectors profile.isa ceiling ty)
  else return vectors

/-- The widest merger that a unit emits.  Unless it is set, it is the split of the widest
network. -/
def resolveWidestMerger (settings : Settings) (profile : IsaProfile) (ty : ScalarType)
    (vectors : Nat) : Outcome Nat := do
  let ceiling ← profile.widestMerger ty
  match settings.widestMerger profile.isa with
  | some width =>
    if ceiling < width then
      Outcome.refuse (.mergerAboveIsaCeiling width profile.isa ceiling ty)
    else if vectors < width then Outcome.refuse (.mergerWiderThanVectors width vectors)
    else return width
  | none => return min (← checkedSplitPoint vectors) ceiling

def limitsFor (settings : Settings) (profile : IsaProfile) (ty : ScalarType) :
    Outcome UnitLimits := do
  if profile.scalarTypes.isEmpty then
    Outcome.refuse (.noElementTypes profile.isa)
  else
    let lanes ← profile.lanes ty
    let widest ← settings.resolveWidest profile ty
    let widestMerger ← settings.resolveWidestMerger profile ty widest
    return {
      isa := profile.isa
      element := ty
      lanes
      widest
      widestMerger
      unroll := settings.unroll
      inlineBreak := settings.inlineBreak }

end Settings

end Bitonic
