import Bitonic.Plan.Generate
/-!
# Generation runs

A run plans every unit of the chosen instruction sets.  Units do not depend on each other, so they
may be planned at the same time: the plans are then collected in unit order, and of several failures
the one that was met first is reported.
-/

namespace Bitonic

/-- One unit of a run: an element type of an instruction set, or the dispatch over its types. -/
structure GenerationUnit where
  isa : InstructionSet
  element : Option ScalarType
  deriving DecidableEq

def GenerationUnit.name (unit : GenerationUnit) : String := Plan.titleOf unit.isa unit.element

/-- A run under settings that were found valid. -/
structure GenerationRun where
  settings : Settings

namespace GenerationRun

def ofSettings (settings : Settings) : Outcome GenerationRun := do
  settings.check
  return ⟨settings⟩

/-- The units of one instruction set: its types, then the dispatch over them. -/
def unitsOf (isa : InstructionSet) : List GenerationUnit :=
  isa.profile.scalarTypes.map (fun ty => ⟨isa, some ty⟩) ++ [⟨isa, none⟩]

def units (run : GenerationRun) : List GenerationUnit := run.settings.chosenIsas.flatMap unitsOf

def planFor (run : GenerationRun) (unit : GenerationUnit) : Outcome Plan :=
  match unit.element with
  | some ty => Plan.forType ty unit.isa.profile run.settings
  | none => Plan.forIsa unit.isa.profile run.settings

/-- The plans of units that were planned one after the other: the first failure ends the run. -/
def planInTurn (run : GenerationRun) : Outcome (List Plan) := run.units.mapM run.planFor

/-- The plans of units that were planned at the same time and finished in the order `finished`: the
first failure among them is the run's. -/
def planTogether (run : GenerationRun) (finished : List GenerationUnit) : Outcome (List Plan) :=
  let results := run.units.map fun unit => (unit, run.planFor unit)
  let failure? := finished.findSome? fun unit =>
    match results.find? (·.1 == unit) with
    | some (_, .error failure) => some failure
    | _ => none
  match failure? with
  | some failure => .error failure
  | none => results.mapM Prod.snd

/-- The plans of the run, if the units finish in the order `finished`. -/
def planFinishing (run : GenerationRun) (finished : List GenerationUnit) : Outcome (List Plan) :=
  if run.settings.jobs ≤ 1 then run.planInTurn else run.planTogether finished

/-- The order in which units that fail at once are met as a rule: one worker takes the units from the
first on, and the next one is up from the middle on while the first plan is still being made. -/
def usualOrder : List GenerationUnit → List GenerationUnit
  | [] => []
  | unit :: rest =>
    let before := (rest.length + 1) / 2 - 1
    unit :: (rest.drop before ++ rest.take before)

def plans (run : GenerationRun) : Outcome (List Plan) := run.planFinishing (usualOrder run.units)

end GenerationRun

end Bitonic
