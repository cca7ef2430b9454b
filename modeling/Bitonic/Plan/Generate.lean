import Bitonic.Length.EntryPoint
import Bitonic.Plan
/-!
# Generation of plans

The plan of an element type and the plan that dispatches over the types of an instruction set.
-/

namespace Bitonic

namespace Plan

/-- The plan of one unit: sorters and mergers, then entry points, then the length dispatch. -/
def forType (ty : ScalarType) (profile : IsaProfile) (settings : Settings) :
    Outcome Plan := do
  let s ← Synthesis.ofSettings profile ty settings
  let networks ← s.sortersAndMergers
  let entries ← s.entryRoutines .unlimited
  let dispatch ← s.lengthDispatch .unlimited
  let residual ← profile.residualModeFor ty
  let hasMinMax ← profile.hasMinMaxFor ty
  let longest ← s.limits.capacity
  return {
    heading := .unit s.limits residual hasMinMax longest
    routines := networks ++ entries ++ [dispatch] }

/-- The choice for one element type in an instruction set's dispatch, and the widest network of its
unit. -/
def typeChoice (profile : IsaProfile) (settings : Settings) (ty : ScalarType) :
    Outcome (Nat × TypeChoice) := do
  let s ← Synthesis.ofSettings profile ty settings
  return (s.limits.widest, ⟨ty, lengthDispatchName ty⟩)

def forIsa (profile : IsaProfile) (settings : Settings) : Outcome Plan := do
  let choices ← profile.scalarTypes.mapM (typeChoice profile settings)
  if choices.isEmpty then Outcome.refuse (.noElementTypes profile.isa)
  else return {
    heading := .isa profile.isa profile.scalarTypes
    routines := [{
      name := "sort_" ++ profile.isa.lowerName
      role := .typeDispatch
      key := none
      width := (choices.map Prod.fst).foldl max 0
      direction := none
      inline := false
      body := [.outer (.byType (choices.map Prod.snd))] }] }

end Plan

end Bitonic
