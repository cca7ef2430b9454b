import Bitonic.Settings
import Bitonic.InstructionSet.RegisterNetwork
import Bitonic.Network.Routine
/-!
# Synthesis of networks

All networks come from two recursions over the width.  `sort W D` sorts the first `splitPoint W`
vectors against `D` and the rest along `D`, and merges the whole.  `merge W D` takes the lane-wise
minimum and maximum of vector `i` and vector `i + splitPoint W` and merges both parts.  Width 1 is
the single-register network of the instruction set.

The first part is the power of two, so the run along `D` stands at the end and the input of every
merger stays bitonic if it is thought of as padded with last values up to the next power of two.
That makes every width exact.

A network that is a routine of the plan is called; any other is spliced in.
-/

namespace Bitonic

/-- What the sorters and mergers of one unit are made from. -/
structure Synthesis where
  profile : IsaProfile
  limits : UnitLimits

namespace Synthesis

def ofSettings (profile : IsaProfile) (ty : ScalarType) (settings : Settings) :
    Outcome Synthesis := do
  return ⟨profile, ← settings.limitsFor profile ty⟩

/-- Whether a network becomes a routine of its own.  Those of a single register do when nothing is
unrolled; wider ones from the unrolling width on, sorters up to the widest network and mergers up to
the widest merger. -/
def hasRoutine (s : Synthesis) (key : NetworkKey) : Bool :=
  if key.width = 0 || s.limits.widest < key.width then false
  else if key.width = 1 then s.limits.unroll == 0
  else if key.width < s.limits.unroll then false
  else match key.task with
    | .sort => true
    | .merge => key.width ≤ s.limits.widestMerger

def moved (offset : Nat) (steps : List Step) : Checked (List Step) :=
  steps.mapM (·.movedBy offset)

/-- A call of a network that is a routine, and otherwise its body, on the registers from `first`
on. -/
def callOrSplice (s : Synthesis) (key : NetworkKey) (first : Nat)
    (body : Unit → Outcome (List Step)) : Outcome (List Step) :=
  if s.hasRoutine key then return [.call key first] else do moved first (← body ())

def registerLayers (exchanges : List Exchange) : List Step :=
  exchanges.map fun exchange => .layer (.inside 0 exchange)

/-- Minimum and maximum of every vector of the second part and its counterpart in the first. -/
def halfCleaner (half rest : Nat) (direction : Direction) : List Step :=
  (List.range rest).map fun i => .layer (.between i (i + half) direction)

def mergeBody (s : Synthesis) (direction : Direction) (width : Nat) : Outcome (List Step) :=
  match width with
  | 0 => Outcome.refuse (.emptyNetwork .merge)
  | 1 => return registerLayers (← s.profile.registerMerger s.limits.element direction)
  | width + 2 => do
    let _ ← checkedSplitPoint (width + 2)
    let half := splitPoint (width + 2)
    let rest := width + 2 - half
    let low ← s.callOrSplice (.merge half direction) 0 fun _ => s.mergeBody direction half
    let high ← s.callOrSplice (.merge rest direction) half fun _ => s.mergeBody direction rest
    return halfCleaner half rest direction ++ low ++ high
termination_by width
decreasing_by
  · exact splitPoint_lt (by omega)
  · have : 0 < splitPoint (width + 2) := splitPoint_pos (by omega)
    omega

def sortBody (s : Synthesis) (direction : Direction) (width : Nat) : Outcome (List Step) :=
  match width with
  | 0 => Outcome.refuse (.emptyNetwork .sort)
  | 1 => return registerLayers (← s.profile.registerSorter s.limits.element direction)
  | width + 2 => do
    let _ ← checkedSplitPoint (width + 2)
    let half := splitPoint (width + 2)
    let rest := width + 2 - half
    let against ← s.callOrSplice (.sort half direction.reverse) 0 fun _ =>
      s.sortBody direction.reverse half
    let along ← s.callOrSplice (.sort rest direction) half fun _ => s.sortBody direction rest
    let merged ← s.callOrSplice (.merge (width + 2) direction) 0 fun _ =>
      s.mergeBody direction (width + 2)
    return against ++ along ++ merged
termination_by width
decreasing_by
  · exact splitPoint_lt (by omega)
  · have : 0 < splitPoint (width + 2) := splitPoint_pos (by omega)
    omega

def bodyOf (s : Synthesis) (key : NetworkKey) : Outcome (List Step) :=
  match key.task with
  | .sort => s.sortBody key.direction key.width
  | .merge => s.mergeBody key.direction key.width

/-- The steps that run a network on the registers from `first` on. -/
def invocation (s : Synthesis) (key : NetworkKey) (first : Nat) : Outcome (List Step) :=
  s.callOrSplice key first fun _ => s.bodyOf key

/-- The values of a list of computations up to the first that fails. -/
def leading {α : Type} : List (Checked α) → List α × Checked Unit
  | [] => ([], .ok ())
  | .error fault :: _ => ([], .error fault)
  | .ok a :: rest => let (as, result) := leading rest; (a :: as, result)

/-- Appends the steps that run a network to `out`.  Where a register number leaves 64 bits, the
steps before it are kept. -/
def appendInvocation (s : Synthesis) (key : NetworkKey) (first : Nat) (out : List Step) :
    List Step × Outcome Unit :=
  if s.hasRoutine key then (out ++ [.call key first], .ok ())
  else match s.bodyOf key with
    | .error failure => (out, .error failure)
    | .ok steps =>
      let (placed, result) := leading (steps.map (·.movedBy first))
      (out ++ placed, Outcome.ofChecked result)

def requireAvailable (s : Synthesis) (key : NetworkKey) : Outcome Unit :=
  let limits := s.limits
  if key.width = 0 || limits.widest < key.width then
    Outcome.refuse (.widthOutOfRange key limits.isa limits.element limits.widest)
  else if key.task = .merge && 1 < key.width && limits.widestMerger < key.width then
    Outcome.refuse (.mergerAboveCeiling key limits.isa limits.element limits.widestMerger)
  else return ()

def roleOf (key : NetworkKey) : RoutineRole :=
  if key.width = 1 then .registerNetwork
  else match key.task with
    | .sort => .sorter
    | .merge => .merger

/-- The routine for a network, whether or not the plan has it. -/
def routineOf (s : Synthesis) (key : NetworkKey) : Outcome Routine := do
  s.requireAvailable key
  let body ← s.bodyOf key
  return {
    name := key.name
    role := roleOf key
    key := some key
    width := key.width
    direction := some key.direction
    inline := s.limits.inlines key.width
    body }

def singleKeys : List NetworkKey := Direction.both.flatMap fun d => [.sort 1 d, .merge 1 d]

def compoundKeys (width : Nat) : List NetworkKey :=
  NetworkTask.all.flatMap fun task => Direction.both.map fun d => ⟨task, width, d⟩

def singleRoutines (s : Synthesis) : Outcome (List Routine) :=
  if s.limits.unroll < 1 then singleKeys.mapM s.routineOf else return []

def compoundRoutines (s : Synthesis) (width : Nat) : Outcome (List Routine) :=
  ((compoundKeys width).filter s.hasRoutine).mapM s.routineOf

/-- The sorters and mergers of the plan, by width. -/
def sortersAndMergers (s : Synthesis) : Outcome (List Routine) := do
  let single ← s.singleRoutines
  let perWidth ← Count.mapFrom s.compoundRoutines 2 (s.limits.widest - 1)
  return single ++ perWidth.flatten

end Synthesis

end Bitonic
