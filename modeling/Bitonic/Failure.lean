import Bitonic.Fault
import Bitonic.Network.Step
/-!
# Failures

What can go wrong, as causes.  A generation error is an answer to the caller; a fault is none, and
the two stay apart in `Failure`.  The wording is in `Bitonic.Failure.Message`.
-/

namespace Bitonic

/-- Why a configuration or a request is refused. -/
inductive Refusal where
  | noJobs
  | noIsaSelected
  | isaSelectedTwice (isa : InstructionSet)
  | unknownElement (name : String)
  | unknownIsa (name : String)
  | noElementTypes (isa : InstructionSet)
  | noVectors
  | vectorsAboveCeiling (vectors : Nat) (isa : InstructionSet) (ceiling : Nat)
      (element : ScalarType)
  | mergerAboveIsaCeiling (width : Nat) (isa : InstructionSet) (ceiling : Nat)
      (element : ScalarType)
  | mergerWiderThanVectors (width vectors : Nat)
  | widthOutOfRange (key : NetworkKey) (isa : InstructionSet) (element : ScalarType) (vectors : Nat)
  | mergerAboveCeiling (key : NetworkKey) (isa : InstructionSet) (element : ScalarType)
      (ceiling : Nat)
  | emptyNetwork (task : NetworkTask)
  | pairingLength (isa : InstructionSet) (pairing : Pairing) (element : ScalarType) (lanes : Nat)
  | pairingNotSelfInverse (pairing : Pairing)
  deriving DecidableEq

/-- Why a plan cannot be run, or what a run of it got wrong. -/
inductive PlanDefect where
  | nothingToRun (unit : String)
  | nothingToVerify (unit : String)
  | noLengthDispatch (unit : String)
  | wrongLaneCount (routine : String) (expected found : Nat)
  | loadTooSmall (routine : String) (lanes length : Nat)
  | storeBeforeLoad (routine : String)
  | stepBeforeLoad (routine : String)
  | callTooDeep
  | registerOutOfRange (register registers : Nat)
  | pairingMisfit (pairing : Pairing) (lanes : Nat)
  | notNetworkStep (step : OuterStep)
  | networkMissorted (routine unit : String) (lanes : List String)
  | lengthMissorted (unit : String) (direction : Direction) (length : Nat) (lanes : List String)
  deriving DecidableEq

/-- Why a file operation failed. -/
inductive FileError where
  | notFound
  | alreadyExists
  | notADirectory
  | isADirectory
  | nameTooLong
  | busy
  | nulInName
  | other (text : String)
  deriving DecidableEq

inductive GenerationError where
  | configuration (cause : Refusal)
  | unsupportedType (isa : InstructionSet) (element : ScalarType)
  | emission (unit : String) (cause : FileError)
  | typeMismatch (expected found : ScalarType)
  | unknownRoutine (name : String)
  | malformedPlan (defect : PlanDefect)
  deriving DecidableEq

namespace GenerationError

/-- Whether the error arises before any output can be produced. -/
def precedesOutput : GenerationError → Bool
  | configuration _ | unsupportedType _ _ => true
  | _ => false

end GenerationError

inductive Failure where
  | error (error : GenerationError)
  | fault (fault : Fault)
  deriving DecidableEq

/-- Computations that may fail with an error or run into a fault. -/
abbrev Outcome := Except Failure

namespace Outcome

variable {α : Type}

def ofChecked : Checked α → Outcome α
  | .ok a => .ok a
  | .error f => .error (.fault f)

instance : MonadLift Checked Outcome := ⟨ofChecked⟩

def fail (e : GenerationError) : Outcome α := .error (.error e)

def refuse (cause : Refusal) : Outcome α := fail (.configuration cause)

def defective (defect : PlanDefect) : Outcome α := fail (.malformedPlan defect)

@[simp] theorem ofChecked_ok (a : α) : ofChecked (.ok a) = .ok a := rfl

@[simp] theorem ofChecked_error (f : Fault) :
    ofChecked (.error f : Checked α) = Except.error (Failure.fault f) := rfl

end Outcome

end Bitonic
