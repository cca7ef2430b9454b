import Bitonic.Failure
import Bitonic.Network.StepText
/-!
# Messages

The one place where errors are put into words.
-/

namespace Bitonic

def Refusal.message : Refusal → String
  | noJobs => "jobs must be at least 1"
  | noIsaSelected => "no vector ISA selected"
  | isaSelectedTwice isa => s!"vector ISA {isa.name} selected twice"
  | unknownElement name => s!"unknown element type '{name}'"
  | unknownIsa name => s!"unknown vector ISA '{name}' (expected one of AVX2, AVX512, NEON)"
  | noElementTypes isa => s!"{isa.name} advertises no element types"
  | noVectors => "max_bitonic_sort_vectors must be at least 1"
  | vectorsAboveCeiling vectors isa ceiling element =>
      s!"max_bitonic_sort_vectors {vectors} exceeds the {isa.name} ceiling of {ceiling} " ++
        s!"for {element.name}"
  | mergerAboveIsaCeiling width isa ceiling element =>
      s!"largest_merge_variant_needed {width} exceeds the {isa.name} ceiling of {ceiling} " ++
        s!"for {element.name}"
  | mergerWiderThanVectors width vectors =>
      s!"largest_merge_variant_needed {width} is wider than max_bitonic_sort_vectors {vectors}"
  | widthOutOfRange key isa element vectors =>
      s!"{key.name} requested, widths for {isa.name}.{element.name} are 1..={vectors}"
  | mergerAboveCeiling key isa element ceiling =>
      s!"{key.name} requested, the merge ceiling for {isa.name}.{element.name} is {ceiling}"
  | emptyNetwork task => s!"{task.agent} has no vectors"
  | pairingLength isa pairing element lanes =>
      s!"{isa.name} pattern {pairing.text} has {pairing.length} lanes, " ++
        s!"{element.name} registers hold {lanes}"
  | pairingNotSelfInverse pairing =>
      s!"compare-exchange pattern {pairing.text} is not self-inverse"

def PlanDefect.message : PlanDefect → String
  | nothingToRun unit => s!"{unit} has no element type to simulate"
  | nothingToVerify unit => s!"{unit} has no element type to verify"
  | noLengthDispatch unit => s!"{unit} has no master dispatch"
  | wrongLaneCount routine expected found =>
      s!"{routine} works on {expected} lanes, got {found}"
  | loadTooSmall routine lanes length => s!"{routine} loads {lanes} lanes, input has {length}"
  | storeBeforeLoad routine => s!"{routine} stores before loading"
  | stepBeforeLoad routine => s!"{routine} runs before loading"
  | callTooDeep => "call depth exceeded"
  | registerOutOfRange register registers =>
      s!"stage touches register {register} of {registers}"
  | pairingMisfit pairing lanes =>
      s!"pattern {pairing.text} does not fit a {lanes}-lane register"
  | notNetworkStep step => s!"{step.text} is not a network step"
  | networkMissorted routine unit lanes => s!"{routine} in {unit} produced {termList lanes}"
  | lengthMissorted unit direction length lanes =>
      s!"{unit} {direction.name} of length {length} produced {termList lanes}"

def FileError.message : FileError → String
  | notFound => "No such file or directory (os error 2)"
  | alreadyExists => "File exists (os error 17)"
  | notADirectory => "Not a directory (os error 20)"
  | isADirectory => "Is a directory (os error 21)"
  | nameTooLong => "File name too long (os error 36)"
  | busy => "Device or resource busy (os error 16)"
  | nulInName => "file name contained an unexpected NUL byte"
  | other text => text

def GenerationError.message : GenerationError → String
  | configuration cause => "Invalid generator configuration: " ++ cause.message
  | unsupportedType isa element => s!"{isa.name} does not generate routines for {element.name}"
  | emission unit cause => s!"Failed to emit {unit}: {cause.message}"
  | typeMismatch expected found =>
      s!"Plan holds {expected.name} lanes, simulator was given {found.name}"
  | unknownRoutine name => s!"Routine not found in plan: {name}"
  | malformedPlan defect => "Malformed plan: " ++ defect.message

end Bitonic
