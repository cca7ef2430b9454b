import Bitonic.Failure
/-!
# Instruction set profiles

A profile says what a vector instruction set offers to network generation: the element types, the
geometry of its registers and the widest networks that its registers allow.  Every question about an
element type is refused unless the type is supported.
-/

namespace Bitonic

structure IsaProfile where
  isa : InstructionSet
  /-- Supported types, in generation order. -/
  scalarTypes : List ScalarType
  /-- Bytes in a register. -/
  registerBytes : Nat
  /-- Bytes in a group inside which lanes are moved cheaply. -/
  groupBytes : Nat
  /-- Registers of the machine. -/
  registers : Nat
  /-- The widest network that the registers allow. -/
  vectorCeiling : ScalarType → Nat
  /-- The widest merger that the registers allow, where it is not the split of the widest
  network. -/
  mergerCeiling : ScalarType → Option Nat
  residualMode : ScalarType → ResidualMode
  /-- Whether a lane-wise minimum or maximum is a single instruction. -/
  hasMinMax : ScalarType → Bool

namespace IsaProfile

variable (profile : IsaProfile) (ty : ScalarType)

def offers : Bool := profile.scalarTypes.contains ty

def requireType : Outcome Unit :=
  if profile.offers ty then .ok () else Outcome.fail (.unsupportedType profile.isa ty)

def lanes : Outcome Nat := do
  profile.requireType ty
  return profile.registerBytes / ty.byteSize

def widest : Outcome Nat := do
  profile.requireType ty
  return profile.vectorCeiling ty

/-- The widest merger.  A sorter needs none wider than its own split. -/
def widestMerger : Outcome Nat := do
  let vectors ← profile.widest ty
  match profile.mergerCeiling ty with
  | some width => return width
  | none => checkedSplitPoint vectors

def residualModeFor : Outcome ResidualMode := do
  profile.requireType ty
  return profile.residualMode ty

def hasMinMaxFor : Outcome Bool := do
  profile.requireType ty
  return profile.hasMinMax ty

/-- Lanes in one of the groups inside which lanes are moved cheaply. -/
def groupLanes : Nat := max (profile.groupBytes / ty.byteSize) 1

def reversal : Outcome Pairing := do
  Pairing.reversal (← profile.lanes ty)

end IsaProfile

namespace InstructionSet

/-- 256-bit registers in two cheap groups; no 64-bit integer minimum. -/
def avx2Profile : IsaProfile where
  isa := avx2
  scalarTypes := ScalarType.all
  registerBytes := 32
  groupBytes := 16
  registers := 16
  vectorCeiling _ := 16
  mergerCeiling _ := none
  residualMode _ := .maskedLoad
  hasMinMax ty := !(ty matches .int64 | .uint64)

/-- 512-bit registers in four cheap groups, half of the file left for temporaries. -/
def avx512Profile : IsaProfile where
  isa := avx512
  scalarTypes := ScalarType.all
  registerBytes := 64
  groupBytes := 16
  registers := 32
  vectorCeiling _ := 16
  mergerCeiling _ := none
  residualMode _ := .nativeMask
  hasMinMax _ := true

/-- 128-bit registers that are one cheap group; 64-bit integers are not generated. -/
def neonProfile : IsaProfile where
  isa := neon
  scalarTypes := [.int32, .uint32, .float, .double]
  registerBytes := 16
  groupBytes := 16
  registers := 32
  vectorCeiling _ := 16
  mergerCeiling _ := none
  residualMode _ := .scratchCopy
  hasMinMax _ := true

def profile : InstructionSet → IsaProfile
  | avx2 => avx2Profile
  | avx512 => avx512Profile
  | neon => neonProfile

theorem isa_profile (isa : InstructionSet) : isa.profile.isa = isa := by cases isa <;> rfl

end InstructionSet

end Bitonic
