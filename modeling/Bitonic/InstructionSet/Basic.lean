/-!
# Vector instruction sets

The instruction sets that networks are generated for, and the ways in which their entry points deal
with a vector that is filled only in part.
-/

namespace Bitonic

inductive InstructionSet where
  | avx2
  | avx512
  | neon
  deriving DecidableEq

namespace InstructionSet

def all : List InstructionSet := [avx2, avx512, neon]

def name : InstructionSet → String
  | avx2 => "AVX2"
  | avx512 => "AVX512"
  | neon => "NEON"

def lowerName : InstructionSet → String
  | avx2 => "avx2"
  | avx512 => "avx512"
  | neon => "neon"

def ofLowerName? : String → Option InstructionSet
  | "avx2" => some avx2
  | "avx512" => some avx512
  | "neon" => some neon
  | _ => none

end InstructionSet

/-- How an entry point loads and stores the residual lanes of its last vector. -/
inductive ResidualMode where
  /-- Masked load and store instructions under a vector of lane masks. -/
  | maskedLoad
  /-- Predicate registers on every memory operation. -/
  | nativeMask
  /-- A copy through a scratch buffer that holds the sentinel. -/
  | scratchCopy
  deriving DecidableEq

namespace ResidualMode

def name : ResidualMode → String
  | maskedLoad => "masked-load"
  | nativeMask => "native-mask"
  | scratchCopy => "scratch-copy"

/-- The name as one word, as in the written form of a step. -/
def code : ResidualMode → String
  | maskedLoad => "MaskedLoad"
  | nativeMask => "NativeMask"
  | scratchCopy => "ScratchCopy"

end ResidualMode

end Bitonic
