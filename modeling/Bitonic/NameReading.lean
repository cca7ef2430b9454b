import Bitonic.Failure
/-!
# Reading names

Names of instruction sets and element types are read without regard to ASCII case, and for
instruction sets without regard to dashes.
-/

namespace Bitonic

/-- ASCII letters in lower case, all else unchanged. -/
def asciiLower (s : String) : String := s.map Char.toLower

def ScalarType.parse (s : String) : Except Refusal ScalarType :=
  match ofLowerName? (asciiLower s) with
  | some ty => .ok ty
  | none => .error (.unknownElement (asciiLower s))

def InstructionSet.parse (s : String) : Except Refusal InstructionSet :=
  let name := String.ofList ((asciiLower s).toList.filter (· != '-'))
  match ofLowerName? name with
  | some isa => .ok isa
  | none => .error (.unknownIsa name)

end Bitonic
