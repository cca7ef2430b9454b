import Bitonic.NameReading
import Bitonic.Failure.Message
import Bitonic.Text.ControlSequence
/-!
# Command-line options

The options of the command, the values that they take and what is wrong with a value that is
refused.
-/

namespace Bitonic.CommandLine

open Text (emphasize withoutControls)

inductive Opt where
  | vectorIsa
  | all
  | breakInline
  | unroll
  | maxVectors
  | mergeCeiling
  | outputDir
  | jobs
  | verify
  | dryRun
  | help
  | version
  deriving DecidableEq

/-- How many values an option takes. -/
inductive Arity where
  | none
  | one
  /-- One or more, up to the next option. -/
  | many
  deriving DecidableEq

namespace Opt

def options : List Opt :=
  [vectorIsa, all, breakInline, unroll, maxVectors, mergeCeiling, outputDir, jobs, verify, dryRun,
    help, version]

def long : Opt → String
  | vectorIsa => "vector-isa"
  | all => "all"
  | breakInline => "break-inline"
  | unroll => "unroll"
  | maxVectors => "max-vectors"
  | mergeCeiling => "merge-ceiling"
  | outputDir => "output-dir"
  | jobs => "jobs"
  | verify => "verify"
  | dryRun => "dry-run"
  | help => "help"
  | version => "version"

def short? : Opt → Option Char
  | outputDir => some 'o'
  | jobs => some 'j'
  | help => some 'h'
  | version => some 'V'
  | _ => none

def ofLong? (name : String) : Option Opt := options.find? (·.long == name)

def ofShort? (c : Char) : Option Opt := options.find? (·.short? == some c)

def arity : Opt → Arity
  | vectorIsa => .many
  | breakInline | unroll | maxVectors | mergeCeiling | outputDir | jobs => .one
  | all | verify | dryRun | help | version => .none

def repeats : Opt → Bool
  | vectorIsa | mergeCeiling => true
  | _ => false

def usage : Opt → String
  | vectorIsa => "--vector-isa <ISA>..."
  | breakInline => "--break-inline <BREAK_INLINE>"
  | unroll => "--unroll <UNROLL>"
  | maxVectors => "--max-vectors <MAX_VECTORS>"
  | mergeCeiling => "--merge-ceiling <ISA=N>"
  | outputDir => "--output-dir <OUTPUT_DIR>"
  | jobs => "--jobs <JOBS>"
  | option => "--" ++ option.long

end Opt

inductive CountError where
  | empty
  | invalidDigit
  | tooLarge
  deriving DecidableEq

def CountError.message : CountError → String
  | empty => "cannot parse integer from empty string"
  | invalidDigit => "invalid digit found in string"
  | tooLarge => "number too large to fit in target type"

/-- Reads decimal digits after `value`, and refuses the first that is none or leaves 64 bits. -/
def readDigits (value : Nat) : List Char → Except CountError Nat
  | [] => .ok value
  | c :: rest =>
    if !c.isDigit then .error .invalidDigit
    else
      let value := 10 * value + (c.toNat - '0'.toNat)
      if Count.limit ≤ value then .error .tooLarge else readDigits value rest

/-- Reads a count, which may have a plus sign. -/
def readCount (text : String) : Except CountError Nat :=
  match text.toList with
  | [] => .error .empty
  | ['+'] => .error .invalidDigit
  | '+' :: digits => readDigits 0 digits
  | digits => readDigits 0 digits

/-- Why an argument list is refused. -/
inductive UsageError where
  | unexpectedArgument (argument : String)
  | unexpectedValue (value : String) (option : Opt)
  | missingValue (option : Opt)
  | invalidValue (value : String) (option : Opt) (reason : String)
  | givenTwice (option : Opt)
  | conflict (option other : Opt)
  deriving DecidableEq

/-- What is wrong, with the arguments and options in it set off. -/
def UsageError.message : UsageError → String
  | unexpectedArgument argument => s!"unexpected argument '{emphasize argument}' found"
  | unexpectedValue value option =>
      s!"unexpected value '{emphasize value}' for '{emphasize option.usage}' found; " ++
        "no more were expected"
  | missingValue option =>
      s!"a value is required for '{emphasize option.usage}' but none was supplied"
  | invalidValue value option reason =>
      s!"invalid value '{emphasize value}' for '{emphasize option.usage}': {reason}"
  | givenTwice option =>
      s!"the argument '{emphasize option.usage}' cannot be used multiple times"
  | conflict option other =>
      s!"the argument '{emphasize option.usage}' cannot be used with '{emphasize other.usage}'"

/-- The message and a hint, for an output that is no terminal. -/
def UsageError.report (cause : UsageError) : String :=
  withoutControls (emphasize "error:" ++ " " ++ cause.message ++
    s!"\n\nFor more information, try '{emphasize Opt.help.usage}'.\n")

structure Request where
  isas : List InstructionSet := []
  all : Bool := false
  breakInline : Nat := 0
  unroll : Nat := 0
  maxVectors : Option Nat := none
  mergeCeilings : List (InstructionSet × Nat) := []
  outputDir : String := ".."
  jobs : Option Nat := none
  verify : Bool := false
  dryRun : Bool := false
  deriving DecidableEq

def configurationMessage (cause : Refusal) : String :=
  (GenerationError.configuration cause).message

/-- Reads an instruction set and a width with an equals sign between them. -/
def readMergeCeiling (text : String) : Except String (InstructionSet × Nat) :=
  let isa := text.toList.takeWhile (· != '=')
  match text.toList.dropWhile (· != '=') with
  | [] => .error s!"expected ISA=N, got '{text}'"
  | _ :: width =>
    match InstructionSet.parse (String.ofList isa) with
    | .error cause => .error (configurationMessage cause)
    | .ok isa =>
      let width := String.ofList width
      match readCount width with
      | .error cause => .error s!"invalid merger width '{width}': {cause.message}"
      | .ok n => .ok (isa, n)

namespace Request

def addValue (r : Request) (option : Opt) (value : String) : Except UsageError Request :=
  let count : Except UsageError Nat :=
    (readCount value).mapError fun cause => .invalidValue value option cause.message
  match option with
  | .vectorIsa =>
    match InstructionSet.parse value with
    | .ok isa => .ok { r with isas := r.isas ++ [isa] }
    | .error cause => .error (.invalidValue value option (configurationMessage cause))
  | .mergeCeiling =>
    match readMergeCeiling value with
    | .ok ceiling => .ok { r with mergeCeilings := r.mergeCeilings ++ [ceiling] }
    | .error reason => .error (.invalidValue value option reason)
  | .outputDir =>
    if value.isEmpty then .error (.missingValue option) else .ok { r with outputDir := value }
  | .breakInline => return { r with breakInline := ← count }
  | .unroll => return { r with unroll := ← count }
  | .maxVectors => return { r with maxVectors := some (← count) }
  | .jobs => return { r with jobs := some (← count) }
  | .all => .ok { r with all := true }
  | .verify => .ok { r with verify := true }
  | .dryRun => .ok { r with dryRun := true }
  | .help | .version => .ok r

end Request

end Bitonic.CommandLine
