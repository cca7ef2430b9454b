import Bitonic.CommandLine.Parse
import Bitonic.Output.Files
import Bitonic.Verify
/-!
# Running the command

The command plans every selected unit, verifies the plans if asked to, and writes a listing for each
of them or, in a dry run, reports their sizes.
-/

namespace Bitonic.CommandLine

structure CommandResult where
  exitCode : Nat
  stdout : String := ""
  stderr : String := ""
  deriving DecidableEq

namespace Request

def settings (r : Request) : Settings :=
  let base :=
    if r.all || r.isas.isEmpty then ({} : Settings) else Settings.only r.isas
  let base := { base with
    inlineBreak := r.breakInline
    unroll := r.unroll
    widest := r.maxVectors
    jobs := r.jobs.getD base.jobs }
  r.mergeCeilings.foldl (fun settings (isa, width) => settings.withWidestMerger isa width) base

end Request

/-- A cause behind its label; the lines after the first are moved to the right. -/
def causeText (label indent cause : String) : String :=
  let indented := cause.toList.map fun c => if c == '\n' then "\n" ++ indent else c.toString
  label ++ String.join indented ++ "\n"

/-- An error and its causes; several causes are numbered from 0. -/
def errorReport (context : String) (causes : List String) : String :=
  let texts := match causes with
    | [cause] => [causeText "    " "    " cause]
    | causes => causes.mapIdx fun i cause => causeText s!"    {i}: " "       " cause
  if texts.isEmpty then s!"Error: {context}\n"
  else s!"Error: {context}\n\nCaused by:\n" ++ String.join texts

def causeChain : GenerationError → List String
  | .emission unit cause => [(GenerationError.emission unit cause).message, cause.message]
  | e => [e.message]

def abort (context : String) : Failure → CommandResult
  | .error e => { exitCode := 1, stderr := errorReport context (causeChain e) }
  | .fault fault => { exitCode := 101, stderr := (fault.precondition?.getD "fault") ++ "\n" }

/-- The end of a run in a given context, if it fails, and what comes next. -/
def attempt {α : Type} {m : Type → Type} [Monad m] (context : String) (result : Outcome α)
    (next : α → m CommandResult) : m CommandResult :=
  match result with
  | .ok a => next a
  | .error failure => return abort context failure

def dryRunReport (plans : List Plan) : String :=
  String.join (plans.map fun plan => s!"{plan.title}: {plan.routines.length} routines\n")

def writeResult (report : WriteReport) : CommandResult :=
  if report.isComplete then { exitCode := 0 }
  else
    let lines := report.failed.map fun (unit, cause) => s!"{unit}: {cause.message}\n"
    let count := report.failed.length
    { exitCode := 1
      stderr := String.join lines ++ errorReport s!"{count} units failed to emit" [] }

variable {m : Type → Type} [Monad m] [FileOps m]

def runRequest (r : Request) : m CommandResult :=
  attempt "Invalid configuration" (GenerationRun.ofSettings r.settings) fun run =>
  attempt "Failed to plan routines" run.plans fun plans =>
  attempt "Plan verification failed"
    (if r.verify then Plan.verifyEach plans .addressable else .ok []) fun _ => do
  if r.dryRun then return { exitCode := 0, stdout := dryRunReport plans }
  else
    let dir := FilePath.ofText r.outputDir
    let result ← GenerationRun.emitPlans PlanEmitter.listing plans dir listingSuffix
    attempt s!"Failed to generate into {r.outputDir}" result fun report =>
      return writeResult report

def helpText : String :=
  "Generates bitonic sort/merge networks for SIMD vector ISAs\n\n" ++
    "Usage: bitonic-gen [OPTIONS]\n\nOptions:\n" ++
    String.join (Opt.options.map fun option => s!"  {option.usage}\n")

def runCommand (arguments : List String) : m CommandResult :=
  match parse arguments with
  | .error cause => return { exitCode := 2, stderr := cause.report }
  | .ok .help => return { exitCode := 0, stdout := helpText }
  | .ok .version => return { exitCode := 0, stdout := s!"bitonic-gen {toolVersion}\n" }
  | .ok (.run request) => runRequest request

end Bitonic.CommandLine
