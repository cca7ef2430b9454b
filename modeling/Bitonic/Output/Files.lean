import Bitonic.FileSystem.Basic
import Bitonic.Listing
import Bitonic.Run
/-!
# Output files

Every plan of a run goes to a file of its own.  It is written to a staging file that is moved into
place once the emitter has succeeded, so a unit that fails leaves no file behind, and the units
after it are still written.
-/

namespace Bitonic

/-- The file operations that writing plans needs. -/
class FileOps (m : Type → Type) where
  makeDirectories : FilePath → m (Except FileError Unit)
  writeFile : FilePath → ByteArray → m (Except FileError Unit)
  moveFile : FilePath → FilePath → m (Except FileError Unit)
  removeFile : FilePath → m (Except FileError Unit)

namespace FileSystem

/-- An operation that changes nothing if it is refused. -/
def update (op : FileSystem → Except FileError FileSystem) :
    StateM FileSystem (Except FileError Unit) := fun fs =>
  match op fs with
  | .ok fs => (.ok (), fs)
  | .error cause => (.error cause, fs)

instance : FileOps (StateM FileSystem) where
  makeDirectories path := fun fs => ((fs.makeDirectories path).2, (fs.makeDirectories path).1)
  writeFile path content := update (·.writeFile path content)
  moveFile source target := update (·.moveFile source target)
  removeFile path := update (·.removeFile path)

end FileSystem

/-- What an emitter does with a plan: the bytes that it writes and how it ends. -/
abbrev PlanEmitter := Plan → ByteArray × Outcome Unit

/-- The text followed by the lines before the first that is a fault, and that fault. -/
def Listing.appendTo (text : String) : List (Checked String) → String × Outcome Unit
  | [] => (text, .ok ())
  | .error fault :: _ => (text, .error (.fault fault))
  | .ok line :: rest => Listing.appendTo (text ++ line) rest

def PlanEmitter.listing : PlanEmitter := fun plan =>
  let (text, result) := Listing.appendTo "" (Listing.lines plan)
  (text.toUTF8, result)

structure WriteReport where
  /-- The files, in unit order. -/
  written : List FilePath := []
  /-- The units that failed and why. -/
  failed : List (String × GenerationError) := []

def WriteReport.isComplete (report : WriteReport) : Bool := report.failed.isEmpty

namespace GenerationRun

variable {m : Type → Type} [Monad m] [FileOps m]

/-- Writes one plan to the staging file and moves it into place. -/
def emitPlan (emitter : PlanEmitter) (plan : Plan) (staging target : FilePath) :
    m (Outcome Unit) := do
  let emitted (result : Except FileError Unit) : Outcome Unit :=
    result.mapError fun cause => .error (.emission plan.title cause)
  let (content, result) := emitter plan
  match ← FileOps.writeFile staging content with
  | .error cause => return emitted (.error cause)
  | .ok () =>
    match result with
    | .error failure => return .error failure
    | .ok () => return emitted (← FileOps.moveFile staging target)

/-- Writes plans one after the other and adds what became of them to a report. -/
def emitEach (emitter : PlanEmitter) (dir : FilePath) (extension : String) :
    List Plan → WriteReport → m (Outcome WriteReport)
  | [], report => return .ok report
  | plan :: rest, report => do
    let name := plan.fileName extension
    let target := dir.join (.ofText name)
    let staging := dir.join (.ofText (name ++ ".tmp"))
    match ← emitPlan emitter plan staging target with
    | .ok () =>
      emitEach emitter dir extension rest { report with written := report.written ++ [target] }
    | .error (.error cause) =>
      let _ ← FileOps.removeFile staging
      emitEach emitter dir extension rest
        { report with failed := report.failed ++ [(plan.title, cause)] }
    | .error (.fault fault) => return .error (.fault fault)

def emitPlans (emitter : PlanEmitter) (plans : List Plan) (dir : FilePath) (extension : String) :
    m (Outcome WriteReport) := do
  match ← FileOps.makeDirectories dir with
  | .error cause => return Outcome.fail (.emission dir.text cause)
  | .ok () => emitEach emitter dir extension plans {}

/-- Plans every unit and writes the plans; nothing is touched unless all units can be planned. -/
def write (run : GenerationRun) (emitter : PlanEmitter) (dir : FilePath) (extension : String) :
    m (Outcome WriteReport) :=
  match run.plans with
  | .error failure => return .error failure
  | .ok plans => emitPlans emitter plans dir extension

end GenerationRun

def listingSuffix : String := "lst"

end Bitonic
