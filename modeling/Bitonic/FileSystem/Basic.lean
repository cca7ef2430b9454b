import Bitonic.Failure
import Bitonic.FileSystem.Folder
import Bitonic.FileSystem.Path
/-!
# File systems

A tree of directories and regular files, with the operations that writing plans needs and the
reasons for which they are refused.  An operation that is refused changes nothing, except that
making a chain of directories keeps the ones that it made.
-/

namespace Bitonic

structure FileSystem where
  /-- What the root directory holds. -/
  root : Folder := []
  /-- Where paths that are not absolute start. -/
  workingDirectory : Place := []

/-- A directory that a path has come to. -/
structure Position where
  inside : Folder
  /-- The names that lead here from the root and the folders that they are in, last one first. -/
  above : List (String × Folder) := []

/-- What a path leads to: a name in a directory, or the directory itself if the path ends in a step
without a name. -/
structure Destination where
  directory : Place
  name : Option String
  endsInSlash : Bool

def Destination.place (d : Destination) : Place := d.directory ++ d.name.toList

def maxNameBytes : Nat := 255

def maxPathBytes : Nat := 4095

def checkName (name : String) : Except FileError Unit :=
  if maxNameBytes < name.utf8ByteSize then .error .nameTooLong else .ok ()

namespace Position

def place (p : Position) : Place := (p.above.map (·.1)).reverse

/-- The directory that this one is in; the root is in itself. -/
def parent (p : Position) : Position :=
  match p.above with
  | [] => p
  | (_, outer) :: rest => ⟨outer, rest⟩

def enter (p : Position) (step : String) : Except FileError Position := do
  if step == "" || step == "." then return p
  else if step == ".." then return p.parent
  else
    checkName step
    match p.inside.lookup step with
    | some (.directory inside) => return ⟨inside, (step, p.inside) :: p.above⟩
    | some (.file _) => throw .notADirectory
    | none => throw .notFound

end Position

namespace FileSystem

def entry? (fs : FileSystem) (place : Place) : Option FileEntry :=
  (fs.root.node? place).map FileNode.entry

def entries (fs : FileSystem) : List (Place × FileEntry) := Folder.entries [] fs.root

def put (fs : FileSystem) (place : Place) (node : FileNode) : FileSystem :=
  { fs with root := fs.root.replace place (some node) }

def erase (fs : FileSystem) (place : Place) : FileSystem :=
  { fs with root := fs.root.replace place none }

/-- What a path leads to.  All but its last step has to exist. -/
def locate (fs : FileSystem) (path : FilePath) : Except FileError Destination := do
  if path.segments.any (·.contains '\x00') then throw .nulInName
  if maxPathBytes < path.text.utf8ByteSize then throw .nameTooLong
  if path.isEmpty then throw .notFound
  let start := if path.isAbsolute then [] else fs.workingDirectory
  let position ← (start ++ path.core.dropLast).foldlM Position.enter ⟨fs.root, []⟩
  match path.core.getLast? with
  | none => return ⟨position.place, none, path.endsInSlash⟩
  | some "." => return ⟨position.place, none, path.endsInSlash⟩
  | some ".." => return ⟨position.parent.place, none, path.endsInSlash⟩
  | some name =>
    checkName name
    return ⟨position.place, some name, path.endsInSlash⟩

def isDirectory (fs : FileSystem) (path : FilePath) : Bool :=
  match fs.locate path with
  | .ok destination => fs.entry? destination.place == some .directory
  | .error _ => false

def makeDirectory (fs : FileSystem) (path : FilePath) : Except FileError FileSystem := do
  let destination ← fs.locate path
  if (fs.entry? destination.place).isSome then throw .alreadyExists
  return fs.put destination.place (.directory [])

/-- Makes a directory, and first those of the following paths if it has no place yet. -/
def makeChain (fs : FileSystem) : List FilePath → FileSystem × Except FileError Unit
  | [] => (fs, .ok ())
  | path :: shorter =>
    let settle (fs : FileSystem) (cause : FileError) : FileSystem × Except FileError Unit :=
      (fs, if fs.isDirectory path then .ok () else .error cause)
    match fs.makeDirectory path with
    | .ok fs => (fs, .ok ())
    | .error .notFound =>
      match fs.makeChain shorter with
      | (fs, .error cause) => (fs, .error cause)
      | (fs, .ok ()) =>
        match fs.makeDirectory path with
        | .ok fs => (fs, .ok ())
        | .error cause => settle fs cause
    | .error cause => settle fs cause

/-- Makes a directory with all that it lies in; one that exists is left as it is. -/
def makeDirectories (fs : FileSystem) (path : FilePath) : FileSystem × Except FileError Unit :=
  if path.isEmpty then (fs, .ok ()) else fs.makeChain path.ancestors

/-- Makes a file with the given content or replaces that of an existing one. -/
def writeFile (fs : FileSystem) (path : FilePath) (content : ByteArray) :
    Except FileError FileSystem := do
  let destination ← fs.locate path
  if destination.name.isNone || destination.endsInSlash then throw .isADirectory
  if fs.entry? destination.place == some .directory then throw .isADirectory
  return fs.put destination.place (.file content)

/-- Moves a file to another path and replaces the file there. -/
def moveFile (fs : FileSystem) (source target : FilePath) : Except FileError FileSystem := do
  let source ← fs.locate source
  let target ← fs.locate target
  if source.name.isNone || target.name.isNone then throw .busy
  match fs.entry? source.place with
  | none => throw .notFound
  | some .directory => throw .isADirectory
  | some (.file content) =>
    if source.endsInSlash || target.endsInSlash then throw .notADirectory
    if fs.entry? target.place == some .directory then throw .isADirectory
    return (fs.erase source.place).put target.place (.file content)

def removeFile (fs : FileSystem) (path : FilePath) : Except FileError FileSystem := do
  let destination ← fs.locate path
  if destination.name.isNone then throw .isADirectory
  match fs.entry? destination.place with
  | none => throw .notFound
  | some .directory => throw .isADirectory
  | some (.file _) =>
    if destination.endsInSlash then throw .notADirectory
    return fs.erase destination.place

end FileSystem

end Bitonic
