/-!
# Paths

A path is what stands between the slashes of its text.  An absolute path starts with an empty
segment, a path that names a directory by a trailing slash ends with one, and the empty text is a
single empty segment, so the text can be put together again.
-/

namespace Bitonic

structure FilePath where
  segments : List String
  deriving DecidableEq

namespace FilePath

/-- The pieces between slashes; there is always at least one. -/
def pieces : List Char → List (List Char)
  | [] => [[]]
  | '/' :: rest => [] :: pieces rest
  | c :: rest =>
    match pieces rest with
    | [] => [[c]]
    | piece :: others => (c :: piece) :: others

def ofText (text : String) : FilePath := ⟨(pieces text.toList).map String.ofList⟩

def text (p : FilePath) : String := "/".intercalate p.segments

def isEmpty (p : FilePath) : Bool := p.segments == [""]

def isAbsolute (p : FilePath) : Bool := 2 ≤ p.segments.length && p.segments.head? == some ""

def join (dir name : FilePath) : FilePath :=
  if name.isAbsolute then name
  else if dir.segments.getLast? == some "" then ⟨dir.segments.dropLast ++ name.segments⟩
  else ⟨dir.segments ++ name.segments⟩

/-- The segments without trailing slashes. -/
def core (p : FilePath) : List String := (p.segments.reverse.dropWhile (· == "")).reverse

def endsInSlash (p : FilePath) : Bool := p.core.length < p.segments.length

/-- The segments that say something: empty ones are left out, and so is a dot unless the path starts
with it. -/
def steps (p : FilePath) : List String :=
  match p.segments with
  | [] => []
  | first :: rest =>
    let rest := rest.filter fun s => s != "" && s != "."
    if first == "" then rest else first :: rest

/-- The path of some steps, seen from where this path starts. -/
def withSteps (p : FilePath) (steps : List String) : FilePath :=
  if p.isAbsolute then ⟨"" :: (if steps.isEmpty then [""] else steps)⟩
  else ⟨if steps.isEmpty then [""] else steps⟩

/-- The path and the directories that it runs through, longest first and without the empty path. -/
def ancestors (p : FilePath) : List FilePath :=
  let steps := p.steps
  let shorter := (List.range steps.length).reverse.map fun n => p.withSteps (steps.take n)
  p :: shorter.filter fun q => !q.isEmpty

end FilePath

end Bitonic
