/-!
# Folders

What a directory holds, as a tree of named files and directories, and the places in it.  What is put
at a place is found there, and other places keep what they have.
-/

namespace Bitonic

/-- The names from the root to a file or directory. -/
abbrev Place := List String

inductive FileEntry where
  | directory
  | file (content : ByteArray)

instance : DecidableEq FileEntry
  | .directory, .directory => .isTrue rfl
  | .directory, .file _ => .isFalse nofun
  | .file _, .directory => .isFalse nofun
  | .file a, .file b =>
    match ByteArray.instDecidableEq a b with
    | .isTrue h => .isTrue (congrArg FileEntry.file h)
    | .isFalse h => .isFalse fun hfile => h (FileEntry.file.inj hfile)

/-- A file, or a directory with all that it holds. -/
inductive FileNode where
  | file (content : ByteArray)
  | directory (inside : List (String × FileNode))

def FileNode.entry : FileNode → FileEntry
  | file content => .file content
  | directory _ => .directory

/-- A file or an empty directory: nothing lies below it. -/
def FileNode.isLeaf : FileNode → Bool
  | .file _ => true
  | .directory inside => inside.isEmpty

/-- What a directory holds, each node under its name. -/
abbrev Folder := List (String × FileNode)

namespace Folder

/-- The folder with a node of the name in place of what was there, or with none. -/
def assign (folder : Folder) (name : String) (new? : Option FileNode) : Folder :=
  let others := folder.filter (·.1 != name)
  match new? with
  | some node => (name, node) :: others
  | none => others

theorem lookup_filter_ne (folder : Folder) (name other : String) :
    List.lookup other (folder.filter (·.1 != name)) =
      if other = name then none else List.lookup other folder := by
  induction folder with
  | nil => simp
  | cons entry rest ih =>
    obtain ⟨key, node⟩ := entry
    by_cases hkey : key = name
    · subst hkey
      by_cases hother : other = key
      · simpa [hother] using ih
      · simpa [List.lookup_cons, beq_false_of_ne hother, hother] using ih
    · by_cases hother : other = key
      · simp [hother, hkey]
      · simpa [List.filter_cons, hkey, List.lookup_cons, beq_false_of_ne hother] using ih

theorem lookup_assign (folder : Folder) (name other : String) (new? : Option FileNode) :
    List.lookup other (folder.assign name new?) =
      if other = name then new? else List.lookup other folder := by
  cases new? with
  | none => exact lookup_filter_ne folder name other
  | some node =>
    by_cases h : other = name
    · simp [assign, h]
    · simp [assign, lookup_filter_ne, List.lookup_cons, beq_false_of_ne h, h]

def node? (folder : Folder) : Place → Option FileNode
  | [] => some (.directory folder)
  | name :: rest =>
    match folder.lookup name with
    | some (.directory inside) => node? inside rest
    | some (.file content) => if rest.isEmpty then some (.file content) else none
    | none => none

/-- Puts a node at a place or removes what is there, if the place lies in a directory. -/
def replace (folder : Folder) (place : Place) (new? : Option FileNode) : Folder :=
  match place with
  | [] => folder
  | name :: rest =>
    if rest.isEmpty then folder.assign name new?
    else match folder.lookup name with
      | some (.directory inside) =>
        folder.assign name (some (.directory (replace inside rest new?)))
      | _ => folder

def below? (node? : Option FileNode) (place : Place) : Option FileNode :=
  match node? with
  | some (.directory inside) => Folder.node? inside place
  | some (.file content) => if place.isEmpty then some (.file content) else none
  | none => none

theorem node?_cons (folder : Folder) (name : String) (rest : Place) :
    folder.node? (name :: rest) = below? (folder.lookup name) rest := by
  rw [node?]
  rfl

theorem below?_of_isLeaf {node? : Option FileNode} (h : node?.all FileNode.isLeaf) {place : Place}
    (hplace : place ≠ []) : below? node? place = none := by
  cases place with
  | nil => exact absurd rfl hplace
  | cons name rest =>
    cases node? with
    | none => rfl
    | some node =>
      cases node with
      | file content => rfl
      | directory inside =>
        cases inside with
        | nil => rfl
        | cons entry others => simp [FileNode.isLeaf] at h

theorem below?_of_not_directory {node? : Option FileNode}
    (h : node?.map FileNode.entry ≠ some .directory) {place : Place} (hplace : place ≠ []) :
    below? node? place = none := by
  apply below?_of_isLeaf _ hplace
  cases node? with
  | none => rfl
  | some node => cases node <;> simp_all [FileNode.entry, FileNode.isLeaf]

theorem below?_nil (node? : Option FileNode) : below? node? [] = node? := by
  cases node? with
  | none => rfl
  | some node => cases node <;> rfl

/-- A leaf that is put where no directory is, or a file that is removed, changes nothing at any
other place. -/
theorem entry_node?_replace_of_ne {folder : Folder} {place other : Place} {new? : Option FileNode}
    (hfree : (folder.node? place).map FileNode.entry ≠ some .directory)
    (hnew : new?.all FileNode.isLeaf) (hne : other ≠ place) :
    ((folder.replace place new?).node? other).map FileNode.entry =
      (folder.node? other).map FileNode.entry := by
  induction place generalizing folder other with
  | nil => rfl
  | cons name rest ih =>
    cases other with
    | nil => rfl
    | cons step steps =>
      rw [node?_cons] at hfree
      rw [replace]
      by_cases hrest : rest = []
      · subst hrest
        rw [below?_nil] at hfree
        rw [List.isEmpty_nil, if_pos rfl, node?_cons, node?_cons, lookup_assign]
        split
        · next hstep =>
          subst hstep
          have hsteps : steps ≠ [] := fun h => hne (by rw [h])
          rw [below?_of_isLeaf hnew hsteps, below?_of_not_directory hfree hsteps]
        · rfl
      · rw [if_neg (by simpa using hrest)]
        split
        · next inside hinside =>
          rw [hinside] at hfree
          rw [node?_cons, node?_cons, lookup_assign]
          split
          · next hstep =>
            subst hstep
            rw [hinside]
            exact ih hfree (fun h => hne (by rw [h]))
          · rfl
        · rfl

/-- What is put at a place is found there, if the directory that the place lies in is there. -/
theorem node?_replace_self {folder : Folder} {place : Place} {name : String}
    (hdir : (folder.node? place).map FileNode.entry = some .directory) (new? : Option FileNode) :
    (folder.replace (place ++ [name]) new?).node? (place ++ [name]) = new? := by
  induction place generalizing folder with
  | nil =>
    rw [List.nil_append, replace, List.isEmpty_nil, if_pos rfl, node?_cons, lookup_assign,
      if_pos rfl, below?_nil]
  | cons step rest ih =>
    rw [node?_cons] at hdir
    rw [List.cons_append, replace, if_neg (by simp)]
    cases hstep : folder.lookup step with
    | none => rw [hstep] at hdir; simp [below?] at hdir
    | some node =>
      cases node with
      | file content =>
        rw [hstep, below?] at hdir
        split at hdir <;> simp [FileNode.entry] at hdir
      | directory inside =>
        rw [hstep] at hdir
        simp only
        rw [node?_cons, lookup_assign, if_pos rfl]
        exact ih hdir

end Folder

mutual

/-- A node and all that it holds, with the places that they have if the node is at `place`. -/
def FileNode.entries (place : Place) : FileNode → List (Place × FileEntry)
  | .file content => [(place, .file content)]
  | .directory inside => (place, .directory) :: Folder.entries place inside

def Folder.entries (place : Place) : Folder → List (Place × FileEntry)
  | [] => []
  | (name, node) :: rest => node.entries (place ++ [name]) ++ Folder.entries place rest

end

end Bitonic
