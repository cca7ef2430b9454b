import Bitonic.FileSystem.Basic
import Bitonic.Proofs.Outcome
/-!
# Where paths lead

A path is followed from directory to directory, so where it leads depends on the directories of a
file system alone.

* `FileSystem.entry?_directory` — what a path leads to lies in a directory that exists;
* `FileSystem.locate_mono` — with more directories a path leads where it did;
* `FileSystem.place_join_inj` — different names in a directory lead to different places.
-/

namespace Bitonic

namespace Folder

theorem node?_append (folder : Folder) (place rest : Place) :
    folder.node? (place ++ rest) = below? (folder.node? place) rest := by
  induction place generalizing folder with
  | nil => rfl
  | cons name place ih =>
      rw [List.cons_append, node?_cons, node?_cons]
      cases folder.lookup name with
      | none => rfl
      | some node =>
          cases node with
          | directory inside => exact ih inside
          | file content =>
              cases place with
              | nil => rfl
              | cons step place => rfl

end Folder

namespace Position

variable {root : Folder} {p : Position}

/-- The names above lead from the root to the directory, through the folders that go with them. -/
def Reached (root inside : Folder) : List (String × Folder) → Prop
  | [] => inside = root
  | (name, outer) :: rest => outer.lookup name = some (.directory inside) ∧ Reached root outer rest

def In (root : Folder) (p : Position) : Prop := Reached root p.inside p.above

theorem In.node? (h : p.In root) : root.node? p.place = some (.directory p.inside) := by
  rcases p with ⟨inside, above⟩
  unfold In at h
  unfold place
  dsimp only at h ⊢
  induction above generalizing inside with
  | nil =>
      cases h
      rfl
  | cons entry above ih =>
      rw [List.map_cons, List.reverse_cons, Folder.node?_append, ih _ h.2]
      unfold Folder.below?
      dsimp only
      rw [Folder.node?_cons, h.1]
      rfl

theorem In.parent (h : p.In root) : p.parent.In root := by
  rcases p with ⟨inside, above⟩
  cases above with
  | nil => exact h
  | cons entry above => exact h.2

theorem place_parent (p : Position) : p.parent.place = p.place.dropLast := by
  rcases p with ⟨inside, above⟩
  cases above with
  | nil => rfl
  | cons entry above => simp [Position.parent, place]

end Position

namespace FileSystem

/-- Every directory of the one file system is one of the other. -/
structure DirectoriesIn (fs fs' : FileSystem) : Prop where
  workingDirectory : fs'.workingDirectory = fs.workingDirectory
  directory : ∀ {place}, fs.entry? place = some .directory → fs'.entry? place = some .directory

variable {fs fs' fs'' : FileSystem}

theorem DirectoriesIn.refl (fs : FileSystem) : fs.DirectoriesIn fs := ⟨rfl, id⟩

theorem DirectoriesIn.trans (h : fs.DirectoriesIn fs') (h' : fs'.DirectoriesIn fs'') :
    fs.DirectoriesIn fs'' :=
  ⟨h'.workingDirectory.trans h.workingDirectory, fun hdir => h'.directory (h.directory hdir)⟩

theorem entry?_place {p : Position} (h : p.In fs.root) : fs.entry? p.place = some .directory := by
  unfold entry?
  rw [h.node?]
  rfl

theorem entry?_place_append {p : Position} (h : p.In fs.root) (step : String) :
    fs.entry? (p.place ++ [step]) = (p.inside.lookup step).map FileNode.entry := by
  unfold entry?
  rw [Folder.node?_append, h.node?]
  unfold Folder.below?
  dsimp only
  rw [Folder.node?_cons, Folder.below?_nil]

theorem enter_mono (hdirs : fs.DirectoriesIn fs') {p p' q : Position} (hp : p.In fs.root)
    (hp' : p'.In fs'.root) (hplace : p'.place = p.place) {step : String}
    (h : p.enter step = .ok q) :
    q.In fs.root ∧ ∃ q', p'.enter step = .ok q' ∧ q'.In fs'.root ∧ q'.place = q.place := by
  unfold Position.enter at h ⊢
  by_cases hstay : (step == "" || step == ".") = true
  · rw [if_pos hstay] at h ⊢
    cases h
    exact ⟨hp, p', rfl, hp', hplace⟩
  rw [if_neg hstay] at h ⊢
  by_cases hup : (step == "..") = true
  · rw [if_pos hup] at h ⊢
    cases h
    refine ⟨hp.parent, p'.parent, rfl, hp'.parent, ?_⟩
    rw [Position.place_parent, Position.place_parent, hplace]
  rw [if_neg hup] at h ⊢
  rcases Outcome.bind_eq_ok_iff.1 h with ⟨_, hname, h⟩
  have hentry := entry?_place_append hp step
  have hentry' := entry?_place_append hp' step
  cases hlookup : p.inside.lookup step with
  | none =>
      rw [hlookup] at h
      cases h
  | some node =>
      rw [hlookup] at h hentry
      cases node with
      | file content => cases h
      | directory inside =>
          cases h
          rw [hplace, hdirs.directory hentry] at hentry'
          cases hlookup' : p'.inside.lookup step with
          | none =>
              rw [hlookup'] at hentry'
              cases hentry'
          | some node' =>
              rw [hlookup'] at hentry'
              cases node' with
              | file content => cases hentry'
              | directory inside' =>
                  refine ⟨⟨hlookup, hp⟩, _, Outcome.bind_of_ok hname _, ⟨hlookup', hp'⟩, ?_⟩
                  unfold Position.place at hplace ⊢
                  rw [List.map_cons, List.map_cons, List.reverse_cons, List.reverse_cons, hplace]

theorem walk_mono (hdirs : fs.DirectoriesIn fs') {p p' q : Position} (hp : p.In fs.root)
    (hp' : p'.In fs'.root) (hplace : p'.place = p.place) {steps : List String}
    (h : steps.foldlM Position.enter p = .ok q) :
    q.In fs.root ∧ ∃ q', steps.foldlM Position.enter p' = .ok q' ∧ q'.In fs'.root ∧
      q'.place = q.place := by
  induction steps generalizing p p' with
  | nil =>
      cases h
      exact ⟨hp, p', rfl, hp', hplace⟩
  | cons step steps ih =>
      rw [List.foldlM_cons] at h ⊢
      rcases Outcome.bind_eq_ok_iff.1 h with ⟨m, hm, h⟩
      rcases enter_mono hdirs hp hp' hplace hm with ⟨hin, m', hm', hin', hplace'⟩
      rcases ih hin hin' hplace' h with ⟨hq, q', hq', hrest⟩
      exact ⟨hq, q', (Outcome.bind_of_ok hm' _).trans hq', hrest⟩

/-- The directory that all but the last step of a path lead to. -/
def walk (fs : FileSystem) (path : FilePath) : Except FileError Position :=
  ((if path.isAbsolute then [] else fs.workingDirectory) ++ path.core.dropLast).foldlM
    Position.enter ⟨fs.root, []⟩

theorem walk_directoriesIn (hdirs : fs.DirectoriesIn fs') {path : FilePath} {q : Position}
    (h : fs.walk path = .ok q) :
    q.In fs.root ∧ ∃ q', fs'.walk path = .ok q' ∧ q'.place = q.place := by
  have hroot : Position.In fs.root ⟨fs.root, []⟩ := rfl
  have hroot' : Position.In fs'.root ⟨fs'.root, []⟩ := rfl
  rcases walk_mono hdirs hroot hroot' rfl h with ⟨hq, q', hq', _, hplace⟩
  refine ⟨hq, q', ?_, hplace⟩
  rwa [walk, hdirs.workingDirectory]

end FileSystem

namespace FilePath

/-- What the last step of a path names in the directory that the others lead to. -/
def endAt (path : FilePath) (p : Position) : Except FileError Destination :=
  match path.core.getLast? with
  | none => .ok ⟨p.place, none, path.endsInSlash⟩
  | some "." => .ok ⟨p.place, none, path.endsInSlash⟩
  | some ".." => .ok ⟨p.parent.place, none, path.endsInSlash⟩
  | some name => checkName name >>= fun _ => .ok ⟨p.place, some name, path.endsInSlash⟩

theorem endAt_congr (path : FilePath) {p p' : Position} (h : p'.place = p.place) :
    path.endAt p' = path.endAt p := by
  unfold endAt
  rw [Position.place_parent, Position.place_parent, h]

theorem directory_of_endAt {path : FilePath} {p : Position} {d : Destination}
    (h : path.endAt p = .ok d) : d.directory = p.place ∨ d.directory = p.parent.place := by
  unfold endAt at h
  split at h
  · cases h
    exact Or.inl rfl
  · cases h
    exact Or.inl rfl
  · cases h
    exact Or.inr rfl
  · rcases Outcome.bind_eq_ok_iff.1 h with ⟨_, _, h⟩
    cases h
    exact Or.inl rfl

/-- The text of the path is one that the system takes. -/
structure WellFormed (path : FilePath) : Prop where
  noNul : path.segments.any (·.contains '\x00') = false
  length : path.text.utf8ByteSize ≤ maxPathBytes
  notEmpty : path.isEmpty = false

end FilePath

namespace FileSystem

variable {fs fs' : FileSystem} {path : FilePath} {d : Destination}

theorem locate_eq_ok_iff : fs.locate path = .ok d ↔
    path.WellFormed ∧ ∃ p, fs.walk path = .ok p ∧ path.endAt p = .ok d := by
  have hrest : (fs.walk path >>= path.endAt) = .ok d ↔
      ∃ p, fs.walk path = .ok p ∧ path.endAt p = .ok d := Outcome.bind_eq_ok_iff
  rw [← hrest]
  unfold locate
  by_cases hnul : path.segments.any (·.contains '\x00') = true
  · rw [if_pos hnul]
    exact ⟨nofun, fun h => absurd h.1.noNul (Bool.not_eq_false _ ▸ hnul)⟩
  rw [if_neg hnul]
  by_cases hlength : maxPathBytes < path.text.utf8ByteSize
  · rw [if_pos hlength]
    exact ⟨nofun, fun h => absurd h.1.length (Nat.not_le.2 hlength)⟩
  rw [if_neg hlength]
  by_cases hempty : path.isEmpty = true
  · rw [if_pos hempty]
    exact ⟨nofun, fun h => absurd h.1.notEmpty (Bool.not_eq_false _ ▸ hempty)⟩
  rw [if_neg hempty]
  have hwell : path.WellFormed :=
    ⟨Bool.eq_false_iff.2 hnul, Nat.not_lt.1 hlength, Bool.eq_false_iff.2 hempty⟩
  rw [and_iff_right hwell]
  exact Iff.rfl

theorem locate_mono (hdirs : fs.DirectoriesIn fs') (h : fs.locate path = .ok d) :
    fs'.locate path = .ok d := by
  rcases locate_eq_ok_iff.1 h with ⟨hwell, p, hwalk, hend⟩
  rcases walk_directoriesIn hdirs hwalk with ⟨_, p', hwalk', hplace⟩
  exact locate_eq_ok_iff.2 ⟨hwell, p', hwalk', (path.endAt_congr hplace).trans hend⟩

theorem entry?_directory (h : fs.locate path = .ok d) :
    fs.entry? d.directory = some .directory := by
  rcases locate_eq_ok_iff.1 h with ⟨_, p, hwalk, hend⟩
  rcases walk_directoriesIn (.refl fs) hwalk with ⟨hin, _⟩
  rcases FilePath.directory_of_endAt hend with hdir | hdir
  · rw [hdir]
    exact entry?_place hin
  · rw [hdir]
    exact entry?_place hin.parent

end FileSystem

/-! ## Names in a directory -/

/-- The name is one step of a path that stays where it is. -/
structure FilePath.IsStep (name : String) : Prop where
  noSlash : '/' ∉ name.toList
  notEmpty : name ≠ ""
  notDot : name ≠ "."
  notDots : name ≠ ".."

namespace FilePath

variable {name name' : String}

theorem pieces_of_not_mem {letters : List Char} (h : '/' ∉ letters) :
    pieces letters = [letters] := by
  induction letters with
  | nil => rfl
  | cons c letters ih =>
      rw [List.mem_cons, not_or] at h
      unfold pieces
      split
      · next heq => cases heq
      · next heq =>
        cases heq
        exact absurd rfl h.1
      · next heq =>
        cases heq
        rw [ih h.2]

theorem ofText_of_isStep (h : IsStep name) : ofText name = ⟨[name]⟩ := by
  rw [ofText, pieces_of_not_mem h.noSlash, List.map_singleton, String.ofList_toList]

/-- The segments of a directory's path that stand before the name of what lies in it. -/
def leading (dir : FilePath) : List String :=
  if dir.segments.getLast? == some "" then dir.segments.dropLast else dir.segments

theorem join_of_isStep (dir : FilePath) (h : IsStep name) :
    dir.join (ofText name) = ⟨dir.leading ++ [name]⟩ := by
  rw [ofText_of_isStep h, join, if_neg (by simp [isAbsolute]), leading]
  split <;> rfl

theorem core_append_of_isStep (h : IsStep name) (steps : List String) :
    core ⟨steps ++ [name]⟩ = steps ++ [name] := by
  have hname : (name == "") = false := beq_eq_false_iff_ne.2 h.notEmpty
  rw [core, List.reverse_append, List.reverse_singleton, List.singleton_append,
    List.dropWhile_cons_of_neg (by rw [hname]; decide), List.reverse_cons, List.reverse_reverse]

theorem endAt_join (dir : FilePath) (h : IsStep name) (p : Position) :
    (dir.join (ofText name)).endAt p =
      checkName name >>= fun _ => .ok ⟨p.place, some name, false⟩ := by
  have hcore := core_append_of_isStep h dir.leading
  have hslash : endsInSlash ⟨dir.leading ++ [name]⟩ = false := by
    rw [endsInSlash, hcore]
    exact decide_eq_false (Nat.lt_irrefl _)
  rw [join_of_isStep dir h, endAt, hcore, List.getLast?_concat, hslash]
  split
  · next heq => cases heq
  · next heq => exact absurd (Option.some.inj heq) h.notDot
  · next heq => exact absurd (Option.some.inj heq) h.notDots
  · next heq =>
    cases heq
    rfl

end FilePath

namespace FileSystem

variable {fs : FileSystem} {dir : FilePath} {name name' : String} {d d' : Destination}

/-- The name in a directory is the name of what its path leads to. -/
theorem locate_join (h : FilePath.IsStep name)
    (hd : fs.locate (dir.join (.ofText name)) = .ok d) :
    d.name = some name ∧ d.endsInSlash = false := by
  rcases locate_eq_ok_iff.1 hd with ⟨_, p, _, hend⟩
  rw [FilePath.endAt_join dir h] at hend
  rcases Outcome.bind_eq_ok_iff.1 hend with ⟨_, _, hend⟩
  cases hend
  exact ⟨rfl, rfl⟩

theorem locate_join_eq_ok {p : Position} (h : FilePath.IsStep name)
    (hwell : (dir.join (.ofText name)).WellFormed) (hshort : name.utf8ByteSize ≤ maxNameBytes)
    (hwalk : fs.walk (dir.join (.ofText name)) = .ok p) :
    fs.locate (dir.join (.ofText name)) = .ok ⟨p.place, some name, false⟩ := by
  refine locate_eq_ok_iff.2 ⟨hwell, p, hwalk, ?_⟩
  rw [FilePath.endAt_join dir h, checkName, if_neg (Nat.not_lt.2 hshort)]
  rfl

theorem enter_of_isStep (h : FilePath.IsStep name) (hshort : name.utf8ByteSize ≤ maxNameBytes)
    {p : Position} {inside : Folder} (hinside : p.inside.lookup name = some (.directory inside)) :
    p.enter name = .ok ⟨inside, (name, p.inside) :: p.above⟩ := by
  have hmoves : ¬ (name == "" || name == ".") = true := by simp [h.notEmpty, h.notDot]
  have hdown : ¬ (name == "..") = true := by simp [h.notDots]
  rw [Position.enter, if_neg hmoves, if_neg hdown, checkName, if_neg (Nat.not_lt.2 hshort), hinside]
  rfl

theorem locate_in_folder {folder : String} {inside : Folder} (hstart : fs.workingDirectory = [])
    (hinside : fs.root.lookup folder = some (.directory inside)) (hfolder : FilePath.IsStep folder)
    (hfits : '\x00' ∉ folder.toList ∧ folder.utf8ByteSize ≤ maxNameBytes)
    (hname : FilePath.IsStep name)
    (hfits' : '\x00' ∉ name.toList ∧ name.utf8ByteSize ≤ maxNameBytes) :
    fs.locate ((FilePath.ofText folder).join (.ofText name)) =
      .ok ⟨[folder], some name, false⟩ := by
  have hpath : (FilePath.ofText folder).join (.ofText name) = ⟨[folder, name]⟩ := by
    rw [FilePath.join_of_isStep _ hname, FilePath.ofText_of_isStep hfolder, FilePath.leading,
      if_neg (by simp [hfolder.notEmpty])]
    rfl
  have hwell : FilePath.WellFormed ⟨[folder, name]⟩ := by
    refine ⟨by simp [hfits.1, hfits'.1], ?_, by simp [FilePath.isEmpty]⟩
    have htext : FilePath.text ⟨[folder, name]⟩ = folder ++ "/" ++ name := rfl
    have hslash : "/".utf8ByteSize = 1 := rfl
    have hshort := hfits.2
    have hshort' := hfits'.2
    rw [htext, String.utf8ByteSize_append, String.utf8ByteSize_append, hslash]
    rw [maxNameBytes] at hshort hshort'
    rw [maxPathBytes]
    omega
  have hwalk : fs.walk ⟨[folder, name]⟩ = .ok ⟨inside, [(folder, fs.root)]⟩ := by
    have hcore : FilePath.core ⟨[folder, name]⟩ = [folder, name] :=
      FilePath.core_append_of_isStep hname [folder]
    have hrelative : FilePath.isAbsolute ⟨[folder, name]⟩ = false := by
      simp [FilePath.isAbsolute, hfolder.notEmpty]
    have henter : Position.enter ⟨fs.root, []⟩ folder = .ok ⟨inside, [(folder, fs.root)]⟩ :=
      enter_of_isStep hfolder hfits.2 hinside
    rw [walk, hcore, hrelative, hstart]
    exact (Outcome.bind_of_ok henter _).trans rfl
  rw [← hpath] at hwell hwalk
  exact locate_join_eq_ok hname hwell hfits'.2 hwalk

theorem place_join_inj (h : FilePath.IsStep name) (h' : FilePath.IsStep name')
    (hd : fs.locate (dir.join (.ofText name)) = .ok d)
    (hd' : fs.locate (dir.join (.ofText name')) = .ok d') (hplace : d.place = d'.place) :
    name = name' := by
  unfold Destination.place at hplace
  rw [(locate_join h hd).1, (locate_join h' hd').1] at hplace
  exact List.singleton_inj.1 (List.append_inj_right' hplace rfl)

end FileSystem

end Bitonic
