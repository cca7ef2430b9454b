import Bitonic.Proofs.FileSystem.Locate
/-!
# What file operations change

An operation on a file finds the place of the file by its path, `FileSystem.filePlace?`, changes
what is at that place, and is refused otherwise.  Directories stay, so paths lead where they did.

* `FileSystem.entry?_put`, `FileSystem.entry?_erase` — no other place changes;
* `FileSystem.writeFile_eq_ok`, `FileSystem.moveFile_eq_ok`, `FileSystem.removeFile_eq_ok` — the
  operations in these terms;
* `FileSystem.makeDirectories_adds` — making directories adds directories on the way and does
  nothing else.
-/

namespace Bitonic

namespace FileSystem

variable {fs fs' fs'' : FileSystem} {path : FilePath} {place : Place} {d : Destination}
  {content : ByteArray}

def at? (fs : FileSystem) (path : FilePath) : Option FileEntry :=
  match fs.locate path with
  | .ok d => fs.entry? d.place
  | .error _ => none

theorem at?_eq (h : fs.locate path = .ok d) : fs.at? path = fs.entry? d.place := by
  rw [at?, h]

/-- The place of a path, if a regular file is or may be there. -/
def filePlace? (fs : FileSystem) (path : FilePath) : Option Place :=
  match fs.locate path with
  | .ok d =>
    if d.name.isSome = true ∧ d.endsInSlash = false ∧ fs.entry? d.place ≠ some .directory then
      some d.place
    else none
  | .error _ => none

theorem filePlace?_eq_some_iff : fs.filePlace? path = some place ↔
    ∃ d, fs.locate path = .ok d ∧ d.place = place ∧ d.name.isSome = true ∧
      d.endsInSlash = false ∧ fs.entry? place ≠ some .directory := by
  unfold filePlace?
  constructor
  · intro h
    split at h
    · next d hd =>
      split at h
      · next hfile =>
        cases h
        exact ⟨d, hd, rfl, hfile⟩
      · cases h
    · cases h
  · rintro ⟨d, hd, rfl, hfile⟩
    rw [hd]
    exact if_pos hfile

theorem isSome_filePlace? {directory : Place} {name : String}
    (h : fs.locate path = .ok ⟨directory, some name, false⟩) :
    (fs.filePlace? path).isSome =
      decide (fs.entry? (directory ++ [name]) ≠ some .directory) := by
  rw [filePlace?, h]
  by_cases hentry : fs.entry? (directory ++ [name]) = some .directory
  · rw [decide_eq_false (not_not.2 hentry)]
    exact congrArg Option.isSome (if_neg fun hfile => hfile.2.2 hentry)
  · rw [decide_eq_true hentry]
    exact congrArg Option.isSome (if_pos ⟨rfl, rfl, hentry⟩)

/-- A place in a directory that is no directory itself. -/
structure HoldsFile (fs : FileSystem) (place : Place) : Prop where
  free : fs.entry? place ≠ some .directory
  lies : ∃ directory name, place = directory ++ [name] ∧ fs.entry? directory = some .directory

theorem holdsFile_of_filePlace? (h : fs.filePlace? path = some place) : fs.HoldsFile place := by
  rcases filePlace?_eq_some_iff.1 h with ⟨d, hd, rfl, hname, _, hfree⟩
  rcases Option.isSome_iff_exists.1 hname with ⟨name, hname⟩
  refine ⟨hfree, d.directory, name, ?_, entry?_directory hd⟩
  rw [Destination.place, hname]
  rfl

/-! ## Files at their places -/

theorem entry?_put (h : fs.HoldsFile place) (content : ByteArray) (other : Place) :
    entry? (fs.put place (.file content)) other =
      if other = place then some (.file content) else fs.entry? other := by
  split
  · next heq =>
    rcases h.lies with ⟨directory, name, rfl, hdir⟩
    rw [heq, entry?, put, Folder.node?_replace_self hdir]
    rfl
  · next hne => exact Folder.entry_node?_replace_of_ne h.free rfl hne

theorem entry?_erase (h : fs.HoldsFile place) (other : Place) :
    entry? (fs.erase place) other = if other = place then none else fs.entry? other := by
  split
  · next heq =>
    rcases h.lies with ⟨directory, name, rfl, hdir⟩
    rw [heq, entry?, erase, Folder.node?_replace_self hdir]
    rfl
  · next hne => exact Folder.entry_node?_replace_of_ne h.free rfl hne

structure SameDirectories (fs fs' : FileSystem) : Prop where
  there : fs.DirectoriesIn fs'
  back : fs'.DirectoriesIn fs

namespace SameDirectories

theorem refl (fs : FileSystem) : fs.SameDirectories fs := ⟨.refl fs, .refl fs⟩

theorem trans (h : fs.SameDirectories fs') (h' : fs'.SameDirectories fs'') :
    fs.SameDirectories fs'' :=
  ⟨h.there.trans h'.there, h'.back.trans h.back⟩

theorem directory_iff (h : fs.SameDirectories fs') :
    fs'.entry? place = some .directory ↔ fs.entry? place = some .directory :=
  ⟨h.back.directory, h.there.directory⟩

theorem locate_iff (h : fs.SameDirectories fs') :
    fs'.locate path = .ok d ↔ fs.locate path = .ok d :=
  ⟨locate_mono h.back, locate_mono h.there⟩

theorem filePlace?_eq (h : fs.SameDirectories fs') (path : FilePath) :
    fs'.filePlace? path = fs.filePlace? path := by
  apply Option.ext
  intro place
  rw [filePlace?_eq_some_iff, filePlace?_eq_some_iff]
  simp only [h.locate_iff, Ne, h.directory_iff]

theorem at?_eq_of_entry? (h : fs.SameDirectories fs')
    (hentry : ∀ d, fs.locate path = .ok d → fs'.entry? d.place = fs.entry? d.place) :
    fs'.at? path = fs.at? path := by
  cases hd : fs.locate path with
  | ok d =>
      rw [at?_eq hd, at?_eq (h.locate_iff.2 hd)]
      exact hentry d hd
  | error cause =>
      have hnone : ∀ d, fs'.locate path ≠ .ok d := by
        intro d hd'
        rw [h.locate_iff.1 hd'] at hd
        cases hd
      unfold at?
      rw [hd]
      split
      · next d hd' => exact absurd hd' (hnone d)
      · rfl

end SameDirectories

theorem sameDirectories_put (h : fs.HoldsFile place) (content : ByteArray) :
    fs.SameDirectories (fs.put place (.file content)) := by
  have hiff : ∀ other, entry? (fs.put place (.file content)) other = some .directory ↔
      fs.entry? other = some .directory := by
    intro other
    rw [entry?_put h]
    split
    · next heq =>
      rw [heq]
      exact ⟨nofun, fun hdir => absurd hdir h.free⟩
    · exact Iff.rfl
  exact ⟨⟨rfl, (hiff _).2⟩, ⟨rfl, (hiff _).1⟩⟩

theorem sameDirectories_erase (h : fs.HoldsFile place) :
    fs.SameDirectories (fs.erase place) := by
  have hiff : ∀ other, entry? (fs.erase place) other = some .directory ↔
      fs.entry? other = some .directory := by
    intro other
    rw [entry?_erase h]
    split
    · next heq =>
      rw [heq]
      exact ⟨nofun, fun hdir => absurd hdir h.free⟩
    · exact Iff.rfl
  exact ⟨⟨rfl, (hiff _).2⟩, ⟨rfl, (hiff _).1⟩⟩

/-! ## Operations on files -/

/-- A path that leads somewhere names no regular file for one of three reasons. -/
theorem filePlace?_eq_none_iff (hd : fs.locate path = .ok d) : fs.filePlace? path = none ↔
    d.name.isNone = true ∨ d.endsInSlash = true ∨ fs.entry? d.place = some .directory := by
  unfold filePlace?
  rw [hd]
  dsimp only
  rw [ite_eq_right_iff]
  constructor
  · intro h
    by_contra hnot
    simp only [not_or, Bool.not_eq_true, Option.isNone_eq_false_iff] at hnot
    cases h hnot
  · rintro h ⟨hname, hslash, hfree⟩
    rcases h with h | h | h
    · rw [Option.isNone_iff_eq_none.1 h] at hname
      cases hname
    · rw [hslash] at h
      cases h
    · exact absurd h hfree

theorem writeFile_eq_ok (h : fs.filePlace? path = some place) (content : ByteArray) :
    fs.writeFile path content = .ok (fs.put place (.file content)) := by
  rcases filePlace?_eq_some_iff.1 h with ⟨d, hd, rfl, hname, hslash, hfree⟩
  have hnamed : (d.name.isNone || d.endsInSlash) = false := by
    rw [hslash, Bool.or_false, Option.isNone_eq_false_iff]
    exact hname
  rw [writeFile, Outcome.bind_of_ok hd]
  simp only [hnamed, beq_eq_false_iff_ne.2 hfree]
  rfl

theorem writeFile_eq_error (h : fs.filePlace? path = none) (content : ByteArray) :
    ∃ cause, fs.writeFile path content = .error cause := by
  cases hd : fs.locate path with
  | error cause =>
      rw [writeFile, hd]
      exact ⟨cause, rfl⟩
  | ok d =>
      rw [writeFile, Outcome.bind_of_ok hd]
      rcases (filePlace?_eq_none_iff hd).1 h with hnone | hslash | hdir
      · simp only [hnone, Bool.true_or]
        exact ⟨_, rfl⟩
      · simp only [hslash, Bool.or_true]
        exact ⟨_, rfl⟩
      · cases hnamed : d.name.isNone || d.endsInSlash
        · simp only [hdir, beq_self_eq_true]
          exact ⟨_, rfl⟩
        · exact ⟨_, rfl⟩

theorem removeFile_eq_ok (h : fs.filePlace? path = some place)
    (hfile : fs.entry? place = some (.file content)) :
    fs.removeFile path = .ok (fs.erase place) := by
  rcases filePlace?_eq_some_iff.1 h with ⟨d, hd, rfl, hname, hslash, _⟩
  have hnamed : d.name.isNone = false := Option.isNone_eq_false_iff.2 hname
  rw [removeFile, Outcome.bind_of_ok hd]
  simp only [hnamed, hfile, hslash]
  rfl

theorem removeFile_eq_error (h : fs.filePlace? path = none) :
    ∃ cause, fs.removeFile path = .error cause := by
  cases hd : fs.locate path with
  | error cause =>
      rw [removeFile, hd]
      exact ⟨cause, rfl⟩
  | ok d =>
      rw [removeFile, Outcome.bind_of_ok hd]
      cases hnamed : d.name.isNone
      · rcases (filePlace?_eq_none_iff hd).1 h with hnone | hslash | hdir
        · rw [hnamed] at hnone
          cases hnone
        · cases hentry : fs.entry? d.place with
          | none => exact ⟨_, rfl⟩
          | some entry =>
              cases entry with
              | directory => exact ⟨_, rfl⟩
              | file content =>
                  simp only [hslash]
                  exact ⟨_, rfl⟩
        · simp only [hdir]
          exact ⟨_, rfl⟩
      · exact ⟨_, rfl⟩

theorem moveFile_eq_ok {source target : FilePath} {place' : Place}
    (hsource : fs.filePlace? source = some place)
    (hfile : fs.entry? place = some (.file content))
    (htarget : fs.filePlace? target = some place') :
    fs.moveFile source target = .ok ((fs.erase place).put place' (.file content)) := by
  rcases filePlace?_eq_some_iff.1 hsource with ⟨d, hd, rfl, hname, hslash, _⟩
  rcases filePlace?_eq_some_iff.1 htarget with ⟨d', hd', rfl, hname', hslash', hfree'⟩
  have hnamed : (d.name.isNone || d'.name.isNone) = false := by
    rw [Option.isNone_eq_false_iff.2 hname, Option.isNone_eq_false_iff.2 hname']
    rfl
  rw [moveFile, Outcome.bind_of_ok hd, Outcome.bind_of_ok hd']
  simp only [hnamed, hfile, hslash, hslash', beq_eq_false_iff_ne.2 hfree']
  rfl

theorem moveFile_eq_error {source target : FilePath} (hsource : fs.filePlace? source = some place)
    (hfile : fs.entry? place = some (.file content)) (htarget : fs.filePlace? target = none) :
    ∃ cause, fs.moveFile source target = .error cause := by
  rcases filePlace?_eq_some_iff.1 hsource with ⟨d, hd, rfl, hname, hslash, _⟩
  have hnamed : d.name.isNone = false := Option.isNone_eq_false_iff.2 hname
  rw [moveFile, Outcome.bind_of_ok hd]
  cases hd' : fs.locate target with
  | error cause => exact ⟨cause, rfl⟩
  | ok d' =>
      rw [Outcome.bind_of_ok rfl]
      simp only [hnamed, hfile, hslash, Bool.false_or]
      cases hnamed' : d'.name.isNone
      · rcases (filePlace?_eq_none_iff hd').1 htarget with hnone | hslash' | hdir
        · rw [hnamed'] at hnone
          cases hnone
        · simp only [hslash']
          exact ⟨_, rfl⟩
        · cases hslash' : d'.endsInSlash
          · simp only [hdir, beq_self_eq_true]
            exact ⟨_, rfl⟩
          · exact ⟨_, rfl⟩
      · exact ⟨_, rfl⟩

/-! ## Directories -/

/-- The one file system has become the other by directories that were made where some of the paths
lead. -/
structure Adds (fs fs' : FileSystem) (paths : List FilePath) : Prop where
  workingDirectory : fs'.workingDirectory = fs.workingDirectory
  entry? : ∀ place, fs'.entry? place = fs.entry? place ∨
    fs.entry? place = none ∧ fs'.entry? place = some .directory ∧
      ∃ path ∈ paths, ∃ d, fs'.locate path = .ok d ∧ d.place = place

namespace Adds

variable {paths paths' : List FilePath}

theorem refl (fs : FileSystem) (paths : List FilePath) : fs.Adds fs paths :=
  ⟨rfl, fun _ => Or.inl rfl⟩

theorem mono (h : fs.Adds fs' paths) (hpaths : ∀ path ∈ paths, path ∈ paths') :
    fs.Adds fs' paths' := by
  refine ⟨h.workingDirectory, fun place => (h.entry? place).imp_right ?_⟩
  rintro ⟨hnone, hdir, path, hpath, hlocate⟩
  exact ⟨hnone, hdir, path, hpaths path hpath, hlocate⟩

theorem directoriesIn (h : fs.Adds fs' paths) : fs.DirectoriesIn fs' := by
  refine ⟨h.workingDirectory, fun {place} hdir => ?_⟩
  rcases h.entry? place with hsame | ⟨hnone, _⟩
  · rw [hsame, hdir]
  · rw [hnone] at hdir
    cases hdir

theorem trans (h : fs.Adds fs' paths) (h' : fs'.Adds fs'' paths) : fs.Adds fs'' paths := by
  refine ⟨h'.workingDirectory.trans h.workingDirectory, fun place => ?_⟩
  rcases h'.entry? place with hsame' | ⟨hnone', hadded'⟩
  · rcases h.entry? place with hsame | ⟨hnone, hdir, path, hpath, d, hd, hplace⟩
    · exact Or.inl (hsame'.trans hsame)
    · exact Or.inr ⟨hnone, hsame'.trans hdir, path, hpath, d,
        locate_mono h'.directoriesIn hd, hplace⟩
  · rcases h.entry? place with hsame | ⟨_, hdir, _⟩
    · exact Or.inr ⟨hsame.symm.trans hnone', hadded'⟩
    · rw [hdir] at hnone'
      cases hnone'

end Adds

theorem makeDirectory_adds (h : fs.makeDirectory path = .ok fs') : fs.Adds fs' [path] := by
  rcases Outcome.bind_eq_ok_iff.1 h with ⟨d, hd, hmake⟩
  cases hentry : fs.entry? d.place with
  | some entry =>
      rw [hentry] at hmake
      cases hmake
  | none =>
      rw [hentry] at hmake
      cases hmake
      -- a path that ends without a name leads to a directory, and that exists
      have hname : d.name.isSome = true := by
        rw [← Option.isNone_eq_false_iff, ← Bool.not_eq_true]
        intro hnone
        rw [Destination.place, Option.isNone_iff_eq_none.1 hnone] at hentry
        simp [entry?_directory hd] at hentry
      rcases Option.isSome_iff_exists.1 hname with ⟨name, hname⟩
      have hplace : d.place = d.directory ++ [name] := by
        rw [Destination.place, hname]
        rfl
      have hself : entry? (fs.put d.place (.directory [])) d.place = some .directory := by
        rw [hplace, entry?, put, Folder.node?_replace_self (entry?_directory hd)]
        rfl
      have hother : ∀ place, place ≠ d.place →
          entry? (fs.put d.place (.directory [])) place = fs.entry? place := by
        intro place hne
        have hfree : fs.entry? d.place ≠ some .directory := by
          rw [hentry]
          exact nofun
        exact Folder.entry_node?_replace_of_ne hfree rfl hne
      have hdirs : fs.DirectoriesIn (fs.put d.place (.directory [])) := by
        refine ⟨rfl, fun {place} hdir => ?_⟩
        by_cases heq : place = d.place
        · rw [heq]
          exact hself
        · rw [hother place heq, hdir]
      refine ⟨rfl, fun place => ?_⟩
      by_cases heq : place = d.place
      · rw [heq]
        exact Or.inr ⟨hentry, hself, path, List.mem_singleton_self _, d, locate_mono hdirs hd, rfl⟩
      · exact Or.inl (hother place heq)

theorem makeChain_adds (fs : FileSystem) (paths : List FilePath) :
    fs.Adds (fs.makeChain paths).1 paths := by
  induction paths generalizing fs with
  | nil => exact .refl fs []
  | cons path shorter ih =>
      have hshorter : ∀ p ∈ shorter, p ∈ path :: shorter := fun _ => List.mem_cons_of_mem _
      have hpath : ∀ p ∈ [path], p ∈ path :: shorter := fun p hp =>
        List.mem_singleton.1 hp ▸ List.mem_cons_self
      unfold makeChain
      dsimp only
      split
      · next hmade => exact (makeDirectory_adds hmade).mono hpath
      · have hchain := (ih fs).mono hshorter
        split
        · next hfail =>
          rw [hfail] at hchain
          exact hchain
        · next hok =>
          rw [hok] at hchain
          split
          · next hmade => exact hchain.trans ((makeDirectory_adds hmade).mono hpath)
          · exact hchain
      · exact .refl fs _

theorem makeDirectories_adds (fs : FileSystem) (path : FilePath) :
    fs.Adds (fs.makeDirectories path).1 path.ancestors := by
  unfold makeDirectories
  split
  · exact .refl fs _
  · exact fs.makeChain_adds path.ancestors

theorem makeDirectories_of_isDirectory (h : fs.isDirectory path = true) :
    fs.makeDirectories path = (fs, .ok ()) := by
  have hmade : fs.makeDirectory path = .error .alreadyExists := by
    unfold isDirectory at h
    split at h
    · next d hd =>
      rw [makeDirectory, Outcome.bind_of_ok hd, beq_iff_eq.1 h]
      rfl
    · cases h
  unfold makeDirectories
  split
  · rfl
  · rw [FilePath.ancestors, makeChain, hmade]
    simp only [h, if_true]

end FileSystem

end Bitonic
