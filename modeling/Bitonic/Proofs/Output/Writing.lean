import Bitonic.Output.Files
import Bitonic.Proofs.FileSystem.Operations
import Bitonic.Proofs.Output.FileNames
/-!
# Writing the plans of a run

A unit is written if its emitter succeeds and neither of its two paths is blocked; whatever happens
to it touches nothing but what is at these paths.

* `GenerationRun.Emitted` — what one unit does to the file system, however far it gets;
* `GenerationRun.advances` — the step over one unit;
* `GenerationRun.emitEach_eq` — the run over all units.
-/

namespace Bitonic

namespace GenerationRun

open FileSystem

variable {emitter : PlanEmitter} {dir : FilePath} {extension : String} {fs fs' fs'' : FileSystem}
  {plan plan' : Plan} {place place' : Place}

def targetOf (dir : FilePath) (extension : String) (plan : Plan) : FilePath :=
  dir.join (.ofText (plan.fileName extension))

def stagingOf (dir : FilePath) (extension : String) (plan : Plan) : FilePath :=
  dir.join (.ofText (plan.fileName extension ++ ".tmp"))

/-- Whether a plan gets to its file: the emitter succeeds, and a regular file can be at both
paths. -/
def succeeds (emitter : PlanEmitter) (dir : FilePath) (extension : String) (fs : FileSystem)
    (plan : Plan) : Bool :=
  (emitter plan).2.isOk && (fs.filePlace? (stagingOf dir extension plan)).isSome &&
    (fs.filePlace? (targetOf dir extension plan)).isSome

/-- The unit's files are not at the place. -/
def Apart (dir : FilePath) (extension : String) (fs : FileSystem) (plan : Plan) (place : Place) :
    Prop :=
  ∀ name ∈ plan.fileNames extension, ∀ d, fs.locate (dir.join (.ofText name)) = .ok d →
    d.place ≠ place

/-! ## One unit -/

section Operations

variable {staging target : FilePath}

theorem emitPlan_of_blocked (h : fs.filePlace? staging = none) :
    ∃ cause, (emitPlan emitter plan staging target : StateM FileSystem _) fs =
      (.error (.error cause), fs) := by
  rcases writeFile_eq_error h (emitter plan).1 with ⟨cause, hcause⟩
  refine ⟨.emission plan.title cause, ?_⟩
  simp only [emitPlan, bind, StateT.bind, FileOps.writeFile, update, hcause]
  rfl

theorem emitPlan_of_error (h : fs.filePlace? staging = some place) {failure : Failure}
    (hresult : (emitter plan).2 = .error failure) :
    (emitPlan emitter plan staging target : StateM FileSystem _) fs =
      (.error failure, fs.put place (.file (emitter plan).1)) := by
  simp only [emitPlan, bind, StateT.bind, FileOps.writeFile, update,
    writeFile_eq_ok h (emitter plan).1, hresult]
  rfl

theorem emitPlan_of_ok (h : fs.filePlace? staging = some place)
    (hresult : (emitter plan).2 = .ok ()) :
    (emitPlan emitter plan staging target : StateM FileSystem _) fs =
      match (fs.put place (.file (emitter plan).1)).moveFile staging target with
      | .ok fs => (.ok (), fs)
      | .error cause =>
        (.error (.error (.emission plan.title cause)), fs.put place (.file (emitter plan).1)) := by
  simp only [emitPlan, bind, StateT.bind, FileOps.writeFile, FileOps.moveFile, update,
    writeFile_eq_ok h (emitter plan).1, hresult]
  cases (fs.put place (.file (emitter plan).1)).moveFile staging target with
  | ok fs' => rfl
  | error cause => rfl

end Operations

variable {report : WriteReport} {rest : List Plan}

theorem emitEach_cons_of_ok
    (h : (emitPlan emitter plan (stagingOf dir extension plan) (targetOf dir extension plan) :
      StateM FileSystem _) fs = (.ok (), fs')) :
    (emitEach emitter dir extension (plan :: rest) report : StateM FileSystem _) fs =
      (emitEach emitter dir extension rest
        { report with written := report.written ++ [targetOf dir extension plan] } :
          StateM FileSystem _) fs' := by
  simp only [emitEach, bind, StateT.bind]
  rw [stagingOf, targetOf] at h
  rw [h]
  rfl

theorem emitEach_cons_of_error {cause : GenerationError}
    (h : (emitPlan emitter plan (stagingOf dir extension plan) (targetOf dir extension plan) :
      StateM FileSystem _) fs = (.error (.error cause), fs')) :
    (emitEach emitter dir extension (plan :: rest) report : StateM FileSystem _) fs =
      (emitEach emitter dir extension rest
        { report with failed := report.failed ++ [(plan.title, cause)] } :
          StateM FileSystem _)
        (update (·.removeFile (stagingOf dir extension plan)) fs').2 := by
  unfold stagingOf targetOf at h
  unfold stagingOf
  simp only [emitEach, bind, StateT.bind, h, FileOps.removeFile]
  generalize update _ fs' = removed
  rfl

theorem update_snd_of_ok {op : FileSystem → Except FileError FileSystem} (h : op fs = .ok fs') :
    (update op fs).2 = fs' := by
  rw [update, h]

theorem update_snd_of_error {op : FileSystem → Except FileError FileSystem} {cause : FileError}
    (h : op fs = .error cause) : (update op fs).2 = fs := by
  rw [update, h]

structure Emitted (emitter : PlanEmitter) (dir : FilePath) (extension : String)
    (fs fs' : FileSystem) (plan : Plan) : Prop where
  sameDirectories : fs.SameDirectories fs'
  entry? : ∀ place, fs'.entry? place =
    if succeeds emitter dir extension fs plan = true ∧
        fs.filePlace? (targetOf dir extension plan) = some place then
      some (.file (emitter plan).1)
    else if fs.filePlace? (stagingOf dir extension plan) = some place then none
    else fs.entry? place

/-- A unit that fails leaves nothing at its staging path that was not a directory. -/
theorem emitted_of_fails (hfails : succeeds emitter dir extension fs plan = false)
    (hdirs : fs.SameDirectories fs')
    (hentry : ∀ place, fs'.entry? place =
      if fs.filePlace? (stagingOf dir extension plan) = some place then none
      else fs.entry? place) :
    Emitted emitter dir extension fs fs' plan := by
  refine ⟨hdirs, fun place => ?_⟩
  rw [hfails, if_neg (by simp), hentry place]

/-- A staging file that was written is removed again if its unit fails. -/
theorem emitted_of_removed (hstaging : fs.filePlace? (stagingOf dir extension plan) = some place)
    (hfails : succeeds emitter dir extension fs plan = false) {content : ByteArray} :
    ∃ fs', (fs.put place (.file content)).removeFile (stagingOf dir extension plan) = .ok fs' ∧
      Emitted emitter dir extension fs fs' plan := by
  have hholds := holdsFile_of_filePlace? hstaging
  have hdirs := sameDirectories_put hholds content
  have hstaging' := (hdirs.filePlace?_eq _).trans hstaging
  have hholds' := holdsFile_of_filePlace? hstaging'
  have hfile : FileSystem.entry? (fs.put place (.file content)) place = some (.file content) := by
    rw [entry?_put hholds, if_pos rfl]
  refine ⟨_, removeFile_eq_ok hstaging' hfile,
    emitted_of_fails hfails (hdirs.trans (sameDirectories_erase hholds')) fun other => ?_⟩
  rw [entry?_erase hholds', entry?_put hholds, hstaging]
  simp only [Option.some.injEq]
  by_cases heq : other = place
  · rw [if_pos heq, if_pos heq.symm]
  · rw [if_neg heq, if_neg heq, if_neg (Ne.symm heq)]

theorem emitted_of_moved (hstaging : fs.filePlace? (stagingOf dir extension plan) = some place)
    (htarget : fs.filePlace? (targetOf dir extension plan) = some place')
    (hresult : (emitter plan).2 = .ok ()) :
    ∃ fs', (fs.put place (.file (emitter plan).1)).moveFile (stagingOf dir extension plan)
        (targetOf dir extension plan) = .ok fs' ∧
      Emitted emitter dir extension fs fs' plan := by
  have hholds := holdsFile_of_filePlace? hstaging
  have hdirs := sameDirectories_put hholds (emitter plan).1
  have hstaging' := (hdirs.filePlace?_eq _).trans hstaging
  have htarget' := (hdirs.filePlace?_eq _).trans htarget
  have hholds' := holdsFile_of_filePlace? hstaging'
  have hdirs' := hdirs.trans (sameDirectories_erase hholds')
  have hmoved := holdsFile_of_filePlace? ((hdirs'.filePlace?_eq _).trans htarget)
  have hfile : FileSystem.entry? (fs.put place (.file (emitter plan).1)) place =
      some (.file (emitter plan).1) := by
    rw [entry?_put hholds, if_pos rfl]
  have hsucceeds : succeeds emitter dir extension fs plan = true := by
    rw [succeeds, hresult, hstaging, htarget]
    rfl
  refine ⟨_, moveFile_eq_ok hstaging' hfile htarget',
    hdirs'.trans (sameDirectories_put hmoved _), fun other => ?_⟩
  rw [entry?_put hmoved, entry?_erase hholds', entry?_put hholds, hsucceeds, htarget, hstaging]
  simp only [Option.some.injEq, true_and]
  by_cases heq' : other = place'
  · rw [if_pos heq', if_pos heq'.symm]
  rw [if_neg heq', if_neg (Ne.symm heq')]
  by_cases heq : other = place
  · rw [if_pos heq, if_pos heq.symm]
  · rw [if_neg heq, if_neg heq, if_neg (Ne.symm heq)]

/-- The unit is noted in the report, as written or as failed. -/
structure Noted (dir : FilePath) (extension : String) (report report' : WriteReport)
    (plans : List Plan) (succeeds : Plan → Bool) : Prop where
  written : report'.written =
    report.written ++ (plans.filter succeeds).map (targetOf dir extension)
  failed : report'.failed.map Prod.fst =
    report.failed.map Prod.fst ++ (plans.filter fun plan => !succeeds plan).map Plan.title

theorem noted_written (h : succeeds emitter dir extension fs plan = true) :
    Noted dir extension report
      { report with written := report.written ++ [targetOf dir extension plan] } [plan]
      (succeeds emitter dir extension fs) := by
  constructor <;> simp [h]

theorem noted_failed (h : succeeds emitter dir extension fs plan = false)
    (cause : GenerationError) :
    Noted dir extension report { report with failed := report.failed ++ [(plan.title, cause)] }
      [plan] (succeeds emitter dir extension fs) := by
  constructor <;> simp [h]

/-- One unit is done with and noted, and the other ones follow. -/
def Advances (emitter : PlanEmitter) (dir : FilePath) (extension : String) (plan : Plan)
    (rest : List Plan) (report : WriteReport) (fs : FileSystem) : Prop :=
  ∃ fs' report',
    (emitEach emitter dir extension (plan :: rest) report : StateM FileSystem _) fs =
      (emitEach emitter dir extension rest report' : StateM FileSystem _) fs' ∧
    Emitted emitter dir extension fs fs' plan ∧
    Noted dir extension report report' [plan] (succeeds emitter dir extension fs)

theorem advances_of_error {cause : GenerationError}
    (hfails : succeeds emitter dir extension fs plan = false)
    (hemit : (emitPlan emitter plan (stagingOf dir extension plan) (targetOf dir extension plan) :
      StateM FileSystem _) fs = (.error (.error cause), fs'))
    (hremove : (update (·.removeFile (stagingOf dir extension plan)) fs').2 = fs'')
    (hemitted : Emitted emitter dir extension fs fs'' plan) :
    Advances emitter dir extension plan rest report fs :=
  ⟨_, _, emitEach_cons_of_error hemit, hremove.symm ▸ hemitted, noted_failed hfails cause⟩

theorem advances (hfault : ∀ fault, (emitter plan).2 ≠ .error (.fault fault)) (dir : FilePath)
    (extension : String) (rest : List Plan) (report : WriteReport) (fs : FileSystem) :
    Advances emitter dir extension plan rest report fs := by
  cases hstaging : fs.filePlace? (stagingOf dir extension plan) with
  | none =>
      have hfails : succeeds emitter dir extension fs plan = false := by
        rw [succeeds, hstaging, Option.isSome_none, Bool.and_false, Bool.false_and]
      rcases emitPlan_of_blocked hstaging with ⟨cause, hemit⟩
      rcases removeFile_eq_error hstaging with ⟨_, hremove⟩
      refine advances_of_error hfails hemit (update_snd_of_error hremove)
        (emitted_of_fails hfails (.refl fs) fun place => ?_)
      rw [hstaging, if_neg nofun]
  | some place =>
      cases hresult : (emitter plan).2 with
      | error failure =>
          cases failure with
          | fault fault => exact absurd hresult (hfault fault)
          | error cause =>
              have hfails : succeeds emitter dir extension fs plan = false := by
                rw [succeeds, hresult]
                rfl
              rcases emitted_of_removed hstaging hfails with ⟨f₂, hremove, hemitted⟩
              exact advances_of_error hfails (emitPlan_of_error hstaging hresult)
                (update_snd_of_ok hremove) hemitted
      | ok _ =>
          have hemit : (emitPlan emitter plan (stagingOf dir extension plan)
              (targetOf dir extension plan) : StateM FileSystem _) fs = _ :=
            emitPlan_of_ok hstaging hresult
          cases htarget : fs.filePlace? (targetOf dir extension plan) with
          | none =>
              have hfails : succeeds emitter dir extension fs plan = false := by
                rw [succeeds, htarget, Option.isSome_none, Bool.and_false]
              have hholds := holdsFile_of_filePlace? hstaging
              have hdirs := sameDirectories_put hholds (emitter plan).1
              rcases moveFile_eq_error ((hdirs.filePlace?_eq _).trans hstaging)
                (by rw [entry?_put hholds, if_pos rfl]) ((hdirs.filePlace?_eq _).trans htarget) with
                ⟨cause, hmove⟩
              rw [hmove] at hemit
              rcases emitted_of_removed hstaging hfails with ⟨f₂, hremove, hemitted⟩
              exact advances_of_error hfails hemit (update_snd_of_ok hremove) hemitted
          | some place' =>
              have hsucceeds : succeeds emitter dir extension fs plan = true := by
                rw [succeeds, hresult, hstaging, htarget]
                rfl
              rcases emitted_of_moved hstaging htarget hresult with ⟨fs', hmove, hemitted⟩
              rw [hmove] at hemit
              exact ⟨fs', _, emitEach_cons_of_ok hemit, hemitted, noted_written hsucceeds⟩

/-! ## Places of a unit -/

/-- What has become of a unit's two paths. -/
structure Settled (emitter : PlanEmitter) (dir : FilePath) (extension : String)
    (fs fs' : FileSystem) (plan : Plan) : Prop where
  written : succeeds emitter dir extension fs plan = true →
    fs'.at? (targetOf dir extension plan) = some (.file (emitter plan).1)
  failed : succeeds emitter dir extension fs plan = false →
    fs'.at? (targetOf dir extension plan) = fs.at? (targetOf dir extension plan)
  noDebris : ∀ content, fs'.at? (stagingOf dir extension plan) ≠ some (.file content)

theorem succeeds_eq (h : fs.SameDirectories fs') (plan : Plan) :
    succeeds emitter dir extension fs' plan = succeeds emitter dir extension fs plan := by
  rw [succeeds, succeeds, h.filePlace?_eq, h.filePlace?_eq]

theorem filePlace?_ne (hextension : '/' ∉ extension.toList)
    (h : fs.filePlace? (stagingOf dir extension plan) = some place) :
    ∀ d, fs.locate (targetOf dir extension plan) = .ok d → d.place ≠ place := by
  rintro d hd rfl
  rcases filePlace?_eq_some_iff.1 h with ⟨d', hd', hplace, _⟩
  have hname := place_join_inj (Plan.isStep_of_mem_fileNames hextension List.mem_cons_self)
    (Plan.isStep_of_mem_fileNames hextension (List.mem_cons_of_mem _ List.mem_cons_self)) hd hd'
    hplace.symm
  exact Plan.fileName_ne_append plan plan extension hname

theorem Emitted.settled (h : Emitted emitter dir extension fs fs' plan)
    (hextension : '/' ∉ extension.toList) : Settled emitter dir extension fs fs' plan := by
  refine ⟨fun hsucceeds => ?_, fun hfails => ?_, fun content hdebris => ?_⟩
  · have htarget := hsucceeds
    rw [succeeds, Bool.and_eq_true] at htarget
    rcases Option.isSome_iff_exists.1 htarget.2 with ⟨place, hplace⟩
    rcases filePlace?_eq_some_iff.1 hplace with ⟨d, hd, rfl, _⟩
    rw [at?_eq (h.sameDirectories.locate_iff.2 hd), h.entry?, if_pos ⟨hsucceeds, hplace⟩]
  · apply h.sameDirectories.at?_eq_of_entry?
    intro d hd
    rw [h.entry?, hfails, if_neg (by simp), if_neg]
    exact fun hstaging => filePlace?_ne hextension hstaging d hd rfl
  · have hstep : FilePath.IsStep (plan.fileName extension ++ ".tmp") :=
      Plan.isStep_of_mem_fileNames hextension (List.mem_cons_of_mem _ List.mem_cons_self)
    unfold at? at hdebris
    split at hdebris
    · next d hd =>
      have hd' := h.sameDirectories.locate_iff.1 hd
      have hname := locate_join hstep hd'
      have hfree : fs.entry? d.place ≠ some .directory := by
        rw [Ne, ← h.sameDirectories.directory_iff, hdebris]
        exact nofun
      have hstaging : fs.filePlace? (stagingOf dir extension plan) = some d.place :=
        filePlace?_eq_some_iff.2 ⟨d, hd', rfl, by rw [hname.1]; rfl, hname.2, hfree⟩
      rw [h.entry?, if_pos hstaging, if_neg] at hdebris
      · cases hdebris
      · rintro ⟨_, htarget⟩
        rcases filePlace?_eq_some_iff.1 htarget with ⟨d', hlocate, hplace, _⟩
        exact filePlace?_ne hextension hstaging d' hlocate hplace
    · cases hdebris

theorem Emitted.entry?_of_apart (h : Emitted emitter dir extension fs fs' plan)
    (hplace : Apart dir extension fs plan place) : fs'.entry? place = fs.entry? place := by
  rw [h.entry?, if_neg, if_neg]
  · intro hstaging
    rcases filePlace?_eq_some_iff.1 hstaging with ⟨d, hd, hsame, _⟩
    exact hplace _ (List.mem_cons_of_mem _ List.mem_cons_self) d hd hsame
  · rintro ⟨_, htarget⟩
    rcases filePlace?_eq_some_iff.1 htarget with ⟨d, hd, hsame, _⟩
    exact hplace _ List.mem_cons_self d hd hsame

theorem apart_of_title_ne (hextension : '/' ∉ extension.toList) (hne : plan.title ≠ plan'.title)
    {name : String} (hname : name ∈ plan'.fileNames extension) {d : Destination}
    (hd : fs.locate (dir.join (.ofText name)) = .ok d) :
    Apart dir extension fs plan d.place := by
  intro name' hname' d' hd' hplace
  have hsame := place_join_inj (Plan.isStep_of_mem_fileNames hextension hname')
    (Plan.isStep_of_mem_fileNames hextension hname) hd' hd hplace
  rw [hsame] at hname'
  exact Plan.fileNames_disjoint hne hname' hname

theorem apart_iff (h : fs.SameDirectories fs') :
    Apart dir extension fs' plan place ↔ Apart dir extension fs plan place := by
  simp only [Apart, h.locate_iff]

/-- Later units do not undo what has become of a unit. -/
theorem Settled.of_later (h : Settled emitter dir extension fs fs' plan)
    (hdirs : fs'.SameDirectories fs'')
    (hkept : ∀ name ∈ plan.fileNames extension, ∀ d,
      fs'.locate (dir.join (.ofText name)) = .ok d → fs''.entry? d.place = fs'.entry? d.place) :
    Settled emitter dir extension fs fs'' plan := by
  have htarget : fs''.at? (targetOf dir extension plan) = fs'.at? (targetOf dir extension plan) :=
    hdirs.at?_eq_of_entry? (hkept _ List.mem_cons_self)
  have hstaging : fs''.at? (stagingOf dir extension plan) =
      fs'.at? (stagingOf dir extension plan) :=
    hdirs.at?_eq_of_entry? (hkept _ (List.mem_cons_of_mem _ List.mem_cons_self))
  rcases h with ⟨hwritten, hfailed, hnoDebris⟩
  rw [← htarget] at hwritten hfailed
  rw [← hstaging] at hnoDebris
  exact ⟨hwritten, hfailed, hnoDebris⟩

/-- An earlier unit has not touched the paths of a unit. -/
theorem Settled.of_earlier (h : Settled emitter dir extension fs' fs'' plan')
    (hextension : '/' ∉ extension.toList) (hemitted : Emitted emitter dir extension fs fs' plan)
    (hne : plan.title ≠ plan'.title) : Settled emitter dir extension fs fs'' plan' := by
  have htarget :
      fs'.at? (targetOf dir extension plan') = fs.at? (targetOf dir extension plan') := by
    apply hemitted.sameDirectories.at?_eq_of_entry?
    intro d hd
    exact hemitted.entry?_of_apart (apart_of_title_ne hextension hne List.mem_cons_self hd)
  rcases h with ⟨hwritten, hfailed, hnoDebris⟩
  rw [succeeds_eq hemitted.sameDirectories] at hwritten hfailed
  rw [htarget] at hfailed
  exact ⟨hwritten, hfailed, hnoDebris⟩

/-! ## All units -/

theorem emitEach_eq (dir : FilePath) (hextension : '/' ∉ extension.toList) {plans : List Plan}
    (hnodup : (plans.map Plan.title).Nodup)
    (hfault : ∀ plan ∈ plans, ∀ fault, (emitter plan).2 ≠ .error (.fault fault))
    (report : WriteReport) (fs : FileSystem) :
    ∃ report' fs',
      (emitEach emitter dir extension plans report : StateM FileSystem _) fs =
        (.ok report', fs') ∧
      Noted dir extension report report' plans (succeeds emitter dir extension fs) ∧
      fs.SameDirectories fs' ∧
      (∀ plan ∈ plans, Settled emitter dir extension fs fs' plan) ∧
      ∀ place, (∀ plan ∈ plans, Apart dir extension fs plan place) →
        fs'.entry? place = fs.entry? place := by
  induction plans generalizing report fs with
  | nil =>
      exact ⟨report, fs, rfl, ⟨by simp, by simp⟩, .refl fs, nofun, fun _ _ => rfl⟩
  | cons plan plans ih =>
      rw [List.map_cons, List.nodup_cons] at hnodup
      rcases advances (hfault plan List.mem_cons_self) dir extension plans report fs with
        ⟨f₁, report₁, hstep, hemitted, hnoted⟩
      rcases ih hnodup.2 (fun q hq => hfault q (List.mem_cons_of_mem _ hq)) report₁ f₁ with
        ⟨report', fs', hrest, hnoted', hdirs, hsettled, hframe⟩
      have hne : ∀ q ∈ plans, plan.title ≠ q.title := fun q hq heq =>
        hnodup.1 (heq ▸ List.mem_map_of_mem hq)
      have hsucceeds : succeeds emitter dir extension f₁ = succeeds emitter dir extension fs :=
        funext (succeeds_eq hemitted.sameDirectories)
      rw [hsucceeds] at hnoted'
      refine ⟨report', fs', hstep.trans hrest, ⟨?_, ?_⟩,
        hemitted.sameDirectories.trans hdirs, ?_, ?_⟩
      · rw [hnoted'.written, hnoted.written, List.append_assoc, ← List.map_append,
          ← List.filter_append]
        rfl
      · rw [hnoted'.failed, hnoted.failed, List.append_assoc, ← List.map_append,
          ← List.filter_append]
        rfl
      · intro q hq
        rcases List.mem_cons.1 hq with rfl | hq
        · apply (hemitted.settled hextension).of_later hdirs
          intro name hname d hd
          exact hframe d.place fun p hp =>
            apart_of_title_ne hextension (hne p hp).symm hname hd
        · exact (hsettled q hq).of_earlier hextension hemitted (hne q hq)
      · intro place hapart
        rw [hframe place fun q hq => (apart_iff hemitted.sameDirectories).2
          (hapart q (List.mem_cons_of_mem _ hq))]
        exact hemitted.entry?_of_apart (hapart plan List.mem_cons_self)

end GenerationRun

end Bitonic
