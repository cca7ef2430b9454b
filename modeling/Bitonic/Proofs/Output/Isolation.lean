import Bitonic.Proofs.Output.Listings
import Bitonic.Proofs.Output.Writing
import Bitonic.Proofs.Run.FinishingOrder
/-!
# Units that fail leave nothing behind

A run writes nothing unless all its units can be planned.  From then on every unit stands for
itself: it is written or it fails, and neither does anything to another one.

* `GenerationRun.write_of_error` — a run that cannot be planned leaves everything as it is;
* `GenerationRun.write_isolates` — one that can be planned leaves complete files and no others.
-/

namespace Bitonic

namespace GenerationRun

open FileSystem

variable {emitter : PlanEmitter} {dir : FilePath} {extension : String} {fs : FileSystem}
  {run : GenerationRun} {plans : List Plan} {settings : Settings}

theorem write_of_error {failure : Failure} (h : run.plans = .error failure) :
    (run.write emitter dir extension : StateM FileSystem _) fs = (.error failure, fs) := by
  rw [write, h]
  rfl

theorem emitPlans_of_error {cause : FileError} (h : (fs.makeDirectories dir).2 = .error cause) :
    (emitPlans emitter plans dir extension : StateM FileSystem _) fs =
      (Outcome.fail (.emission dir.text cause), (fs.makeDirectories dir).1) := by
  simp only [emitPlans, bind, StateT.bind, FileOps.makeDirectories, h]
  rfl

theorem emitPlans_of_ok (h : (fs.makeDirectories dir).2 = .ok ()) :
    (emitPlans emitter plans dir extension : StateM FileSystem _) fs =
      (emitEach emitter dir extension plans {} : StateM FileSystem _)
        (fs.makeDirectories dir).1 := by
  simp only [emitPlans, bind, StateT.bind, FileOps.makeDirectories, h]

/-- What the units leave behind is seen from the file system in which their directory has been
made. -/
theorem write_isolates (hrun : ofSettings settings = .ok run)
    (hextension : '/' ∉ extension.toList)
    (hemitter : ∀ unit ∈ run.units, ∀ plan, run.planFor unit = .ok plan →
      ∀ fault, (emitter plan).2 ≠ .error (.fault fault)) (dir : FilePath) (fs : FileSystem) :
    let result := (run.write emitter dir extension : StateM FileSystem (Outcome WriteReport)) fs
    let made := fs.makeDirectories dir
    ((∃ unit ∈ run.units, ∀ plan, run.planFor unit ≠ .ok plan) →
      ∃ unit ∈ run.units, ∃ failure, run.planFor unit = .error failure ∧
        result = (.error failure, fs)) ∧
    (fs.Adds made.1 dir.ancestors ∧ (fs.isDirectory dir = true → made = (fs, .ok ()))) ∧
    (∀ unit ∈ run.units, ∀ plan, run.planFor unit = .ok plan →
      ∃ text, plan.listing = .ok text ∧ PlanEmitter.listing plan = (text.toUTF8, .ok ())) ∧
    ∀ plans, List.Forall₂ (fun unit plan => run.planFor unit = .ok plan) run.units plans →
      (plans.map Plan.title = run.units.map GenerationUnit.name ∧
        (plans.map Plan.title).Nodup) ∧
      (∀ cause, made.2 = .error cause →
        result = (Outcome.fail (.emission dir.text cause), made.1)) ∧
      (made.2 = .ok () → ∃ report fs', result = (.ok report, fs') ∧
        report.written =
          (plans.filter (succeeds emitter dir extension made.1)).map (targetOf dir extension) ∧
        report.failed.map Prod.fst =
          (plans.filter (!succeeds emitter dir extension made.1 ·)).map Plan.title ∧
        (∀ plan ∈ plans, Settled emitter dir extension made.1 fs' plan) ∧
        ∀ place, (∀ plan ∈ plans, Apart dir extension made.1 plan place) →
          fs'.entry? place = FileSystem.entry? made.1 place) := by
  intro result made
  refine ⟨?_, ⟨fs.makeDirectories_adds dir, makeDirectories_of_isDirectory⟩,
    fun unit _ plan hplan => exists_listing hplan, fun plans hplans => ?_⟩
  · rintro ⟨unit, hunit, hnone⟩
    cases hplans : run.plans with
    | ok plans =>
        have hturn := Outcome.mapM_eq_ok_iff.1 (plans_eq_ok_iff.1 hplans)
        rcases Outcome.exists_of_mem_left hturn hunit with ⟨plan, _, hplan⟩
        exact absurd hplan (hnone plan)
    | error failure =>
        rcases exists_of_planFinishing_eq_error (usualOrder_perm run.units) hplans with
          ⟨unit', hunit', hfails⟩
        exact ⟨unit', hunit', failure, hfails, write_of_error hplans⟩
  · have hturn : run.planInTurn = .ok plans := Outcome.mapM_eq_ok_iff.2 hplans
    have hwrite : run.write emitter dir extension = emitPlans (m := StateM FileSystem) emitter
        plans dir extension := by
      rw [write, plans_eq_ok_iff.2 hturn]
    have htitles := Outcome.map_eq_of_mapM hturn fun _ _ => title_of_planFor
    refine ⟨⟨htitles, nodup_titles hrun hturn⟩, fun cause hcause => ?_, fun hmade => ?_⟩
    · exact (congrFun hwrite fs).trans (emitPlans_of_error hcause)
    · have hfault : ∀ plan ∈ plans, ∀ fault, (emitter plan).2 ≠ .error (.fault fault) := by
        intro plan hplan
        rcases Outcome.exists_of_mem_right hplans hplan with ⟨unit, hunit, hplanned⟩
        exact hemitter unit hunit plan hplanned
      rcases emitEach_eq dir hextension (nodup_titles hrun hturn) hfault {} made.1 with
        ⟨report, fs', hemit, hnoted, _, hsettled, hframe⟩
      have hresult := ((congrFun hwrite fs).trans (emitPlans_of_ok hmade)).trans hemit
      exact ⟨report, fs', hresult, hnoted.written, hnoted.failed, hsettled, hframe⟩

/-- The listings of a run over one instruction set, in a directory with an older listing of the first
unit and what is left of an attempt to write it.  The second unit finds a directory in its way, and
the emitter gives up halfway through the third. -/
theorem write_isolates_neon :
    let settings := { Settings.only [.neon] with widest := some 1 }
    let dir : FilePath := .ofText "out"
    let fs : FileSystem := { root := [("out", .directory [
      ("BitonicSort.NEON.int32.generated.lst", .file "old".toUTF8),
      ("BitonicSort.NEON.int32.generated.lst.tmp", .file "ol".toUTF8),
      ("BitonicSort.NEON.uint32.generated.lst", .directory [])])] }
    let emitter : PlanEmitter := fun plan =>
      if plan.title = "NEON.float" then
        ("half".toUTF8, Outcome.fail (.emission plan.title (.other "refused")))
      else PlanEmitter.listing plan
    ∃ run plans report fs', ofSettings settings = .ok run ∧ run.planInTurn = .ok plans ∧
      (run.write emitter dir listingSuffix : StateM FileSystem _) fs = (.ok report, fs') ∧
      report.written = [.ofText "out/BitonicSort.NEON.int32.generated.lst",
        .ofText "out/BitonicSort.NEON.double.generated.lst",
        .ofText "out/BitonicSort.NEON.generated.lst"] ∧
      report.failed.map Prod.fst = ["NEON.uint32", "NEON.float"] ∧
      ∀ plan ∈ plans, Settled emitter dir listingSuffix fs fs' plan := by
  intro settings dir fs emitter
  have hrun : ofSettings settings = .ok ⟨settings⟩ := rfl
  have hlisting : ∀ unit ∈ (GenerationRun.mk settings).units, ∀ plan,
      (GenerationRun.mk settings).planFor unit = .ok plan →
        (emitter plan).2 = if plan.title = "NEON.float" then
          Outcome.fail (.emission plan.title (.other "refused")) else .ok () := by
    intro unit _ plan hplan
    rcases exists_listing hplan with ⟨text, _, hemit⟩
    dsimp only [emitter]
    split
    · rfl
    · rw [hemit]
  have hfault : ∀ unit ∈ (GenerationRun.mk settings).units, ∀ plan,
      (GenerationRun.mk settings).planFor unit = .ok plan →
        ∀ fault, (emitter plan).2 ≠ .error (.fault fault) := by
    intro unit hunit plan hplan fault
    rw [hlisting unit hunit plan hplan]
    split
    · rintro ⟨⟩
    · rintro ⟨⟩
  rcases Outcome.exists_eq_ok_of_isOk (x := (GenerationRun.mk settings).planInTurn)
    (by decide +kernel) with ⟨plans, hplans⟩
  have hturn := Outcome.mapM_eq_ok_iff.1 hplans
  have hextension : '/' ∉ listingSuffix.toList := by decide
  obtain ⟨_, ⟨_, hmade⟩, _, hwrite⟩ := write_isolates hrun hextension hfault dir fs
  have hlocate : fs.locate dir = .ok ⟨[], some "out", false⟩ := by
    have hsegments : dir.segments = ["out"] := rfl
    have hwell : dir.WellFormed := ⟨by rw [hsegments]; simp, by decide, rfl⟩
    exact locate_eq_ok_iff.2 ⟨hwell, _, rfl, rfl⟩
  have hdirectory : fs.makeDirectories dir = (fs, .ok ()) := by
    apply hmade
    rw [isDirectory, hlocate]
    rfl
  obtain ⟨⟨htitles, _⟩, _, hwrite⟩ := hwrite plans hturn
  rw [hdirectory] at hwrite
  obtain ⟨report, fs', hresult, hwritten, hfailed, hsettled, _⟩ := hwrite rfl
  -- what becomes of a unit can be told from its title
  have hunits : plans.map Plan.title =
      ["NEON.int32", "NEON.uint32", "NEON.float", "NEON.double", "NEON"] := htitles
  have hentries : ∀ title ∈ plans.map Plan.title,
      fs.entry? ["out", s!"BitonicSort.{title}.generated.{listingSuffix}" ++ ".tmp"] ≠
          some .directory ∧
        (fs.entry? ["out", s!"BitonicSort.{title}.generated.{listingSuffix}"] = some .directory ↔
          title = "NEON.uint32") := by
    rw [hunits]
    decide
  have hplaces : ∀ plan ∈ plans, ∀ name ∈ plan.fileNames listingSuffix,
      (fs.filePlace? (dir.join (.ofText name))).isSome =
        decide (fs.entry? ["out", name] ≠ some .directory) := by
    intro plan _ name hname
    have hname' : fs.locate (dir.join (.ofText name)) = .ok ⟨["out"], some name, false⟩ :=
      locate_in_folder rfl rfl ⟨by decide, by decide, by decide, by decide⟩
        ⟨by decide, by decide⟩ (Plan.isStep_of_mem_fileNames hextension hname)
        (Plan.fits_of_mem_fileNames hname)
    exact isSome_filePlace? hname'
  have hsucceeds : ∀ plan ∈ plans, succeeds emitter dir listingSuffix fs plan =
      decide (plan.title ≠ "NEON.uint32" ∧ plan.title ≠ "NEON.float") := by
    intro plan hplan
    rcases Outcome.exists_of_mem_right hturn hplan with ⟨unit, hunit, hplanned⟩
    have hemitted : (emitter plan).2.isOk = decide (plan.title ≠ "NEON.float") := by
      rw [hlisting unit hunit plan hplanned]
      split
      · next hfloat => exact (decide_eq_false (not_not.2 hfloat)).symm
      · next hother => exact (decide_eq_true hother).symm
    obtain ⟨hstaging, htarget⟩ := hentries plan.title (List.mem_map_of_mem hplan)
    have hfree := hplaces plan hplan _ (List.mem_cons_of_mem _ List.mem_cons_self)
    have hfree' := hplaces plan hplan _ List.mem_cons_self
    rw [succeeds, hemitted, stagingOf, targetOf, hfree, hfree', Bool.eq_iff_iff]
    simp only [Bool.and_eq_true, decide_eq_true_eq]
    constructor
    · rintro ⟨⟨hfloat, _⟩, hblocked⟩
      exact ⟨fun huint => hblocked (htarget.2 huint), hfloat⟩
    · rintro ⟨huint, hfloat⟩
      exact ⟨⟨hfloat, hstaging⟩, fun hblocked => huint (htarget.1 hblocked)⟩
  refine ⟨⟨settings⟩, plans, report, fs', hrun, hplans, hresult, ?_, ?_, hsettled⟩
  · have htarget : targetOf dir listingSuffix = (fun title => dir.join
        (.ofText s!"BitonicSort.{title}.generated.{listingSuffix}")) ∘ Plan.title := rfl
    have hfilter := List.filter_map (f := Plan.title) (l := plans)
      (p := fun title => decide (title ≠ "NEON.uint32" ∧ title ≠ "NEON.float"))
    rw [hwritten, List.filter_congr hsucceeds, htarget, ← List.map_map]
    refine (congrArg _ hfilter.symm).trans ?_
    rw [hunits]
    decide +kernel
  · have hfilter := List.filter_map (f := Plan.title) (l := plans)
      (p := fun title => !decide (title ≠ "NEON.uint32" ∧ title ≠ "NEON.float"))
    rw [hfailed, List.filter_congr fun plan hplan => congrArg (!·) (hsucceeds plan hplan)]
    refine hfilter.symm.trans ?_
    rw [hunits]
    decide

end GenerationRun

end Bitonic
