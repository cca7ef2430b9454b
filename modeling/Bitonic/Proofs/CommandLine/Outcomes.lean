import Bitonic.CommandLine.Run
import Bitonic.Proofs.CommandLine.VerifyOption
import Bitonic.Proofs.Output.Isolation
import Bitonic.Proofs.Run.Verified
/-!
# How a command ends

A command touches files only after everything has been planned, and it succeeds if every listing
gets to its file.  Verifying the plans in between makes no difference.

* `runRequest_untouched` — runs that leave everything as it is;
* `exitCode_runRequest_iff` — the runs that succeed;
* `listings_of_exitCode` — what a run that succeeds leaves behind;
* `runRequest_verified` — a run that verifies its plans;
* `runCommand_outcomes` — the command as a whole.
-/

namespace Bitonic.CommandLine

open GenerationRun

variable {r : Request} {run : GenerationRun} {plans : List Plan} {fs : FileSystem}

/-- The settings are valid, and every unit can be planned. -/
def Request.Plannable (r : Request) : Prop :=
  ∃ run, GenerationRun.ofSettings r.settings = .ok run ∧
    ∀ unit ∈ run.units, ∃ plan, run.planFor unit = .ok plan

/-! ## Listings that get to their files -/

/-- A listing gets to its file unless one of its paths is blocked. -/
theorem succeeds_listing_iff {unit : GenerationUnit} {plan : Plan} {dir : FilePath}
    {extension : String} (hplan : run.planFor unit = .ok plan) :
    GenerationRun.succeeds .listing dir extension fs plan = true ↔
      ∀ name ∈ plan.fileNames extension,
        (fs.filePlace? (dir.join (.ofText name))).isSome = true := by
  rcases exists_listing hplan with ⟨text, _, hemit⟩
  have hemitted : (PlanEmitter.listing plan).2.isOk = true := by
    rw [hemit]
    rfl
  rw [GenerationRun.succeeds, hemitted, Bool.true_and, Bool.and_eq_true, and_comm, Plan.fileNames,
    List.forall_mem_cons, List.forall_mem_singleton, targetOf, stagingOf]

/-! ## The ends of a run -/

theorem exitCode_abort (context : String) (failure : Failure) :
    (abort context failure).exitCode ≠ 0 := by
  cases failure with
  | error e => exact Nat.one_ne_zero
  | fault fault => exact Nat.succ_ne_zero 100

theorem exitCode_writeResult_iff {report : WriteReport} :
    (writeResult report).exitCode = 0 ↔ report.failed = [] := by
  rw [writeResult, WriteReport.isComplete]
  cases report.failed with
  | nil => exact iff_of_true rfl rfl
  | cons failure failed => exact iff_of_false Nat.one_ne_zero (List.cons_ne_nil _ _)

theorem forall_plans_iff (hplans : run.planInTurn = .ok plans) {p : Plan → Prop} :
    (∀ plan ∈ plans, p plan) ↔
      ∀ unit ∈ run.units, ∀ plan, run.planFor unit = .ok plan → p plan := by
  have hpairs := Outcome.mapM_eq_ok_iff.1 hplans
  constructor
  · intro h unit hunit plan hplan
    rcases Outcome.exists_of_mem_left hpairs hunit with ⟨plan', hmem, hplan'⟩
    rw [hplan] at hplan'
    cases hplan'
    exact h plan hmem
  · intro h plan hmem
    rcases Outcome.exists_of_mem_right hpairs hmem with ⟨unit, hunit, hplan⟩
    exact h unit hunit plan hplan

theorem Request.Plannable.exists_plans (h : r.Plannable) :
    ∃ run plans, GenerationRun.ofSettings r.settings = .ok run ∧ run.planInTurn = .ok plans := by
  rcases h with ⟨run, hrun, hunits⟩
  rcases Outcome.exists_mapM_eq_ok hunits with ⟨plans, hplans⟩
  exact ⟨run, plans, hrun, hplans⟩

/-- A run whose settings are invalid or whose units cannot all be planned ends before it touches
anything. -/
theorem runRequest_of_unplanned (h : ¬ r.Plannable) (fs : FileSystem) :
    ∃ context failure,
      (runRequest r : StateM FileSystem CommandResult) fs = (abort context failure, fs) := by
  unfold runRequest
  cases hrun : GenerationRun.ofSettings r.settings with
  | error failure => exact ⟨_, failure, rfl⟩
  | ok run =>
      cases hplans : run.plans with
      | error failure =>
          refine ⟨"Failed to plan routines", failure, ?_⟩
          dsimp only [attempt]
          rw [hplans]
          rfl
      | ok plans =>
          refine absurd ⟨run, hrun, ?_⟩ h
          exact Outcome.exists_mapM_eq_ok_iff.1 ⟨plans, plans_eq_ok_iff.1 hplans⟩

/-- Once everything is planned, no verification ends the run. -/
theorem runRequest_of_plans (hrun : GenerationRun.ofSettings r.settings = .ok run)
    (hplans : run.planInTurn = .ok plans) :
    (runRequest r : StateM FileSystem CommandResult) =
      if r.dryRun then pure { exitCode := 0, stdout := dryRunReport plans }
      else emitPlans .listing plans (FilePath.ofText r.outputDir) listingSuffix >>= fun result =>
        attempt s!"Failed to generate into {r.outputDir}" result fun report =>
          pure (writeResult report) := by
  have hverify : ∃ reports,
      (if r.verify then Plan.verifyEach plans .addressable else .ok []) = .ok reports := by
    split
    · exact exists_verifyEach hplans
    · exact ⟨[], rfl⟩
  rcases hverify with ⟨reports, hreports⟩
  unfold runRequest
  rw [hrun]
  dsimp only [attempt]
  rw [plans_eq_ok_iff.2 hplans]
  dsimp only
  rw [hreports]

theorem runRequest_of_dryRun (hplan : r.Plannable) (hdry : r.dryRun = true) (fs : FileSystem) :
    ∃ result : CommandResult, (runRequest r : StateM FileSystem CommandResult) fs = (result, fs) ∧
      result.exitCode = 0 := by
  rcases hplan.exists_plans with ⟨run, plans, hrun, hplans⟩
  rw [runRequest_of_plans hrun hplans, if_pos hdry]
  exact ⟨_, rfl, rfl⟩

section Writes

variable (hrun : GenerationRun.ofSettings r.settings = .ok run)
  (hplans : run.planInTurn = .ok plans) (hwrites : r.dryRun = false)

include hrun hplans hwrites

theorem runRequest_of_blocked {cause : FileError}
    (hmade : (fs.makeDirectories (FilePath.ofText r.outputDir)).2 = .error cause) :
    ((runRequest r : StateM FileSystem CommandResult) fs).1.exitCode ≠ 0 := by
  rw [runRequest_of_plans hrun hplans, if_neg (by rw [hwrites]; exact Bool.false_ne_true)]
  simp only [bind, StateT.bind, emitPlans_of_error hmade]
  exact exitCode_abort _ _

/-- A run succeeds if all its units do, and those that do are written. -/
theorem runRequest_of_made (hmade : (fs.makeDirectories (FilePath.ofText r.outputDir)).2 = .ok ()) :
    let dir := FilePath.ofText r.outputDir
    let made := (fs.makeDirectories dir).1
    ∃ (result : CommandResult) (fs' : FileSystem),
      (runRequest r : StateM FileSystem CommandResult) fs = (result, fs') ∧
      (result.exitCode = 0 ↔
        ∀ plan ∈ plans, succeeds .listing dir listingSuffix made plan = true) ∧
      ∀ plan ∈ plans, Settled .listing dir listingSuffix made fs' plan := by
  intro dir made
  have hextension : '/' ∉ listingSuffix.toList := by decide
  have hlisting : ∀ plan ∈ plans, ∀ fault,
      (PlanEmitter.listing plan).2 ≠ .error (.fault fault) := by
    rw [forall_plans_iff hplans]
    intro unit _ plan hplan fault hfault
    rcases exists_listing hplan with ⟨text, _, hemit⟩
    rw [hemit] at hfault
    cases hfault
  rcases emitEach_eq dir hextension (nodup_titles hrun hplans) hlisting {} made with
    ⟨report, fs', hemit, hnoted, _, hsettled, _⟩
  have hemitted : (emitPlans .listing plans (FilePath.ofText r.outputDir) listingSuffix :
      StateM FileSystem _) fs = (.ok report, fs') := (emitPlans_of_ok hmade).trans hemit
  refine ⟨writeResult report, fs', ?_, ?_, hsettled⟩
  · rw [runRequest_of_plans hrun hplans, if_neg (by rw [hwrites]; exact Bool.false_ne_true)]
    simp only [bind, StateT.bind, hemitted]
    rfl
  · rw [exitCode_writeResult_iff, ← List.map_eq_nil_iff (f := Prod.fst), hnoted.failed]
    simp

end Writes

/-- Every listing of the run gets to its file. -/
def Request.Emits (r : Request) (fs : FileSystem) : Prop :=
  ∀ run, GenerationRun.ofSettings r.settings = .ok run → ∀ unit ∈ run.units, ∀ plan,
    run.planFor unit = .ok plan →
      succeeds .listing (FilePath.ofText r.outputDir) listingSuffix fs plan = true

theorem emits_iff (hrun : GenerationRun.ofSettings r.settings = .ok run)
    (hplans : run.planInTurn = .ok plans) : r.Emits fs ↔ ∀ plan ∈ plans,
      succeeds .listing (FilePath.ofText r.outputDir) listingSuffix fs plan = true := by
  rw [forall_plans_iff hplans]
  constructor
  · exact fun h => h run hrun
  · intro h run' hrun'
    rw [hrun] at hrun'
    cases hrun'
    exact h

theorem runRequest_untouched (h : r.dryRun = true ∨ ¬ r.Plannable) (fs : FileSystem) :
    ((runRequest r : StateM FileSystem CommandResult) fs).2 = fs := by
  by_cases hplan : r.Plannable
  · have hdry := h.resolve_right (not_not.2 hplan)
    rcases runRequest_of_dryRun hplan hdry fs with ⟨_, hended, _⟩
    rw [hended]
  · rcases runRequest_of_unplanned hplan fs with ⟨_, _, hended⟩
    rw [hended]

theorem exitCode_runRequest_iff (r : Request) (fs : FileSystem) :
    ((runRequest r : StateM FileSystem CommandResult) fs).1.exitCode = 0 ↔
      r.Plannable ∧ (r.dryRun = true ∨
        (fs.makeDirectories (FilePath.ofText r.outputDir)).2 = .ok () ∧
          r.Emits (fs.makeDirectories (FilePath.ofText r.outputDir)).1) := by
  by_cases hplan : r.Plannable
  · rw [and_iff_right hplan]
    cases hdry : r.dryRun with
    | true =>
        rcases runRequest_of_dryRun hplan hdry fs with ⟨_, hended, hcode⟩
        rw [hended]
        exact iff_of_true hcode (Or.inl rfl)
    | false =>
        rcases hplan.exists_plans with ⟨run, plans, hrun, hplans⟩
        rw [or_iff_right Bool.false_ne_true]
        cases hmade : (fs.makeDirectories (FilePath.ofText r.outputDir)).2 with
        | error cause =>
            exact iff_of_false (runRequest_of_blocked hrun hplans hdry hmade) nofun
        | ok _ =>
            rcases runRequest_of_made hrun hplans hdry hmade with ⟨_, _, hended, hcode, _⟩
            rw [hended, hcode, emits_iff hrun hplans, and_iff_right rfl]
  · rcases runRequest_of_unplanned hplan fs with ⟨context, failure, hended⟩
    rw [hended]
    exact iff_of_false (exitCode_abort context failure) fun h => hplan h.1

theorem listings_of_exitCode
    (hcode : ((runRequest r : StateM FileSystem CommandResult) fs).1.exitCode = 0)
    (hwrites : r.dryRun = false) (hrun : GenerationRun.ofSettings r.settings = .ok run) :
    ∀ unit ∈ run.units, ∃ plan text, run.planFor unit = .ok plan ∧ plan.listing = .ok text ∧
      ((runRequest r : StateM FileSystem CommandResult) fs).2.at?
        (targetOf (FilePath.ofText r.outputDir) listingSuffix plan) =
          some (.file text.toUTF8) := by
  rcases (exitCode_runRequest_iff r fs).1 hcode with ⟨hplan, hends⟩
  rcases hends.resolve_left (by rw [hwrites]; exact Bool.false_ne_true) with ⟨hmade, hemits⟩
  rcases hplan.exists_plans with ⟨run', plans, hrun', hplans⟩
  rw [hrun] at hrun'
  cases hrun'
  rcases runRequest_of_made hrun hplans hwrites hmade with ⟨_, _, hended, _, hsettled⟩
  intro unit hunit
  rcases Outcome.exists_of_mem_left (Outcome.mapM_eq_ok_iff.1 hplans) hunit with
    ⟨plan, hmem, hplanned⟩
  rcases exists_listing hplanned with ⟨text, hlisting, hemit⟩
  have hwritten := (hsettled plan hmem).written (hemits run hrun unit hunit plan hplanned)
  rw [hemit] at hwritten
  rw [hended]
  exact ⟨plan, text, hplanned, hlisting, hwritten⟩

theorem runRequest_verified (r : Request) :
    (runRequest r.verified : StateM FileSystem CommandResult) = runRequest r := by
  have hsettings : r.verified.settings = r.settings := rfl
  cases hrun : GenerationRun.ofSettings r.settings with
  | error failure =>
      rw [runRequest, runRequest, hsettings, hrun]
      rfl
  | ok run =>
      cases hplans : run.plans with
      | error failure =>
          rw [runRequest, runRequest, hsettings, hrun]
          dsimp only [attempt]
          rw [hplans]
      | ok plans =>
          have hturn := plans_eq_ok_iff.1 hplans
          rw [runRequest_of_plans hrun hturn, runRequest_of_plans (hsettings ▸ hrun) hturn]
          rfl

theorem runCommand_eq {arguments : List String} (h : parse arguments = .ok (.run r)) :
    (runCommand arguments : StateM FileSystem CommandResult) = runRequest r := by
  rw [runCommand, h]

/-- The command as a whole, on arguments that ask for a run.  What its listings meet is seen from
the file system in which their directory has been made. -/
theorem runCommand_outcomes {arguments : List String} (h : parse arguments = .ok (.run r))
    (fs : FileSystem) :
    let result := (runCommand arguments : StateM FileSystem CommandResult) fs
    let dir := FilePath.ofText r.outputDir
    let made := fs.makeDirectories dir
    (r.dryRun = true ∨ ¬ r.Plannable → result.2 = fs) ∧
    (result.1.exitCode = 0 ↔
      r.Plannable ∧ (r.dryRun = true ∨ made.2 = .ok () ∧ r.Emits made.1)) ∧
    (result.1.exitCode = 0 → r.dryRun = false →
      ∀ run, GenerationRun.ofSettings r.settings = .ok run → ∀ unit ∈ run.units, ∃ plan text,
        run.planFor unit = .ok plan ∧ plan.listing = .ok text ∧
        result.2.at? (targetOf dir listingSuffix plan) = some (.file text.toUTF8)) ∧
    ("--verify" ∉ arguments → parse ("--verify" :: arguments) = .ok (.run r.verified)) ∧
    ∀ before after r', arguments = before ++ after →
      parse (before ++ "--verify" :: after) = .ok (.run r') →
        (runCommand (before ++ "--verify" :: after) : StateM FileSystem CommandResult) fs =
          result := by
  intro result dir made
  have hresult : result = (runRequest r : StateM FileSystem CommandResult) fs :=
    congrFun (runCommand_eq h) fs
  rw [hresult]
  refine ⟨fun huntouched => runRequest_untouched huntouched fs, exitCode_runRequest_iff r fs,
    fun hcode hwrites run hrun => listings_of_exitCode hcode hwrites hrun,
    fun hnot => parse_verify_cons hnot h, ?_⟩
  rintro before after r' rfl hparse
  rcases exists_parse_of_verify hparse with ⟨r₀, hwithout, rfl⟩
  rw [h] at hwithout
  cases hwithout
  rw [runCommand_eq hparse, runRequest_verified]

/-- Listings for one instruction set go to a directory that is made for them. -/
theorem runCommand_outcomes_neon :
    let arguments := ["--vector-isa", "NEON", "--max-vectors", "1", "--output-dir", "out"]
    let run : GenerationRun := ⟨{ Settings.only [.neon] with widest := some 1 }⟩
    let result := (runCommand arguments : StateM FileSystem CommandResult) {}
    result.1.exitCode = 0 ∧
      (∀ unit ∈ run.units, ∃ plan text, run.planFor unit = .ok plan ∧ plan.listing = .ok text ∧
        result.2.at? (targetOf (.ofText "out") listingSuffix plan) =
          some (.file text.toUTF8)) ∧
      (runCommand (arguments ++ ["--verify"]) : StateM FileSystem CommandResult) {} = result := by
  intro arguments run result
  let r : Request := { isas := [.neon], maxVectors := some 1, outputDir := "out" }
  have hparse : parse arguments = .ok (.run r) := by decide +kernel
  have hverify : parse (arguments ++ ["--verify"]) = .ok (.run r.verified) := by decide +kernel
  have hrun : ofSettings r.settings = .ok run := rfl
  rcases Outcome.exists_eq_ok_of_isOk (x := run.planInTurn) (by decide +kernel) with
    ⟨plans, hplans⟩
  have hmade : FileSystem.makeDirectories {} (.ofText "out") =
      (⟨[("out", .directory [])], []⟩, .ok ()) := by
    have hsegments : (FilePath.ofText "out").segments = ["out"] := rfl
    have hwell : (FilePath.ofText "out").WellFormed := ⟨by rw [hsegments]; simp, by decide, rfl⟩
    have hlocate : FileSystem.locate {} (.ofText "out") = .ok ⟨[], some "out", false⟩ :=
      FileSystem.locate_eq_ok_iff.2 ⟨hwell, _, rfl, rfl⟩
    rw [FileSystem.makeDirectories, if_neg (by decide), FilePath.ancestors, FileSystem.makeChain,
      FileSystem.makeDirectory, Outcome.bind_of_ok hlocate]
    rfl
  have hemits : r.Emits (FileSystem.makeDirectories {} (.ofText "out")).1 := by
    intro run' hrun' unit _ plan hplan
    rw [hrun] at hrun'
    cases hrun'
    rw [hmade, succeeds_listing_iff hplan]
    intro name hname
    have hlocate : FileSystem.locate ⟨[("out", .directory [])], []⟩
        ((FilePath.ofText "out").join (.ofText name)) = .ok ⟨["out"], some name, false⟩ :=
      FileSystem.locate_in_folder rfl rfl ⟨by decide, by decide, by decide, by decide⟩
        ⟨by decide, by decide⟩ (Plan.isStep_of_mem_fileNames (by decide) hname)
        (Plan.fits_of_mem_fileNames hname)
    have hfree : FileSystem.entry? ⟨[("out", .directory [])], []⟩ ["out", name] ≠
        some .directory := by
      intro hentry
      cases hentry
    rw [FileSystem.filePlace?_eq_some_iff.2 ⟨_, hlocate, rfl, rfl, rfl, hfree⟩]
    rfl
  rcases runCommand_outcomes hparse {} with ⟨_, hcode, hlistings, _, hverified⟩
  have hdone : result.1.exitCode = 0 := by
    refine hcode.2 ⟨⟨run, hrun, ?_⟩, Or.inr ⟨congrArg Prod.snd hmade, hemits⟩⟩
    exact Outcome.exists_mapM_eq_ok_iff.1 ⟨plans, hplans⟩
  refine ⟨hdone, hlistings hdone rfl run hrun, ?_⟩
  exact hverified arguments [] r.verified rfl hverify

end Bitonic.CommandLine
