import Bitonic.Proofs.Plan.Acceptance
import Bitonic.Run
/-!
# Units that are planned at the same time

A run with several jobs plans its units one by one in the order in which they finish, and then
collects the plans in unit order, `GenerationRun.planFinishing_eq`.  The order shows where units
fail for different reasons, and nowhere else, `GenerationRun.planFinishing_eq_plans_iff`.
-/

namespace Bitonic

namespace GenerationRun

variable {run : GenerationRun} {finished : List GenerationUnit}

def withJobs (run : GenerationRun) (jobs : Nat) : GenerationRun := ⟨{ run.settings with jobs }⟩

theorem usualOrder_perm (units : List GenerationUnit) : (usualOrder units).Perm units := by
  cases units with
  | nil => exact .nil
  | cons unit rest =>
      apply List.Perm.cons
      apply List.perm_append_comm.trans
      rw [List.take_append_drop]

theorem plans_withJobs_one (run : GenerationRun) : (run.withJobs 1).plans = run.planInTurn := rfl

theorem find?_results {unit : GenerationUnit} (h : unit ∈ run.units) :
    (run.units.map fun unit => (unit, run.planFor unit)).find? (·.1 == unit) =
      some (unit, run.planFor unit) := by
  have hsome : (run.units.find? (· == unit)).isSome = true :=
    List.find?_isSome.2 ⟨unit, h, beq_self_eq_true unit⟩
  rcases Option.isSome_iff_exists.1 hsome with ⟨found, hfound⟩
  have hsame := List.find?_some hfound
  rw [beq_iff_eq] at hsame
  subst hsame
  rw [List.find?_map, Function.comp_def, hfound]
  rfl

theorem planTogether_eq (h : ∀ unit ∈ finished, unit ∈ run.units) :
    run.planTogether finished = finished.mapM run.planFor >>= fun _ => run.planInTurn := by
  unfold planTogether
  dsimp only
  rw [List.mapM_map]
  induction finished with
  | nil => rfl
  | cons unit rest ih =>
      have hrest := ih fun unit hunit => h unit (List.mem_cons_of_mem _ hunit)
      rw [List.findSome?_cons, find?_results (h unit List.mem_cons_self), List.mapM_cons]
      cases hplan : run.planFor unit with
      | error failure => rfl
      | ok plan =>
          rw [Outcome.bind_of_ok rfl, bind_assoc]
          exact hrest

theorem planFinishing_eq (hjobs : 2 ≤ run.settings.jobs) (h : finished.Perm run.units) :
    run.planFinishing finished = finished.mapM run.planFor >>= fun _ => run.planInTurn := by
  rw [planFinishing, if_neg (by omega)]
  exact planTogether_eq fun unit hunit => h.mem_iff.1 hunit

/-- The plans do not show in which order the units finished. -/
theorem planFinishing_eq_ok_iff (hjobs : 2 ≤ run.settings.jobs) (h : finished.Perm run.units)
    {plans : List Plan} : run.planFinishing finished = .ok plans ↔ run.planInTurn = .ok plans := by
  rw [planFinishing_eq hjobs h, Outcome.bind_eq_ok_iff]
  constructor
  · rintro ⟨_, _, hplans⟩
    exact hplans
  · intro hplans
    have hall : ∀ unit ∈ finished, ∃ plan, run.planFor unit = .ok plan := by
      intro unit hunit
      rcases Outcome.exists_of_mem_left (Outcome.mapM_eq_ok_iff.1 hplans) (h.mem_iff.1 hunit) with
        ⟨plan, _, hplan⟩
      exact ⟨plan, hplan⟩
    rcases Outcome.exists_mapM_eq_ok hall with ⟨_, hfinished⟩
    exact ⟨_, hfinished, hplans⟩

theorem planFinishing_eq_error_iff (hjobs : 2 ≤ run.settings.jobs) (h : finished.Perm run.units)
    {failure : Failure} : run.planFinishing finished = .error failure ↔
      ∃ before unit after, finished = before ++ unit :: after ∧
        (∀ unit' ∈ before, ∃ plan, run.planFor unit' = .ok plan) ∧
        run.planFor unit = .error failure := by
  rw [← Outcome.mapM_eq_error_iff]
  cases hfinished : finished.mapM run.planFor with
  | error failure' =>
      rw [planFinishing_eq hjobs h, hfinished]
      rfl
  | ok plans =>
      -- all units can be planned, in unit order as well
      have hall : ∀ unit ∈ run.units, ∃ plan, run.planFor unit = .ok plan := by
        intro unit hunit
        rcases Outcome.exists_of_mem_left (Outcome.mapM_eq_ok_iff.1 hfinished)
          (h.mem_iff.2 hunit) with ⟨plan, _, hplan⟩
        exact ⟨plan, hplan⟩
      rcases Outcome.exists_mapM_eq_ok hall with ⟨plans', hplans⟩
      rw [(planFinishing_eq_ok_iff hjobs h).2 hplans]
      exact ⟨nofun, nofun⟩

theorem plans_eq_ok_iff {made : List Plan} :
    run.plans = .ok made ↔ run.planInTurn = .ok made := by
  by_cases hjobs : run.settings.jobs ≤ 1
  · rw [plans, planFinishing, if_pos hjobs]
  · exact planFinishing_eq_ok_iff (by omega) (usualOrder_perm run.units)

theorem exists_of_planFinishing_eq_error (h : finished.Perm run.units) {failure : Failure}
    (hfails : run.planFinishing finished = .error failure) :
    ∃ unit ∈ run.units, run.planFor unit = .error failure := by
  by_cases hjobs : run.settings.jobs ≤ 1
  · rw [planFinishing, if_pos hjobs] at hfails
    exact Outcome.exists_of_mapM_eq_error hfails
  · have hfirst := (planFinishing_eq_error_iff (by omega) h).1 hfails
    rcases Outcome.exists_of_mapM_eq_error (Outcome.mapM_eq_error_iff.2 hfirst) with
      ⟨unit, hunit, hunfit⟩
    exact ⟨unit, h.mem_iff.1 hunit, hunfit⟩

theorem exists_planFinishing_eq_error (hjobs : 2 ≤ run.settings.jobs) {unit : GenerationUnit}
    (hunit : unit ∈ run.units) {failure : Failure} (hfails : run.planFor unit = .error failure) :
    ∃ finished : List GenerationUnit, finished.Perm run.units ∧
      run.planFinishing finished = .error failure := by
  have hperm : (unit :: run.units.erase unit).Perm run.units :=
    (List.perm_cons_erase hunit).symm
  exact ⟨_, hperm, (planFinishing_eq_error_iff hjobs hperm).2 ⟨[], unit, _, rfl, nofun, hfails⟩⟩

theorem planFinishing_eq_plans_iff (hjobs : 2 ≤ run.settings.jobs) :
    (∀ finished : List GenerationUnit, finished.Perm run.units →
      (∀ plans, run.planFinishing finished = .ok plans ↔
        (run.withJobs 1).plans = .ok plans) ∧
      ∀ failure, run.planFinishing finished = .error failure ↔
        ∃ before unit after, finished = before ++ unit :: after ∧
          (∀ unit' ∈ before, ∃ plan, run.planFor unit' = .ok plan) ∧
          run.planFor unit = .error failure) ∧
    ((∀ finished : List GenerationUnit, finished.Perm run.units →
        run.planFinishing finished = (run.withJobs 1).plans) ↔
      ∀ unit ∈ run.units, ∀ unit' ∈ run.units, ∀ failure failure',
        run.planFor unit = .error failure → run.planFor unit' = .error failure' →
          failure = failure') := by
  rw [plans_withJobs_one]
  refine ⟨fun finished h => ⟨fun plans => planFinishing_eq_ok_iff hjobs h,
    fun failure => planFinishing_eq_error_iff hjobs h⟩, ?_, ?_⟩
  · intro hsame unit hunit unit' hunit' failure failure' hfails hfails'
    rcases exists_planFinishing_eq_error hjobs hunit hfails with ⟨finished, hperm, herror⟩
    rcases exists_planFinishing_eq_error hjobs hunit' hfails' with ⟨finished', hperm', herror'⟩
    rw [hsame _ hperm] at herror
    rw [hsame _ hperm', herror] at herror'
    exact Except.error.inj herror'
  · intro halike finished hperm
    cases hturn : run.planInTurn with
    | ok plans => exact (planFinishing_eq_ok_iff hjobs hperm).2 hturn
    | error failure =>
        cases htogether : run.planFinishing finished with
        | ok plans =>
            rw [(planFinishing_eq_ok_iff hjobs hperm).1 htogether] at hturn
            cases hturn
        | error failure' =>
            rcases exists_of_planFinishing_eq_error hperm htogether with ⟨unit, hunit, hfails⟩
            rcases Outcome.exists_of_mapM_eq_error hturn with ⟨unit', hunit', hfails'⟩
            rw [halike unit hunit unit' hunit' failure' failure hfails hfails']

/-- No unit of a run without vectors can be planned, and all for the same reason. -/
theorem planFinishing_eq_plans_neon :
    let settings := { Settings.only [.neon] with jobs := 2, widest := some 0 }
    2 ≤ settings.jobs ∧ ∀ finished : List GenerationUnit,
      finished.Perm (GenerationRun.mk settings).units →
        (GenerationRun.mk settings).planFinishing finished =
          ((GenerationRun.mk settings).withJobs 1).plans := by
  intro settings
  have hjobs : 2 ≤ (GenerationRun.mk settings).settings.jobs := Nat.le_refl 2
  refine ⟨hjobs, (planFinishing_eq_plans_iff hjobs).2.2 ?_⟩
  have hfails : ∀ unit ∈ (GenerationRun.mk settings).units,
      (GenerationRun.mk settings).planFor unit = Outcome.refuse .noVectors := by
    have hunits : (GenerationRun.mk settings).units =
      [⟨.neon, some .int32⟩, ⟨.neon, some .uint32⟩, ⟨.neon, some .float⟩, ⟨.neon, some .double⟩,
        ⟨.neon, none⟩] := rfl
    rw [hunits]
    simp only [List.forall_mem_cons]
    exact ⟨rfl, rfl, rfl, rfl, rfl, nofun⟩
  intro unit hunit unit' hunit' failure failure' herror herror'
  rw [hfails unit hunit] at herror
  rw [hfails unit' hunit', herror] at herror'
  exact Except.error.inj herror'

/-- Mergers that are too wide for one instruction set only.  The units of another one are planned
before its first, and the worker that starts from the middle on meets its third unit first. -/
theorem plans_ne_plans_withJobs_one :
    let settings := Settings.withWidestMerger { jobs := 2, unroll := 17 } .avx512 9
    let tooWide (ty : ScalarType) : Failure :=
      .error (.configuration (.mergerAboveIsaCeiling 9 .avx512 8 ty))
    ∃ run, ofSettings settings = .ok run ∧ (usualOrder run.units).Perm run.units ∧
      run.planFinishing (usualOrder run.units) = .error (tooWide .float) ∧
      (run.withJobs 1).plans = .error (tooWide .int32) := by
  intro settings tooWide
  have htypes : ∀ ty, ∃ plan, (GenerationRun.mk settings).planFor ⟨.avx2, some ty⟩ = .ok plan := by
    intro ty
    have haccepted : settings.Accepted InstructionSet.avx2Profile ty :=
      ⟨by cases ty <;> rfl, ⟨show 1 ≤ 16 by decide, Nat.le_refl 16⟩, nofun⟩
    rcases InstructionSet.exists_hasRegister .avx2 haccepted.offered with ⟨size, hregister⟩
    have hcoverage : settings.vectorsFor InstructionSet.avx2Profile ty *
        (InstructionSet.avx2Profile.registerBytes / ty.byteSize) < 2 ^ 62 := by
      cases ty <;> decide
    exact (Plan.forType_of_accepted hregister haccepted
      (fun _ => show 16 ≤ 2 ^ 63 by decide) hcoverage).2.2
  have hisa : ∃ plan, (GenerationRun.mk settings).planFor ⟨.avx2, none⟩ = .ok plan := ⟨_, rfl⟩
  have hfails : ∀ ty, (GenerationRun.mk settings).planFor ⟨.avx512, some ty⟩ =
      .error (tooWide ty) := by
    intro ty
    cases ty <;> rfl
  have hperm := usualOrder_perm (GenerationRun.mk settings).units
  refine ⟨⟨settings⟩, rfl, hperm, ?_, ?_⟩
  · apply (planFinishing_eq_error_iff (Nat.le_refl 2) hperm).2
    refine ⟨[⟨.avx2, some .int32⟩], ⟨.avx512, some .float⟩, _, rfl, ?_, hfails .float⟩
    intro unit hunit
    rw [List.mem_singleton.1 hunit]
    exact htypes .int32
  · apply Outcome.mapM_eq_error_iff.2
    refine ⟨unitsOf .avx2, ⟨.avx512, some .int32⟩, _, rfl, ?_, hfails .int32⟩
    intro unit hunit
    rcases List.mem_append.1 hunit with hunit | hunit
    · rcases List.mem_map.1 hunit with ⟨ty, _, rfl⟩
      exact htypes ty
    · rw [List.mem_singleton.1 hunit]
      exact hisa

end GenerationRun

end Bitonic
