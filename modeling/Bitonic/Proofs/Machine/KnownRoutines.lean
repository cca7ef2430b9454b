import Bitonic.Proofs.Length.Lookup
import Bitonic.Proofs.Machine.Failures
import Bitonic.Proofs.Machine.Networks
import Bitonic.Proofs.Plan.Unambiguous
/-!
# No run of a generated plan misses a routine

A machine looks a routine up in two places: by its key when a step calls it, and by its name when
the length table names an entry point.  If every call of a plan finds a routine of the plan, then
running steps never ends on an unknown routine, however deep the calls nest and whatever else fails
on the way.

* `Machine.findsAll_runOn`, `Machine.findsAll_sort` — runs of networks and of entry points whose
  calls are known;
* `Machine.plan_unambiguous` — a generated plan is closed and unambiguous, and no run misses a
  routine.
-/

namespace Bitonic

def Failure.FindsRoutine (failure : Failure) : Prop :=
  ∀ name, failure ≠ .error (.unknownRoutine name)

theorem Failure.ordinary_findsRoutine : Failure.Ordinary Failure.FindsRoutine where
  defective _ _ _ := nofun
  typeMismatch _ _ _ := nofun

namespace Outcome

variable {α : Type}

def FindsAll (x : Outcome α) : Prop := ∀ name, x ≠ fail (.unknownRoutine name)

theorem findsAll_iff {x : Outcome α} : x.FindsAll ↔ x.FailsOnly Failure.FindsRoutine := by
  constructor
  · rintro h _ rfl name rfl
    exact h name rfl
  · intro h name hname
    exact h _ hname name rfl

theorem findsAll_liftM (x : Checked α) : FailsOnly Failure.FindsRoutine (liftM x : Outcome α) :=
  failsOnly_liftM (fun _ _ => nofun) x

end Outcome

open Failure Outcome

variable {α : Type} [Scalar α]

namespace Machine

variable {machine : Machine} {steps : List Step} {key : NetworkKey} {name : String} {r : Routine}

/-- Every call among the steps finds a routine of the machine's plan. -/
def Knows (machine : Machine) (steps : List Step) : Prop :=
  ∀ callee first, .call callee first ∈ steps → ∃ r, machine.plan.find? callee = some r

def KnowsPlan (machine : Machine) : Prop := ∀ r ∈ machine.plan.routines, machine.Knows r.body

theorem Knows.of_mem {step : Step} (h : machine.Knows steps) (hstep : step ∈ steps) :
    machine.Knows [step] :=
  fun callee first hcall => h callee first (List.mem_singleton.1 hcall ▸ hstep)

theorem find?_of_routineFor (h : machine.routineFor key = .ok r) :
    machine.plan.find? key = some r := by
  unfold routineFor at h
  split at h
  · next found hfound =>
    cases h
    exact hfound
  · cases h

theorem mem_of_routineFor (h : machine.routineFor key = .ok r) : r ∈ machine.plan.routines :=
  List.mem_of_find?_eq_some (find?_of_routineFor h)

theorem routineFor_eq_unknown_iff :
    machine.routineFor key = fail (.unknownRoutine name) ↔
      machine.plan.find? key = none ∧ name = key.name := by
  unfold routineFor
  split
  · next found hfound =>
    rw [hfound]
    exact iff_of_false (fun h => by cases h) fun h => by cases h.1
  · next hnone =>
    rw [hnone]
    constructor
    · intro h
      cases h
      exact ⟨rfl, rfl⟩
    · rintro ⟨_, rfl⟩
      rfl

/-- What is called is a routine of the plan, so that the calls of its body are known again. -/
theorem walk_knows (hplan : machine.KnowsPlan) :
    machine.Walk FindsRoutine fun _ _ steps => machine.Knows steps where
  tooDeep _ _ := nofun
  noLanes _ _ := nofun
  layer _ _ := findsAll_liftM _
  found hknows hcall := by
    obtain ⟨r, hfind⟩ := hknows _ _ hcall
    rw [routineFor_eq_ok hfind]
    exact failsOnly_ok _ r
  placed _ _ := findsAll_liftM _
  opens _ _ hr _ := hplan _ (mem_of_routineFor hr)

theorem findsAll_runBody (hplan : machine.KnowsPlan) (hsteps : machine.Knows steps)
    (file : RegisterFile α) : (machine.runBody steps file).FailsOnly FindsRoutine :=
  failsOnly_runSteps ordinary_findsRoutine (walk_knows hplan) hsteps file

theorem findsAll_runOn (hplan : machine.KnowsPlan) (hbody : machine.Knows r.body)
    (values : List α) : FindsAll (machine.runOn r values) :=
  findsAll_iff.2 (failsOnly_runOn ordinary_findsRoutine (findsAll_liftM _)
    (findsAll_runBody hplan hbody) values)

/-- A network is not found exactly if the plan has no routine for it; nothing that it calls is
missing. -/
theorem runByKey_eq_unknown_iff (hplan : machine.KnowsPlan) (values : List α) :
    machine.runByKey key values = fail (.unknownRoutine name) ↔
      machine.plan.find? key = none ∧ name = key.name := by
  rw [← routineFor_eq_unknown_iff, runByKey]
  cases hroutine : machine.routineFor key with
  | error failure =>
      constructor
      · intro h
        cases h
        rfl
      · intro h
        cases h
        rfl
  | ok r =>
      have hfinds := findsAll_runOn hplan (hplan r (mem_of_routineFor hroutine)) values
      exact iff_of_false (hfinds name) fun h => by cases h

theorem findsAll_entryFor {table : LengthTable} (htable : machine.plan.lengthTable? = some table)
    {d : Direction}
    (hrows : ∀ row ∈ table.rows, ∃ r, machine.plan.findNamed? (row.entryPoint d) = some r)
    (length : Nat) : (machine.entryFor d length).FailsOnly FindsRoutine := by
  rw [entryFor, htable]
  refine (findsAll_liftM _).bind fun found hfound => ?_
  cases found with
  | fallback => exact failsOnly_ok _ _
  | row row =>
      obtain ⟨r, hnamed⟩ := hrows row (LengthTable.mem_of_lookup (liftM_eq_ok_iff.1 hfound))
      dsimp only
      rw [hnamed]
      exact failsOnly_ok _ _

theorem findsAll_sort (hplan : machine.KnowsPlan) {table : LengthTable}
    (htable : machine.plan.lengthTable? = some table) {d : Direction}
    (hrows : ∀ row ∈ table.rows, ∃ r, machine.plan.findNamed? (row.entryPoint d) = some r)
    (data : List α) : (machine.sort d data).2.FindsAll := by
  have hentry := findsAll_entryFor htable hrows data.length
  refine findsAll_iff.2 (failsOnly_sort ordinary_findsRoutine hentry fun r hr step hstep => ?_)
  exact ⟨fun _ => findsAll_liftM _, findsAll_runBody hplan ((hplan r hr).of_mem hstep)⟩

/-! ## Machines of generated plans -/

section Parts

variable {plan : Plan} {s : Synthesis} {networks entries : List Routine} {dispatch : Routine}

theorem knows_of_parts (h : plan.Parts s networks entries dispatch) (machine : Machine)
    (hplan : machine.plan = plan)
    (hcalls : ∀ callee first, .call callee first ∈ steps → s.hasRoutine callee = true) :
    machine.Knows steps := by
  intro callee first hcall
  obtain ⟨r, hfind, _⟩ := h.find?_eq (hcalls callee first hcall)
  exact ⟨r, hplan ▸ hfind⟩

theorem knowsPlan_of_parts (h : plan.Parts s networks entries dispatch) (machine : Machine)
    (hplan : machine.plan = plan) : machine.KnowsPlan := by
  intro r hr
  rw [hplan] at hr
  exact knows_of_parts h machine hplan fun _ _ hcall => h.hasRoutine_of_call hr hcall

theorem exists_findNamed?_of_row (h : plan.Parts s networks entries dispatch) {table : LengthTable}
    (htable : s.lengthTable .unlimited = .ok table) {row : LengthRow} (hrow : row ∈ table.rows)
    (d : Direction) : ∃ r, plan.findNamed? (row.entryPoint d) = some r := by
  rw [(Synthesis.lengthTable_eq_ok htable).2.2] at hrow
  obtain ⟨width, hwidth, rfl⟩ := List.mem_map.1 hrow
  rw [List.mem_range'_1] at hwidth
  obtain ⟨r, hnamed, _⟩ := h.findNamed?_eq (show 0 < width by omega) (by omega) d
  exact ⟨r, (LengthRow.entryPoint_ofWidth s.limits.lanes width d).symm ▸ hnamed⟩

end Parts

/-- In a generated plan, names and keys are unambiguous and calls reach the routines that they name.
So no run of a routine, of the plan or made for it, and no sorting of an array ends on an unknown
routine; only a network that the plan has no routine for cannot be asked for by its key. -/
theorem plan_unambiguous {ty : ScalarType} {profile : IsaProfile} {settings : Settings}
    {s : Synthesis} {plan : Plan} (hs : Synthesis.ofSettings profile ty settings = .ok s)
    (hplan : Plan.forType ty profile settings = .ok plan) :
    plan.Unambiguous s ∧ ∃ machine, Machine.ofPlan plan = .ok machine ∧
      ∀ (α : Type) [Scalar α],
        (∀ (d : Direction) (data : List α), (machine.sort d data).2.FindsAll) ∧
        (∀ (r : Routine) (values : List α),
          r ∈ plan.routines ∨ (∃ key, s.routineOf key = .ok r) →
            (machine.runOn r values).FindsAll) ∧
        ∀ (key : NetworkKey) (values : List α) (name : String),
          machine.runByKey key values = fail (.unknownRoutine name) ↔
            (∀ r ∈ plan.routines, r.key ≠ some key) ∧ name = key.name := by
  obtain ⟨s', networks, entries, dispatch, hs', hparts⟩ := Plan.forType_eq_ok hplan
  rw [hs] at hs'
  cases hs'
  obtain ⟨table, hfind, htable⟩ := hparts.lengthTable?_eq
  refine ⟨hparts.unambiguous, _, ofPlan_eq_ok hparts.limits, fun α _ => ?_⟩
  have hknows := knowsPlan_of_parts hparts ⟨plan, s.limits.element, s.limits.lanes⟩ rfl
  refine ⟨fun d data => ?_, fun r values hr => ?_, fun key values name => ?_⟩
  · exact findsAll_sort hknows hfind (fun row hrow => exists_findNamed?_of_row hparts htable hrow d)
      data
  · rcases hr with hr | ⟨key, hroutine⟩
    · exact findsAll_runOn hknows (hknows r hr) values
    · have hbody := (Synthesis.implements_of_routineOf hroutine).body
      exact findsAll_runOn hknows (knows_of_parts hparts _ rfl fun _ _ hcall =>
        Synthesis.closed_bodyOf hbody _ hcall) values
  · rw [runByKey_eq_unknown_iff hknows, Plan.find?, List.find?_eq_none]
    simp only [beq_iff_eq]

/-- A plan of ten networks and six entry points, of up to three registers. -/
theorem plan_unambiguous_three :
    ∃ s plan machine,
      Synthesis.ofSettings InstructionSet.neonProfile .int32 { widest := some 3 } = .ok s ∧
      Plan.forType .int32 InstructionSet.neonProfile { widest := some 3 } = .ok plan ∧
      plan.Unambiguous s ∧ Machine.ofPlan plan = .ok machine ∧
      ∀ data : List ScalarType.int32.Value, (machine.sort .ascending data).2.FindsAll := by
  obtain ⟨plan, hplan⟩ := Outcome.exists_eq_ok_of_isOk (x := Plan.forType .int32
    InstructionSet.neonProfile { widest := some 3 }) (by decide +kernel)
  obtain ⟨hunambiguous, machine, hmachine, hruns⟩ := plan_unambiguous
    (s := ⟨InstructionSet.neonProfile, ⟨.neon, .int32, 4, 3, 2, 0, 0⟩⟩) rfl hplan
  obtain ⟨hsort, _⟩ := hruns ScalarType.int32.Value
  exact ⟨_, plan, machine, rfl, hplan, hunambiguous, hmachine, hsort .ascending⟩

end Machine

end Bitonic
