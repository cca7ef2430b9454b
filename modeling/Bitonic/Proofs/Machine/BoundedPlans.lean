import Bitonic.Proofs.Machine.FailedRuns
/-!
# Runs of malformed plans

A plan that was put together by hand may name registers that are not there, call what does not
exist, call itself, load twice, store nothing or use pairings of any length.  As long as its numbers
are moderate, a machine answers such a plan with an error: no count leaves 64 bits, and no place of
a row is read or written that the row does not have.

* `Machine.walk_bounded` — steps, by the numbers that the calls can still add up;
* `Machine.answers_runOn`, `Machine.answers_sort` — networks, entry points and sorting;
* `Machine.answers_of_bounded` — all runs of a plan with moderate numbers.
-/

namespace Bitonic

/-- The numbers of a moderate plan are below this one, `2 ^ 31`. -/
def Plan.numberBound : Nat := 0x80000000

open Plan (numberBound)

/-- The registers, offsets and vectors that the step names are moderate, and a table that it
dispatches by has lanes. -/
def Step.Bounded : Step → Prop
  | .layer l => l.topRegister < numberBound
  | .call _ first => first < numberBound
  | .outer (.load vectors _ _) => vectors < numberBound
  | .outer (.byLength table) => 0 < table.lanes
  | .outer _ => True

structure Routine.Bounded (r : Routine) : Prop where
  width : r.width < numberBound
  body : ∀ step ∈ r.body, step.Bounded

structure Plan.Bounded (plan : Plan) : Prop where
  limits : ∃ limits, plan.limits? = some limits ∧ 0 < limits.lanes ∧ limits.lanes < numberBound
  routines : ∀ r ∈ plan.routines, r.Bounded

/-- The failure tells the caller what is wrong with the plan or the request. -/
def Failure.IsAnswer : Failure → Prop
  | .error (.typeMismatch _ _) => True
  | .error (.unknownRoutine _) => True
  | .error (.malformedPlan _) => True
  | _ => False

theorem Failure.ordinary_isAnswer : Failure.Ordinary Failure.IsAnswer where
  defective _ _ := trivial
  typeMismatch _ _ := trivial

abbrev Outcome.Answers {α : Type} (x : Outcome α) : Prop := x.FailsOnly Failure.IsAnswer

open Failure OnRow Outcome

variable {α : Type} [Scalar α]

namespace Machine

variable {machine : Machine}

/-- A machine of a moderate plan. -/
structure Bounded (machine : Machine) : Prop where
  pos : 0 < machine.lanes
  lanes : machine.lanes < numberBound
  routines : ∀ r ∈ machine.plan.routines, r.Bounded

theorem answers_routineFor (key : NetworkKey) : Answers (machine.routineFor key) := by
  unfold routineFor
  split
  · exact failsOnly_ok _ _
  · exact failsOnly_error trivial

/-- Every body that may still be opened can move its registers by less than the bound, so the sum of
all moves stays a count. -/
theorem walk_bounded (h : machine.Bounded) : machine.Walk IsAnswer fun levels base steps =>
    (∀ step ∈ steps, step.Bounded) ∧ base + levels * numberBound ≤ Count.limit where
  tooDeep _ := trivial
  noLanes hlanes := absurd hlanes h.pos.ne'
  layer hopen hlayer := by
    obtain ⟨hsteps, hroom⟩ := hopen
    have htop := hsteps _ hlayer
    rw [Step.Bounded] at htop
    rw [Nat.succ_mul] at hroom
    exact failsOnly_checked (Count.add_eq_ok (by omega))
  found _ _ := answers_routineFor _
  placed hopen hcall := by
    obtain ⟨hsteps, hroom⟩ := hopen
    have hfirst := hsteps _ hcall
    rw [Step.Bounded] at hfirst
    rw [Nat.succ_mul] at hroom
    exact failsOnly_checked (Count.add_eq_ok (by omega))
  opens hopen hcall hr _ := by
    obtain ⟨hsteps, hroom⟩ := hopen
    have hfirst := hsteps _ hcall
    rw [Step.Bounded] at hfirst
    rw [Nat.succ_mul] at hroom
    exact ⟨(h.routines _ (mem_of_routineFor hr)).body, by omega⟩

theorem answers_runBody (h : machine.Bounded) {steps : List Step}
    (hsteps : ∀ step ∈ steps, step.Bounded) (file : RegisterFile α) :
    Answers (machine.runBody steps file) :=
  failsOnly_runSteps ordinary_isAnswer (walk_bounded h) ⟨hsteps, by decide⟩ file

theorem answers_mul_lanes (h : machine.Bounded) {count : Nat} (hcount : count < numberBound) :
    Answers (liftM (Count.mul count machine.lanes) : Outcome Nat) := by
  have hle : count * machine.lanes ≤ numberBound * numberBound :=
    Nat.mul_le_mul hcount.le h.lanes.le
  exact failsOnly_checked (Count.mul_eq_ok (hle.trans_lt (by decide)))

theorem answers_runOn (h : machine.Bounded) {r : Routine} (hr : r.Bounded) (values : List α) :
    Answers (machine.runOn r values) :=
  failsOnly_runOn ordinary_isAnswer (answers_mul_lanes h hr.width) (answers_runBody h hr.body)
    values

theorem answers_runByKey (h : machine.Bounded) (key : NetworkKey) (values : List α) :
    Answers (machine.runByKey key values) :=
  (answers_routineFor key).bind fun r hr =>
    answers_runOn h (h.routines r (mem_of_routineFor hr)) values

theorem entryWalk_bounded (h : machine.Bounded) {step : Step} (hstep : step.Bounded) :
    machine.EntryWalk IsAnswer α step where
  load hload := by
    rw [hload] at hstep
    exact answers_mul_lanes h hstep
  body := answers_runBody h (List.forall_mem_singleton.2 hstep)

theorem answers_lookup {table : LengthTable} (h : 0 < table.lanes) (length : Nat) :
    Answers (liftM (table.lookup length) : Outcome Lookup) := by
  unfold LengthTable.lookup
  split
  · exact failsOnly_ok _ _
  · rw [if_neg h.ne']
    split
    · exact failsOnly_ok _ _
    · exact failsOnly_ok _ _

theorem lanes_pos_of_lengthTable? {plan : Plan} (h : ∀ r ∈ plan.routines, r.Bounded)
    {table : LengthTable} (htable : plan.lengthTable? = some table) : 0 < table.lanes := by
  obtain ⟨step, hstep, hfound⟩ := List.exists_of_findSome?_eq_some htable
  obtain ⟨r, hr, hbody⟩ := List.mem_flatMap.1 hstep
  have hbound := (h r (List.mem_of_mem_filter hr)).body step hbody
  split at hfound
  · cases hfound
    exact hbound
  · cases hfound

theorem answers_entryFor (h : machine.Bounded) (d : Direction) (length : Nat) :
    Answers (machine.entryFor d length) := by
  unfold entryFor
  split
  · exact failsOnly_error trivial
  · next table htable =>
    refine (answers_lookup (lanes_pos_of_lengthTable? h.routines htable) length).bind
      fun found _ => ?_
    cases found with
    | fallback => exact failsOnly_ok _ _
    | row row =>
        dsimp only
        split
        · exact failsOnly_ok _ _
        · exact failsOnly_error trivial

theorem answers_sort (h : machine.Bounded) (d : Direction) (data : List α) :
    (machine.sort d data).2.Answers :=
  failsOnly_sort ordinary_isAnswer (answers_entryFor h d data.length) fun r hr step hstep =>
    entryWalk_bounded h ((h.routines r hr).body step hstep)

/-- However malformed a plan of moderate numbers is, there is a machine for it, and sorting an array in
place, running a network of the plan and running any routine of moderate numbers succeed or fail with
an answer.  So every place of a row that they read or write, every partner of a lane and every row
of the length table that they ask for is there. -/
theorem answers_of_bounded {plan : Plan} (hplan : plan.Bounded) :
    ∃ machine, ofPlan plan = .ok machine ∧
      ∀ (α : Type) [Scalar α] (data row : List α) (failure : Failure),
        (∀ d, (machine.sortInPlace d).run data = .error failure row → failure.IsAnswer) ∧
        (∀ key, (machine.runByKeyInPlace key).run data = .error failure row → failure.IsAnswer) ∧
        ∀ routine : Routine, routine.Bounded →
          (machine.runOnInPlace routine).run data = .error failure row → failure.IsAnswer := by
  obtain ⟨limits, hlimits, hpos, hlanes⟩ := hplan.limits
  have hmachine : Bounded ⟨plan, limits.element, limits.lanes⟩ := ⟨hpos, hlanes, hplan.routines⟩
  refine ⟨_, ofPlan_eq_ok hlimits, fun α _ data row failure => ⟨?_, ?_, ?_⟩⟩
  · intro d h
    rw [run_sortInPlace] at h
    exact answers_sort hmachine d data failure (eq_error_of_result h).1
  · intro key h
    rw [run_runByKeyInPlace] at h
    exact answers_runByKey hmachine key data failure (eq_error_of_allOrNothing h).1
  · intro routine hroutine h
    rw [run_runOnInPlace] at h
    exact answers_runOn hmachine hroutine data failure (eq_error_of_allOrNothing h).1

/-- A network that calls itself. -/
def endless : Plan where
  heading := .unit ⟨.neon, .int32, 1, 1, 0, 0, 0⟩ .scratchCopy false 1
  routines := [⟨"endless", .sorter, some ⟨.sort, 1, .ascending⟩, 1, some .ascending, false,
    [.call ⟨.sort, 1, .ascending⟩ 1]⟩]

theorem answers_of_bounded_endless : endless.Bounded ∧ ∃ machine failure row,
    ofPlan endless = .ok machine ∧
      (machine.runByKeyInPlace ⟨.sort, 1, .ascending⟩).run ([1] : List ScalarType.int32.Value) =
        .error failure row ∧ failure.IsAnswer := by
  have hbounded : endless.Bounded := by
    refine ⟨⟨_, rfl, by decide, by decide⟩, List.forall_mem_singleton.2 ⟨by decide, ?_⟩⟩
    exact List.forall_mem_singleton.2 (show 1 < numberBound by decide)
  obtain ⟨machine, hmachine, hruns⟩ := answers_of_bounded hbounded
  have hanswer := hruns ScalarType.int32.Value [1]
  cases hmachine
  obtain ⟨failure, row, hrun⟩ := exists_eq_error
    ((runByKeyInPlace ⟨endless, .int32, 1⟩ ⟨.sort, 1, .ascending⟩).run
      ([1] : List ScalarType.int32.Value)) (by decide +kernel)
  exact ⟨hbounded, _, failure, row, rfl, hrun, (hanswer row failure).2.1 _ hrun⟩

end Machine

end Bitonic
