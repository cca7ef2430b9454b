import Bitonic.Proofs.Machine.InPlace
import Bitonic.Proofs.Machine.KnownRoutines
/-!
# Failed runs

A sorter or merger works on registers of its own, so a failure leaves the caller's row alone.  An
entry point writes to the row in its store steps, and goes on after each: where a store is only ever
the last step of a body, nothing is left that could fail after it.

* `Machine.data_of_entryStep` — only a store writes to the data;
* `Machine.data_of_entrySteps` — up to the last step, the data are as they were;
* `Plan.Generated.storesLast` — generated plans store last;
* `Machine.row_of_failure` — no failure of a run, in any plan that stores last, changes the row.
-/

namespace Bitonic

def Step.isStore : Step → Bool
  | .outer (.store _ _) => true
  | _ => false

/-- Only the last step of the body may be a store. -/
def Routine.StoresLast (r : Routine) : Prop := ∀ step ∈ r.body.dropLast, step.isStore = false

instance (r : Routine) : Decidable r.StoresLast :=
  inferInstanceAs (Decidable (∀ step ∈ r.body.dropLast, step.isStore = false))

def Plan.StoresLast (plan : Plan) : Prop := ∀ r ∈ plan.routines, r.StoresLast

instance (plan : Plan) : Decidable plan.StoresLast :=
  inferInstanceAs (Decidable (∀ r ∈ plan.routines, r.StoresLast))

theorem Synthesis.Closed.isStore_eq_false {s : Synthesis} {step : Step} (h : s.Closed step) :
    step.isStore = false := by
  cases step with
  | layer layer => rfl
  | call callee first => rfl
  | outer outer => exact absurd h id

/-- Networks do not store at all, and entry points store once they are done. -/
theorem Plan.Generated.storesLast {plan : Plan} (h : plan.Generated) : plan.StoresLast := by
  intro r hr step hstep
  cases h.made r hr with
  | network hlimits hcount hroutine =>
      obtain ⟨_, hbody, _⟩ := Synthesis.routineOf_eq_ok hroutine
      exact (Synthesis.closed_bodyOf hbody step (List.mem_of_mem_dropLast hstep)).isStore_eq_false
  | entryPoint hlimits hcount hpos hle hroutine =>
      obtain ⟨residual, network, _, _, hnetwork, _, _, _, _, hbody, _⟩ :=
        Synthesis.entryRoutine_eq_ok hroutine
      rw [hbody, List.dropLast_concat] at hstep
      rcases List.mem_cons.1 hstep with rfl | hstep
      · rfl
      · exact (Synthesis.closed_invocation hnetwork step hstep).isStore_eq_false
  | lengthDispatch hlimits hroutine =>
      obtain ⟨table, _, _, _, _, hbody⟩ := Synthesis.lengthDispatch_eq_ok hroutine
      rw [hbody] at hstep
      cases hstep
  | typeDispatch hchoices => cases hstep

open OnRow

namespace Machine

variable {α : Type} [Scalar α] {machine : Machine} {name : String}

theorem plan_of_ofPlan {plan : Plan} (h : ofPlan plan = .ok machine) : machine.plan = plan := by
  unfold ofPlan at h
  split at h
  · cases h
    rfl
  · cases h

theorem data_of_entryStep {step : Step} {run run' : EntryRun α} (hstep : step.isStore = false)
    (h : machine.entryStep name step run = .ok run') : run'.data = run.data := by
  unfold entryStep at h
  split at h
  · obtain ⟨file, _, h⟩ := Outcome.bind_eq_ok_iff.1 h
    cases h
    rfl
  · cases hstep
  · cases h
  · obtain ⟨file, _, h⟩ := Outcome.bind_eq_ok_iff.1 h
    cases h
    rfl
  · cases h

/-- The data are as they were, wherever the steps of a body that stores last come to fail. -/
theorem data_of_entrySteps {steps : List Step} {run : EntryRun α} {failure : Failure}
    (hsteps : ∀ step ∈ steps.dropLast, step.isStore = false)
    (h : (machine.entrySteps name steps run).2 = .error failure) :
    (machine.entrySteps name steps run).1 = run.data := by
  induction steps generalizing run with
  | nil => rfl
  | cons step steps ih =>
      rw [entrySteps] at h ⊢
      cases hentry : machine.entryStep name step run with
      | error failure => rfl
      | ok run' =>
          rw [hentry] at h
          cases steps with
          | nil => cases h
          | cons next rest =>
              have hfirst := hsteps step List.mem_cons_self
              have hrest := fun step hstep => hsteps step (List.mem_cons_of_mem _ hstep)
              exact (ih hrest h).trans (data_of_entryStep hfirst hentry)

theorem data_of_sort (hplan : machine.plan.StoresLast) {d : Direction} {data : List α}
    {failure : Failure} (h : (machine.sort d data).2 = .error failure) :
    (machine.sort d data).1 = data := by
  rw [sort] at h ⊢
  cases hroute : machine.route (Scalar.element α) d data.length with
  | error failure => rfl
  | ok found =>
      rw [hroute] at h
      cases found with
      | none => cases h
      | some entry =>
          obtain ⟨row, routine⟩ := entry
          obtain ⟨_, _, hentry⟩ := Outcome.bind_eq_ok_iff.1 hroute
          have hstores := hplan routine (mem_of_entryFor hentry)
          cases hsteps : (machine.entrySteps (row.entryPoint d) routine.body ⟨data, none⟩).2 with
          | error failure => exact data_of_entrySteps hstores hsteps
          | ok done =>
              change Except.map _ (machine.entrySteps _ _ _).2 = _ at h
              rw [hsteps] at h
              cases h

/-- Generated plans store last.  In any plan that does, however malformed it is otherwise, a run that
fails leaves the row as it was: an array that is sorted, the registers of a network of the plan and
those of any other routine, whatever has already been done to them. -/
theorem row_of_failure :
    (∀ {plan : Plan}, plan.Generated → plan.StoresLast) ∧
    ∀ {plan : Plan} {machine : Machine}, plan.StoresLast → ofPlan plan = .ok machine →
      ∀ (α : Type) [Scalar α] (data row : List α) (failure : Failure),
        (∀ d, (machine.sortInPlace d).run data = .error failure row → row = data) ∧
        (∀ key, (machine.runByKeyInPlace key).run data = .error failure row → row = data) ∧
        ∀ routine, (machine.runOnInPlace routine).run data = .error failure row → row = data := by
  refine ⟨Plan.Generated.storesLast, fun {plan machine} hplan hmachine α _ data row failure => ?_⟩
  rw [← plan_of_ofPlan hmachine] at hplan
  refine ⟨fun d h => ?_, fun key h => ?_, fun routine h => ?_⟩
  · rw [run_sortInPlace] at h
    obtain ⟨hsort, rfl⟩ := eq_error_of_result h
    exact data_of_sort hplan hsort
  · rw [run_runByKeyInPlace] at h
    exact (eq_error_of_allOrNothing h).2
  · rw [run_runOnInPlace] at h
    exact (eq_error_of_allOrNothing h).2

/-- A plan that was edited by hand: its entry point swaps two registers of one lane, and then calls a
network that the plan does not have. -/
def interrupted : Plan where
  heading := .unit ⟨.neon, .int32, 1, 2, 0, 0, 0⟩ .scratchCopy false 2
  routines := [
    ⟨"sort_02v_alt_ascending", .entryPoint 2 2, none, 2, some .ascending, false,
      [.outer (.load 2 .scratchCopy .max), .layer (.between 0 1 .ascending),
        .call ⟨.sort, 7, .ascending⟩ 0, .outer (.store 2 .scratchCopy)]⟩,
    ⟨"sort_int32", .lengthDispatch, none, 2, none, false,
      [.outer (.byLength ⟨1, [⟨1, 0, 1, "", ""⟩, ⟨2, 2, 2, "sort_02v_alt_ascending", ""⟩], 2⟩)]⟩]

theorem row_of_failure_interrupted :
    interrupted.StoresLast ∧ ∃ machine failure, ofPlan interrupted = .ok machine ∧
      (machine.sortInPlace .ascending).run ([2, 1] : List ScalarType.int32.Value) =
        .error failure [2, 1] := by
  have hstores : interrupted.StoresLast := by decide
  obtain ⟨_, hruns⟩ := row_of_failure
  have hrow := hruns hstores rfl ScalarType.int32.Value [2, 1]
  obtain ⟨failure, row, hrun⟩ := exists_eq_error
    ((sortInPlace ⟨interrupted, .int32, 1⟩ .ascending).run
      ([2, 1] : List ScalarType.int32.Value)) (by decide +kernel)
  obtain rfl := (hrow row failure).1 .ascending hrun
  exact ⟨hstores, _, failure, rfl, hrun⟩

end Machine

end Bitonic
