import Bitonic.Machine
import Bitonic.Proofs.Outcome
/-!
# How runs fail

A run meets the same failures whatever is asked of it: its counts may leave 64 bits, a routine may
be missing, calls may nest too deep, and the plan or the values may not fit.  A kind of failures is
`Ordinary` if it holds the last ones, which no run excludes.  Where the others are of the kind too, so
is every failure of a run.

* `Machine.failsOnly_runSteps` — steps, by a property of the bodies that are opened;
* `Machine.failsOnly_runOn`, `Machine.failsOnly_sort` — networks and arrays, by what their bodies do.
-/

namespace Bitonic

/-- The kind holds the failures of plans and values that do not fit. -/
structure Failure.Ordinary (P : Failure → Prop) : Prop where
  defective : ∀ defect, defect ≠ .callTooDeep → P (.error (.malformedPlan defect))
  typeMismatch : ∀ expected found, P (.error (.typeMismatch expected found))

open Outcome

variable {P : Failure → Prop} {α : Type} [Scalar α]

theorem Outcome.failsOnly_liftM {β : Type} (hP : ∀ fault, P (.fault fault)) (x : Checked β) :
    FailsOnly P (liftM x : Outcome β) :=
  failsOnly_liftM_of fun fault _ => hP fault

theorem Outcome.failsOnly_checked {β : Type} {x : Checked β} {b : β} (h : x = .ok b) :
    FailsOnly P (liftM x : Outcome β) := by
  rw [h]
  exact failsOnly_ok P b

/-- A failure says the same of a computation of another kind. -/
theorem Outcome.FailsOnly.of_error {β γ : Type} {failure : Failure}
    (h : FailsOnly P (.error failure : Outcome β)) : FailsOnly P (.error failure : Outcome γ) :=
  failsOnly_error (h failure rfl)

theorem Exchange.failsOnly_run (hP : Failure.Ordinary P) (x : Exchange) (register : List α) :
    (x.run register).FailsOnly P := by
  unfold Exchange.run
  split
  · exact failsOnly_ok P _
  · exact failsOnly_error (hP.defective _ nofun)

theorem Layer.failsOnly_run (hP : Failure.Ordinary P) {base : Nat} {l : Layer}
    (hadd : FailsOnly P (liftM (Count.add base l.topRegister) : Outcome Nat))
    (file : RegisterFile α) : (l.run base file).FailsOnly P := by
  rw [Layer.run.eq_def]
  refine hadd.bind fun top _ => ?_
  split
  · exact failsOnly_error (hP.defective _ nofun)
  · cases l with
    | inside r x => exact (x.failsOnly_run hP _).bind fun _ _ => failsOnly_ok P _
    | between low high d => exact failsOnly_ok P _

namespace Machine

variable {machine : Machine} {steps : List Step} {r : Routine} {name : String}

theorem failsOnly_requireType (hP : Failure.Ordinary P) (found : ScalarType) :
    (machine.requireType found).FailsOnly P := by
  unfold requireType
  split
  · exact failsOnly_ok P ()
  · exact failsOnly_error (hP.typeMismatch _ _)

/-- What a body must be for its run, with so many levels left and from a register on, to fail only
in a way: each step that adds up registers or opens another body does. -/
structure Walk (machine : Machine) (P : Failure → Prop) (Opens : Nat → Nat → List Step → Prop) :
    Prop where
  tooDeep : ∀ {base steps}, Opens 0 base steps → P (.error (.malformedPlan .callTooDeep))
  noLanes : machine.lanes = 0 → P (.fault .divisionByZero)
  layer : ∀ {levels base steps l}, Opens (levels + 1) base steps → .layer l ∈ steps →
    FailsOnly P (liftM (Count.add base l.topRegister) : Outcome Nat)
  found : ∀ {levels base steps callee first}, Opens (levels + 1) base steps →
    .call callee first ∈ steps → (machine.routineFor callee).FailsOnly P
  placed : ∀ {levels base steps callee first}, Opens (levels + 1) base steps →
    .call callee first ∈ steps → FailsOnly P (liftM (Count.add base first) : Outcome Nat)
  opens : ∀ {levels base steps callee first r}, Opens (levels + 1) base steps →
    .call callee first ∈ steps → machine.routineFor callee = .ok r →
    base + first < Count.limit → Opens levels (base + first) r.body

theorem failsOnly_runSteps {Opens : Nat → Nat → List Step → Prop} (hP : Failure.Ordinary P)
    (hwalk : machine.Walk P Opens) {levels base : Nat} (hsteps : Opens levels base steps)
    (file : RegisterFile α) : (machine.runSteps levels base steps file).FailsOnly P := by
  induction levels generalizing base steps file with
  | zero => exact failsOnly_error (hwalk.tooDeep hsteps)
  | succ levels ih =>
      rw [runSteps]
      split
      · next hlanes => exact failsOnly_error (hwalk.noLanes hlanes)
      · refine failsOnly_foldlM (fun step hstep file => ?_) file
        cases step with
        | layer l => exact l.failsOnly_run hP (hwalk.layer hsteps hstep) file
        | call callee first =>
            refine (hwalk.found hsteps hstep).bind fun r hr => ?_
            refine (hwalk.placed hsteps hstep).bind fun place hplace => ?_
            obtain ⟨hfits, rfl⟩ := Count.add_eq_ok_iff.1 (liftM_eq_ok_iff.1 hplace)
            exact ih (hwalk.opens hsteps hstep hr hfits) file
        | outer outer => exact failsOnly_error (hP.defective _ nofun)

theorem failsOnly_runOn (hP : Failure.Ordinary P)
    (hmul : FailsOnly P (liftM (Count.mul r.width machine.lanes) : Outcome Nat))
    (hbody : ∀ file : RegisterFile α, (machine.runBody r.body file).FailsOnly P)
    (values : List α) : (machine.runOn r values).FailsOnly P := by
  rw [runOn]
  refine (failsOnly_requireType hP _).bind fun _ _ => hmul.bind fun expected _ => ?_
  split
  · exact failsOnly_error (hP.defective _ nofun)
  · exact (hbody _).bind fun _ _ => failsOnly_ok P _

/-- What a step must be for its run in an entry point to fail only in a way. -/
structure EntryWalk (machine : Machine) (P : Failure → Prop) (α : Type) [Scalar α] (step : Step) :
    Prop where
  load : ∀ {vectors residual pad}, step = .outer (.load vectors residual pad) →
    FailsOnly P (liftM (Count.mul vectors machine.lanes) : Outcome Nat)
  body : ∀ file : RegisterFile α, (machine.runBody [step] file).FailsOnly P

theorem failsOnly_entryStep (hP : Failure.Ordinary P) {step : Step}
    (hstep : machine.EntryWalk P α step) (name : String) (run : EntryRun α) :
    (machine.entryStep name step run).FailsOnly P := by
  unfold entryStep
  split
  · refine FailsOnly.bind ?_ fun _ _ => failsOnly_ok P _
    rw [load]
    refine (hstep.load rfl).bind fun total _ => ?_
    split
    · exact failsOnly_error (hP.defective _ nofun)
    · exact failsOnly_ok P _
  · exact failsOnly_ok P _
  · exact failsOnly_error (hP.defective _ nofun)
  · exact (hstep.body _).bind fun _ _ => failsOnly_ok P _
  · exact failsOnly_error (hP.defective _ nofun)

theorem failsOnly_entrySteps (hP : Failure.Ordinary P)
    (hsteps : ∀ step ∈ steps, machine.EntryWalk P α step) (name : String) (run : EntryRun α) :
    (machine.entrySteps name steps run).2.FailsOnly P := by
  induction steps generalizing run with
  | nil => exact failsOnly_ok P ()
  | cons step steps ih =>
      obtain ⟨hfirst, hrest⟩ := List.forall_mem_cons.1 hsteps
      have hrun := failsOnly_entryStep hP hfirst name run
      rw [entrySteps]
      cases hnext : machine.entryStep name step run with
      | ok run' => exact ih hrest run'
      | error failure =>
          rw [hnext] at hrun
          exact hrun.of_error

theorem mem_of_entryFor {d : Direction} {length : Nat} {row : LengthRow}
    (h : machine.entryFor d length = .ok (some (row, r))) : r ∈ machine.plan.routines := by
  unfold entryFor at h
  split at h
  · cases h
  · obtain ⟨found, _, h⟩ := bind_eq_ok_iff.1 h
    cases found with
    | fallback => cases h
    | row row' =>
        dsimp only at h
        split at h
        · next found hfound =>
          cases h
          exact List.mem_of_find?_eq_some hfound
        · cases h

theorem failsOnly_sort (hP : Failure.Ordinary P) {d : Direction} {data : List α}
    (hentry : (machine.entryFor d data.length).FailsOnly P)
    (hbodies : ∀ r ∈ machine.plan.routines, ∀ step ∈ r.body, machine.EntryWalk P α step) :
    (machine.sort d data).2.FailsOnly P := by
  have hroute : (machine.route (Scalar.element α) d data.length).FailsOnly P :=
    (failsOnly_requireType hP _).bind fun _ _ => hentry
  rw [sort]
  cases hfound : machine.route (Scalar.element α) d data.length with
  | error failure =>
      rw [hfound] at hroute
      exact hroute.of_error
  | ok found =>
      cases found with
      | none => exact failsOnly_ok P _
      | some entry =>
          obtain ⟨row, r⟩ := entry
          obtain ⟨_, _, hr⟩ := bind_eq_ok_iff.1 hfound
          exact (failsOnly_entrySteps hP (hbodies r (mem_of_entryFor hr)) _ _).map _

end Machine

end Bitonic
