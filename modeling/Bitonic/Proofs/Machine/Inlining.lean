import Bitonic.Proofs.Machine.ExpansionRun
import Bitonic.Proofs.Network.Inlining
/-!
# Running calls is running what they inline to

A machine follows calls with a base and a number of levels, a plan inlines them by moving steps
beforehand.  On every plan the two agree, in the values and in the error that a run ends with.

* `Machine.runSteps_moved` — a base can be spared by moving the steps;
* `Machine.runSteps_eq_inlined` — a call can be spared by inlining its body;
* `Machine.runOn_eq_inlined` — a routine runs as its inlined body does.
-/

namespace Bitonic

variable {α : Type} [Scalar α]

namespace InlinedStep

def run (step : InlinedStep) (file : RegisterFile α) : Outcome (RegisterFile α) :=
  match step with
  | .layer l => l.run 0 file
  | .outer step => Outcome.defective (.notNetworkStep step)
  | .missing callee => Outcome.fail (.unknownRoutine callee.name)
  | .tooDeep => Outcome.defective .callTooDeep

def runAll (steps : List InlinedStep) (file : RegisterFile α) : Outcome (RegisterFile α) :=
  steps.foldlM (fun file step => step.run file) file

theorem runAll_singleton (step : InlinedStep) (file : RegisterFile α) :
    runAll [step] file = step.run file := by
  rw [runAll, List.foldlM_cons]
  exact bind_pure _

theorem runAll_append (front back : List InlinedStep) (file : RegisterFile α) :
    runAll (front ++ back) file = runAll front file >>= runAll back :=
  List.foldlM_append

end InlinedStep

theorem Layer.run_shifted {base : Nat} {l : Layer} (h : base + l.topRegister < Count.limit)
    (file : RegisterFile α) : (l.shifted base).run 0 file = l.run base file := by
  have hmoved : l.movedBy base = .ok (l.shifted base) :=
    Layer.movedBy_eq_ok_iff.2 ⟨by omega, rfl⟩
  rw [l.run_eq_movedBy base, Outcome.bind_of_ok (Outcome.liftM_eq_ok_iff.2 hmoved)]

namespace Machine

variable {machine : Machine}

theorem runSteps_cons (machine : Machine) (levels base : Nat) (step : Step) (steps : List Step)
    (file : RegisterFile α) :
    machine.runSteps (levels + 1) base (step :: steps) file =
      machine.runSteps (levels + 1) base [step] file >>=
        machine.runSteps (levels + 1) base steps := by
  by_cases hlanes : machine.lanes = 0
  · rw [runSteps, runSteps, if_pos hlanes, if_pos hlanes]
    rfl
  · have hrest : machine.runSteps (levels + 1) base steps =
        fun file => machine.runSteps (α := α) (levels + 1) base steps file := rfl
    rw [hrest]
    simp only [runSteps, if_neg hlanes, List.foldlM_cons, List.foldlM_nil, bind_pure]

theorem runSteps_layer (hlanes : machine.lanes ≠ 0) (levels base : Nat) (l : Layer)
    (file : RegisterFile α) :
    machine.runSteps (levels + 1) base [.layer l] file = l.run base file := by
  simp only [runSteps, if_neg hlanes, List.foldlM_cons, List.foldlM_nil, bind_pure]

theorem runSteps_outer (hlanes : machine.lanes ≠ 0) (levels base : Nat) (step : OuterStep)
    (file : RegisterFile α) :
    machine.runSteps (levels + 1) base [.outer step] file =
      Outcome.defective (.notNetworkStep step) := by
  simp only [runSteps, if_neg hlanes, List.foldlM_cons, List.foldlM_nil, bind_pure]

theorem runSteps_call (hlanes : machine.lanes ≠ 0) (levels base : Nat) (callee : NetworkKey)
    (first : Nat) (file : RegisterFile α) :
    machine.runSteps (levels + 1) base [.call callee first] file =
      machine.routineFor callee >>= fun routine => liftM (Count.add base first) >>= fun place =>
        machine.runSteps levels place routine.body file := by
  simp only [runSteps, if_neg hlanes, List.foldlM_cons, List.foldlM_nil, bind_pure]

theorem runSteps_movedBy {base : Nat} {step moved : Step} (h : step.movedBy base = .ok moved)
    (levels : Nat) (file : RegisterFile α) :
    machine.runSteps levels base [step] file = machine.runSteps levels 0 [moved] file := by
  cases levels with
  | zero => rw [runSteps, runSteps]
  | succ levels =>
      by_cases hlanes : machine.lanes = 0
      · rw [runSteps, runSteps, if_pos hlanes, if_pos hlanes]
      · cases step with
        | layer l =>
            rcases Outcome.bind_eq_ok_iff.1 h with ⟨l', hl, hmoved⟩
            cases hmoved
            rcases Layer.movedBy_eq_ok_iff.1 hl with ⟨hlt, rfl⟩
            rw [runSteps_layer hlanes, runSteps_layer hlanes, Layer.run_shifted (by omega)]
        | call callee first =>
            rcases Outcome.bind_eq_ok_iff.1 h with ⟨place, hplace, hmoved⟩
            cases hmoved
            rcases Count.add_eq_ok_iff.1 hplace with ⟨_, rfl⟩
            have hsum : Count.add 0 (first + base) = Count.add base first := by
              rw [Count.add, Count.add, Nat.zero_add, Nat.add_comm]
            rw [runSteps_call hlanes, runSteps_call hlanes, hsum]
        | outer step =>
            cases h
            rw [runSteps_outer hlanes, runSteps_outer hlanes]

/-- Steps on the registers from `base` on run as the steps that were moved there, with the same
error where they fail. -/
theorem runSteps_moved {base : Nat} {steps moved : List Step}
    (h : Synthesis.moved base steps = .ok moved) (levels : Nat) (file : RegisterFile α) :
    machine.runSteps levels base steps file = machine.runSteps levels 0 moved file := by
  cases levels with
  | zero => rw [runSteps, runSteps]
  | succ levels =>
      have hpairs := Outcome.mapM_eq_ok_iff.1 h
      clear h
      induction hpairs generalizing file with
      | nil => rw [runSteps, runSteps, List.foldlM_nil, List.foldlM_nil]
      | cons hstep _ ih =>
          rw [runSteps_cons, runSteps_cons machine levels 0, runSteps_movedBy hstep]
          exact congrArg _ (funext ih)

theorem runSteps_singleton_eq_inlined (hlanes : machine.lanes ≠ 0) {levels : Nat}
    (hcalled : ∀ (base : Nat) (steps : List Step) (file : RegisterFile α),
      (∀ n ∈ machine.plan.registerSums levels base steps, n < Count.limit) →
        machine.runSteps levels base steps file =
          InlinedStep.runAll ((machine.plan.inlined levels steps).map (·.shifted base)) file)
    {base : Nat} {step : Step}
    (hsums : ∀ n ∈ machine.plan.registerSums (levels + 1) base [step], n < Count.limit)
    (file : RegisterFile α) :
    machine.runSteps (levels + 1) base [step] file = InlinedStep.runAll
      ((machine.plan.inlined (levels + 1) [step]).map (·.shifted base)) file := by
  cases step with
  | layer l =>
      have hfits := hsums (base + l.topRegister) (List.mem_singleton_self _)
      rw [runSteps_layer hlanes, ← Layer.run_shifted hfits]
      exact (InlinedStep.runAll_singleton (.layer (l.shifted base)) file).symm
  | outer step =>
      rw [runSteps_outer hlanes]
      exact (InlinedStep.runAll_singleton (.outer step) file).symm
  | call callee first =>
      rw [runSteps_call hlanes, routineFor]
      cases hfound : machine.plan.find? callee with
      | none =>
          rw [Plan.inlined_missing hfound]
          exact (InlinedStep.runAll_singleton (.missing callee) file).symm
      | some routine =>
          rw [Plan.registerSums_call hfound] at hsums
          have hplace : (liftM (Count.add base first) : Outcome Nat) = .ok (base + first) :=
            Outcome.liftM_eq_ok_iff.2 (Count.add_eq_ok (hsums _ List.mem_cons_self))
          have hbody := hcalled (base + first) routine.body file
            fun n hn => hsums n (List.mem_cons_of_mem _ hn)
          rw [Plan.inlined_call hfound, List.map_map]
          simp only [Function.comp_def, InlinedStep.shifted_shifted]
          rw [← hbody]
          exact (Outcome.bind_of_ok rfl _).trans (Outcome.bind_of_ok hplace _)

theorem runSteps_eq_inlined (hlanes : machine.lanes ≠ 0) (levels base : Nat) (steps : List Step)
    (file : RegisterFile α)
    (hsums : ∀ n ∈ machine.plan.registerSums levels base steps, n < Count.limit) :
    machine.runSteps levels base steps file =
      InlinedStep.runAll ((machine.plan.inlined levels steps).map (·.shifted base)) file := by
  -- A body's own steps come after the bodies that they call: levels first, then the list.
  induction levels generalizing base steps file with
  | zero =>
      rw [runSteps]
      exact (InlinedStep.runAll_singleton .tooDeep file).symm
  | succ levels ihCalled =>
      induction steps generalizing file with
      | nil =>
          rw [runSteps_nil hlanes, Plan.inlined_nil]
          rfl
      | cons step steps ih =>
          rw [Plan.registerSums_cons] at hsums
          have hstep := runSteps_singleton_eq_inlined hlanes ihCalled
            (fun n hn => hsums n (List.mem_append_left _ hn)) file
          have hrest := fun file => ih file fun n hn => hsums n (List.mem_append_right _ hn)
          rw [runSteps_cons, Plan.inlined_cons, List.map_append, InlinedStep.runAll_append, hstep]
          exact congrArg _ (funext hrest)

theorem runBody_eq_inlined (hlanes : machine.lanes ≠ 0) {steps : List Step}
    (hsums : ∀ n ∈ machine.plan.registerSums (callLimit + 1) 0 steps, n < Count.limit)
    (file : RegisterFile α) :
    machine.runBody steps file =
      InlinedStep.runAll (machine.plan.inlined (callLimit + 1) steps) file := by
  rw [runBody, runSteps_eq_inlined hlanes _ _ _ _ hsums]
  simp only [InlinedStep.shifted_zero, List.map_id']

theorem runOn_of_length {routine : Routine} {values : List α}
    (htype : Scalar.element α = machine.element)
    (hlength : values.length = routine.width * machine.lanes)
    (hcount : values.length < Count.limit) :
    machine.runOn routine values = (machine.runBody routine.body
      (RegisterFile.ofValues machine.lanes values)).map List.flatten := by
  have hrequire : machine.requireType (Scalar.element α) = .ok () := if_pos htype
  have hexpected : (liftM (Count.mul routine.width machine.lanes) : Outcome Nat) =
      .ok (routine.width * machine.lanes) :=
    Outcome.liftM_eq_ok_iff.2 (Count.mul_eq_ok (hlength ▸ hcount))
  rw [runOn, Outcome.bind_of_ok hrequire, Outcome.bind_of_ok hexpected,
    if_neg (not_not.2 hlength)]
  cases machine.runBody routine.body (RegisterFile.ofValues machine.lanes values) with
  | ok file => rfl
  | error failure => rfl

/-- A routine runs as its body with all calls inlined: with the same values or the same error.
Steps on the registers from `base` on run as the steps that were moved there, and a run whose calls
lead into a cycle ends, because a call nests too deep or because a step before it fails. -/
theorem runOn_eq_inlined (machine : Machine) (routine : Routine) (values : List α)
    (hlanes : machine.lanes ≠ 0) (htype : Scalar.element α = machine.element)
    (hlength : values.length = routine.width * machine.lanes)
    (hcount : values.length < Count.limit)
    (hsums : ∀ n ∈ machine.plan.registerSums (callLimit + 1) 0 routine.body, n < Count.limit) :
    machine.runOn routine values =
      (InlinedStep.runAll (machine.plan.inlined (callLimit + 1) routine.body)
        (RegisterFile.ofValues machine.lanes values)).map List.flatten ∧
    (∀ levels base steps moved (file : RegisterFile α), Synthesis.moved base steps = .ok moved →
      machine.runSteps levels base steps file = machine.runSteps levels 0 moved file) ∧
    ((∃ callee ∈ routine.calls, machine.plan.LeadsIntoCycle callee) →
      ∃ before after,
        machine.plan.inlined (callLimit + 1) routine.body = before ++ .tooDeep :: after ∧
        machine.runOn routine values =
          InlinedStep.runAll before (RegisterFile.ofValues machine.lanes values) >>= fun _ =>
            Outcome.defective .callTooDeep) := by
  have hrun : machine.runOn routine values =
      (InlinedStep.runAll (machine.plan.inlined (callLimit + 1) routine.body)
        (RegisterFile.ofValues machine.lanes values)).map List.flatten := by
    rw [runOn_of_length htype hlength hcount, runBody_eq_inlined hlanes hsums]
  refine ⟨hrun, fun levels _ _ _ file hmoved => runSteps_moved hmoved levels file, ?_⟩
  rintro ⟨callee, hcallee, hcycle⟩
  rcases Routine.mem_calls_iff.1 hcallee with ⟨first, hcall⟩
  rcases List.append_of_mem (Plan.tooDeep_mem_inlined (callLimit + 1) hcall hcycle) with
    ⟨before, after, hinlined⟩
  refine ⟨before, after, hinlined, ?_⟩
  rw [hrun, hinlined, InlinedStep.runAll_append]
  cases InlinedStep.runAll before (RegisterFile.ofValues machine.lanes values) with
  | ok file => rfl
  | error failure => rfl

/-- Calls in calls on registers further along, and a routine that calls itself. -/
theorem runOn_eq_inlined_three :
    let exchange : Exchange := ⟨⟨[1, 0], by decide⟩, ⟨1⟩, .ascending, .insideGroup⟩
    let routine : NetworkKey → List Step → Routine := fun key body =>
      ⟨key.name, .sorter, some key, 3, none, false, body⟩
    let one := routine (.sort 1 .ascending) [.layer (.inside 0 exchange)]
    let two := routine (.sort 2 .ascending) [.call (.sort 1 .ascending) 1,
      .layer (.between 0 1 .ascending)]
    let endless := routine (.merge 2 .ascending) [.layer (.between 0 1 .descending),
      .call (.merge 2 .ascending) 0]
    let three := routine (.sort 3 .ascending) [.call (.sort 2 .ascending) 1,
      .layer (.between 0 1 .ascending)]
    let machine : Machine := ⟨⟨.unit ⟨.neon, .int32, 2, 3, 3, 1, 1⟩ .scratchCopy true 6,
      [one, two, endless]⟩, .int32, 2⟩
    let values : List Int32 := [5, 4, 3, 2, 1, 0]
    machine.plan.inlined (callLimit + 1) three.body =
        [.layer (.inside 2 exchange), .layer (.between 1 2 .ascending),
          .layer (.between 0 1 .ascending)] ∧
      machine.runOn three values = .ok [0, 1, 5, 4, 3, 2] ∧
      (machine.runOn endless values).isOk = false := by
  intro exchange routine one two endless three machine values
  have hthree := runOn_eq_inlined machine three values (by decide) rfl rfl (by decide) (by decide)
  have hendless := runOn_eq_inlined machine endless values (by decide) rfl rfl (by decide)
    (by decide +kernel)
  have hcycle : machine.plan.LeadsIntoCycle (.merge 2 .ascending) :=
    ⟨_, .refl, .single ⟨endless, by decide, by decide⟩⟩
  have hinlined : machine.plan.inlined (callLimit + 1) three.body =
      [.layer (.inside 2 exchange), .layer (.between 1 2 .ascending),
        .layer (.between 0 1 .ascending)] := by decide
  refine ⟨hinlined, ?_, ?_⟩
  · rw [hthree.1, hinlined]
    decide +kernel
  · rcases hendless.2.2 ⟨_, List.mem_singleton_self _, hcycle⟩ with ⟨before, _, _, hrun⟩
    rw [hrun]
    cases InlinedStep.runAll before (RegisterFile.ofValues machine.lanes values) with
    | ok file => rfl
    | error failure => rfl

end Machine

end Bitonic
