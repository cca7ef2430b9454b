import Bitonic.Machine
import Bitonic.Proofs.Network.Expansion
import Mathlib.Logic.Relation
/-!
# Bodies with all calls inlined

Replacing every call by the body that it finds, moved to the registers of the call, leaves steps
without calls.  Nothing is asked of the plan: a call that finds no routine stays behind as a step
that cannot be run, and so does one that nests too deep.

* `InlinedStep.shifted_shifted` — moving twice is moving by the sum;
* `Plan.inlined_cons` — inlining goes step by step;
* `Plan.tooDeep_mem_inlined` — where calls lead into a cycle, one of them nests too deep.
-/

namespace Bitonic

/-- A step that calls nothing. -/
inductive InlinedStep where
  | layer (layer : Layer)
  | outer (step : OuterStep)
  /-- Stands for a call whose routine the plan does not have. -/
  | missing (callee : NetworkKey)
  /-- Stands for a call that nests too deep. -/
  | tooDeep
  deriving DecidableEq

def InlinedStep.shifted (offset : Nat) : InlinedStep → InlinedStep
  | layer l => layer (l.shifted offset)
  | outer step => outer step
  | missing callee => missing callee
  | tooDeep => tooDeep

theorem InlinedStep.shifted_shifted (step : InlinedStep) (a b : Nat) :
    (step.shifted a).shifted b = step.shifted (b + a) := by
  cases step with
  | layer l => exact congrArg layer (l.shifted_shifted a b)
  | outer step => rfl
  | missing callee => rfl
  | tooDeep => rfl

theorem Layer.shifted_zero (l : Layer) : l.shifted 0 = l := by
  cases l <;> rfl

theorem InlinedStep.shifted_zero (step : InlinedStep) : step.shifted 0 = step := by
  cases step with
  | layer l => exact congrArg layer l.shifted_zero
  | outer step => rfl
  | missing callee => rfl
  | tooDeep => rfl

theorem Routine.mem_calls_iff {r : Routine} {callee : NetworkKey} :
    callee ∈ r.calls ↔ ∃ first, .call callee first ∈ r.body := by
  rw [Routine.calls, List.mem_filterMap]
  constructor
  · rintro ⟨step, hstep, hcallee⟩
    cases step with
    | call key first =>
        cases hcallee
        exact ⟨first, hstep⟩
    | layer l => cases hcallee
    | outer step => cases hcallee
  · rintro ⟨first, hstep⟩
    exact ⟨_, hstep, rfl⟩

namespace Plan

/-- The steps with every call replaced by the body of the first routine for its key, moved to the
registers of the call, and so on through `levels` bodies. -/
def inlined (plan : Plan) (levels : Nat) (steps : List Step) : List InlinedStep :=
  match levels with
  | 0 => [.tooDeep]
  | levels + 1 => steps.flatMap fun
    | .layer l => [.layer l]
    | .outer step => [.outer step]
    | .call callee first =>
      match plan.find? callee with
      | some routine => (inlined plan levels routine.body).map (·.shifted first)
      | none => [.missing callee]

/-- Every sum that is formed to find a register: the first register of a body plus a layer's highest
register or plus the first register of a call, the bodies of the calls included. -/
def registerSums (plan : Plan) (levels base : Nat) (steps : List Step) : List Nat :=
  match levels with
  | 0 => []
  | levels + 1 => steps.flatMap fun
    | .layer l => [base + l.topRegister]
    | .outer _ => []
    | .call callee first =>
      match plan.find? callee with
      | some routine => (base + first) :: registerSums plan levels (base + first) routine.body
      | none => []

def Calls (plan : Plan) (key callee : NetworkKey) : Prop :=
  ∃ routine, plan.find? key = some routine ∧ callee ∈ routine.calls

def LeadsIntoCycle (plan : Plan) (key : NetworkKey) : Prop :=
  ∃ inCycle, Relation.ReflTransGen plan.Calls key inCycle ∧
    Relation.TransGen plan.Calls inCycle inCycle

variable {plan : Plan} {key : NetworkKey}

theorem inlined_nil (plan : Plan) (levels : Nat) : plan.inlined (levels + 1) [] = [] := by
  rw [inlined, List.flatMap_nil]

theorem inlined_cons (plan : Plan) (levels : Nat) (step : Step) (steps : List Step) :
    plan.inlined (levels + 1) (step :: steps) =
      plan.inlined (levels + 1) [step] ++ plan.inlined (levels + 1) steps := by
  simp only [inlined, List.flatMap_cons, List.flatMap_nil, List.append_nil]

theorem inlined_call {routine : Routine} {callee : NetworkKey}
    (h : plan.find? callee = some routine) (levels first : Nat) :
    plan.inlined (levels + 1) [.call callee first] =
      (plan.inlined levels routine.body).map (·.shifted first) := by
  simp only [inlined, List.flatMap_cons, List.flatMap_nil, List.append_nil, h]

theorem inlined_missing {callee : NetworkKey} (h : plan.find? callee = none) (levels first : Nat) :
    plan.inlined (levels + 1) [.call callee first] = [.missing callee] := by
  simp only [inlined, List.flatMap_cons, List.flatMap_nil, List.append_nil, h]

theorem registerSums_cons (plan : Plan) (levels base : Nat) (step : Step) (steps : List Step) :
    plan.registerSums (levels + 1) base (step :: steps) =
      plan.registerSums (levels + 1) base [step] ++ plan.registerSums (levels + 1) base steps := by
  simp only [registerSums, List.flatMap_cons, List.flatMap_nil, List.append_nil]

theorem registerSums_call {routine : Routine} {callee : NetworkKey}
    (h : plan.find? callee = some routine) (levels base first : Nat) :
    plan.registerSums (levels + 1) base [.call callee first] =
      (base + first) :: plan.registerSums levels (base + first) routine.body := by
  simp only [registerSums, List.flatMap_cons, List.flatMap_nil, List.append_nil, h]

theorem LeadsIntoCycle.exists_calls (h : plan.LeadsIntoCycle key) :
    ∃ callee, plan.Calls key callee ∧ plan.LeadsIntoCycle callee := by
  rcases h with ⟨inCycle, hreach, hcycle⟩
  have hway : Relation.TransGen plan.Calls key inCycle :=
    Relation.TransGen.trans_right hreach hcycle
  rcases Relation.TransGen.head'_iff.1 hway with ⟨callee, hcalls, hrest⟩
  exact ⟨callee, hcalls, inCycle, hrest, hcycle⟩

/-- Where calls lead into a cycle, one of them nests too deep, however many levels there are. -/
theorem tooDeep_mem_inlined {steps : List Step} {first : Nat} (levels : Nat)
    (hcall : .call key first ∈ steps) (hcycle : plan.LeadsIntoCycle key) :
    .tooDeep ∈ plan.inlined levels steps := by
  induction levels generalizing key first steps with
  | zero => exact List.mem_singleton_self _
  | succ levels ih =>
      rcases hcycle.exists_calls with ⟨callee, ⟨routine, hfound, hcallee⟩, hleads⟩
      rcases Routine.mem_calls_iff.1 hcallee with ⟨place, hplace⟩
      have hinner : .tooDeep ∈ (plan.inlined levels routine.body).map (·.shifted first) :=
        List.mem_map.2 ⟨_, ih hplace hleads, rfl⟩
      rcases List.append_of_mem hcall with ⟨before, after, rfl⟩
      rw [inlined, List.flatMap_append, List.flatMap_cons]
      refine List.mem_append_right _ (List.mem_append_left _ ?_)
      simp only [hfound]
      exact hinner

end Plan

end Bitonic
