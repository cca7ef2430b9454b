import Bitonic.Proofs.Machine.KnownRoutines
import Bitonic.Proofs.Network.Inlining
import Bitonic.Proofs.Network.Nesting
/-!
# How deep calls nest in a generated plan

The nesting of networks falls along every call of a generated plan.  So calls never lead back to
where they came from, chains of calls are no longer than the nesting of the routine that they start
from, and that is less than what a machine goes along with for all widths up to `2 ^ 62`.

* `Plan.Parts.nesting_lt_of_calls` — one call;
* `Plan.Parts.length_le_of_callChain` — a chain of calls;
* `Machine.calls_bounded` — calls form no cycle, their chains are bounded, and no run nests too deep.
-/

namespace Bitonic

/-- Calls nest at most this deep in a routine: as deep as in the network that it implements, and one
deeper in an entry point, which calls a sorter. -/
def Routine.callDepth (r : Routine) : Nat :=
  Nat.clog 2 r.width + match r.key with
    | some key => key.task.switches
    | none => 2

namespace Plan

/-- The networks that a routine comes to call one inside the other, the outermost one first. -/
inductive CallChain (plan : Plan) : Routine → List NetworkKey → Prop
  | nil {r : Routine} : CallChain plan r []
  | cons {r called : Routine} {callee : NetworkKey} {chain : List NetworkKey}
      (hcall : callee ∈ r.calls) (hfound : plan.find? callee = some called)
      (rest : CallChain plan called chain) : CallChain plan r (callee :: chain)

end Plan

section Routines

variable {s : Synthesis} {key : NetworkKey} {r : Routine} {width : Nat} {d : Direction}

theorem Routine.Implements.callDepth (h : r.Implements s key) : r.callDepth = key.nesting := by
  rw [Routine.callDepth, h.keyed, h.width, NetworkKey.nesting]

theorem Routine.Implements.nestsBelow (h : r.Implements s key) :
    ∀ step ∈ r.body, step.NestsBelow r.callDepth := by
  rw [h.callDepth]
  exact Synthesis.nestsBelow_of_bodyOf h.body

theorem Synthesis.callDepth_of_entryRoutine (h : s.entryRoutine width d = .ok r) :
    r.callDepth = (NetworkKey.sort width d).nesting + 1 := by
  obtain ⟨_, _, _, _, _, _, _, hkey, _, _, hwidth, _⟩ := entryRoutine_eq_ok h
  rw [Routine.callDepth, hkey, hwidth]
  rfl

theorem Synthesis.nestsBelow_of_entryRoutine (h : s.entryRoutine width d = .ok r) :
    ∀ step ∈ r.body, step.NestsBelow r.callDepth := by
  obtain ⟨_, _, _, _, hnetwork, _, _, _, _, hbody, _⟩ := entryRoutine_eq_ok h
  rw [callDepth_of_entryRoutine h, hbody]
  refine List.forall_mem_append.2 ⟨List.forall_mem_cons.2 ⟨trivial, ?_⟩, ?_⟩
  · exact nestsBelow_of_invocation hnetwork
  · exact List.forall_mem_singleton.2 trivial

end Routines

namespace Plan

variable {plan : Plan} {s : Synthesis} {networks entries : List Routine} {dispatch : Routine}
  {r : Routine} {key callee : NetworkKey} {chain : List NetworkKey}

theorem Parts.nestsBelow_of_mem (h : plan.Parts s networks entries dispatch)
    (hr : r ∈ plan.routines) : ∀ step ∈ r.body, step.NestsBelow r.callDepth := by
  rcases h.mem_routines.1 hr with hr | hr | rfl
  · obtain ⟨key, _, hroutine⟩ := h.routineOf_of_mem hr
    exact (Synthesis.implements_of_routineOf hroutine).nestsBelow
  · obtain ⟨width, d, hroutine⟩ := (Synthesis.entryRoutines_eq_ok h.entries).1 r hr
    exact Synthesis.nestsBelow_of_entryRoutine hroutine
  · obtain ⟨_, _, _, _, _, hbody⟩ := Synthesis.lengthDispatch_eq_ok h.dispatch
    rw [hbody]
    exact List.forall_mem_singleton.2 trivial

theorem Parts.nesting_lt_of_calls (h : plan.Parts s networks entries dispatch)
    (hcalls : plan.Calls key callee) : callee.nesting < key.nesting := by
  obtain ⟨r, hfound, hcallee⟩ := hcalls
  obtain ⟨first, hcall⟩ := Routine.mem_calls_iff.1 hcallee
  have himplements := h.implements_of_find? hfound
  rw [← himplements.callDepth]
  exact himplements.nestsBelow _ hcall

theorem Parts.nesting_lt_of_transGen (h : plan.Parts s networks entries dispatch)
    (hcalls : Relation.TransGen plan.Calls key callee) : callee.nesting < key.nesting := by
  induction hcalls with
  | single hcall => exact h.nesting_lt_of_calls hcall
  | tail _ hcall ih => exact (h.nesting_lt_of_calls hcall).trans ih

theorem Parts.length_le_of_callChain (h : plan.Parts s networks entries dispatch)
    (hchain : plan.CallChain r chain) {bound : Nat}
    (hbody : ∀ step ∈ r.body, step.NestsBelow bound) : chain.length ≤ bound := by
  induction hchain generalizing bound with
  | nil => exact Nat.zero_le bound
  | cons hcall hfound rest ih =>
      obtain ⟨first, hcall⟩ := Routine.mem_calls_iff.1 hcall
      have himplements := h.implements_of_find? hfound
      have hlength := ih himplements.nestsBelow
      rw [himplements.callDepth] at hlength
      exact Nat.lt_of_le_of_lt hlength (hbody _ hcall)

end Plan

/-! ## Runs -/

def Failure.NestsWithin (failure : Failure) : Prop := failure ≠ .error (.malformedPlan .callTooDeep)

theorem Failure.ordinary_nestsWithin : Failure.Ordinary Failure.NestsWithin where
  defective defect hdefect := by
    rintro ⟨⟩
    exact hdefect rfl
  typeMismatch _ _ := nofun

open Failure Outcome

namespace Machine

variable {machine : Machine} {s : Synthesis} {networks entries : List Routine}
  {dispatch r : Routine} {α : Type} [Scalar α]

theorem nestsWithin_liftM {β : Type} (x : Checked β) :
    FailsOnly NestsWithin (liftM x : Outcome β) :=
  failsOnly_liftM (fun _ => nofun) x

theorem nestsWithin_routineFor (key : NetworkKey) :
    (machine.routineFor key).FailsOnly NestsWithin := by
  unfold routineFor
  split
  · exact failsOnly_ok _ _
  · exact failsOnly_error nofun

/-- A body whose calls nest less deep than the levels that are left opens only such bodies. -/
theorem walk_nestsBelow (h : machine.plan.Parts s networks entries dispatch) :
    machine.Walk NestsWithin fun levels _ steps =>
      ∃ bound < levels, ∀ step ∈ steps, step.NestsBelow bound where
  tooDeep hopen := by
    obtain ⟨bound, hbound, _⟩ := hopen
    exact absurd hbound (Nat.not_lt_zero bound)
  noLanes _ := nofun
  layer _ _ := nestsWithin_liftM _
  found _ _ := nestsWithin_routineFor _
  placed _ _ := nestsWithin_liftM _
  opens hopen hcall hr _ := by
    obtain ⟨bound, hbound, hsteps⟩ := hopen
    have himplements := h.implements_of_find? (find?_of_routineFor hr)
    have hcallee := hsteps _ hcall
    rw [Step.NestsBelow, ← himplements.callDepth] at hcallee
    exact ⟨_, by omega, himplements.nestsBelow⟩

theorem nestsWithin_runBody (h : machine.plan.Parts s networks entries dispatch)
    {steps : List Step} (hsteps : ∀ step ∈ steps, step.NestsBelow callLimit)
    (file : RegisterFile α) : (machine.runBody steps file).FailsOnly NestsWithin :=
  failsOnly_runSteps ordinary_nestsWithin (walk_nestsBelow h)
    ⟨callLimit, Nat.lt_succ_self _, hsteps⟩ file

theorem nestsWithin_runOn (h : machine.plan.Parts s networks entries dispatch)
    (hbody : ∀ step ∈ r.body, step.NestsBelow callLimit) (values : List α) :
    (machine.runOn r values).FailsOnly NestsWithin :=
  failsOnly_runOn ordinary_nestsWithin (nestsWithin_liftM _) (nestsWithin_runBody h hbody) values

theorem nestsWithin_entryFor (machine : Machine) (d : Direction) (length : Nat) :
    (machine.entryFor d length).FailsOnly NestsWithin := by
  unfold entryFor
  split
  · exact failsOnly_error nofun
  · refine (nestsWithin_liftM _).bind fun found _ => ?_
    cases found with
    | fallback => exact failsOnly_ok _ _
    | row row =>
        dsimp only
        split
        · exact failsOnly_ok _ _
        · exact failsOnly_error nofun

theorem nestsWithin_sort (h : machine.plan.Parts s networks entries dispatch)
    (hbodies : ∀ r ∈ machine.plan.routines, ∀ step ∈ r.body, step.NestsBelow callLimit)
    (d : Direction) (data : List α) : (machine.sort d data).2.FailsOnly NestsWithin := by
  have hentry := machine.nestsWithin_entryFor d data.length
  refine failsOnly_sort ordinary_nestsWithin hentry fun r hr step hstep => ?_
  have hsingle := List.forall_mem_singleton.2 (hbodies r hr step hstep)
  exact ⟨fun _ => nestsWithin_liftM _, nestsWithin_runBody h hsingle⟩

section Unit

variable {ty : ScalarType} {profile : IsaProfile} {settings : Settings} {key : NetworkKey}

theorem nestsBelow_callLimit_of_routineOf (hwidest : s.limits.widest ≤ 2 ^ 62)
    (h : s.routineOf key = .ok r) : ∀ step ∈ r.body, step.NestsBelow callLimit := by
  obtain ⟨_, hwidth⟩ := Synthesis.width_of_routineOf h
  have himplements := Synthesis.implements_of_routineOf h
  have hnesting := NetworkKey.nesting_le (hwidth.trans hwidest)
  rw [← himplements.callDepth] at hnesting
  exact fun step hstep => (himplements.nestsBelow step hstep).mono (by unfold callLimit; omega)

theorem nestsBelow_callLimit_of_mem {plan : Plan} (h : plan.Parts s networks entries dispatch)
    (hwidest : s.limits.widest ≤ 2 ^ 62) (hr : r ∈ plan.routines) :
    ∀ step ∈ r.body, step.NestsBelow callLimit := by
  rcases h.mem_routines.1 hr with hr | hr | rfl
  · obtain ⟨key, _, hroutine⟩ := h.routineOf_of_mem hr
    exact nestsBelow_callLimit_of_routineOf hwidest hroutine
  · obtain ⟨width, d, _, hwidth, hroutine⟩ := Synthesis.exists_entryRoutine_of_mem h.entries hr
    have hnesting : (NetworkKey.sort width d).nesting ≤ 63 :=
      NetworkKey.nesting_le (hwidth.trans hwidest)
    have hdepth := Synthesis.callDepth_of_entryRoutine hroutine
    have hbelow := Synthesis.nestsBelow_of_entryRoutine hroutine
    exact fun step hstep => (hbelow step hstep).mono (by unfold callLimit; omega)
  · obtain ⟨_, _, _, _, _, hbody⟩ := Synthesis.lengthDispatch_eq_ok h.dispatch
    rw [hbody]
    exact List.forall_mem_singleton.2 trivial

/-- In a plan of networks of at most `2 ^ 62` vectors, no calls lead back to where they came from.
Chains of calls have at most as many as the width has halvings, from a merger, one more from a sorter
and two more from an entry point.  So no sorting of an array, no run by key and no run of a routine,
of the plan or made for it, ends on a call that nests too deep. -/
theorem calls_bounded {s : Synthesis} {plan : Plan}
    (hs : Synthesis.ofSettings profile ty settings = .ok s)
    (hplan : Plan.forType ty profile settings = .ok plan) (hwidest : s.limits.widest ≤ 2 ^ 62) :
    (∀ key, ¬ Relation.TransGen plan.Calls key key) ∧
    (∀ r chain, r ∈ plan.routines ∨ (∃ key, s.routineOf key = .ok r) → plan.CallChain r chain →
      chain.length ≤ r.callDepth) ∧
    ∃ machine, Machine.ofPlan plan = .ok machine ∧ ∀ (α : Type) [Scalar α],
      (∀ (d : Direction) (data : List α),
        (machine.sort d data).2 ≠ Outcome.defective .callTooDeep) ∧
      (∀ (key : NetworkKey) (values : List α),
        machine.runByKey key values ≠ Outcome.defective .callTooDeep) ∧
      ∀ (r : Routine) (values : List α), r ∈ plan.routines ∨ (∃ key, s.routineOf key = .ok r) →
        machine.runOn r values ≠ Outcome.defective .callTooDeep := by
  obtain ⟨networks, entries, dispatch, hparts⟩ := Plan.exists_parts hs hplan
  refine ⟨fun key hcycle => Nat.lt_irrefl _ (hparts.nesting_lt_of_transGen hcycle), ?_, _,
    ofPlan_eq_ok hparts.limits, fun α _ => ?_⟩
  · rintro r chain (hr | ⟨key, hroutine⟩) hchain
    · exact hparts.length_le_of_callChain hchain (hparts.nestsBelow_of_mem hr)
    · have himplements := Synthesis.implements_of_routineOf hroutine
      exact hparts.length_le_of_callChain hchain himplements.nestsBelow
  · have hbodies := fun r => nestsBelow_callLimit_of_mem (r := r) hparts hwidest
    have hruns : ∀ (r : Routine) (values : List α),
        r ∈ plan.routines ∨ (∃ key, s.routineOf key = .ok r) →
          (runOn ⟨plan, s.limits.element, s.limits.lanes⟩ r values).FailsOnly NestsWithin := by
      rintro r values (hr | ⟨key, hroutine⟩)
      · exact nestsWithin_runOn hparts (hbodies r hr) values
      · exact nestsWithin_runOn hparts (nestsBelow_callLimit_of_routineOf hwidest hroutine) values
    refine ⟨fun d data h => ?_, fun key values h => ?_, fun r values hr h => ?_⟩
    · exact nestsWithin_sort hparts hbodies d data _ h rfl
    · refine FailsOnly.bind (nestsWithin_routineFor key) (fun r hr => ?_) _ h rfl
      exact hruns r values (.inl (mem_of_routineFor hr))
    · exact hruns r values hr _ h rfl

/-- A plan of networks of up to three registers.  The longest chain of calls from the sorter of three
is as long as its width allows. -/
theorem calls_bounded_three :
    ∃ s plan machine r,
      Synthesis.ofSettings InstructionSet.neonProfile .int32 { widest := some 3 } = .ok s ∧
      Plan.forType .int32 InstructionSet.neonProfile { widest := some 3 } = .ok plan ∧
      (∀ key, ¬ Relation.TransGen plan.Calls key key) ∧
      plan.find? (.sort 3 .ascending) = some r ∧
      plan.CallChain r [.sort 2 .descending, .merge 2 .descending, .merge 1 .descending] ∧
      (∀ chain, plan.CallChain r chain → chain.length ≤ 3) ∧
      Machine.ofPlan plan = .ok machine ∧
      ∀ data : List ScalarType.int32.Value,
        (machine.sort .ascending data).2 ≠ Outcome.defective .callTooDeep := by
  obtain ⟨plan, hplan⟩ := Outcome.exists_eq_ok_of_isOk (x := Plan.forType .int32
    InstructionSet.neonProfile { widest := some 3 }) (by decide +kernel)
  let s : Synthesis := ⟨InstructionSet.neonProfile, ⟨.neon, .int32, 4, 3, 2, 0, 0⟩⟩
  have hs : Synthesis.ofSettings InstructionSet.neonProfile .int32 { widest := some 3 } = .ok s :=
    rfl
  obtain ⟨networks, entries, dispatch, hparts⟩ := Plan.exists_parts hs hplan
  obtain ⟨hcycles, hchains, machine, hmachine, hruns⟩ := calls_bounded hs hplan (by decide)
  obtain ⟨hsort, _⟩ := hruns ScalarType.int32.Value
  have hcalls : ∀ {key callee : NetworkKey} {r : Routine}, s.routineOf key = .ok r →
      (s.routineOf key).map (fun r => decide (callee ∈ r.calls)) = .ok true →
        callee ∈ r.calls := by
    intro key callee r hroutine h
    rw [hroutine] at h
    exact of_decide_eq_true (Except.ok.inj h)
  obtain ⟨r, hfound, hroutine⟩ := hparts.find?_eq
    (show s.hasRoutine (.sort 3 .ascending) = true by decide)
  obtain ⟨_, hfound₁, hroutine₁⟩ := hparts.find?_eq
    (show s.hasRoutine (.sort 2 .descending) = true by decide)
  obtain ⟨_, hfound₂, hroutine₂⟩ := hparts.find?_eq
    (show s.hasRoutine (.merge 2 .descending) = true by decide)
  obtain ⟨_, hfound₃, _⟩ := hparts.find?_eq
    (show s.hasRoutine (.merge 1 .descending) = true by decide)
  have hchain : plan.CallChain r
      [.sort 2 .descending, .merge 2 .descending, .merge 1 .descending] :=
    .cons (hcalls hroutine (by decide +kernel)) hfound₁
      (.cons (hcalls hroutine₁ (by decide +kernel)) hfound₂
        (.cons (hcalls hroutine₂ (by decide +kernel)) hfound₃ .nil))
  have hdepth : r.callDepth = 3 := (Synthesis.implements_of_routineOf hroutine).callDepth
  refine ⟨s, plan, machine, r, hs, hplan, hcycles, hfound, hchain, fun chain h => ?_, hmachine,
    hsort .ascending⟩
  exact (hchains r chain (.inr ⟨_, hroutine⟩) h).trans_eq hdepth

end Unit

end Machine

end Bitonic
