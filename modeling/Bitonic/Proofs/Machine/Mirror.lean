import Bitonic.Proofs.Machine.Sorting
import Bitonic.Proofs.Network.Mirror
import Bitonic.Proofs.Plan.Emission
/-!
# Runs in the other direction

Reversing the order of the element type has the same effect on a run as reversing every direction of
what is run.  A comparison is made in one place only, so this is said once for it and handed on by
every function of the machine.

* `Exchange.run_reverse`, `Layer.run_reverse` — single layers;
* `Machine.runSteps_reverse` — steps whose calls name routines of the plan, however deep;
* `Machine.sort_reverse` — whole arrays, by entry point or fallback;
* `Machine.directions_mirror` — bodies, entry points and runs of a unit.
-/

namespace Bitonic

namespace Scalar

/-- The element type under the reversed order, in which the sentinels change places. -/
@[reducible] def reversed (α : Type) [Scalar α] : Scalar α where
  element := element α
  lt a b := lt b a
  eq := eq
  largest := smallest
  smallest := largest
  ofNat := ofNat
  text := text

variable {α : Type} [Scalar α]

theorem noLater_reversed (d : Direction) (a b : α) :
    @noLater α (reversed α) d a b = noLater d.reverse a b := by
  cases d <;> rfl

theorem sentinel_reversed (pad : Sentinel) : @sentinel α (reversed α) pad = sentinel pad.reverse := by
  cases pad <;> rfl

theorem sorted_reversed (d : Direction) (values : List α) :
    @sorted α (reversed α) d values = sorted d.reverse values := by
  have hnoLater : @noLater α (reversed α) d = noLater d.reverse := by
    ext a b
    rw [noLater_reversed]
  simp only [sorted, hnoLater]

end Scalar

open Scalar (reversed)

variable {α : Type} [Scalar α]

/-! ## Layers -/

namespace Exchange

theorem newValue_reverse (x : Exchange) (lane partner : Nat) (own other : α) :
    x.reverse.newValue lane partner own other =
      @newValue α (reversed α) x lane partner own other := by
  simp only [newValue, Scalar.noLater_reversed]
  rfl

theorem newValues_reverse (x : Exchange) (lane : Nat) (partners : List Nat)
    (owns others : List α) :
    x.reverse.newValues lane partners owns others =
      @newValues α (reversed α) x lane partners owns others := by
  induction partners generalizing lane owns others with
  | nil => rfl
  | cons partner partners ih =>
      cases owns with
      | nil => rfl
      | cons own owns =>
          cases others with
          | nil => rfl
          | cons other others => simp only [newValues, newValue_reverse, ih]

theorem run_reverse (x : Exchange) (register : List α) :
    x.reverse.run register = @run α (reversed α) x register := by
  simp only [run, newValues_reverse]
  rfl

end Exchange

namespace Layer

theorem lowValue_reverse (d : Direction) :
    lowValue d.reverse = @lowValue α (reversed α) d := by
  ext a b
  simp only [lowValue, Scalar.noLater_reversed]

theorem highValue_reverse (d : Direction) :
    highValue d.reverse = @highValue α (reversed α) d := by
  ext a b
  simp only [highValue, Scalar.noLater_reversed]

theorem topRegister_reverse (l : Layer) : l.reverse.topRegister = l.topRegister := by
  cases l <;> rfl

theorem run_reverse (base : Nat) (l : Layer) (file : RegisterFile α) :
    l.reverse.run base file = @run α (reversed α) base l file := by
  unfold run
  rw [topRegister_reverse]
  cases l with
  | inside register x => simp only [reverse, Exchange.run_reverse]
  | between low high d => simp only [reverse, lowValue_reverse, highValue_reverse]

end Layer

def SortRoute.along (d : Direction) : SortRoute → SortRoute
  | entryPoint _ width => entryPoint (entryPointName width d) width
  | fallback => fallback

theorem Synthesis.Closed.reverse {s : Synthesis} {step : Step} (h : s.Closed step) :
    s.Closed step.reverse := by
  cases step with
  | layer l => trivial
  | call callee first => exact h
  | outer outer => exact h

/-! ## Routines of a plan -/

namespace Plan.Parts

variable {plan : Plan} {s : Synthesis} {networks entries : List Routine} {dispatch r : Routine}
  {key : NetworkKey} {width : Nat}

theorem find?_reverse (h : plan.Parts s networks entries dispatch)
    (hfind : plan.find? key = some r) :
    plan.find? key.reverse = some (r.mirrored key.reverse.name) := by
  have hsame := List.find?_some hfind
  have hkey : s.hasRoutine key = true :=
    h.exists_key_iff.1 ⟨r, List.mem_of_find?_eq_some hfind, beq_iff_eq.1 hsame⟩
  obtain ⟨found, hfound, hroutine⟩ := h.find?_eq hkey
  rw [hfind] at hfound
  cases hfound
  obtain ⟨found', hfound', hroutine'⟩ := h.find?_eq (show s.hasRoutine key.reverse = true from hkey)
  rw [Synthesis.routineOf_reverse hroutine] at hroutine'
  cases hroutine'
  exact hfound'

theorem findNamed?_reverse (h : plan.Parts s networks entries dispatch) (hpos : 0 < width)
    (hle : width ≤ s.limits.widest) (d : Direction) :
    ∃ r, plan.findNamed? (entryPointName width d) = some r ∧
      plan.findNamed? (entryPointName width d.reverse) =
        some (r.mirrored (entryPointName width d.reverse)) := by
  obtain ⟨r, hfind, hentry⟩ := h.findNamed?_eq hpos hle d
  obtain ⟨r', hfind', hentry'⟩ := h.findNamed?_eq hpos hle d.reverse
  rw [Synthesis.entryRoutine_reverse, hentry] at hentry'
  cases hentry'
  exact ⟨r, hfind, hfind'⟩

end Plan.Parts

/-! ## Steps -/

namespace Machine

variable {machine : Machine} {s : Synthesis} {networks entries : List Routine}
  {dispatch r : Routine} {key : NetworkKey} {steps : List Step} {width : Nat} {d : Direction}

theorem routineFor_reverse (h : machine.plan.Parts s networks entries dispatch)
    (hkey : s.hasRoutine key = true) :
    ∃ r, machine.routineFor key = .ok r ∧
      machine.routineFor key.reverse = .ok (r.mirrored key.reverse.name) ∧
      s.bodyOf key = .ok r.body := by
  obtain ⟨r, hfind, hroutine⟩ := h.find?_eq hkey
  exact ⟨r, routineFor_eq_ok hfind, routineFor_eq_ok (h.find?_reverse hfind),
    (Synthesis.implements_of_routineOf hroutine).body⟩

theorem runSteps_reverse (h : machine.plan.Parts s networks entries dispatch) (levels base : Nat)
    (hsteps : ∀ step ∈ steps, s.Closed step) (file : RegisterFile α) :
    machine.runSteps levels base (steps.map Step.reverse) file =
      @runSteps α (reversed α) machine levels base steps file := by
  -- on the bodies that may still be opened: the routines that two mirrored calls find are mirrored
  induction levels generalizing base steps file with
  | zero => rfl
  | succ levels ih =>
      simp only [runSteps]
      split
      · rfl
      · rw [List.foldlM_map]
        refine Outcome.foldlM_congr (fun step hstep file => ?_) file
        cases step with
        | layer l => exact l.run_reverse base file
        | call callee first =>
            obtain ⟨r, hr, hr', hbody⟩ := routineFor_reverse h (hsteps _ hstep)
            simp only [Step.reverse]
            rw [Outcome.bind_of_ok hr', Outcome.bind_of_ok hr]
            apply congrArg
            funext place
            exact ih place (Synthesis.closed_bodyOf hbody) file
        | outer step => exact absurd (hsteps _ hstep) id

theorem runBody_reverse (h : machine.plan.Parts s networks entries dispatch)
    (hsteps : ∀ step ∈ steps, s.Closed step) (file : RegisterFile α) :
    machine.runBody (steps.map Step.reverse) file = @runBody α (reversed α) machine steps file :=
  runSteps_reverse h (callLimit + 1) 0 hsteps file

/-- The name is told by the errors of a run and by nothing else. -/
theorem runOn_reverse (h : machine.plan.Parts s networks entries dispatch)
    (hbody : s.bodyOf key = .ok r.body) (name : String) (values : List α) :
    machine.runOn (r.mirrored name) values =
      @runOn α (reversed α) machine { r with name } values := by
  have hrun := fun file : RegisterFile α => runBody_reverse h (Synthesis.closed_bodyOf hbody) file
  simp only [runOn, Routine.mirrored, hrun]
  rfl

/-! ## Arrays -/

theorem load_reverse {data : List α} (hdata : data.length ≤ width * machine.lanes)
    (name name' : String) (pad : Sentinel) :
    machine.load name' width pad.reverse data =
      @load α (reversed α) machine name width pad data := by
  unfold load
  rw [Scalar.sentinel_reversed]
  cases hcount : Count.mul width machine.lanes with
  | error f => rfl
  | ok total =>
      obtain ⟨_, rfl⟩ := Count.mul_eq_ok_iff.1 hcount
      simp only [Outcome.bind_of_ok (Outcome.liftM_eq_ok_iff.2 rfl), if_neg (Nat.not_lt.2 hdata)]

theorem entrySteps_reverse (h : machine.plan.Parts s networks entries dispatch)
    (hsteps : ∀ step ∈ steps, s.Closed step) (name name' : String) (residual : ResidualMode)
    (data : List α) (file : RegisterFile α) :
    machine.entrySteps name' (steps.map Step.reverse ++ [.outer (.store width residual)])
        ⟨data, some file⟩ =
      @entrySteps α (reversed α) machine name (steps ++ [.outer (.store width residual)])
        ⟨data, some file⟩ := by
  induction steps generalizing file with
  | nil => rfl
  | cons step steps ih =>
      rw [List.forall_mem_cons] at hsteps
      have hrun := runBody_reverse h (List.forall_mem_singleton.2 hsteps.1) file
      have hright := @entrySteps_cons α (reversed α) machine step hsteps.1.ne_outer name
        (steps ++ [.outer (.store width residual)]) data file
      rw [List.map_singleton] at hrun
      rw [List.map_cons, List.cons_append, List.cons_append, hright,
        entrySteps_cons hsteps.1.reverse.ne_outer, hrun]
      split
      · exact ih hsteps.2 _
      · rfl

theorem entryPoint_reverse (h : machine.plan.Parts s networks entries dispatch)
    (hentry : s.entryRoutine width d = .ok r) (name name' : String) {data : List α}
    (hdata : data.length ≤ width * machine.lanes) :
    machine.entrySteps name' (r.body.map Step.reverse) ⟨data, none⟩ =
      @entrySteps α (reversed α) machine name r.body ⟨data, none⟩ := by
  obtain ⟨residual, network, _, _, hnetwork, _, _, _, _, hbody, _⟩ :=
    Synthesis.entryRoutine_eq_ok hentry
  have hload := load_reverse hdata name name' d.sentinel
  rw [hbody]
  simp only [List.cons_append, List.map_cons, List.map_append, List.map_nil, Step.reverse,
    OuterStep.reverse, entrySteps, entryStep, hload]
  cases @load α (reversed α) machine name width d.sentinel data with
  | error failure => rfl
  | ok file => exact entrySteps_reverse h (Synthesis.closed_invocation hnetwork) name name' _ _ _

theorem sort_reverse {plan : Plan} (h : plan.Parts s networks entries dispatch)
    (hlanes : 0 < s.limits.lanes) (hwidest : 0 < s.limits.widest) (d : Direction)
    (data : List α) :
    sort ⟨plan, s.limits.element, s.limits.lanes⟩ d.reverse data =
      let (out, result) := @sort α (reversed α) ⟨plan, s.limits.element, s.limits.lanes⟩ d data
      (out, result.map (SortRoute.along d.reverse)) := by
  simp only [sort, route]
  cases requireType ⟨plan, s.limits.element, s.limits.lanes⟩ (Scalar.element α) with
  | error failure => rfl
  | ok matched =>
      simp only [Outcome.bind_of_ok rfl]
      rcases Nat.lt_or_ge (s.limits.widest * s.limits.lanes) data.length with hlength | hlength
      · rw [entryFor_eq_fallback h hlength, entryFor_eq_fallback h hlength]
        simp only [Scalar.sorted_reversed]
        rfl
      · obtain ⟨r, hrow, hentry⟩ := entryFor_eq_row h hlanes hwidest hlength d
        obtain ⟨r', hrow', hentry'⟩ := entryFor_eq_row h hlanes hwidest hlength d.reverse
        rw [Synthesis.entryRoutine_reverse, hentry] at hentry'
        cases hentry'
        rw [hrow, hrow']
        have hholds := LengthTable.le_registersFor_mul hlanes data.length
        generalize LengthTable.registersFor s.limits.lanes data.length = width at *
        have hsteps := entryPoint_reverse (show (mk plan s.limits.element s.limits.lanes).plan.Parts
          s networks entries dispatch from h) hentry (entryPointName width d)
          (entryPointName width d.reverse) hholds
        simp only [LengthRow.entryPoint_ofWidth, Routine.mirrored, hsteps]
        obtain ⟨out, result⟩ := @entrySteps α (reversed α)
          ⟨plan, s.limits.element, s.limits.lanes⟩ (entryPointName width d) r.body ⟨data, none⟩
        cases result <;> rfl

/-! ## Units -/

/-- The two directions of a unit.  Every body and every entry point is the mirror image of the one in
the other direction, emitted and found with it, and running it is running the other one under the
reversed order. -/
theorem directions_mirror {size : Nat} {ty : ScalarType} {profile : IsaProfile}
    {settings : Settings} (hregister : profile.HasRegister ty size)
    (hs : Synthesis.ofSettings profile ty settings = .ok s) :
    (∀ key : NetworkKey, 0 < key.width → key.width ≤ 2 ^ 62 →
      ∃ body, s.bodyOf key = .ok body ∧ s.bodyOf key.reverse = .ok (body.map Step.reverse)) ∧
    (∀ key, s.hasRoutine key.reverse = s.hasRoutine key) ∧
    (∀ width d, s.entryRoutine width d.reverse =
      (fun r => r.mirrored (entryPointName width d.reverse)) <$> s.entryRoutine width d) ∧
    ∀ plan, Plan.forType ty profile settings = .ok plan →
      (∀ key r, plan.find? key = some r →
        plan.find? key.reverse = some (r.mirrored key.reverse.name)) ∧
      (∀ width d, 0 < width → width ≤ s.limits.widest →
        ∃ r, plan.findNamed? (entryPointName width d) = some r ∧
          plan.findNamed? (entryPointName width d.reverse) =
            some (r.mirrored (entryPointName width d.reverse))) ∧
      ∃ machine, ofPlan plan = .ok machine ∧ ∀ (α : Type) [Scalar α],
        (∀ (key : NetworkKey) (r : Routine), s.bodyOf key = .ok r.body → ∀ name (values : List α),
          machine.runOn (r.mirrored name) values =
            @runOn α (reversed α) machine { r with name } values) ∧
        ∀ d (data : List α), machine.sort d.reverse data =
          let (out, result) := @sort α (reversed α) machine d data
          (out, result.map (SortRoute.along d.reverse)) := by
  obtain ⟨cells, huses⟩ := exists_uses_of_ofSettings hregister hs
  refine ⟨?_, s.hasRoutine_reverse, s.entryRoutine_reverse, ?_⟩
  · intro key hpos hwidth
    obtain ⟨body, hbody, _⟩ := Synthesis.bodyOf_expands huses (e := 62) (by omega) hpos hwidth
    refine ⟨body, hbody, ?_⟩
    rw [Synthesis.bodyOf_reverse, hbody]
    rfl
  · intro plan hplan
    obtain ⟨_, hlanes, _, networks, entries, dispatch, hparts, _⟩ :=
      exists_follows hregister hs hplan
    have hwidest := (Synthesis.resolved_of_ofSettings hs).widest_pos
    refine ⟨fun _ _ => hparts.find?_reverse, fun _ d hpos hle => hparts.findNamed?_reverse hpos hle d,
      _, ofPlan_eq_ok hparts.limits, fun α _ => ⟨fun key r hbody => ?_, ?_⟩⟩
    · exact runOn_reverse (show (mk plan s.limits.element s.limits.lanes).plan.Parts
        s networks entries dispatch from hparts) hbody
    · exact sort_reverse hparts (hlanes ▸ Nat.two_pow_pos size) hwidest

/-- The sorters of three registers of four lanes, and an array that takes three of them. -/
theorem directions_mirror_three :
    ∃ s plan machine body,
      Synthesis.ofSettings InstructionSet.neonProfile .int32 { widest := some 3 } = .ok s ∧
      Plan.forType .int32 InstructionSet.neonProfile { widest := some 3 } = .ok plan ∧
      ofPlan plan = .ok machine ∧ s.bodyOf (.sort 3 .ascending) = .ok body ∧
      s.bodyOf (.sort 3 .descending) = .ok (body.map Step.reverse) ∧
      ∀ data : List Int32, machine.sort .descending data =
        let (out, result) := @sort Int32 (reversed Int32) machine .ascending data
        (out, result.map (SortRoute.along .descending)) := by
  have hregister : InstructionSet.neonProfile.HasRegister .int32 2 := ⟨by decide, rfl⟩
  obtain ⟨plan, hplan⟩ := Outcome.exists_eq_ok_of_isOk (x := Plan.forType .int32
    InstructionSet.neonProfile { widest := some 3 }) (by decide +kernel)
  have hs : Synthesis.ofSettings InstructionSet.neonProfile .int32 { widest := some 3 } =
      .ok ⟨InstructionSet.neonProfile, ⟨.neon, .int32, 4, 3, 2, 0, 0⟩⟩ := rfl
  obtain ⟨hbodies, _, _, hplans⟩ := directions_mirror hregister hs
  obtain ⟨body, hbody, hbody'⟩ := hbodies (.sort 3 .ascending) (by decide) (by decide)
  obtain ⟨_, _, machine, hmachine, hruns⟩ := hplans plan hplan
  exact ⟨_, plan, machine, body, hs, hplan, hmachine, hbody, hbody', (hruns Int32).2 .ascending⟩

end Machine

end Bitonic
