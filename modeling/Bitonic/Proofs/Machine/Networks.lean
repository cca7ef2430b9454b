import Bitonic.Proofs.Machine.ExpansionRun
import Bitonic.Proofs.Network.Bodies
import Bitonic.Proofs.Plan.Generated
import Bitonic.Proofs.Scalar.MergerInputs
import Mathlib.Data.Nat.Log
/-!
# Networks of a generated plan on a machine

A machine made from a generated plan follows its synthesis: every call finds the body that the
synthesis makes.  So running a network is running its written-out layers, and

* `Machine.Follows.runOn_sorter` — a sorter arranges all numbers;
* `Machine.Follows.runOn_merger` — a merger arranges what is mergeable.
-/

namespace Bitonic

variable {size : Nat}

namespace Machine

/-- The machine runs what the synthesis makes, on registers of `2 ^ size` lanes. -/
structure Follows (machine : Machine) (s : Synthesis) (cells : RegisterNetworks size) : Prop where
  uses : s.Uses cells
  lanes : machine.lanes = 2 ^ size
  element : machine.element = s.limits.element
  calls : ∀ key body, s.routineBody key = .ok body → machine.bodyFor key = .ok body

theorem ofPlan_eq_ok {plan : Plan} {limits : UnitLimits} (h : plan.limits? = some limits) :
    ofPlan plan = .ok ⟨plan, limits.element, limits.lanes⟩ := by
  rw [ofPlan, h]
  rfl

theorem follows_of_parts {plan : Plan} {s : Synthesis} {networks entries : List Routine}
    {dispatch : Routine} (h : plan.Parts s networks entries dispatch)
    {cells : RegisterNetworks size} (hs : s.Uses cells) (hlanes : s.limits.lanes = 2 ^ size) :
    Follows ⟨plan, s.limits.element, s.limits.lanes⟩ s cells := by
  refine ⟨hs, hlanes, rfl, fun key body hbody => ?_⟩
  rw [Synthesis.routineBody] at hbody
  split at hbody
  · next hkey =>
    obtain ⟨r, hfind, hroutine⟩ := h.find?_eq hkey
    obtain ⟨_, hrbody, _⟩ := Synthesis.routineOf_eq_ok hroutine
    rw [hbody] at hrbody
    cases hrbody
    rw [bodyFor, routineFor, hfind]
    rfl
  · cases hbody

theorem exists_uses_of_ofSettings {ty : ScalarType} {profile : IsaProfile} {settings : Settings}
    {s : Synthesis} (hregister : profile.HasRegister ty size)
    (hs : Synthesis.ofSettings profile ty settings = .ok s) :
    ∃ cells : RegisterNetworks size, s.Uses cells := by
  have hresolved := Synthesis.resolved_of_ofSettings hs
  apply Synthesis.exists_uses
  rw [hresolved.ofProfile, hresolved.ofType]
  exact hregister

theorem lanes_of_ofSettings {ty : ScalarType} {profile : IsaProfile} {settings : Settings}
    {s : Synthesis} (hregister : profile.HasRegister ty size)
    (hs : Synthesis.ofSettings profile ty settings = .ok s) : s.limits.lanes = 2 ^ size := by
  have hsame := (Synthesis.resolved_of_ofSettings hs).lanes
  rw [hregister.2] at hsame
  exact (Except.ok.inj hsame).symm

theorem routineFor_eq_ok {machine : Machine} {key : NetworkKey} {r : Routine}
    (h : machine.plan.find? key = some r) : machine.routineFor key = .ok r := by
  rw [routineFor, h]
  rfl

theorem runByKey_eq_runOn {α : Type} [Scalar α] {machine : Machine} {key : NetworkKey} {r : Routine}
    (h : machine.plan.find? key = some r) (values : List α) :
    machine.runByKey key values = machine.runOn r values := by
  rw [runByKey, Outcome.bind_of_ok (routineFor_eq_ok h)]

theorem exists_follows {ty : ScalarType} {profile : IsaProfile} {settings : Settings}
    {s : Synthesis} {plan : Plan} (hregister : profile.HasRegister ty size)
    (hs : Synthesis.ofSettings profile ty settings = .ok s)
    (hplan : Plan.forType ty profile settings = .ok plan) :
    s.limits.element = ty ∧ s.limits.lanes = 2 ^ size ∧
      ∃ (cells : RegisterNetworks size) (networks entries : List Routine) (dispatch : Routine),
        plan.Parts s networks entries dispatch ∧
          Follows ⟨plan, s.limits.element, s.limits.lanes⟩ s cells := by
  obtain ⟨networks, entries, dispatch, hparts⟩ := Plan.exists_parts hs hplan
  have hlanes := lanes_of_ofSettings hregister hs
  obtain ⟨cells, huses⟩ := exists_uses_of_ofSettings hregister hs
  exact ⟨(Synthesis.resolved_of_ofSettings hs).ofType, hlanes, cells, networks, entries, dispatch, hparts,
    follows_of_parts hparts huses hlanes⟩

namespace Follows

variable {α : Type} [Scalar α] {machine : Machine} {s : Synthesis}
  {cells : RegisterNetworks size} {key : NetworkKey} {routine : Routine}

theorem lanes_ne_zero (h : machine.Follows s cells) : machine.lanes ≠ 0 := by
  rw [h.lanes]
  exact (Nat.two_pow_pos size).ne'

theorem expansion (h : machine.Follows s cells) {levels base : Nat} {steps : List Step}
    {layers : List Layer} (hexp : Expansion s.routineBody levels base steps layers) :
    Expansion machine.bodyFor levels base steps layers :=
  hexp.mono h.calls (Nat.le_refl levels)

theorem runOn_eq_layers (h : machine.Follows s cells) (hroutine : s.routineOf key = .ok routine)
    (values : List α) :
    machine.runOn routine values = (do
      machine.requireType (Scalar.element α)
      let expected ← Count.mul key.width (2 ^ size)
      if values.length ≠ expected then
        Outcome.defective (.wrongLaneCount key.name expected values.length)
      else
        return (← Layer.runAll (cells.layersOf key 0)
          (RegisterFile.ofValues (2 ^ size) values)).flatten) := by
  obtain ⟨_, hbody, _, hname, hwidth, _⟩ := Synthesis.routineOf_eq_ok hroutine
  obtain ⟨hpos, hsmall⟩ := Synthesis.width_of_bodyOf hbody
  obtain ⟨body, hbody', hexp⟩ := Synthesis.bodyOf_expands h.uses (e := 63) (by omega) hpos hsmall
  rw [hbody] at hbody'
  cases hbody'
  have hexp' := h.expansion (hexp 0 (by unfold Count.limit; omega))
  simp only [runOn, runBody, hname, hwidth, h.lanes]
  rw [show callLimit = 63 + 1 from rfl]
  simp only [runSteps_of_expansion h.lanes_ne_zero hexp']

/-- A network runs as its written-out layers on as many values as it has lanes. -/
theorem runOn_eq (h : machine.Follows s cells) (htype : Scalar.element α = s.limits.element)
    (hroutine : s.routineOf key = .ok routine) (hroom : key.width * 2 ^ size < Count.limit)
    {values : List α} (hlength : values.length = key.width * 2 ^ size) :
    machine.runOn routine values =
      Layer.runAll (cells.layersOf key 0) (RegisterFile.ofValues (2 ^ size) values) >>=
        fun file => .ok file.flatten := by
  have hrequire : machine.requireType (Scalar.element α) = .ok () :=
    if_pos (htype.trans h.element.symm)
  rw [h.runOn_eq_layers hroutine, Outcome.bind_of_ok hrequire,
    Outcome.bind_of_ok (Outcome.liftM_eq_ok_iff.2 (Count.mul_eq_ok hroom)),
    if_neg (not_not.2 hlength)]
  rfl

variable [Ranked α]

theorem runOn_arranged (h : machine.Follows s cells) (htype : Scalar.element α = s.limits.element)
    (hwidth : key.width * 2 ^ size < 2 ^ 62) (hroutine : s.routineOf key = .ok routine)
    {values : List α} (hlength : values.length = key.width * 2 ^ size)
    (hnum : ∀ a ∈ values, Scalar.IsNumber a)
    (hordered : (Layer.allOnWires (2 ^ size) (cells.layersOf key 0)
      (Scalar.wires values)).Ordered key.direction 0 (key.width * 2 ^ size)) :
    ∃ out, machine.runOn routine values = .ok out ∧
      Scalar.Arranged key.direction values out := by
  have hlanes := Nat.two_pow_pos size
  have hsmall : key.width ≤ 2 ^ 62 := (Nat.le_mul_of_pos_right _ hlanes).trans hwidth.le
  obtain ⟨file, hrun, _, harranged⟩ := (cells.allWithin_layersOf key 0).runAll_arranged hlanes
    (by unfold Count.limit; omega) hlength hnum hordered
  refine ⟨file.flatten, ?_, harranged⟩
  rw [h.runOn_eq htype hroutine (by unfold Count.limit; omega) hlength, Outcome.bind_of_ok hrun]

theorem runOn_sorter (h : machine.Follows s cells) (htype : Scalar.element α = s.limits.element)
    {width : Nat} {d : Direction} (hwidth : width * 2 ^ size < 2 ^ 62)
    (hroutine : s.routineOf (.sort width d) = .ok routine) {values : List α}
    (hlength : values.length = width * 2 ^ size) (hnum : ∀ a ∈ values, Scalar.IsNumber a) :
    ∃ out, machine.runOn routine values = .ok out ∧ Scalar.Arranged d values out := by
  have hordered := cells.ordered_sortLayers d 0 width (Scalar.wires values)
  rw [Nat.zero_mul] at hordered
  exact h.runOn_arranged htype hwidth hroutine hlength hnum hordered

theorem runOn_merger (h : machine.Follows s cells) (htype : Scalar.element α = s.limits.element)
    {width e : Nat} {d : Direction} (hwidth : width * 2 ^ size < 2 ^ 62)
    (hroom : width ≤ 2 ^ e) (hroutine : s.routineOf (.merge width d) = .ok routine)
    {values : List α} (hlength : values.length = width * 2 ^ size)
    (hnum : ∀ a ∈ values, Scalar.IsNumber a)
    (hinput : Scalar.MergerInput d values (2 ^ e * 2 ^ size)) :
    ∃ out, machine.runOn routine values = .ok out ∧ Scalar.Arranged d values out := by
  have hmergeable := hinput.mergeable hnum (by
    rw [hlength]
    exact Nat.mul_le_mul_right _ hroom)
  rw [hlength] at hmergeable
  have hordered := cells.ordered_mergeLayers 0 hroom (by
    rw [Nat.zero_mul]
    exact hmergeable)
  rw [Nat.zero_mul] at hordered
  exact h.runOn_arranged htype hwidth hroutine hlength hnum hordered

end Follows

/-! ## Sorters and mergers of a unit -/

section Unit

variable {ty : ScalarType} {profile : IsaProfile} {settings : Settings} {s : Synthesis}
  {plan : Plan}

theorem exists_routineOf_iff (hregister : profile.HasRegister ty size)
    (hs : Synthesis.ofSettings profile ty settings = .ok s) (hsmall : s.limits.widest < 2 ^ 62)
    (key : NetworkKey) : (∃ routine, s.routineOf key = .ok routine) ↔
      (0 < key.width ∧ key.width ≤ s.limits.widest) ∧
        (key.task = .merge → 1 < key.width → key.width ≤ s.limits.widestMerger) := by
  rw [← Synthesis.requireAvailable_eq_ok_iff]
  constructor
  · rintro ⟨routine, hroutine⟩
    exact (Synthesis.routineOf_eq_ok hroutine).1
  · intro havailable
    obtain ⟨⟨hpos, hwidth⟩, _⟩ := Synthesis.requireAvailable_eq_ok_iff.1 havailable
    obtain ⟨cells, huses⟩ := exists_uses_of_ofSettings hregister hs
    obtain ⟨body, hbody, _⟩ := Synthesis.bodyOf_expands huses (e := 62) (by omega) hpos (by omega)
    exact Synthesis.exists_routineOf havailable hbody

theorem sorter_arranges (hregister : profile.HasRegister ty size)
    (hs : Synthesis.ofSettings profile ty settings = .ok s)
    (hplan : Plan.forType ty profile settings = .ok plan)
    (hcoverage : s.limits.widest * s.limits.lanes < 2 ^ 62) {width : Nat} (hpos : 0 < width)
    (hwidth : width ≤ s.limits.widest) (d : Direction) :
    ∃ machine routine, Machine.ofPlan plan = .ok machine ∧
      s.routineOf (.sort width d) = .ok routine ∧
      ∀ values : List ty.Value, values.length = width * s.limits.lanes →
        (∀ a ∈ values, Scalar.IsNumber a) →
        ∃ out, machine.runOn routine values = .ok out ∧ Scalar.Arranged d values out ∧
          (s.hasRoutine (.sort width d) = true →
            machine.runByKey (.sort width d) values = .ok out) := by
  obtain ⟨helement, hlanes, cells, networks, entries, dispatch, hparts, hfollows⟩ :=
    exists_follows hregister hs hplan
  have htype : Scalar.element ty.Value = s.limits.element :=
    (ScalarType.element_value ty).trans helement.symm
  rw [hlanes] at hcoverage
  have hsmall : width * 2 ^ size < 2 ^ 62 :=
    (Nat.mul_le_mul_right _ hwidth).trans_lt hcoverage
  have hwidest : s.limits.widest < 2 ^ 62 :=
    (Nat.le_mul_of_pos_right _ (Nat.two_pow_pos size)).trans_lt hcoverage
  obtain ⟨routine, hroutine⟩ := (exists_routineOf_iff hregister hs hwidest (.sort width d)).2
    ⟨⟨hpos, hwidth⟩, fun htask => NetworkTask.noConfusion htask⟩
  refine ⟨_, routine, ofPlan_eq_ok hparts.limits, hroutine, fun values hlength hnum => ?_⟩
  rw [hlanes] at hlength
  obtain ⟨out, hrun, harranged⟩ :=
    hfollows.runOn_sorter htype hsmall hroutine hlength hnum
  refine ⟨out, hrun, harranged, fun hkey => ?_⟩
  obtain ⟨found, hfind, hfound⟩ := hparts.find?_eq hkey
  rw [hroutine] at hfound
  cases hfound
  have hlookup : routineFor ⟨plan, s.limits.element, s.limits.lanes⟩ (.sort width d) =
      .ok routine := by
    rw [routineFor, hfind]
    rfl
  rw [runByKey, Outcome.bind_of_ok hlookup, hrun]

/-- Twelve numbers in three registers, sorted from the largest down. -/
theorem sorter_arranges_twelve :
    let values : List ScalarType.int32.Value := [4, -7, 4, 0, 2147483647, 4, -1, 9, -7, 3, 0, 12]
    ∃ s plan machine routine out,
      Synthesis.ofSettings InstructionSet.neonProfile .int32 { widest := some 3 } = .ok s ∧
      Plan.forType .int32 InstructionSet.neonProfile { widest := some 3 } = .ok plan ∧
      Machine.ofPlan plan = .ok machine ∧ s.routineOf (.sort 3 .descending) = .ok routine ∧
      machine.runOn routine values = .ok out ∧ Scalar.Arranged .descending values out := by
  intro values
  have hregister : InstructionSet.neonProfile.HasRegister .int32 2 := ⟨by decide, rfl⟩
  obtain ⟨plan, hplan⟩ := Outcome.exists_eq_ok_of_isOk (x := Plan.forType .int32
    InstructionSet.neonProfile { widest := some 3 }) (by decide +kernel)
  obtain ⟨machine, routine, hmachine, hroutine, hruns⟩ := sorter_arranges
    (s := ⟨InstructionSet.neonProfile, ⟨.neon, .int32, 4, 3, 2, 0, 0⟩⟩) hregister rfl hplan
    (by decide) (show 0 < 3 by decide) (by decide) .descending
  obtain ⟨out, hrun, harranged, _⟩ := hruns values rfl (List.forall_iff_forall_mem.1 (by decide))
  exact ⟨_, plan, machine, routine, out, rfl, hplan, hmachine, hroutine, hrun, harranged⟩

theorem merger_arranges (hregister : profile.HasRegister ty size)
    (hs : Synthesis.ofSettings profile ty settings = .ok s)
    (hplan : Plan.forType ty profile settings = .ok plan)
    (hcoverage : s.limits.widest * s.limits.lanes < 2 ^ 62) (width : Nat) (d : Direction) :
    ((∃ routine, s.routineOf (.merge width d) = .ok routine) ↔
        width = 1 ∨ 0 < width ∧ width ≤ s.limits.widestMerger) ∧
      ∃ machine, Machine.ofPlan plan = .ok machine ∧
        ∀ routine, s.routineOf (.merge width d) = .ok routine →
        ∀ values : List ty.Value, values.length = width * s.limits.lanes →
          (∀ a ∈ values, Scalar.IsNumber a) →
          let room := 2 ^ Nat.clog 2 width * s.limits.lanes
          (Scalar.MergerInput d values room →
            ∃ out, machine.runOn routine values = .ok out ∧ Scalar.Arranged d values out) ∧
          (width.isPowerOfTwo → Scalar.IsBitonic values → Scalar.MergerInput d values room) ∧
          ∀ against along, values = against ++ along →
            (against.Pairwise fun a b => Scalar.noLater d.reverse a b = true) →
            (along.Pairwise fun a b => Scalar.noLater d a b = true) →
            Scalar.MergerInput d values room := by
  obtain ⟨helement, hlanes, cells, networks, entries, dispatch, hparts, hfollows⟩ :=
    exists_follows hregister hs hplan
  have htype : Scalar.element ty.Value = s.limits.element :=
    (ScalarType.element_value ty).trans helement.symm
  have hresolved := Synthesis.resolved_of_ofSettings hs
  rw [hlanes] at hcoverage ⊢
  have hwidest : s.limits.widest < 2 ^ 62 :=
    (Nat.le_mul_of_pos_right _ (Nat.two_pow_pos size)).trans_lt hcoverage
  have haccepts := exists_routineOf_iff hregister hs hwidest (.merge width d)
  refine ⟨?_, _, ofPlan_eq_ok hparts.limits, ?_⟩
  · rw [haccepts]
    have hpos := hresolved.widest_pos
    have hle := hresolved.widestMerger_le
    simp only [NetworkKey.merge, forall_const]
    omega
  · intro routine hroutine values hlength hnum
    obtain ⟨⟨hpos, hwidth⟩, _⟩ := haccepts.1 ⟨routine, hroutine⟩
    have hsmall : width * 2 ^ size < 2 ^ 62 :=
      (Nat.mul_le_mul_right _ hwidth).trans_lt hcoverage
    refine ⟨fun hinput => ?_, fun hpower hbitonic => ?_, fun against along hvalues => ?_⟩
    · exact hfollows.runOn_merger htype hsmall (Nat.le_pow_clog (by omega) width) hroutine
        hlength hnum hinput
    · obtain ⟨e, rfl⟩ := hpower
      rw [Nat.clog_pow 2 e (by omega), ← hlength]
      exact Scalar.mergerInput_of_isBitonic d hnum hbitonic
    · subst hvalues
      exact Scalar.mergerInput_of_runs _ hnum

/-- A falling run of five numbers and a rising run of seven, in three registers. -/
theorem merger_arranges_twelve :
    let values : List ScalarType.int32.Value := [9, 5, 5, 2, 0, -3, -3, 1, 4, 8, 8, 8]
    ∃ s plan machine routine out,
      Synthesis.ofSettings InstructionSet.neonProfile .int32 { widest := some 7 } = .ok s ∧
      Plan.forType .int32 InstructionSet.neonProfile { widest := some 7 } = .ok plan ∧
      Machine.ofPlan plan = .ok machine ∧ s.routineOf (.merge 3 .ascending) = .ok routine ∧
      machine.runOn routine values = .ok out ∧ Scalar.Arranged .ascending values out := by
  intro values
  have hregister : InstructionSet.neonProfile.HasRegister .int32 2 := ⟨by decide, rfl⟩
  obtain ⟨plan, hplan⟩ := Outcome.exists_eq_ok_of_isOk (x := Plan.forType .int32
    InstructionSet.neonProfile { widest := some 7 }) (by decide +kernel)
  obtain ⟨haccepts, machine, hmachine, hruns⟩ := merger_arranges
    (s := ⟨InstructionSet.neonProfile, ⟨.neon, .int32, 4, 7, 4, 0, 0⟩⟩) hregister rfl hplan
    (by decide) 3 .ascending
  obtain ⟨routine, hroutine⟩ := haccepts.2 (by decide)
  obtain ⟨hmerges, _, hinput⟩ := hruns routine hroutine values rfl
    (List.forall_iff_forall_mem.1 (by decide))
  obtain ⟨out, hrun, harranged⟩ := hmerges (hinput [9, 5, 5, 2, 0] [-3, -3, 1, 4, 8, 8, 8] rfl
    (by decide) (by decide))
  exact ⟨_, plan, machine, routine, out, rfl, hplan, hmachine, hroutine, hrun, harranged⟩

end Unit

end Machine

end Bitonic
