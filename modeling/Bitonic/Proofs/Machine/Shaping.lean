import Bitonic.Proofs.Machine.Sorting
import Bitonic.Proofs.Network.Shaping
/-!
# Settings do not change what networks do

Two settings for the same instruction set and element type may disagree on which networks are
routines.  Their plans run the same layers all the same, so that every run that both plans can make
ends in the same way on the same values, whatever the values are.

* `Machine.Follows.runOn_congr` — sorters and mergers;
* `Machine.sort_congr` — arrays that both plans sort by an entry point, or neither does;
* `Machine.shaping_preserves` — networks written out, and runs of the plans.
-/

namespace Bitonic

namespace Machine

variable {size : Nat} {α : Type} [Scalar α] {machine machine' : Machine} {s s' : Synthesis}
  {cells : RegisterNetworks size}

namespace Follows

variable (h : machine.Follows s cells) (h' : machine'.Follows s' cells)

include h h'

theorem requireType_congr (helement : s'.limits.element = s.limits.element) (found : ScalarType) :
    machine.requireType found = machine'.requireType found := by
  rw [requireType, requireType, h.element, h'.element, helement]

theorem load_congr (name : String) (vectors : Nat) (pad : Sentinel) (data : List α) :
    machine.load name vectors pad data = machine'.load name vectors pad data := by
  rw [load, load, h.lanes, h'.lanes]

/-- The routines of a network end in the same way, on registers full of values and on others. -/
theorem runOn_congr (helement : s'.limits.element = s.limits.element) {key : NetworkKey}
    {r r' : Routine} (hr : s.routineOf key = .ok r) (hr' : s'.routineOf key = .ok r')
    (values : List α) : machine.runOn r values = machine'.runOn r' values := by
  rw [h.runOn_eq_layers hr, h'.runOn_eq_layers hr', h.requireType_congr h' helement]

theorem entrySteps_congr {width : Nat} {d : Direction} {r r' : Routine} (hpos : 0 < width)
    (hwidth : width ≤ 2 ^ 62) (hr : s.entryRoutine width d = .ok r)
    (hr' : s'.entryRoutine width d = .ok r') (name : String) (data : List α) :
    machine.entrySteps name r.body ⟨data, none⟩ =
      machine'.entrySteps name r'.body ⟨data, none⟩ := by
  rw [h.entrySteps_eq_layers hpos hwidth hr, h'.entrySteps_eq_layers hpos hwidth hr',
    h.load_congr h']

end Follows

section Parts

variable {plan plan' : Plan} {networks networks' entries entries' : List Routine}
  {dispatch dispatch' : Routine} (h : plan.Parts s networks entries dispatch)
  (h' : plan'.Parts s' networks' entries' dispatch')

include h h'

theorem runByKey_congr (hfollows : Follows ⟨plan, s.limits.element, s.limits.lanes⟩ s cells)
    (hfollows' : Follows ⟨plan', s'.limits.element, s'.limits.lanes⟩ s' cells)
    (helement : s'.limits.element = s.limits.element) {key : NetworkKey}
    (hkey : s.hasRoutine key = true) (hkey' : s'.hasRoutine key = true) (values : List α) :
    runByKey ⟨plan, s.limits.element, s.limits.lanes⟩ key values =
      runByKey ⟨plan', s'.limits.element, s'.limits.lanes⟩ key values := by
  obtain ⟨r, hfind, hr⟩ := h.find?_eq hkey
  obtain ⟨r', hfind', hr'⟩ := h'.find?_eq hkey'
  rw [runByKey_eq_runOn hfind, runByKey_eq_runOn hfind']
  exact hfollows.runOn_congr hfollows' helement hr hr' values

/-- An array goes to entry points of the same width, or to the fallback in both plans. -/
theorem sort_congr (hfollows : Follows ⟨plan, s.limits.element, s.limits.lanes⟩ s cells)
    (hfollows' : Follows ⟨plan', s'.limits.element, s'.limits.lanes⟩ s' cells)
    (helement : s'.limits.element = s.limits.element) (hwidest : 0 < s.limits.widest)
    (hwidest' : 0 < s'.limits.widest) {data : List α}
    (hroute : data.length ≤ s.limits.widest * s.limits.lanes ↔
      data.length ≤ s'.limits.widest * s'.limits.lanes)
    (hroom : data.length ≤ 2 ^ 62 * s.limits.lanes) (d : Direction) :
    sort ⟨plan, s.limits.element, s.limits.lanes⟩ d data =
      sort ⟨plan', s'.limits.element, s'.limits.lanes⟩ d data := by
  have hlanes : s.limits.lanes = 2 ^ size := hfollows.lanes
  have hlanes' : s'.limits.lanes = 2 ^ size := hfollows'.lanes
  have hlanesPos := Nat.two_pow_pos size
  rw [sort, sort, route, route, hfollows.requireType_congr hfollows' helement]
  cases requireType ⟨plan', s'.limits.element, s'.limits.lanes⟩ (Scalar.element α) with
  | error failure => rfl
  | ok _ =>
      rcases Nat.lt_or_ge (s.limits.widest * s.limits.lanes) data.length with hlength | hlength
      · have hlength' := Nat.not_le.1 (mt hroute.2 (Nat.not_le.2 hlength))
        simp only [entryFor_eq_fallback h hlength, entryFor_eq_fallback h' hlength']
        rfl
      · obtain ⟨r, hrow, hr⟩ := entryFor_eq_row h (hlanes ▸ hlanesPos) hwidest hlength d
        obtain ⟨r', hrow', hr'⟩ :=
          entryFor_eq_row h' (hlanes' ▸ hlanesPos) hwidest' (hroute.1 hlength) d
        rw [hrow, hrow']
        rw [hlanes] at hr hroom
        rw [hlanes'] at hr'
        have hpos := LengthTable.registersFor_pos (2 ^ size) data.length
        have hwidth := (LengthTable.registersFor_le_iff hlanesPos (Nat.two_pow_pos 62)).2 hroom
        have hsteps := fun name => hfollows.entrySteps_congr hfollows' hpos hwidth hr hr' name data
        simp only [hlanes, hlanes'] at hsteps
        simp only [Outcome.bind_of_ok rfl, hlanes, hlanes', LengthRow.entryPoint_ofWidth, hsteps]

end Parts

/-- Written out, a network is the same under all settings.  Hence two plans give the same result for
every sorter and merger that both can run, and for every array that both sort by an entry point or
neither does. -/
theorem shaping_preserves {ty : ScalarType} {profile : IsaProfile} {settings settings' : Settings}
    (hregister : profile.HasRegister ty size)
    (hs : Synthesis.ofSettings profile ty settings = .ok s)
    (hs' : Synthesis.ofSettings profile ty settings' = .ok s') :
    (∀ key : NetworkKey, 0 < key.width → key.width ≤ 2 ^ 62 →
      ∃ layers, ∀ levels, 64 ≤ levels →
        s.writtenOut levels key = .ok layers ∧ s'.writtenOut levels key = .ok layers) ∧
    ∀ plan plan', Plan.forType ty profile settings = .ok plan →
      Plan.forType ty profile settings' = .ok plan' →
      ∃ machine machine', Machine.ofPlan plan = .ok machine ∧ Machine.ofPlan plan' = .ok machine' ∧
        ∀ (α : Type) [Scalar α],
          (∀ key r r' (values : List α), s.routineOf key = .ok r → s'.routineOf key = .ok r' →
            machine.runOn r values = machine'.runOn r' values) ∧
          (∀ key (values : List α), s.hasRoutine key = true → s'.hasRoutine key = true →
            machine.runByKey key values = machine'.runByKey key values) ∧
          ∀ (d : Direction) (data : List α), data.length ≤ 2 ^ 62 * s.limits.lanes →
            (data.length ≤ s.limits.widest * s.limits.lanes ↔
              data.length ≤ s'.limits.widest * s'.limits.lanes) →
            machine.sort d data = machine'.sort d data := by
  have hresolved := Synthesis.resolved_of_ofSettings hs
  have hresolved' := Synthesis.resolved_of_ofSettings hs'
  have hprofile : s'.profile = s.profile := hresolved'.ofProfile.trans hresolved.ofProfile.symm
  have helement : s'.limits.element = s.limits.element :=
    hresolved'.ofType.trans hresolved.ofType.symm
  constructor
  · intro key hpos hwidth
    obtain ⟨cells, huses⟩ := exists_uses_of_ofSettings hregister hs
    obtain ⟨cells', huses'⟩ := exists_uses_of_ofSettings hregister hs'
    obtain rfl := huses.cells_eq huses' hprofile helement
    exact ⟨cells.layersOf key 0, fun levels hlevels =>
      ⟨Synthesis.writtenOut_eq_ok huses hpos hwidth hlevels,
        Synthesis.writtenOut_eq_ok huses' hpos hwidth hlevels⟩⟩
  · intro plan plan' hplan hplan'
    obtain ⟨_, _, cells, networks, entries, dispatch, hparts, hfollows⟩ :=
      exists_follows hregister hs hplan
    obtain ⟨_, _, cells', networks', entries', dispatch', hparts', hfollows'⟩ :=
      exists_follows hregister hs' hplan'
    obtain rfl := hfollows.uses.cells_eq hfollows'.uses hprofile helement
    refine ⟨_, _, ofPlan_eq_ok hparts.limits, ofPlan_eq_ok hparts'.limits, fun α _ => ?_⟩
    refine ⟨fun key r r' values hr hr' => ?_, fun key values hkey hkey' => ?_,
      fun d data hroom hroute => ?_⟩
    · exact hfollows.runOn_congr hfollows' helement hr hr' values
    · exact runByKey_congr hparts hparts' hfollows hfollows' helement hkey hkey' values
    · exact sort_congr hparts hparts' hfollows hfollows' helement hresolved.widest_pos
        hresolved'.widest_pos hroute hroom d

/-- Two settings that make different bodies for the sorter of three registers, one by calls and one
by layers alone. -/
theorem shaping_preserves_three :
    let data : List ScalarType.int32.Value := [4, -7, 2147483647, 0, -2147483648, 4, -2147483648]
    ∃ s s' plan plan' machine machine' layers,
      Synthesis.ofSettings InstructionSet.neonProfile .int32 { widest := some 3 } = .ok s ∧
      Synthesis.ofSettings InstructionSet.neonProfile .int32 { widest := some 5, unroll := 4 } =
        .ok s' ∧
      s.bodyOf (.sort 3 .ascending) ≠ s'.bodyOf (.sort 3 .ascending) ∧
      s.writtenOut 64 (.sort 3 .ascending) = .ok layers ∧
      s'.writtenOut 64 (.sort 3 .ascending) = .ok layers ∧
      Plan.forType .int32 InstructionSet.neonProfile { widest := some 3 } = .ok plan ∧
      Plan.forType .int32 InstructionSet.neonProfile { widest := some 5, unroll := 4 } =
        .ok plan' ∧
      Machine.ofPlan plan = .ok machine ∧ Machine.ofPlan plan' = .ok machine' ∧
      machine.sort .descending data = machine'.sort .descending data := by
  intro data
  have hregister : InstructionSet.neonProfile.HasRegister .int32 2 := ⟨by decide, rfl⟩
  obtain ⟨plan, hplan⟩ := Outcome.exists_eq_ok_of_isOk (x := Plan.forType .int32
    InstructionSet.neonProfile { widest := some 3 }) (by decide +kernel)
  obtain ⟨plan', hplan'⟩ := Outcome.exists_eq_ok_of_isOk (x := Plan.forType .int32
    InstructionSet.neonProfile { widest := some 5, unroll := 4 }) (by decide +kernel)
  have hs : Synthesis.ofSettings InstructionSet.neonProfile .int32 { widest := some 3 } =
      .ok ⟨InstructionSet.neonProfile, ⟨.neon, .int32, 4, 3, 2, 0, 0⟩⟩ := rfl
  have hs' : Synthesis.ofSettings InstructionSet.neonProfile .int32
      { widest := some 5, unroll := 4 } =
        .ok ⟨InstructionSet.neonProfile, ⟨.neon, .int32, 4, 5, 4, 4, 0⟩⟩ := rfl
  obtain ⟨hnetworks, hruns⟩ := shaping_preserves hregister hs hs'
  obtain ⟨layers, hwritten⟩ := hnetworks (.sort 3 .ascending) (by decide) (by decide)
  obtain ⟨hleft, hright⟩ := hwritten 64 (Nat.le_refl 64)
  obtain ⟨machine, machine', hmachine, hmachine', hsame⟩ := hruns plan plan' hplan hplan'
  obtain ⟨_, _, hsort⟩ := hsame ScalarType.int32.Value
  exact ⟨_, _, plan, plan', machine, machine', layers, hs, hs', by decide +kernel, hleft, hright,
    hplan, hplan', hmachine, hmachine', hsort .descending data (by decide) (by decide)⟩

end Machine

end Bitonic
