import Bitonic.Proofs.Plan.Acceptance
import Bitonic.Proofs.Plan.LengthDispatch
import Bitonic.Proofs.Plan.Unambiguous
/-!
# Which routines a plan has, and in which order

The limits of a unit alone tell which networks become routines, `UnitLimits.Emits`, and in which
order they stand, `UnitLimits.networkOrder`.  A generated plan has these routines and no others,
then the entry points and the length dispatch.

* `Synthesis.hasRoutine_iff` — what is called as a routine is what the limits emit;
* `Synthesis.routineKeys_eq_networkOrder` — the loop over the widths runs through the order;
* `Plan.Parts.emission` — the routines of a plan, one by one;
* `Plan.exists_emission` — resolved settings come to a plan, and to none but such a plan.
-/

namespace Bitonic

namespace UnitLimits

variable {limits : UnitLimits}

/-- The widest network of a task that becomes a routine. -/
def widestOf (limits : UnitLimits) : NetworkTask → Nat
  | .sort => limits.widest
  | .merge => limits.widestMerger

/-- The first width of several registers that may have a routine. -/
def firstCompound (limits : UnitLimits) : Nat := max 2 limits.unroll

/-- Networks of one register are emitted if nothing is unrolled, wider ones from the unrolling width
up to the widest of their task. -/
def Emits (limits : UnitLimits) (key : NetworkKey) : Prop :=
  key.width = 1 ∧ limits.unroll = 0 ∨
    limits.firstCompound ≤ key.width ∧ key.width ≤ limits.widestOf key.task

def singleOrder (limits : UnitLimits) : List NetworkKey :=
  if limits.unroll = 0 then
    [.sort 1 .ascending, .merge 1 .ascending, .sort 1 .descending, .merge 1 .descending]
  else []

def compoundOrder (limits : UnitLimits) (width : Nat) : List NetworkKey :=
  [.sort width .ascending, .sort width .descending] ++
    if width ≤ limits.widestMerger then [.merge width .ascending, .merge width .descending] else []

def networkOrder (limits : UnitLimits) : List NetworkKey :=
  limits.singleOrder ++
    (List.range' limits.firstCompound (limits.widest + 1 - limits.firstCompound)).flatMap
      limits.compoundOrder

theorem inlines_iff {width : Nat} :
    limits.inlines width = true ↔ limits.inlineBreak = 0 ∨ ¬ limits.inlineBreak ∣ width := by
  simp [inlines, Nat.dvd_iff_mod_eq_zero]

end UnitLimits

namespace Synthesis

variable {s : Synthesis} {profile : IsaProfile} {ty : ScalarType} {key : NetworkKey} {width : Nat}

theorem hasRoutine_iff (h : s.Resolved profile ty) :
    s.hasRoutine key = true ↔ s.limits.Emits key := by
  obtain ⟨task, width, d⟩ := key
  have hwidest := h.widest_pos
  have hmerger := h.widestMerger_le
  simp only [hasRoutine, UnitLimits.Emits, UnitLimits.firstCompound, Bool.or_eq_true,
    decide_eq_true_eq]
  cases task <;> simp only [UnitLimits.widestOf] <;> split_ifs <;> simp <;> omega

theorem filter_compoundKeys (h : s.Resolved profile ty)
    (hfirst : s.limits.firstCompound ≤ width) (hlast : width ≤ s.limits.widest) :
    (compoundKeys width).filter s.hasRoutine = s.limits.compoundOrder width := by
  have htwo : 2 ≤ width := (Nat.le_max_left 2 _).trans hfirst
  have hcompound : ∀ task d, s.hasRoutine ⟨task, width, d⟩ =
      decide (width ≤ s.limits.widestOf task) := by
    intro task d
    rw [Bool.eq_iff_iff, decide_eq_true_iff, hasRoutine_iff h]
    simp only [UnitLimits.Emits]
    omega
  simp only [compoundKeys, UnitLimits.compoundOrder, NetworkKey.sort, NetworkKey.merge,
    Direction.both, NetworkTask.all]
  by_cases hmerger : width ≤ s.limits.widestMerger <;>
    simp [hcompound, UnitLimits.widestOf, hlast, hmerger]

theorem filter_compoundKeys_eq_nil (h : s.Resolved profile ty) (htwo : 2 ≤ width)
    (hlt : width < s.limits.firstCompound) : (compoundKeys width).filter s.hasRoutine = [] := by
  apply List.filter_eq_nil_iff.2
  intro key hkey hroutine
  have hwidth : key.width = width := by
    apply mem_keysOfWidth.1
    rw [keysOfWidth, if_neg (by omega)]
    exact hkey
  rcases (hasRoutine_iff h).1 hroutine with ⟨hone, _⟩ | ⟨hfirst, _⟩
  · omega
  · omega

theorem flatMap_compoundKeys (h : s.Resolved profile ty) :
    ((List.range' 2 (s.limits.widest - 1)).flatMap fun width =>
      (compoundKeys width).filter s.hasRoutine) = (List.range' s.limits.firstCompound
        (s.limits.widest + 1 - s.limits.firstCompound)).flatMap s.limits.compoundOrder := by
  have hfirst : 2 ≤ s.limits.firstCompound := Nat.le_max_left 2 _
  -- the widths that are passed over, and the others
  have hsplit : List.range' 2 (s.limits.widest - 1) =
      List.range' 2 (min (s.limits.firstCompound - 2) (s.limits.widest - 1)) ++
        List.range' s.limits.firstCompound (s.limits.widest + 1 - s.limits.firstCompound) := by
    rcases Nat.le_total s.limits.firstCompound (s.limits.widest + 1) with hle | hle
    · have hstart : s.limits.firstCompound = 2 + 1 * (s.limits.firstCompound - 2) := by omega
      rw [Nat.min_eq_left (by omega)]
      conv => rhs; arg 2; rw [hstart]
      rw [List.range'_append]
      congr 1
      omega
    · rw [Nat.min_eq_right (by omega), Nat.sub_eq_zero_of_le hle]
      exact (List.append_nil _).symm
  rw [hsplit, List.flatMap_append, List.flatMap_eq_nil_iff.2, List.nil_append]
  · apply List.flatMap_congr
    intro width hwidth
    rw [List.mem_range'_1] at hwidth
    exact filter_compoundKeys h hwidth.1 (by omega)
  · intro width hwidth
    rw [List.mem_range'_1] at hwidth
    exact filter_compoundKeys_eq_nil h hwidth.1 (by omega)

theorem routineKeys_eq_networkOrder (h : s.Resolved profile ty) :
    s.routineKeys = s.limits.networkOrder := by
  rw [routineKeys_eq_append h.widest_pos, flatMap_compoundKeys h, UnitLimits.networkOrder,
    UnitLimits.singleOrder]
  simp only [Nat.lt_one_iff]
  rfl

theorem inline_of_routineOf {r : Routine} (h : s.routineOf key = .ok r) :
    r.inline = s.limits.inlines r.width := by
  obtain ⟨_, _, h⟩ := Outcome.bind_eq_ok_iff.1 h
  obtain ⟨body, _, h⟩ := Outcome.bind_eq_ok_iff.1 h
  cases h
  rfl

theorem inline_of_entryRoutine {r : Routine} {d : Direction}
    (h : s.entryRoutine width d = .ok r) : r.inline = s.limits.inlines r.width := by
  obtain ⟨residual, _, h⟩ := Outcome.bind_eq_ok_iff.1 h
  obtain ⟨network, _, h⟩ := Outcome.bind_eq_ok_iff.1 h
  obtain ⟨⟨minLength, maxLength⟩, _, h⟩ := Outcome.bind_eq_ok_iff.1 h
  cases h
  rfl

end Synthesis

/-- The routines of a plan stand in the order of emission, each once, and are inlined unless the
inline break divides their width. -/
structure Plan.Emission (plan : Plan) (s : Synthesis) (networks entries : List Routine)
    (dispatch : Routine) : Prop where
  routines : plan.routines = networks ++ entries ++ [dispatch]
  networkOrder : List.Forall₂ (fun r key => r.Implements s key) networks s.limits.networkOrder
  entryOrder : List.Forall₂ (fun r entry => r.Serves (.ofWidth s.limits.lanes entry.1) entry.2)
    entries s.limits.entryOrder
  entryCount : entries.length = 2 * s.limits.widest
  dispatches : dispatch.role = .lengthDispatch
  inline : ∀ r ∈ networks ++ entries,
    r.inline = true ↔ s.limits.inlineBreak = 0 ∨ ¬ s.limits.inlineBreak ∣ r.width
  contains : ∀ key, (∃ r ∈ plan.routines, r.key = some key) ↔ s.hasRoutine key = true
  once : ∀ key, (plan.routines.filter (·.key == some key)).length ≤ 1

namespace Plan

variable {plan : Plan} {s : Synthesis} {profile : IsaProfile} {ty : ScalarType}
  {settings : Settings} {networks entries : List Routine} {dispatch : Routine}

namespace Parts

theorem inline_of_mem (h : plan.Parts s networks entries dispatch) {r : Routine}
    (hr : r ∈ networks ++ entries) : r.inline = s.limits.inlines r.width := by
  rcases List.mem_append.1 hr with hr | hr
  · obtain ⟨key, _, hroutine⟩ := h.routineOf_of_mem hr
    exact Synthesis.inline_of_routineOf hroutine
  · obtain ⟨width, d, hroutine⟩ := (Synthesis.entryRoutines_eq_ok h.entries).1 r hr
    exact Synthesis.inline_of_entryRoutine hroutine

theorem exists_key_iff (h : plan.Parts s networks entries dispatch) {key : NetworkKey} :
    (∃ r ∈ plan.routines, r.key = some key) ↔ s.hasRoutine key = true := by
  rw [← Synthesis.mem_routineKeys, ← h.filterMap_key, List.mem_filterMap]

theorem length_filter_key_le (h : plan.Parts s networks entries dispatch) (key : NetworkKey) :
    (plan.routines.filter (·.key == some key)).length ≤ 1 := by
  by_cases hkey : ∃ r ∈ plan.routines, r.key = some key
  · obtain ⟨r, hr, hrkey⟩ := hkey
    rw [h.filter_key hr hrkey, List.length_singleton]
  · have hnone : plan.routines.filter (·.key == some key) = [] := by
      apply List.filter_eq_nil_iff.2
      intro r hr hrkey
      exact hkey ⟨r, hr, beq_iff_eq.1 hrkey⟩
    rw [hnone]
    exact Nat.zero_le 1

theorem emission (h : plan.Parts s networks entries dispatch) (hs : s.Resolved profile ty) :
    plan.Emission s networks entries dispatch := by
  have hentries := Outcome.mapM_eq_ok_iff.1 (Synthesis.entryRoutines_eq_mapM h.entries)
  have hnetworks := Outcome.mapM_eq_ok_iff.1 h.networks_eq
  rw [Synthesis.routineKeys_eq_networkOrder hs] at hnetworks
  refine ⟨h.routines, ?_, ?_, ?_, ?_, ?_, fun _ => h.exists_key_iff, h.length_filter_key_le⟩
  · exact hnetworks.flip.imp fun _ _ => Synthesis.implements_of_routineOf
  · exact hentries.flip.imp fun _ _ => Synthesis.serves_of_entryRoutine
  · rw [← hentries.length_eq, UnitLimits.length_entryOrder]
  · obtain ⟨_, _, _, _, hrole, _⟩ := Synthesis.lengthDispatch_eq_ok h.dispatch
    exact hrole
  · intro r hr
    rw [h.inline_of_mem hr, UnitLimits.inlines_iff]

end Parts

/-- The limits that settings are resolved to tell the routines of the plan, their order and which of
them are inlined. -/
theorem exists_emission {size : Nat} (hregister : profile.HasRegister ty size)
    (hs : Synthesis.ofSettings profile ty settings = .ok s) :
    s.limits.unroll = settings.unroll ∧ s.limits.inlineBreak = settings.inlineBreak ∧
      (∀ key, s.hasRoutine key = true ↔ s.limits.Emits key) ∧
      (s.limits.widest * s.limits.lanes < 2 ^ 62 →
        ∃ plan, forType ty profile settings = .ok plan) ∧
      ∀ plan, forType ty profile settings = .ok plan → plan.limits? = some s.limits ∧
        ∃ networks entries dispatch, plan.Emission s networks entries dispatch := by
  have hresolved := Synthesis.resolved_of_ofSettings hs
  have hlanes := Machine.lanes_of_ofSettings hregister hs
  obtain ⟨cells, huses⟩ := Machine.exists_uses_of_ofSettings hregister hs
  obtain ⟨lanes, widest, merger, _, _, _, rfl⟩ := Synthesis.limits_of_ofSettings hs
  refine ⟨rfl, rfl, fun _ => Synthesis.hasRoutine_iff hresolved, fun hcoverage => ?_,
    fun plan hplan => ?_⟩
  · obtain ⟨hoffers, _⟩ := IsaProfile.lanes_eq_ok_iff.1 hregister.2
    have hpos : 0 < lanes := (Nat.two_pow_pos size).trans_eq hlanes.symm
    have hcomplete := Synthesis.complete_of_uses huses hoffers hpos hcoverage
    exact exists_forType hs hcomplete hoffers hpos hcoverage
  · obtain ⟨networks, entries, dispatch, hparts⟩ := exists_parts hs hplan
    exact ⟨hparts.limits, networks, entries, dispatch, hparts.emission hresolved⟩

/-- Up to five registers, with everything below three unrolled and no merger wider than three. -/
theorem exists_emission_five :
    let settings := Settings.withWidestMerger { widest := some 5, unroll := 3, inlineBreak := 3 }
      .neon 3
    ∃ plan s networks entries dispatch,
      forType .int32 InstructionSet.neonProfile settings = .ok plan ∧
      plan.Emission s networks entries dispatch ∧
      s.limits.networkOrder = [.sort 3 .ascending, .sort 3 .descending, .merge 3 .ascending,
        .merge 3 .descending, .sort 4 .ascending, .sort 4 .descending, .sort 5 .ascending,
        .sort 5 .descending] := by
  intro settings
  have hregister : InstructionSet.neonProfile.HasRegister .int32 2 := ⟨by decide, rfl⟩
  have hs : Synthesis.ofSettings InstructionSet.neonProfile .int32 settings =
      .ok ⟨InstructionSet.neonProfile, ⟨.neon, .int32, 4, 5, 3, 3, 3⟩⟩ := rfl
  obtain ⟨_, _, _, hmade, hplans⟩ := exists_emission hregister hs
  obtain ⟨plan, hplan⟩ := hmade (by decide)
  obtain ⟨_, networks, entries, dispatch, hemission⟩ := hplans plan hplan
  exact ⟨plan, _, networks, entries, dispatch, hplan, hemission, rfl⟩

end Plan

end Bitonic
