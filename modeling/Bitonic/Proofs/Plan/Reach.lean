import Bitonic.Proofs.Network.Parts
import Bitonic.Proofs.Plan.Generated
import Bitonic.Proofs.RegisterNetwork.Reach
/-!
# Which generated plans cross groups

Every exchange inside a register of a generated plan is one of its single-register networks, called
or spliced in, and those of the sorter are all there: in the routine for one vector, or in the
entry point that it is spliced into.

* `Plan.Parts.offers_of_exchanges`, `Plan.Parts.exchanges_of_sorter` — both directions;
* `Plan.reach_of_forType` — the classes of exchanges follow the groups, and a plan needs a full
  permutation exactly if a register is larger than a group.
-/

namespace Bitonic

namespace PairingShape

variable {size groupLanes : Nat} {shape : PairingShape}

theorem Fits.lt_of_spans (h : shape.Fits size) (hspans : shape.Spans groupLanes) :
    groupLanes < 2 ^ size := by
  cases h with
  | folded he => exact Nat.lt_of_lt_of_le hspans (Nat.pow_le_pow_right Nat.two_pos he)
  | atDistance he => exact Nat.lt_of_le_of_lt hspans (Nat.pow_lt_pow_right Nat.one_lt_two he)

theorem folded_mem_sorting (h : size ≠ 0) : folded (2 ^ size) ∈ sorting size := by
  obtain ⟨e, rfl⟩ := Nat.exists_eq_succ_of_ne_zero h
  exact List.mem_flatMap.2 ⟨e, List.mem_range.2 (Nat.lt_succ_self e), List.mem_cons_self⟩

end PairingShape

namespace Plan

/-- The exchange is made inside a register by some routine of the plan. -/
def Exchanges (plan : Plan) (x : Exchange) : Prop :=
  ∃ r ∈ plan.routines, ∃ register, .layer (.inside register x) ∈ r.body

section Parts

variable {plan : Plan} {s : Synthesis} {networks entries : List Routine} {dispatch : Routine}
  {x : Exchange} {d : Direction} {xs : List Exchange}

theorem Parts.offers_of_exchanges (h : plan.Parts s networks entries dispatch)
    (hx : plan.Exchanges x) : s.Offers x := by
  obtain ⟨r, hr, register, hlayer⟩ := hx
  rcases h.mem_routines.1 hr with hr | hr | rfl
  · obtain ⟨key, _, hroutine⟩ := h.routineOf_of_mem hr
    obtain ⟨_, hbody, _⟩ := Synthesis.routineOf_eq_ok hroutine
    exact Synthesis.offers_of_bodyOf hbody hlayer
  · obtain ⟨width, d, hroutine⟩ := (Synthesis.entryRoutines_eq_ok h.entries).1 r hr
    obtain ⟨_, network, _, _, hnetwork, _, _, _, _, hbody, _⟩ :=
      Synthesis.entryRoutine_eq_ok hroutine
    rw [hbody] at hlayer
    simp only [List.cons_append, List.mem_cons, List.mem_append, List.not_mem_nil, or_false,
      reduceCtorEq, false_or] at hlayer
    exact Synthesis.offers_of_invocation hnetwork hlayer
  · obtain ⟨_, _, _, _, _, hbody⟩ := Synthesis.lengthDispatch_eq_ok h.dispatch
    rw [hbody, List.mem_singleton] at hlayer
    cases hlayer

theorem Parts.exchanges_of_sorter (h : plan.Parts s networks entries dispatch)
    (hwidest : 0 < s.limits.widest)
    (hxs : s.profile.registerSorter s.limits.element d = .ok xs) (hx : x ∈ xs) :
    plan.Exchanges x := by
  have hlayer : .layer (.inside 0 x) ∈ Synthesis.registerLayers xs :=
    List.mem_map.2 ⟨x, hx, rfl⟩
  have hbody : s.bodyOf (.sort 1 d) = .ok (Synthesis.registerLayers xs) := by
    rw [Synthesis.bodyOf]
    show s.sortBody d 1 = _
    rw [Synthesis.sortBody, Outcome.bind_of_ok hxs]
    rfl
  by_cases hroutine : s.hasRoutine (.sort 1 d) = true
  · obtain ⟨r, hfind, hr⟩ := h.find?_eq hroutine
    obtain ⟨_, hrbody, _⟩ := Synthesis.routineOf_eq_ok hr
    rw [hbody, Except.ok.injEq] at hrbody
    exact ⟨r, List.mem_of_find?_eq_some hfind, 0, hrbody ▸ hlayer⟩
  · obtain ⟨r, hr, hentry⟩ :=
      (Synthesis.entryRoutines_eq_ok h.entries).2 1 d Nat.one_pos hwidest
    obtain ⟨_, network, _, _, hnetwork, _, _, _, _, hrbody, _⟩ :=
      Synthesis.entryRoutine_eq_ok hentry
    rw [Synthesis.invocation, Synthesis.callOrSplice, if_neg hroutine, Outcome.bind_of_ok hbody]
      at hnetwork
    obtain ⟨step, hstep, hmoved⟩ := Outcome.exists_of_mem_left
      (Outcome.mapM_eq_ok_iff.1 (Outcome.liftM_eq_ok_iff.1 hnetwork)) hlayer
    cases hmoved
    refine ⟨r, h.mem_routines.2 (.inr (.inl hr)), 0, ?_⟩
    rw [hrbody]
    exact List.mem_append_left _ (List.mem_cons_of_mem _ hstep)

variable {profile : IsaProfile} {ty : ScalarType} {size : Nat}

theorem Parts.exists_shaped (h : plan.Parts s networks entries dispatch)
    (hs : s.Resolved profile ty) (hregister : profile.HasRegister ty size)
    (hgroup : (profile.groupLanes ty).isPowerOfTwo) (hx : plan.Exchanges x) :
    ∃ shape : PairingShape, shape.Fits size ∧
      x.Shaped shape (2 ^ size) (profile.groupLanes ty) := by
  obtain ⟨d, xs, hxs, hmem⟩ := h.offers_of_exchanges hx
  rw [hs.ofProfile, hs.ofType] at hxs
  rcases hxs with hxs | hxs
  · obtain ⟨sorter, hsorter, hshapes⟩ := IsaProfile.registerSorter_shaped hregister hgroup d
    rw [hxs] at hsorter
    cases hsorter
    obtain ⟨shape, hshape, hx⟩ := Outcome.exists_of_mem_right hshapes hmem
    exact ⟨shape, PairingShape.fits_of_mem_sorting hshape, hx⟩
  · obtain ⟨merger, hmerger, hshapes⟩ := IsaProfile.registerMerger_shaped hregister hgroup d
    rw [hxs] at hmerger
    cases hmerger
    obtain ⟨shape, hshape, hx⟩ := Outcome.exists_of_mem_right hshapes hmem
    exact ⟨shape, PairingShape.fits_of_mem_cleaning (Nat.le_refl size) hshape, hx⟩

theorem Parts.exists_acrossGroups (h : plan.Parts s networks entries dispatch)
    (hs : s.Resolved profile ty) (hregister : profile.HasRegister ty size)
    (hgroup : (profile.groupLanes ty).isPowerOfTwo) (hlarger : profile.groupLanes ty < 2 ^ size) :
    ∃ x, plan.Exchanges x ∧ x.reach = .acrossGroups := by
  have hsize : size ≠ 0 := by
    rintro rfl
    have hpos : 1 ≤ profile.groupLanes ty := Nat.le_max_right _ 1
    omega
  obtain ⟨sorter, hsorter, hshapes⟩ :=
    IsaProfile.registerSorter_shaped hregister hgroup .ascending
  obtain ⟨x, hx, hshape⟩ := Outcome.exists_of_mem_left hshapes
    (PairingShape.folded_mem_sorting hsize)
  rw [← hs.ofProfile, ← hs.ofType] at hsorter
  exact ⟨x, h.exchanges_of_sorter hs.widest_pos hsorter hx, hshape.reach.2 hlarger⟩

end Parts

/-- In a register of at most 64 lanes whose groups are a power of two of lanes, a fold crosses groups
exactly if its blocks are larger than a group, and an exchange at a distance exactly if the distance
is at least a group.  So does every exchange of a plan, whatever the settings, and there is one that
crosses groups exactly if the register is larger than a group. -/
theorem reach_of_forType {profile : IsaProfile} {ty : ScalarType} {size : Nat}
    (hregister : profile.HasRegister ty size) (hgroup : (profile.groupLanes ty).isPowerOfTwo) :
    (∀ d, ∃ sorter merger, profile.registerSorter ty d = .ok sorter ∧
      profile.registerMerger ty d = .ok merger ∧
      List.Forall₂ (fun shape x => x.Shaped shape (2 ^ size) (profile.groupLanes ty))
        (PairingShape.sorting size) sorter ∧
      List.Forall₂ (fun shape x => x.Shaped shape (2 ^ size) (profile.groupLanes ty))
        (PairingShape.cleaning size) merger) ∧
    ∀ (settings : Settings) (plan : Plan), forType ty profile settings = .ok plan →
      (∀ x, plan.Exchanges x → ∃ shape : PairingShape, shape.Fits size ∧
        x.Shaped shape (2 ^ size) (profile.groupLanes ty)) ∧
      ((∃ x, plan.Exchanges x ∧ x.reach = .acrossGroups) ↔ profile.groupLanes ty < 2 ^ size) := by
  refine ⟨fun d => ?_, fun settings plan hplan => ?_⟩
  · obtain ⟨sorter, hsorter, hsorterShapes⟩ := IsaProfile.registerSorter_shaped hregister hgroup d
    obtain ⟨merger, hmerger, hmergerShapes⟩ := IsaProfile.registerMerger_shaped hregister hgroup d
    exact ⟨sorter, merger, hsorter, hmerger, hsorterShapes, hmergerShapes⟩
  · obtain ⟨s, networks, entries, dispatch, hs, hparts⟩ := forType_eq_ok hplan
    have hresolved := Synthesis.resolved_of_ofSettings hs
    have hshaped := fun x => hparts.exists_shaped (x := x) hresolved hregister hgroup
    refine ⟨hshaped, ?_, hparts.exists_acrossGroups hresolved hregister hgroup⟩
    rintro ⟨x, hx, hreach⟩
    obtain ⟨shape, hfits, hshape⟩ := hshaped x hx
    exact hfits.lt_of_spans (hshape.reach.1 hreach)

/-- Registers of eight lanes in groups of four. -/
theorem reach_of_forType_avx2 : ∃ plan,
    forType .float InstructionSet.avx2Profile { widest := some 2 } = .ok plan ∧
      ∃ x, plan.Exchanges x ∧ x.reach = .acrossGroups := by
  have hregister : InstructionSet.avx2Profile.HasRegister .float 3 := ⟨by decide, rfl⟩
  have hgroup : (InstructionSet.avx2Profile.groupLanes .float).isPowerOfTwo := ⟨2, rfl⟩
  obtain ⟨plan, hplan⟩ := Outcome.exists_eq_ok_of_isOk (x := forType .float
    InstructionSet.avx2Profile { widest := some 2 }) (by decide +kernel)
  obtain ⟨_, hplans⟩ := reach_of_forType hregister hgroup
  exact ⟨plan, hplan, (hplans _ plan hplan).2.2 (by decide)⟩

end Plan

end Bitonic
