import Bitonic.Proofs.Plan.Acceptance
import Bitonic.Proofs.Plan.Unambiguous
import Bitonic.Run
import Mathlib.Order.Bounds.Basic
/-!
# The dispatch of an instruction set and the plans of its types

The dispatch over element types only resolves the settings for each type and makes up the name of
its length dispatch; the plan of the type is made elsewhere.  Resolving is all that can fail on
either side, and within the plan the name leads to the length dispatch alone.

* `Plan.exists_forType_iff` — a plan can be made where the settings are resolved;
* `Plan.leadsTo_of_forType` — the name in a choice finds the length dispatch of the type's plan;
* `Plan.forIsa_leads` — the dispatch of an instruction set, choice by choice.
-/

namespace Bitonic

/-- The choice leads to the one routine of the plan that dispatches by length: it goes by the name
in the choice, no other routine does, and its table is the plan's. -/
structure TypeChoice.LeadsTo (choice : TypeChoice) (plan : Plan) : Prop where
  element : plan.element? = some choice.element
  dispatch : ∃ r table, plan.routines.filter (·.name == choice.routine) = [r] ∧
    plan.routines.filter (·.role == .lengthDispatch) = [r] ∧
    r.body = [.outer (.byLength table)] ∧ plan.lengthTable? = some table

theorem isGreatest_foldl_max {ns : List Nat} (h : ns ≠ []) :
    IsGreatest {n | n ∈ ns} (ns.foldl max 0) := by
  cases ns with
  | nil => exact absurd rfl h
  | cons n ns =>
      have hmax : (n :: ns).max? = some ((n :: ns).foldl max 0) := by
        rw [List.max?_cons', List.foldl_cons, Nat.zero_max]
      exact List.max?_eq_some_iff.1 hmax

namespace Plan

variable {profile : IsaProfile} {settings : Settings} {ty : ScalarType} {plan : Plan}

/-- Resolving the settings is enough: what they come to can be made. -/
theorem exists_forType_iff
    (hregister : profile.offers ty = true → ∃ size, profile.HasRegister ty size)
    (hcoverage : settings.Accepted profile ty →
      settings.vectorsFor profile ty * (profile.registerBytes / ty.byteSize) < 2 ^ 62) :
    (∃ plan, forType ty profile settings = .ok plan) ↔
      ∃ s, Synthesis.ofSettings profile ty settings = .ok s := by
  by_cases h : settings.Accepted profile ty ∧ profile.HasMergerLimit ty
  · rcases hregister h.1.offered with ⟨size, hsize⟩
    rcases forType_of_accepted hsize h.1 h.2 (hcoverage h.1) with ⟨hs, _, hplan⟩
    exact iff_of_true hplan ⟨_, hs⟩
  · rcases forType_of_not_accepted h with ⟨failure, hplan, hs, _⟩
    rw [hplan, hs]
    exact iff_of_false (fun ⟨_, hok⟩ => nomatch hok) fun ⟨_, hok⟩ => nomatch hok

theorem exists_forIsa_iff : (∃ plan, forIsa profile settings = .ok plan) ↔
    profile.scalarTypes ≠ [] ∧
      ∀ ty ∈ profile.scalarTypes, ∃ s, Synthesis.ofSettings profile ty settings = .ok s := by
  have hchoice : ∀ ty, (∃ choice, typeChoice profile settings ty = .ok choice) ↔
      ∃ s, Synthesis.ofSettings profile ty settings = .ok s := by
    intro ty
    simp only [typeChoice_eq_ok_iff]
    exact ⟨fun ⟨_, s, hs, _⟩ => ⟨s, hs⟩, fun ⟨s, hs⟩ => ⟨_, s, hs, rfl⟩⟩
  simp only [← hchoice, ← Outcome.exists_mapM_eq_ok_iff]
  constructor
  · rintro ⟨plan, hplan⟩
    rcases forIsa_eq_ok hplan with ⟨_, hsome, _, choices, hchoices, _⟩
    exact ⟨hsome, choices, hchoices⟩
  · rintro ⟨hsome, choices, hchoices⟩
    exact exists_forIsa hsome hchoices

/-- In the plan of a type, the name of the type's length dispatch is the name of nothing else. -/
theorem leadsTo_of_forType (h : forType ty profile settings = .ok plan) :
    TypeChoice.LeadsTo ⟨ty, lengthDispatchName ty⟩ plan := by
  rcases forType_eq_ok h with ⟨s, networks, entries, dispatch, hs, hparts⟩
  have helement := (Synthesis.resolved_of_ofSettings hs).ofType
  rcases Synthesis.lengthDispatch_eq_ok hparts.dispatch with ⟨table, htable, hname, _, _, hbody⟩
  rcases hparts.lengthTable?_eq with ⟨table', hfind, htable'⟩
  rw [htable] at htable'
  cases htable'
  have hnamed := hparts.filter_name (hparts.mem_routines.2 (Or.inr (Or.inr rfl)))
  rw [hname, helement] at hnamed
  refine ⟨?_, dispatch, table, hnamed, hparts.filter_lengthDispatch, hbody, hfind⟩
  rw [element?, hparts.limits, ← helement]
  rfl

theorem limits_of_forType {s : Synthesis} (hs : Synthesis.ofSettings profile ty settings = .ok s)
    (h : forType ty profile settings = .ok plan) : plan.limits? = some s.limits := by
  rcases exists_parts hs h with ⟨_, _, _, hparts⟩
  exact hparts.limits

theorem leads_of_typeChoice {choice : Nat × TypeChoice}
    (hmade : ∃ plan, forType ty profile settings = .ok plan)
    (h : typeChoice profile settings ty = .ok choice) :
    ∃ plan limits, forType ty profile settings = .ok plan ∧ plan.limits? = some limits ∧
      limits.widest = choice.1 ∧ choice.2.element = ty ∧ choice.2.LeadsTo plan := by
  rcases hmade with ⟨plan, hplan⟩
  rcases typeChoice_eq_ok_iff.1 h with ⟨s, hs, rfl⟩
  exact ⟨plan, s.limits, hplan, limits_of_forType hs hplan, rfl, rfl, leadsTo_of_forType hplan⟩

def widths (profile : IsaProfile) (settings : Settings) : Set Nat :=
  {width | ∃ ty ∈ profile.scalarTypes, ∃ plan limits, forType ty profile settings = .ok plan ∧
    plan.limits? = some limits ∧ limits.widest = width}

theorem mem_widths_iff {choices : List (Nat × TypeChoice)}
    (hmade : ∀ ty ∈ profile.scalarTypes, ∃ plan, forType ty profile settings = .ok plan)
    (h : profile.scalarTypes.mapM (typeChoice profile settings) = .ok choices) (width : Nat) :
    width ∈ choices.map Prod.fst ↔ width ∈ widths profile settings := by
  have hpairs := Outcome.mapM_eq_ok_iff.1 h
  rw [List.mem_map]
  constructor
  · rintro ⟨choice, hchoice, rfl⟩
    rcases Outcome.exists_of_mem_right hpairs hchoice with ⟨ty, hty, hmake⟩
    rcases leads_of_typeChoice (hmade ty hty) hmake with ⟨plan, limits, hplan, hlimits, hwidth, _⟩
    exact ⟨ty, hty, plan, limits, hplan, hlimits, hwidth⟩
  · rintro ⟨ty, hty, plan, limits, hplan, hlimits, rfl⟩
    rcases Outcome.exists_of_mem_left hpairs hty with ⟨choice, hchoice, hmake⟩
    rcases typeChoice_eq_ok_iff.1 hmake with ⟨s, hs, rfl⟩
    rw [limits_of_forType hs hplan] at hlimits
    cases hlimits
    exact ⟨_, hchoice, rfl⟩

section Leads

variable (hregisters : ∀ ty ∈ profile.scalarTypes, ∃ size, profile.HasRegister ty size)
  (hcoverage : ∀ ty ∈ profile.scalarTypes, settings.Accepted profile ty →
    settings.vectorsFor profile ty * (profile.registerBytes / ty.byteSize) < 2 ^ 62)

include hregisters hcoverage

theorem exists_forIsa_iff_forType : (∃ plan, forIsa profile settings = .ok plan) ↔
    profile.scalarTypes ≠ [] ∧
      ∀ ty ∈ profile.scalarTypes, ∃ plan, forType ty profile settings = .ok plan := by
  rw [exists_forIsa_iff]
  refine and_congr_right fun _ => forall₂_congr fun ty hty => ?_
  exact (exists_forType_iff (fun _ => hregisters ty hty) (hcoverage ty hty)).symm

end Leads

end Plan

namespace GenerationRun

/-- In a run over instruction sets, an instruction set has its dispatch where its types have their
plans. -/
theorem exists_planFor_isa_iff (run : GenerationRun) (isa : InstructionSet) :
    (∃ plan, run.planFor ⟨isa, none⟩ = .ok plan) ↔
      ∀ ty ∈ isa.profile.scalarTypes, ∃ plan, run.planFor ⟨isa, some ty⟩ = .ok plan := by
  have hregisters : ∀ ty ∈ isa.profile.scalarTypes, ∃ size, isa.profile.HasRegister ty size :=
    fun ty hty => isa.exists_hasRegister (List.contains_iff_mem.2 hty)
  have hsome : isa.profile.scalarTypes ≠ [] := by cases isa <;> decide
  have hcoverage : ∀ ty ∈ isa.profile.scalarTypes, run.settings.Accepted isa.profile ty →
      run.settings.vectorsFor isa.profile ty * (isa.profile.registerBytes / ty.byteSize) < 2 ^ 62 :=
    fun ty _ haccepted => haccepted.coverage_le.trans_lt (by decide)
  exact (Plan.exists_forIsa_iff_forType hregisters hcoverage).trans (and_iff_right hsome)

end GenerationRun

namespace Plan

variable {profile : IsaProfile} {settings : Settings}

/-- The dispatch of an instruction set can be made exactly if the plans of all its types can.  It
chooses the types in their order, each choice leads to the length dispatch of the type's plan and to
no other routine there, and it is as wide as the widest of these plans. -/
theorem forIsa_leads
    (hregisters : ∀ ty ∈ profile.scalarTypes, ∃ size, profile.HasRegister ty size)
    (hcoverage : ∀ ty ∈ profile.scalarTypes, settings.Accepted profile ty →
      settings.vectorsFor profile ty * (profile.registerBytes / ty.byteSize) < 2 ^ 62) :
    ((∃ plan, forIsa profile settings = .ok plan) ↔
      profile.scalarTypes ≠ [] ∧
        ∀ ty ∈ profile.scalarTypes, ∃ plan, forType ty profile settings = .ok plan) ∧
    (∀ plan, forIsa profile settings = .ok plan →
      ∃ r choices, plan.routines = [r] ∧ r.role = .typeDispatch ∧
        r.body = [.outer (.byType choices)] ∧
        List.Forall₂ (fun ty choice => choice.element = ty ∧
          ∃ typePlan, forType ty profile settings = .ok typePlan ∧ choice.LeadsTo typePlan)
          profile.scalarTypes choices ∧
        IsGreatest (widths profile settings) r.width) ∧
    ∀ (run : GenerationRun) (isa : InstructionSet),
      (∃ plan, run.planFor ⟨isa, none⟩ = .ok plan) ↔
        ∀ ty ∈ isa.profile.scalarTypes, ∃ plan, run.planFor ⟨isa, some ty⟩ = .ok plan := by
  have hiff := exists_forIsa_iff_forType hregisters hcoverage
  refine ⟨hiff, fun plan hplan => ?_, GenerationRun.exists_planFor_isa_iff⟩
  rcases hiff.1 ⟨plan, hplan⟩ with ⟨hsome, hmade⟩
  rcases forIsa_eq_ok hplan with ⟨_, _, r, choices, hchoices, hroutines, hrole, hwidth, hbody⟩
  have hpairs := Outcome.mapM_eq_ok_iff.1 hchoices
  refine ⟨r, choices.map Prod.snd, hroutines, hrole, hbody, ?_, ?_⟩
  · rw [List.forall₂_map_right_iff]
    refine ((List.forall₂_and_left _ _).2 ⟨hmade, hpairs⟩).imp ?_
    rintro ty choice ⟨hplanned, hchoice⟩
    rcases leads_of_typeChoice hplanned hchoice with ⟨typePlan, _, htype, _, _, helement, hleads⟩
    exact ⟨helement, typePlan, htype, hleads⟩
  · have hnonempty : choices.map Prod.fst ≠ [] := by
      intro hnone
      rw [List.map_eq_nil_iff.1 hnone, List.forall₂_nil_right_iff] at hpairs
      exact hsome hpairs
    have hwidths : {n | n ∈ choices.map Prod.fst} = widths profile settings :=
      Set.ext (mem_widths_iff hmade hchoices)
    rw [hwidth, ← hwidths]
    exact isGreatest_foldl_max hnonempty

/-- Four types under a maximum of three registers. -/
theorem forIsa_leads_neon :
    let settings : Settings := { widest := some 3 }
    ∃ plan r choices, forIsa InstructionSet.neonProfile settings = .ok plan ∧
      plan.routines = [r] ∧ r.width = 3 ∧ r.body = [.outer (.byType choices)] ∧
      choices.map TypeChoice.element = InstructionSet.neonProfile.scalarTypes ∧
      ∀ choice ∈ choices, ∃ typePlan, forType choice.element InstructionSet.neonProfile settings =
        .ok typePlan ∧ choice.LeadsTo typePlan := by
  intro settings
  have hregisters : ∀ ty ∈ InstructionSet.neonProfile.scalarTypes,
      ∃ size, InstructionSet.neonProfile.HasRegister ty size :=
    fun ty hty => InstructionSet.exists_hasRegister .neon (List.contains_iff_mem.2 hty)
  have hcoverage : ∀ ty ∈ InstructionSet.neonProfile.scalarTypes,
      settings.Accepted InstructionSet.neonProfile ty →
        settings.vectorsFor InstructionSet.neonProfile ty *
          (InstructionSet.neonProfile.registerBytes / ty.byteSize) < 2 ^ 62 := by
    intro ty _ _
    cases ty <;> decide
  have hleads := forIsa_leads hregisters hcoverage
  rcases Outcome.exists_eq_ok_of_isOk (x := forIsa InstructionSet.neonProfile settings) rfl with
    ⟨plan, hplan⟩
  rcases hleads.2.1 plan hplan with ⟨r, choices, hroutines, _, hbody, hpairs, hgreatest⟩
  refine ⟨plan, r, choices, hplan, hroutines, ?_, hbody, ?_, fun choice hchoice => ?_⟩
  · cases hplan
    cases hroutines
    rfl
  · rw [← List.forall₂_eq_eq_eq (α := ScalarType), List.forall₂_map_left_iff]
    exact hpairs.flip.imp fun _ _ hchoice => hchoice.1
  · rcases Outcome.exists_of_mem_right hpairs hchoice with ⟨ty, _, rfl, typePlan, htype, hleads⟩
    exact ⟨typePlan, htype, hleads⟩

end Plan

end Bitonic
