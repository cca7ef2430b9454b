import Bitonic.Proofs.Machine.VerificationOutcomes
import Bitonic.Proofs.Run.FinishingOrder
/-!
# Verification never ends a run

The plans of a run come of settings that were accepted.  There are few enough lanes in the registers
of any instruction set for all inputs of a verification to be counted and to fit into memory, so
every plan comes to its report.
-/

namespace Bitonic

namespace GenerationRun

variable {run : GenerationRun} {plans : List Plan}

theorem exists_verify_of_forType {isa : InstructionSet} {ty : ScalarType} {settings : Settings}
    {plan : Plan} (h : Plan.forType ty isa.profile settings = .ok plan) :
    ∃ report, plan.verify .addressable = .ok report := by
  rcases Plan.accepted_of_forType h with ⟨haccepted, hlimit⟩
  rcases isa.exists_hasRegister haccepted.offered with ⟨size, hregister⟩
  have hfew := haccepted.coverage_le
  rcases Plan.forType_of_accepted hregister haccepted hlimit (hfew.trans_lt (by decide)) with
    ⟨hs, _, _⟩
  rcases Plan.exists_parts hs h with ⟨_, _, _, hparts⟩
  obtain ⟨hcases, hreserve⟩ :=
    Plan.countable_of_coverage_lt hregister h hparts.limits (hfew.trans_lt (by decide))
  exact ⟨_, Plan.verify_eq_ok hregister h hparts.limits (hfew.trans_lt (by decide)) hreserve
    hcases⟩

theorem exists_verifyEach (h : run.planInTurn = .ok plans) :
    ∃ reports, Plan.verifyEach plans .addressable = .ok reports := by
  have hpairs := Outcome.mapM_eq_ok_iff.1 h
  apply Outcome.exists_mapM_eq_ok
  intro plan hplan
  rcases List.mem_filter.1 hplan with ⟨hmem, helement⟩
  rcases Outcome.exists_of_mem_right hpairs hmem with ⟨⟨isa, _ | ty⟩, _, hplanned⟩
  · have hheading := (Plan.forIsa_eq_ok hplanned).1
    rw [Plan.element?, Plan.limits?, hheading] at helement
    cases helement
  · exact exists_verify_of_forType hplanned

end GenerationRun

end Bitonic
