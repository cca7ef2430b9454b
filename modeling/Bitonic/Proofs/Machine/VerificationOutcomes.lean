import Bitonic.Proofs.Machine.Verification
import Bitonic.Proofs.Plan.Acceptance
import Bitonic.Proofs.Plan.Unambiguous
/-!
# How verifications end

No check of a generated plan fails.  What is left to end a verification is a counter that leaves
64 bits and an input that memory does not hold.  Counting the inputs one by one comes to counting
them at once, so the numbers of networks and lengths alone tell which.

* `Verify.foldlM_counted` — a loop that counts, by what one of its rounds adds;
* `Verify.checkRoutine_eq`, `Verify.checkLengthInputs_eq` — one network, one length;
* `Verify.Passes.run_eq` — a run of a machine whose checks pass, as long as memory holds the inputs;
* `Verify.Passes.failsOnly_run`, `Verify.Passes.reserve_of_run` — and where it does not;
* `Plan.verify_outcomes` — generated plans.
-/

namespace Bitonic

namespace Memory

variable {memory : Memory} {count count' size : Nat}

theorem reserve_eq_ok_of_le (h : memory.reserve count' size = .ok ()) (hle : count ≤ count') :
    memory.reserve count size = .ok () := by
  unfold reserve at h ⊢
  split at h
  · rfl
  · split at h
    · next hfits => exact if_pos ((Nat.mul_le_mul_right size hle).trans hfits)
    · cases h

theorem reserve_eq_error {fault : Fault} (h : memory.reserve count size = .error fault) :
    fault = .listTooLong := by
  unfold reserve at h
  split at h
  · cases h
  · split at h
    · cases h
    · cases h
      rfl

end Memory

namespace Verify

/-! ## Counting -/

namespace Report

variable {report : Report}

/-- Five inputs for each network, and ten for each length, five in either direction. -/
def covering (networks lengths : Nat) : Report where
  networks := networks
  lengths := lengths
  cases := 5 * networks + 10 * lengths

def plusCases (report : Report) (count : Nat) : Report :=
  { report with cases := report.cases + count }

def checked (report : Report) : Checked Report :=
  if report.cases < Count.limit then .ok report else .error .overflow

theorem checked_eq_ok (h : report.cases < Count.limit) : report.checked = .ok report := if_pos h

theorem checked_eq_error (h : Count.limit ≤ report.cases) : report.checked = .error .overflow :=
  if_neg (Nat.not_lt.2 h)

theorem countCase_eq (report : Report) : report.countCase = (report.plusCases 1).checked := by
  rw [countCase, Count.add, Count.ofNat, checked]
  by_cases h : report.cases + 1 < Count.limit
  · rw [if_pos h]
    exact (if_pos h).symm
  · rw [if_neg h]
    exact (if_neg h).symm

theorem countNetwork_eq (h : report.networks + 1 < Count.limit) :
    report.countNetwork = .ok { report with networks := report.networks + 1 } :=
  Outcome.bind_of_ok (Count.add_eq_ok h) _

theorem countLength_eq (h : report.lengths + 1 < Count.limit) :
    report.countLength = .ok { report with lengths := report.lengths + 1 } :=
  Outcome.bind_of_ok (Count.add_eq_ok h) _

theorem covering_mono {networks networks' lengths lengths' : Nat} (hn : networks ≤ networks')
    (hl : lengths ≤ lengths') :
    (covering networks lengths).cases ≤ (covering networks' lengths').cases := by
  simp only [covering]
  omega

theorem covering_succ_left (networks lengths : Nat) : covering (networks + 1) lengths =
    { (covering networks lengths).plusCases 5 with networks := networks + 1 } := by
  simp only [covering, plusCases, mk.injEq, true_and]
  omega

theorem covering_succ_right (networks lengths : Nat) : covering networks (lengths + 1) =
    { (covering networks lengths).plusCases 10 with lengths := lengths + 1 } := by
  simp only [covering, plusCases, mk.injEq, true_and]
  omega

/-- A count that is made once the inputs are counted, and then cannot fail. -/
theorem bind_checked {report' : Report} {count : Report → Checked Report}
    (hcount : report.cases < Count.limit → count report = .ok report')
    (hcases : report'.cases = report.cases) :
    (liftM report.checked >>= fun report => liftM (count report) : Outcome Report) =
      liftM report'.checked := by
  by_cases h : report.cases < Count.limit
  · rw [checked_eq_ok h, Outcome.bind_of_ok (Outcome.liftM_ok _), hcount h,
      checked_eq_ok (hcases.trans_lt h)]
  · rw [checked_eq_error (Nat.not_lt.1 h), checked_eq_error (hcases ▸ Nat.not_lt.1 h)]
    rfl

end Report

/-- Reports only grow along a loop, so whether it overflows on the way shows in its last one. -/
theorem foldlM_counted {β : Type} {step : Report → β → Outcome Report} {reports : Nat → Report}
    {as : List β} (hgrow : ∀ k, (reports k).cases ≤ (reports (k + 1)).cases)
    (hstep : ∀ a ∈ as, ∀ k, (reports k).cases < Count.limit →
      step (reports k) a = liftM (reports (k + 1)).checked)
    {k : Nat} (hk : (reports k).cases < Count.limit) :
    as.foldlM step (reports k) = liftM (reports (k + as.length)).checked := by
  induction as generalizing k with
  | nil =>
      rw [List.length_nil, Nat.add_zero, Report.checked_eq_ok hk]
      rfl
  | cons a as ih =>
      rw [List.foldlM_cons, hstep a List.mem_cons_self k hk, List.length_cons,
        Nat.add_comm as.length, ← Nat.add_assoc]
      by_cases hnext : (reports (k + 1)).cases < Count.limit
      · rw [Report.checked_eq_ok hnext, Outcome.bind_of_ok (Outcome.liftM_ok _)]
        exact ih (fun a' ha' => hstep a' (List.mem_cons_of_mem a ha')) hnext
      · have hlast := monotone_nat_of_le_succ hgrow (Nat.le_add_right (k + 1) as.length)
        rw [Report.checked_eq_error (Nat.not_lt.1 hnext),
          Report.checked_eq_error ((Nat.not_lt.1 hnext).trans hlast)]
        rfl

/-! ## One network, one length -/

section Steps

variable {α : Type} [Scalar α] {memory : Memory} {machine : Machine}
  {networks lengths length : Nat}

theorem checkInputs_eq {check : List α → Outcome Unit} {report : Report}
    (hreserve : memory.reserve length valueBytes = .ok ())
    (hchecks : ∀ shape : InputShape, check (laneValues (shape.values length)) = .ok ())
    (hcases : report.cases < Count.limit) :
    checkInputs check memory length report = liftM (report.plusCases 5).checked := by
  have hinputs : inputsIn memory length = .ok (inputsOfLength length) :=
    Outcome.bind_of_ok hreserve _
  have hstep : ∀ values ∈ inputsOfLength length, ∀ k, (report.plusCases k).cases < Count.limit →
      (do check (laneValues values); (report.plusCases k).countCase : Outcome Report) =
        liftM (report.plusCases (k + 1)).checked := by
    intro values hvalues k _
    rcases List.mem_map.1 hvalues with ⟨shape, _, rfl⟩
    rw [Outcome.bind_of_ok (hchecks shape), Report.countCase_eq]
    rfl
  rw [checkInputs, Outcome.bind_of_ok (Outcome.liftM_eq_ok_iff.2 hinputs)]
  exact @foldlM_counted _ _ report.plusCases _ (fun k => Nat.le_succ _) hstep 0 hcases

theorem checkRoutine_eq {routine : Routine} {key : NetworkKey}
    (hcount : key.width * machine.lanes < Count.limit)
    (hreserve : memory.reserve (key.width * machine.lanes) valueBytes = .ok ())
    (hchecks : ∀ shape : InputShape, checkNetwork machine routine key
      (laneValues (shape.values (key.width * machine.lanes)) : List α) = .ok ())
    (hcases : (Report.covering networks lengths).cases < Count.limit) :
    checkRoutine α memory machine (.covering networks lengths) routine key =
      liftM (Report.covering (networks + 1) lengths).checked := by
  rw [checkRoutine, Outcome.bind_of_ok (Outcome.liftM_eq_ok_iff.2 (Count.mul_eq_ok hcount)),
    checkInputs_eq hreserve hchecks hcases, Report.covering_succ_left]
  refine Report.bind_checked (fun hnext => Report.countNetwork_eq ?_) rfl
  simp only [Report.covering, Report.plusCases] at hnext ⊢
  omega

theorem checkLengthInputs_eq (hreserve : memory.reserve length valueBytes = .ok ())
    (hchecks : ∀ (d : Direction) (shape : InputShape),
      checkLength machine d (laneValues (shape.values length) : List α) = .ok ())
    (hcases : (Report.covering networks lengths).cases < Count.limit) :
    checkLengthInputs α memory machine (.covering networks lengths) length =
      liftM (Report.covering networks (lengths + 1)).checked := by
  have hboth : Direction.both.foldlM (fun report d =>
      checkInputs (fun values : List α => checkLength machine d values) memory length report)
        (.covering networks lengths) =
          liftM ((Report.covering networks lengths).plusCases 10).checked :=
    @foldlM_counted _ _ (fun k => (Report.covering networks lengths).plusCases (5 * k)) _
      (fun k => Nat.add_le_add_left (Nat.mul_le_mul_left 5 (Nat.le_succ k)) _)
      (fun d _ k hk => checkInputs_eq hreserve (hchecks d) hk) 0 hcases
  rw [checkLengthInputs, hboth, Report.covering_succ_right]
  refine Report.bind_checked (fun hnext => Report.countLength_eq ?_) rfl
  simp only [Report.covering, Report.plusCases] at hnext ⊢
  omega

/-- What ends a verification in which no check fails: a count that leaves 64 bits, or inputs that
memory does not hold. -/
def Exhausted (failure : Failure) : Prop :=
  failure = .fault .overflow ∨ failure = .fault .listTooLong

theorem failsOnly_count (f : Nat → Report) (a b : Nat) :
    (liftM (do return f (← Count.add a b) : Checked Report) : Outcome Report).FailsOnly
      Exhausted := by
  apply Outcome.failsOnly_liftM_of
  intro fault h
  cases hadd : Count.add a b with
  | error fault' =>
      rw [hadd] at h
      cases h
      exact Or.inl (congrArg Failure.fault (Count.ofNat_eq_error hadd))
  | ok n =>
      rw [hadd] at h
      cases h

theorem failsOnly_inputsIn (memory : Memory) (length : Nat) :
    (liftM (inputsIn memory length) : Outcome (List (List Nat))).FailsOnly Exhausted := by
  apply Outcome.failsOnly_liftM_of
  intro fault h
  cases hreserve : memory.reserve length valueBytes with
  | error fault' =>
      rw [inputsIn, hreserve] at h
      cases h
      exact Or.inr (congrArg Failure.fault (Memory.reserve_eq_error hreserve))
  | ok _ =>
      rw [inputsIn, hreserve] at h
      cases h

theorem failsOnly_checkInputs {check : List α → Outcome Unit}
    (hchecks : ∀ shape : InputShape, check (laneValues (shape.values length)) = .ok ())
    (report : Report) : (checkInputs check memory length report).FailsOnly Exhausted := by
  refine (failsOnly_inputsIn memory length).bind fun inputs hinputs => ?_
  have hall : inputs = inputsOfLength length := by
    obtain ⟨_, _, h⟩ := Outcome.bind_eq_ok_iff.1 (Outcome.liftM_eq_ok_iff.1 hinputs)
    cases h
    rfl
  rw [hall]
  apply Outcome.failsOnly_foldlM
  intro values hvalues report
  rcases List.mem_map.1 hvalues with ⟨shape, _, rfl⟩
  rw [Outcome.bind_of_ok (hchecks shape)]
  exact failsOnly_count (fun cases => { report with cases }) _ _

theorem failsOnly_checkRoutine {routine : Routine} {key : NetworkKey}
    (hcount : key.width * machine.lanes < Count.limit)
    (hchecks : ∀ shape : InputShape, checkNetwork machine routine key
      (laneValues (shape.values (key.width * machine.lanes)) : List α) = .ok ())
    (report : Report) :
    (checkRoutine α memory machine report routine key).FailsOnly Exhausted := by
  rw [checkRoutine, Outcome.bind_of_ok (Outcome.liftM_eq_ok_iff.2 (Count.mul_eq_ok hcount))]
  refine (failsOnly_checkInputs hchecks report).bind fun report _ => ?_
  exact failsOnly_count (fun networks => { report with networks }) _ _

theorem failsOnly_checkLengthInputs
    (hchecks : ∀ (d : Direction) (shape : InputShape),
      checkLength machine d (laneValues (shape.values length) : List α) = .ok ())
    (report : Report) :
    (checkLengthInputs α memory machine report length).FailsOnly Exhausted := by
  refine Outcome.FailsOnly.bind ?_ fun report _ => ?_
  · exact Outcome.failsOnly_foldlM (fun d _ report => failsOnly_checkInputs (hchecks d) report) _
  · exact failsOnly_count (fun lengths => { report with lengths }) _ _

theorem checkLengths_eq_foldlM (memory : Memory) (machine : Machine) (report : Report)
    (length count : Nat) : checkLengths α memory machine report length count =
      (List.range' length count).foldlM (checkLengthInputs α memory machine) report := by
  induction count generalizing length report with
  | zero => rfl
  | succ count ih =>
      rw [checkLengths, List.range'_succ, List.foldlM_cons]
      exact congrArg _ (funext fun report => ih report (length + 1))

end Steps

/-! ## Whole runs -/

theorem mem_keyedNetworks {plan : Plan} {routine : Routine} {key : NetworkKey} :
    (routine, key) ∈ keyedNetworks plan ↔ routine ∈ plan.routines ∧ routine.key = some key := by
  simp only [keyedNetworks, List.mem_filterMap, Option.map_eq_some_iff, Prod.mk.injEq]
  constructor
  · rintro ⟨_, hmem, _, hkey, rfl, rfl⟩
    exact ⟨hmem, hkey⟩
  · rintro ⟨hmem, hkey⟩
    exact ⟨routine, hmem, key, hkey, rfl, rfl⟩

theorem length_keyedNetworks (plan : Plan) :
    (keyedNetworks plan).length = plan.keyedRoutines.length := by
  rw [keyedNetworks, List.length_filterMap_eq_countP, Plan.keyedRoutines,
    List.countP_eq_length_filter]
  simp

/-- Every check that a verification makes of a plan passes.  The length table of the plan leads
arrays up to `longest` to entry points. -/
structure Passes (α : Type) [Scalar α] (plan : Plan) (machine : Machine) (longest : Nat) :
    Prop where
  runs : Machine.ofPlan plan = .ok machine
  table : ∃ table, plan.lengthTable? = some table ∧ table.longest = longest
  count : longest + 1 < Count.limit
  width : ∀ routine ∈ plan.routines, ∀ key, routine.key = some key →
    key.width * machine.lanes ≤ longest
  networks : ∀ routine ∈ plan.routines, ∀ key, routine.key = some key → ∀ shape : InputShape,
    checkNetwork machine routine key
      (laneValues (shape.values (key.width * machine.lanes)) : List α) = .ok ()
  lengths : ∀ length ≤ longest + 1, ∀ (d : Direction) (shape : InputShape),
    checkLength machine d (laneValues (shape.values length) : List α) = .ok ()

namespace Passes

variable {α : Type} [Scalar α] {memory : Memory} {plan : Plan} {machine : Machine} {longest : Nat}

theorem width_lt (h : Passes α plan machine longest) {routine : Routine} {key : NetworkKey}
    (hmem : routine ∈ plan.routines) (hkey : routine.key = some key) :
    key.width * machine.lanes < Count.limit := by
  have hwidth := h.width routine hmem key hkey
  have hcount := h.count
  omega

theorem run_eq_loops (h : Passes α plan machine longest) (memory : Memory) :
    run α memory plan =
      ((keyedNetworks plan).foldlM (fun report (routine, key) =>
        checkRoutine α memory machine report routine key) {} >>=
          (List.range' 0 (longest + 2)).foldlM (checkLengthInputs α memory machine)) := by
  obtain ⟨table, htable, hlongest⟩ := h.table
  have hlast : Count.add table.longest 1 = .ok (longest + 1) := by
    rw [hlongest]
    exact Count.add_eq_ok h.count
  rw [run, Outcome.bind_of_ok h.runs, htable]
  dsimp only
  simp only [hlast, checkLengths_eq_foldlM]
  rfl

theorem networks_eq (h : Passes α plan machine longest)
    (hreserve : memory.reserve (longest + 1) valueBytes = .ok ()) :
    ((keyedNetworks plan).foldlM (fun report (routine, key) =>
      checkRoutine α memory machine report routine key) {} : Outcome Report) =
        liftM (Report.covering plan.keyedRoutines.length 0).checked := by
  have hstep : ∀ keyed ∈ keyedNetworks plan, ∀ k, (Report.covering k 0).cases < Count.limit →
      checkRoutine α memory machine (.covering k 0) keyed.1 keyed.2 =
        liftM (Report.covering (k + 1) 0).checked := by
    rintro ⟨routine, key⟩ hkeyed k hcases
    obtain ⟨hmem, hkey⟩ := mem_keyedNetworks.1 hkeyed
    have hfits := (h.width routine hmem key hkey).trans (Nat.le_succ longest)
    exact checkRoutine_eq (h.width_lt hmem hkey) (Memory.reserve_eq_ok_of_le hreserve hfits)
      (h.networks routine hmem key hkey) hcases
  rw [← length_keyedNetworks]
  have hgrow := fun k => Report.covering_mono (Nat.le_succ k) (Nat.le_refl 0)
  refine (@foldlM_counted _ _ (Report.covering · 0) _ hgrow hstep 0 (by decide)).trans ?_
  rw [Nat.zero_add]

theorem lengths_eq (h : Passes α plan machine longest)
    (hreserve : memory.reserve (longest + 1) valueBytes = .ok ()) {networks : Nat}
    (hcases : (Report.covering networks 0).cases < Count.limit) :
    (List.range' 0 (longest + 2)).foldlM (checkLengthInputs α memory machine)
      (.covering networks 0) = liftM (Report.covering networks (longest + 2)).checked := by
  have hstep : ∀ length ∈ List.range' 0 (longest + 2), ∀ k,
      (Report.covering networks k).cases < Count.limit →
        checkLengthInputs α memory machine (.covering networks k) length =
          liftM (Report.covering networks (k + 1)).checked := by
    intro length hlength k hcases
    rw [List.mem_range'_1] at hlength
    have hle : length ≤ longest + 1 := by omega
    exact checkLengthInputs_eq (Memory.reserve_eq_ok_of_le hreserve hle) (h.lengths length hle)
      hcases
  have hgrow := fun k => Report.covering_mono (Nat.le_refl networks) (Nat.le_succ k)
  refine (@foldlM_counted _ _ (Report.covering networks) _ hgrow hstep 0 hcases).trans ?_
  rw [Nat.zero_add, List.length_range']

theorem run_eq (h : Passes α plan machine longest)
    (hreserve : memory.reserve (longest + 1) valueBytes = .ok ()) :
    run α memory plan =
      liftM (Report.covering plan.keyedRoutines.length (longest + 2)).checked := by
  rw [h.run_eq_loops, h.networks_eq hreserve]
  by_cases hcases : (Report.covering plan.keyedRoutines.length 0).cases < Count.limit
  · rw [Report.checked_eq_ok hcases, Outcome.bind_of_ok (Outcome.liftM_ok _)]
    exact h.lengths_eq hreserve hcases
  · have hmore : Count.limit ≤
        (Report.covering plan.keyedRoutines.length (longest + 2)).cases :=
      (Nat.not_lt.1 hcases).trans (Report.covering_mono (Nat.le_refl _) (Nat.zero_le _))
    rw [Report.checked_eq_error (Nat.not_lt.1 hcases), Report.checked_eq_error hmore]
    rfl

theorem failsOnly_run (h : Passes α plan machine longest) (memory : Memory) :
    (run α memory plan).FailsOnly Exhausted := by
  rw [h.run_eq_loops]
  refine Outcome.FailsOnly.bind ?_ fun report _ => ?_
  · apply Outcome.failsOnly_foldlM
    rintro ⟨routine, key⟩ hkeyed report
    obtain ⟨hmem, hkey⟩ := mem_keyedNetworks.1 hkeyed
    exact failsOnly_checkRoutine (h.width_lt hmem hkey) (h.networks routine hmem key hkey) report
  · apply Outcome.failsOnly_foldlM
    intro length hlength report
    rw [List.mem_range'_1] at hlength
    exact failsOnly_checkLengthInputs (h.lengths length (by omega)) report

end Passes

end Verify

namespace Plan

section Unit

variable {size : Nat} {ty : ScalarType} {profile : IsaProfile} {settings : Settings}
  {s : Synthesis} {plan : Plan} {memory : Memory}

/-- A generated plan passes every check, whether or not memory holds what is checked. -/
theorem passes_of_forType (hregister : profile.HasRegister ty size)
    (hs : Synthesis.ofSettings profile ty settings = .ok s)
    (hplan : forType ty profile settings = .ok plan)
    (hcoverage : s.limits.widest * s.limits.lanes < 2 ^ 62) :
    Verify.Passes ty.Value plan ⟨plan, s.limits.element, s.limits.lanes⟩
      (s.limits.widest * s.limits.lanes) := by
  rcases Machine.exists_follows hregister hs hplan with
    ⟨helement, hlanes, cells, networks, entries, dispatch, hparts, hfollows⟩
  have htype : Scalar.element ty.Value = s.limits.element :=
    (ScalarType.element_value ty).trans helement.symm
  have hmachine := Machine.ofPlan_eq_ok hparts.limits
  have hwidth : ∀ routine ∈ plan.routines, ∀ key, routine.key = some key →
      key.width * s.limits.lanes ≤ s.limits.widest * s.limits.lanes := by
    intro routine hmem key hkey
    have hroutine := (hparts.routineOf_of_key hmem hkey).2
    exact Nat.mul_le_mul_right _ (Synthesis.width_of_routineOf hroutine).2
  refine ⟨hmachine, ?_, by unfold Count.limit; omega, hwidth, ?_, ?_⟩
  · rcases hparts.lengthTable?_eq with ⟨table, hfind, htable⟩
    exact ⟨table, hfind, (Synthesis.lengthTable_eq_ok htable).2.1⟩
  · intro routine hmem key hkey shape
    have hle := hwidth routine hmem key hkey
    have hrange := Verify.inRange_laneValues ty shape (hle.trans hcoverage.le)
    have hroutine := (hparts.routineOf_of_key hmem hkey).2
    apply Verify.checkNetwork_eq_ok hfollows htype hroutine
    · rw [← hlanes]
      omega
    · rw [Verify.length_laneValues, Verify.length_values, hlanes]
    · exact fun a ha => (hrange a ha).isNumber
  · intro length hlength d shape
    rcases Machine.sort_of_plan hregister hs hplan with ⟨machine, hmachine', hsorts⟩
    rw [hmachine] at hmachine'
    cases hmachine'
    have hrange := Verify.inRange_laneValues ty shape (show length ≤ 2 ^ 62 by omega)
    have hnum : ∀ a ∈ (Verify.laneValues (shape.values length) : List ty.Value),
        Scalar.IsNumber a := fun a ha => (hrange a ha).isNumber
    rcases hsorts d _ ((Nat.min_le_right _ _).trans_lt hcoverage) hnum with
      ⟨out, hsort, harranged⟩
    have hpads := fun a ha => (hrange a ha).noLater_sentinel d
    exact Verify.checkLength_eq_ok hsort (harranged.2 (Or.inr (Or.inr hpads))) hnum

theorem exists_passes {limits : UnitLimits} (hregister : profile.HasRegister ty size)
    (hplan : forType ty profile settings = .ok plan) (hlimits : plan.limits? = some limits)
    (hcoverage : limits.widest * limits.lanes < 2 ^ 62) :
    (∀ memory, plan.verify memory = Verify.run ty.Value memory plan) ∧
      ∃ machine, Verify.Passes ty.Value plan machine (limits.widest * limits.lanes) := by
  rcases forType_eq_ok hplan with ⟨s, _, _, _, hs, hparts⟩
  rw [hparts.limits] at hlimits
  cases hlimits
  have hunit : plan.element? = some ty := by
    rw [element?, hparts.limits, ← (Synthesis.resolved_of_ofSettings hs).ofType]
    rfl
  refine ⟨fun memory => ?_, _, passes_of_forType hregister hs hplan hcoverage⟩
  rw [verify, hunit]

section Outcomes

variable {limits : UnitLimits} (hregister : profile.HasRegister ty size)
  (hplan : forType ty profile settings = .ok plan) (hlimits : plan.limits? = some limits)
  (hcoverage : limits.widest * limits.lanes < 2 ^ 62)

include hregister hplan hlimits hcoverage

theorem verify_eq_ok
    (hreserve : memory.reserve (limits.widest * limits.lanes + 1) Verify.valueBytes = .ok ())
    (hcases : 5 * plan.keyedRoutines.length + 10 * (limits.widest * limits.lanes + 2) <
      Count.limit) :
    plan.verify memory = .ok (.covering plan.keyedRoutines.length
      (limits.widest * limits.lanes + 2)) := by
  obtain ⟨hverify, machine, hpasses⟩ := exists_passes hregister hplan hlimits hcoverage
  rw [hverify, hpasses.run_eq hreserve, Verify.Report.checked_eq_ok hcases]
  rfl

end Outcomes

theorem countable_of_coverage_lt {limits : UnitLimits} (hregister : profile.HasRegister ty size)
    (hplan : forType ty profile settings = .ok plan) (hlimits : plan.limits? = some limits)
    (hcoverage : limits.widest * limits.lanes < 2 ^ 59) :
    5 * plan.keyedRoutines.length + 10 * (limits.widest * limits.lanes + 2) < Count.limit ∧
      Memory.addressable.reserve (limits.widest * limits.lanes + 1) Verify.valueBytes =
        .ok () := by
  constructor
  · rcases forType_eq_ok hplan with ⟨s, _, _, _, hs, hparts⟩
    rw [hparts.limits] at hlimits
    cases hlimits
    have hlanes := Machine.lanes_of_ofSettings hregister hs
    have hfew := hparts.length_keyedRoutines_le
    have hwidest : s.limits.widest ≤ s.limits.widest * s.limits.lanes :=
      Nat.le_mul_of_pos_right _ (hlanes ▸ Nat.two_pow_pos size)
    unfold Count.limit
    omega
  · apply Memory.reserve_addressable
    rw [Verify.valueBytes]
    omega

end Unit

end Plan

end Bitonic
