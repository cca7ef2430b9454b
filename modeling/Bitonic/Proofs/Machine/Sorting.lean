import Bitonic.Proofs.Length.Lookup
import Bitonic.Proofs.Machine.Padding
import Bitonic.Proofs.Scalar.Infinity
/-!
# Sorting arrays on a machine

A machine sorts an array by the entry point for its length, and with the fallback if it is longer
than every entry point holds.

* `Machine.sort_arranges` — an array of values in range is put in order;
* `Machine.sort_arranges_iff` — an array of numbers is put in order unless it leaves lanes over for
  sentinels and holds the infinity that comes after them.
-/

namespace Bitonic

namespace Machine

def routeFor (limits : UnitLimits) (d : Direction) (length : Nat) : SortRoute :=
  let width := max 1 (length ⌈/⌉ limits.lanes)
  if length ≤ limits.widest * limits.lanes then .entryPoint (entryPointName width d) width
  else .fallback

section Parts

variable {size : Nat} {α : Type} [Scalar α] {s : Synthesis} {cells : RegisterNetworks size}
  {plan : Plan} {networks entries : List Routine} {dispatch : Routine}
  {data : List α}

theorem entryFor_eq_fallback (h : plan.Parts s networks entries dispatch) {length : Nat}
    (hlength : s.limits.widest * s.limits.lanes < length) (d : Direction) :
    entryFor ⟨plan, s.limits.element, s.limits.lanes⟩ d length = .ok none := by
  obtain ⟨table, hfind, htable⟩ := h.lengthTable?_eq
  rw [entryFor, hfind]
  dsimp only
  rw [Outcome.bind_of_ok (Outcome.liftM_eq_ok_iff.2 (Synthesis.lookup_eq_fallback htable hlength))]
  rfl

theorem entryFor_eq_row (h : plan.Parts s networks entries dispatch) (hlanes : 0 < s.limits.lanes)
    (hwidest : 0 < s.limits.widest) {length : Nat}
    (hlength : length ≤ s.limits.widest * s.limits.lanes) (d : Direction) :
    let width := LengthTable.registersFor s.limits.lanes length
    ∃ r, entryFor ⟨plan, s.limits.element, s.limits.lanes⟩ d length =
        .ok (some (.ofWidth s.limits.lanes width, r)) ∧
      s.entryRoutine width d = .ok r := by
  intro width
  obtain ⟨table, hfind, htable⟩ := h.lengthTable?_eq
  obtain ⟨r, hnamed, hentry⟩ := h.findNamed?_eq (LengthTable.registersFor_pos s.limits.lanes length)
    (LengthTable.registersFor_le hlanes hwidest hlength) d
  refine ⟨r, ?_, hentry⟩
  rw [entryFor, hfind]
  dsimp only
  rw [Outcome.bind_of_ok (Outcome.liftM_eq_ok_iff.2
    (Synthesis.lookup_eq_row htable hlanes hwidest hlength))]
  dsimp only
  rw [LengthRow.entryPoint_ofWidth, hnamed]
  rfl

theorem requireType_eq_ok (htype : Scalar.element α = s.limits.element) :
    requireType ⟨plan, s.limits.element, s.limits.lanes⟩ (Scalar.element α) = .ok () :=
  if_pos htype

variable [Ranked α]

theorem sort_eq_fallback (h : plan.Parts s networks entries dispatch)
    (htype : Scalar.element α = s.limits.element)
    (hlength : s.limits.widest * s.limits.lanes < data.length)
    (hnum : ∀ a ∈ data, Scalar.IsNumber a) (d : Direction) :
    ∃ out, sort ⟨plan, s.limits.element, s.limits.lanes⟩ d data =
        (out, .ok (routeFor s.limits d data.length)) ∧ Scalar.Arranged d data out := by
  refine ⟨Scalar.sorted d data, ?_, Scalar.arranged_sorted d hnum⟩
  rw [sort, route, Outcome.bind_of_ok (requireType_eq_ok htype), entryFor_eq_fallback h hlength,
    routeFor, if_neg (Nat.not_le.2 hlength)]

/-- An array that an entry point holds is put in order together with the sentinels in the lanes that
it leaves over, and as many values come back as there were. -/
theorem sort_eq_entryPoint (h : plan.Parts s networks entries dispatch)
    (hfollows : Follows ⟨plan, s.limits.element, s.limits.lanes⟩ s cells) (hsize : size ≤ 6)
    (htype : Scalar.element α = s.limits.element) (hwidest : 0 < s.limits.widest)
    (hlength : data.length ≤ s.limits.widest * s.limits.lanes) (hroom : data.length < 2 ^ 62)
    (hnum : ∀ a ∈ data, Scalar.IsNumber a) (d : Direction) :
    ∃ out, sort ⟨plan, s.limits.element, s.limits.lanes⟩ d data =
        (out.take data.length, .ok (routeFor s.limits d data.length)) ∧
      (∀ a ∈ out, Scalar.IsNumber a) ∧
      Scalar.Arranged d (data ++ List.replicate
        (LengthTable.registersFor s.limits.lanes data.length * s.limits.lanes - data.length)
        (Scalar.sentinel d.sentinel)) out := by
  have hlanes : s.limits.lanes = 2 ^ size := hfollows.lanes
  have hlanesPos := Nat.two_pow_pos size
  have hlanesLe : 2 ^ size ≤ 2 ^ 6 := Nat.pow_le_pow_right Nat.two_pos hsize
  obtain ⟨r, hrow, hentry⟩ := entryFor_eq_row h (hlanes ▸ hlanesPos) hwidest hlength d
  have hpos := LengthTable.registersFor_pos (2 ^ size) data.length
  have hholds := LengthTable.le_registersFor_mul hlanesPos data.length
  have hfew := LengthTable.registersFor_mul_le (2 ^ size) data.length
  rw [hlanes] at hentry ⊢
  generalize hwidth : LengthTable.registersFor (2 ^ size) data.length = width
    at hpos hholds hfew hentry ⊢
  have hsmall : width - 1 ≤ (width - 1) * 2 ^ size := Nat.le_mul_of_pos_right _ hlanesPos
  rw [Nat.sub_mul, Nat.one_mul] at hsmall
  obtain ⟨out, hsteps, hout, harranged⟩ := hfollows.entrySteps_eq hpos (by omega)
    (by unfold Count.limit; omega) hentry hholds hnum (entryPointName width d)
  refine ⟨out, ?_, hout, harranged⟩
  rw [← hlanes, sort, route, Outcome.bind_of_ok (requireType_eq_ok htype), hrow]
  dsimp only
  rw [hlanes, hwidth, LengthRow.entryPoint_ofWidth, ← hlanes, hsteps, routeFor, if_pos hlength,
    ← LengthTable.registersFor_eq, hlanes, hwidth]
  rfl

/-- Sorting ends well, and puts the array in order unless a sentinel was loaded and some value comes
after it. -/
theorem sort_eq (h : plan.Parts s networks entries dispatch)
    (hfollows : Follows ⟨plan, s.limits.element, s.limits.lanes⟩ s cells) (hsize : size ≤ 6)
    (htype : Scalar.element α = s.limits.element) (hwidest : 0 < s.limits.widest)
    (hroom : min data.length (s.limits.widest * s.limits.lanes) < 2 ^ 62)
    (hnum : ∀ a ∈ data, Scalar.IsNumber a) (d : Direction) :
    ∃ out, sort ⟨plan, s.limits.element, s.limits.lanes⟩ d data =
        (out, .ok (routeFor s.limits d data.length)) ∧
      (Scalar.Arranged d data out ↔
        s.limits.widest * s.limits.lanes < data.length ∨ data.length % s.limits.lanes = 0 ∨
          ∀ a ∈ data, Scalar.noLater d a (Scalar.sentinel d.sentinel) = true) := by
  rcases Nat.lt_or_ge (s.limits.widest * s.limits.lanes) data.length with hlength | hlength
  · obtain ⟨out, hsort, harranged⟩ := sort_eq_fallback h htype hlength hnum d
    exact ⟨out, hsort, iff_of_true harranged (Or.inl hlength)⟩
  · rw [Nat.min_eq_left hlength] at hroom
    obtain ⟨out, hsort, hout, hpadded⟩ :=
      sort_eq_entryPoint h hfollows hsize htype hwidest hlength hroom hnum d
    refine ⟨out.take data.length, hsort, ?_⟩
    rw [hpadded.take_iff hnum (Scalar.isNumber_sentinel _) hout,
      or_iff_right (Nat.not_lt.2 hlength)]
    -- an empty array fills no register, but it holds no value that could come after a sentinel
    rcases Nat.eq_zero_or_pos data.length with hnil | hcons
    · rw [List.length_eq_zero_iff.1 hnil]
      exact iff_of_true (Or.inr fun _ h => nomatch h) (Or.inr fun _ h => nomatch h)
    · have hlanes : s.limits.lanes = 2 ^ size := hfollows.lanes
      rw [LengthTable.registersFor_mul_sub_eq_zero_iff (hlanes ▸ Nat.two_pow_pos size) hcons]

end Parts

/-! ## Arrays of a unit -/

section Unit

variable {size : Nat} {ty : ScalarType} {profile : IsaProfile} {settings : Settings}
  {s : Synthesis} {plan : Plan}

/-- Sorting an array of numbers, by whether a value comes after the sentinels.  The bound holds for
every array that fits in memory. -/
theorem sort_of_plan (hregister : profile.HasRegister ty size)
    (hs : Synthesis.ofSettings profile ty settings = .ok s)
    (hplan : Plan.forType ty profile settings = .ok plan) :
    ∃ machine, Machine.ofPlan plan = .ok machine ∧
      ∀ (d : Direction) (data : List ty.Value),
        min data.length (s.limits.widest * s.limits.lanes) < 2 ^ 62 →
        (∀ a ∈ data, Scalar.IsNumber a) →
        ∃ out, machine.sort d data = (out, .ok (routeFor s.limits d data.length)) ∧
          (Scalar.Arranged d data out ↔
            s.limits.widest * s.limits.lanes < data.length ∨ data.length % s.limits.lanes = 0 ∨
              ∀ a ∈ data, Scalar.noLater d a (Scalar.sentinel d.sentinel) = true) := by
  obtain ⟨helement, _, cells, networks, entries, dispatch, hparts, hfollows⟩ :=
    exists_follows hregister hs hplan
  have htype : Scalar.element ty.Value = s.limits.element :=
    (ScalarType.element_value ty).trans helement.symm
  have hwidest := (Synthesis.resolved_of_ofSettings hs).widest_pos
  exact ⟨_, ofPlan_eq_ok hparts.limits, fun d data hroom hnum =>
    sort_eq hparts hfollows hregister.1 htype hwidest hroom hnum d⟩

theorem sort_arranges (hregister : profile.HasRegister ty size)
    (hs : Synthesis.ofSettings profile ty settings = .ok s)
    (hplan : Plan.forType ty profile settings = .ok plan)
    (hcoverage : s.limits.widest * s.limits.lanes < 2 ^ 62) :
    ∃ machine, Machine.ofPlan plan = .ok machine ∧
      ∀ (d : Direction) (data : List ty.Value), (∀ a ∈ data, Scalar.InRange a) →
        ∃ out, machine.sort d data = (out, .ok (routeFor s.limits d data.length)) ∧
          Scalar.Arranged d data out := by
  obtain ⟨machine, hmachine, hsorts⟩ := sort_of_plan hregister hs hplan
  refine ⟨machine, hmachine, fun d data hrange => ?_⟩
  obtain ⟨out, hsort, harranged⟩ := hsorts d data ((Nat.min_le_right _ _).trans_lt hcoverage)
    fun a ha => (hrange a ha).isNumber
  exact ⟨out, hsort, harranged.2 (Or.inr (Or.inr fun a ha => (hrange a ha).noLater_sentinel d))⟩

/-- Seven numbers in two registers, with the padding among them. -/
theorem sort_arranges_seven :
    let data : List ScalarType.int32.Value := [4, -7, 2147483647, 0, -2147483648, 4, -2147483648]
    ∃ s plan machine out,
      Synthesis.ofSettings InstructionSet.neonProfile .int32 { widest := some 3 } = .ok s ∧
      Plan.forType .int32 InstructionSet.neonProfile { widest := some 3 } = .ok plan ∧
      Machine.ofPlan plan = .ok machine ∧ machine.sort .descending data =
        (out, .ok (.entryPoint (entryPointName 2 .descending) 2)) ∧
      Scalar.Arranged .descending data out := by
  intro data
  have hregister : InstructionSet.neonProfile.HasRegister .int32 2 := ⟨by decide, rfl⟩
  obtain ⟨plan, hplan⟩ := Outcome.exists_eq_ok_of_isOk (x := Plan.forType .int32
    InstructionSet.neonProfile { widest := some 3 }) (by decide +kernel)
  obtain ⟨machine, hmachine, hsorts⟩ := sort_arranges
    (s := ⟨InstructionSet.neonProfile, ⟨.neon, .int32, 4, 3, 2, 0, 0⟩⟩) hregister rfl hplan
    (by decide)
  obtain ⟨out, hsort, harranged⟩ := hsorts .descending data
    (List.forall_iff_forall_mem.1 (by decide))
  have hroute : routeFor ⟨.neon, .int32, 4, 3, 2, 0, 0⟩ .descending data.length =
      .entryPoint (entryPointName 2 .descending) 2 := by decide
  exact ⟨_, plan, machine, out, rfl, hplan, hmachine, hroute ▸ hsort, harranged⟩

/-- The sentinels of a direction come before one infinity of a floating-point type.  The array is not
in order afterwards exactly if that infinity is in it and a sentinel is loaded with it. -/
theorem sort_arranges_iff (hregister : profile.HasRegister ty size)
    (hs : Synthesis.ofSettings profile ty settings = .ok s)
    (hplan : Plan.forType ty profile settings = .ok plan) :
    ∃ machine, Machine.ofPlan plan = .ok machine ∧
      ∀ (d : Direction) (data : List ty.Value),
        min data.length (s.limits.widest * s.limits.lanes) < 2 ^ 62 →
        (∀ a ∈ data, Scalar.IsNumber a) →
        ∃ out, machine.sort d data = (out, .ok (routeFor s.limits d data.length)) ∧
          (Scalar.Arranged d data out ↔
            s.limits.widest * s.limits.lanes < data.length ∨ data.length % s.limits.lanes = 0 ∨
              ∀ a ∈ data, ty.lastInfinity? d ≠ some a) := by
  obtain ⟨machine, hmachine, hsorts⟩ := sort_of_plan hregister hs hplan
  refine ⟨machine, hmachine, fun d data hroom hnum => ?_⟩
  have hfinite : (∀ a ∈ data, ty.lastInfinity? d ≠ some a) ↔
      ∀ a ∈ data, Scalar.noLater d a (Scalar.sentinel d.sentinel) = true := by
    refine forall₂_congr fun a ha => ?_
    rw [Ne, ← Scalar.noLater_sentinel_eq_false_iff (hnum a ha) d, Bool.not_eq_false]
  rw [hfinite]
  exact hsorts d data hroom hnum

/-- Infinities that fill a register come back in order. -/
theorem sort_arranges_infinities :
    let data : List ScalarType.double.Value :=
      [⟨0x7ff0000000000000⟩, ⟨0xfff0000000000000⟩, ⟨0x8000000000000000⟩, ⟨0x3ff0000000000000⟩]
    ∃ s plan machine out,
      Synthesis.ofSettings InstructionSet.avx2Profile .double { widest := some 1 } = .ok s ∧
      Plan.forType .double InstructionSet.avx2Profile { widest := some 1 } = .ok plan ∧
      Machine.ofPlan plan = .ok machine ∧ machine.sort .ascending data =
        (out, .ok (.entryPoint (entryPointName 1 .ascending) 1)) ∧
      Scalar.Arranged .ascending data out := by
  intro data
  have hregister : InstructionSet.avx2Profile.HasRegister .double 2 := ⟨by decide, rfl⟩
  obtain ⟨plan, hplan⟩ := Outcome.exists_eq_ok_of_isOk (x := Plan.forType .double
    InstructionSet.avx2Profile { widest := some 1 }) (by decide +kernel)
  obtain ⟨machine, hmachine, hsorts⟩ := sort_arranges_iff
    (s := ⟨InstructionSet.avx2Profile, ⟨.avx2, .double, 4, 1, 0, 0, 0⟩⟩) hregister rfl hplan
  obtain ⟨out, hsort, harranged⟩ := hsorts .ascending data (by decide)
    (List.forall_iff_forall_mem.1 (by decide))
  have hroute : routeFor ⟨.avx2, .double, 4, 1, 0, 0, 0⟩ .ascending data.length =
      .entryPoint (entryPointName 1 .ascending) 1 := by decide
  exact ⟨_, plan, machine, out, rfl, hplan, hmachine, hroute ▸ hsort,
    harranged.2 (Or.inr (Or.inl (Nat.mod_self 4)))⟩

/-- An infinity alone in a register is lost: the largest finite number comes back. -/
theorem sort_loses_infinity :
    let data : List ScalarType.float.Value := [⟨0x7f800000⟩]
    ∃ plan machine,
      Plan.forType .float InstructionSet.avx2Profile { widest := some 1 } = .ok plan ∧
      Machine.ofPlan plan = .ok machine ∧ machine.sort .ascending data =
        ([⟨0x7f7fffff⟩], .ok (.entryPoint (entryPointName 1 .ascending) 1)) ∧
      ¬ Scalar.Arranged .ascending data (machine.sort .ascending data).1 := by
  intro data
  have hrun : (Plan.forType .float InstructionSet.avx2Profile { widest := some 1 } >>= fun plan =>
      Machine.ofPlan plan >>= fun machine => .ok (machine.sort .ascending data)) =
        .ok ([⟨0x7f7fffff⟩], .ok (.entryPoint (entryPointName 1 .ascending) 1)) := by
    decide +kernel
  obtain ⟨plan, hplan, hrun⟩ := Outcome.bind_eq_ok_iff.1 hrun
  obtain ⟨machine, hmachine, hrun⟩ := Outcome.bind_eq_ok_iff.1 hrun
  have hsort := Except.ok.inj hrun
  refine ⟨plan, machine, hplan, hmachine, hsort, fun harranged => ?_⟩
  rw [hsort] at harranged
  exact absurd (harranged.sameCounts ⟨0x7f800000⟩) (by decide)

end Unit

end Machine

end Bitonic
