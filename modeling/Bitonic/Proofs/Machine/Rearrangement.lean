import Bitonic.Proofs.Length.Lookup
import Bitonic.Proofs.Machine.LayerValues
import Bitonic.Proofs.Machine.Networks
/-!
# Networks rearrange their values

A network gives the numbers back that it was given, each as often.  As values, they come back in
another order as well, unless both zeros of a floating-point type are among them: an exchange inside
a register copies the zero of the lower lane over the zero of the upper one.

* `Machine.Follows.runOn_perm` — what comes out, by rank and by value;
* `Machine.Follows.runOn_eq_common` — a value that is lost in every network of more than one lane;
* `Machine.runByKey_rearranges` — the networks of a plan, and which plans never lose a value.
-/

namespace Bitonic

section Paired

variable {lanes e lane mask : Nat} {d : Direction} {xs : List Exchange} {x : Exchange}

theorem Exchange.Follows.partner_ne (h : x.Follows lanes d mask) (hmask : mask ≠ 0)
    (hlane : lane < lanes) : x.pairing.partner lane ≠ lane := by
  rw [h.partner lane hlane]
  intro hsame
  apply hmask
  rw [← Nat.xor_xor_cancel_left lane mask, hsame, Nat.xor_self]

theorem Cleaning.exists_partner_ne (h : Cleaning lanes d (e + 1) xs) (hlane : lane < lanes) :
    ∃ x ∈ xs, x.pairing.partner lane ≠ lane := by
  cases h with
  | cons first rest =>
      exact ⟨_, List.mem_cons_self, first.partner_ne (Nat.two_pow_pos e).ne' hlane⟩

theorem Sorting.exists_partner_ne (h : Sorting lanes d (e + 1) xs) (hlane : lane < lanes) :
    ∃ x ∈ xs, x.pairing.partner lane ≠ lane := by
  cases h with
  | snoc blocks fold cleaning =>
      refine ⟨_, List.mem_append_right _ List.mem_cons_self, fold.partner_ne ?_ hlane⟩
      have hpos := Nat.two_pow_pos e
      rw [Nat.pow_succ]
      omega

end Paired

namespace RegisterNetworks

theorem inside_mem_mergeLayers {size : Nat} (cells : RegisterNetworks size) {d : Direction}
    {x : Exchange} (hx : x ∈ cells.merger d) {width : Nat} (hpos : 0 < width) (first : Nat) :
    .inside first x ∈ cells.mergeLayers d first width := by
  induction width using splitPoint_induction with
  | zero => omega
  | one =>
      rw [mergeLayers]
      exact List.mem_map_of_mem hx
  | split width ihLow _ =>
      have hlow := ihLow (splitPoint_pos (by omega))
      rw [mergeLayers]
      exact List.mem_append_left _ (List.mem_append_right _ hlow)

/-- Where registers have several lanes, each lane of the first one is paired at some point. -/
theorem exists_inside_mem_layersOf {e : Nat} (cells : RegisterNetworks (e + 1)) {key : NetworkKey}
    (hpos : 0 < key.width) {lane : Nat} (hlane : lane < 2 ^ (e + 1)) :
    ∃ x, .inside 0 x ∈ cells.layersOf key 0 ∧ x.pairing.partner lane ≠ lane := by
  obtain ⟨task, width, d⟩ := key
  obtain ⟨x, hx, hpaired⟩ := (cells.cleaning d).exists_partner_ne hlane
  match task, width with
  | .merge, width => exact ⟨x, cells.inside_mem_mergeLayers hx hpos 0, hpaired⟩
  | .sort, 0 => cases hpos
  | .sort, 1 =>
      obtain ⟨y, hy, hpaired'⟩ := (cells.sorting d).exists_partner_ne hlane
      refine ⟨y, ?_, hpaired'⟩
      rw [layersOf]
      dsimp only
      rw [sortLayers]
      exact List.mem_map_of_mem hy
  | .sort, width + 2 =>
      refine ⟨x, ?_, hpaired⟩
      rw [layersOf]
      dsimp only
      rw [sortLayers]
      exact List.mem_append_right _ (cells.inside_mem_mergeLayers hx hpos 0)

end RegisterNetworks

namespace RegisterFile

variable {α : Type} {common rare : α} {lanes count : Nat}

/-- The common value everywhere but in the last lane of the first register. -/
def rareLast (lanes count : Nat) (common rare : α) : RegisterFile α :=
  (List.replicate (lanes - 1) common ++ [rare]) ::
    List.replicate (count - 1) (List.replicate lanes common)

theorem rare_mem_rareLast : rare ∈ (rareLast lanes count common rare).flatten :=
  List.mem_flatten.2 ⟨_, List.mem_cons_self, List.mem_append_right _ (List.mem_singleton_self rare)⟩

theorem allBut_rareLast (hlanes : 0 < lanes) :
    (rareLast lanes count common rare).AllBut lanes common rare := by
  intro r t a hget
  cases r with
  | zero =>
      rw [rareLast, List.getD_cons_zero, List.getElem?_append, List.length_replicate] at hget
      split at hget
      · exact Or.inl (List.eq_of_mem_replicate (List.mem_of_getElem? hget))
      · obtain ⟨hlast, rfl⟩ := List.getElem?_eq_some_iff.1 hget
        rw [List.length_singleton] at hlast
        exact Or.inr ⟨List.getElem_singleton _, rfl, by omega⟩
  | succ r =>
      rw [rareLast, List.getD_cons_succ] at hget
      obtain ⟨register, hmem, ha⟩ :=
        List.mem_flatten.1 (mem_flatten_of_getD (List.mem_of_getElem? hget))
      rw [List.eq_of_mem_replicate hmem] at ha
      exact Or.inl (List.eq_of_mem_replicate ha)

theorem wellFormed_rareLast [Scalar α] (hlanes : 0 < lanes) (hcount : 0 < count)
    (hcommon : Scalar.IsNumber common) (hrare : Scalar.IsNumber rare) :
    (rareLast lanes count common rare).WellFormed lanes count := by
  refine ⟨?_, List.forall_mem_cons.2 ⟨?_, fun register hmem => ?_⟩, fun register hmem a ha => ?_⟩
  · rw [rareLast, List.length_cons, List.length_replicate]
    omega
  · rw [List.length_append, List.length_replicate, List.length_singleton]
    omega
  · rw [List.eq_of_mem_replicate hmem, List.length_replicate]
  · have hin := (allBut_rareLast hlanes).mem a (List.mem_flatten.2 ⟨register, hmem, ha⟩)
    rcases List.mem_cons.1 hin with rfl | hin
    · exact hcommon
    · exact List.mem_singleton.1 hin ▸ hrare

end RegisterFile

namespace Machine

variable {size : Nat}

namespace Follows

variable {α : Type} [Scalar α] [Ranked α] {machine : Machine} {s : Synthesis}
  {cells : RegisterNetworks size} {key : NetworkKey} {routine : Routine}

/-- A network gives back values that it was given, with the same ranks, and where no register has a
second lane the same values. -/
theorem runOn_perm (h : machine.Follows s cells) (htype : Scalar.element α = s.limits.element)
    (hroutine : s.routineOf key = .ok routine) (hroom : key.width * 2 ^ size < Count.limit)
    {values : List α} (hlength : values.length = key.width * 2 ^ size)
    (hnum : ∀ a ∈ values, Scalar.IsNumber a) :
    ∃ out, machine.runOn routine values = .ok out ∧ (∀ a ∈ out, Scalar.IsNumber a) ∧
      (∀ a ∈ out, a ∈ values) ∧ (out.map Ranked.rank).Perm (values.map Ranked.rank) ∧
      (size = 0 → out.Perm values) := by
  have hlanes := Nat.two_pow_pos size
  have hcount : key.width ≤ Count.limit := (Nat.le_mul_of_pos_right _ hlanes).trans hroom.le
  have hwithin := cells.allWithin_layersOf key 0
  obtain ⟨file, hrun, hnum', hperm⟩ := hwithin.runAll_perm hlanes hcount hlength hnum
  refine ⟨file.flatten, ?_, hnum', ?_, hperm, ?_⟩
  · rw [h.runOn_eq htype hroutine hroom hlength, Outcome.bind_of_ok hrun]
  · have hmem := Layer.mem_of_runAll hrun
    rwa [RegisterFile.ofValues_eq_take hlanes hlength, RegisterFile.flatten_take hlength] at hmem
  · rintro rfl
    rw [RegisterFile.ofValues_eq_take hlanes hlength] at hrun
    have hsame := hwithin.perm_of_runAll_one hcount (RegisterFile.wellFormed_take hlength hnum) hrun
    exact hsame.trans (List.Perm.of_eq (RegisterFile.flatten_take hlength))

/-- Where registers have several lanes, the last lane of the first register does not keep a value
that no comparison tells from the others. -/
theorem runOn_eq_common (h : machine.Follows s cells) (htype : Scalar.element α = s.limits.element)
    (hroutine : s.routineOf key = .ok routine) (hroom : key.width * 2 ^ size < Count.limit)
    (hsize : size ≠ 0) {common rare : α} (htied : Scalar.Tied common rare)
    (hcommon : Scalar.IsNumber common) (hrare : Scalar.IsNumber rare) {out : List α}
    (hrun : machine.runOn routine
      (RegisterFile.rareLast (2 ^ size) key.width common rare).flatten = .ok out) :
    ∀ a ∈ out, a = common := by
  have hlanes := Nat.two_pow_pos size
  have hcount : key.width ≤ Count.limit := (Nat.le_mul_of_pos_right _ hlanes).trans hroom.le
  obtain ⟨_, hbody, _⟩ := Synthesis.routineOf_eq_ok hroutine
  obtain ⟨hpos, _⟩ := Synthesis.width_of_bodyOf hbody
  have hfile := RegisterFile.wellFormed_rareLast hlanes hpos hcommon hrare
  have hvalues := RegisterFile.take_flatten hfile.registers
  rw [hfile.length] at hvalues
  rw [h.runOn_eq htype hroutine hroom hfile.length_flatten,
    RegisterFile.ofValues_eq_take hlanes hfile.length_flatten, hvalues] at hrun
  obtain ⟨file, hlayers, hout⟩ := Outcome.bind_eq_ok_iff.1 hrun
  cases hout
  obtain ⟨e, rfl⟩ := Nat.exists_eq_succ_of_ne_zero hsize
  exact (cells.allWithin_layersOf key 0).eq_common_of_runAll hlanes hcount htied
    (cells.exists_inside_mem_layersOf hpos (Nat.sub_lt hlanes Nat.one_pos)) hfile
    (RegisterFile.allBut_rareLast hlanes) hlayers

end Follows

section Unit

variable {ty : ScalarType} {profile : IsaProfile} {settings : Settings} {s : Synthesis}
  {plan : Plan} {key : NetworkKey}

/-- A network of a plan gives back the numbers that it was given, each as often, and no value that
it was not given.  It gives back the values, each as often, unless both zeros are among them, and
for all numbers exactly if registers have one lane or the type has no second zero. -/
theorem runByKey_rearranges (hregister : profile.HasRegister ty size)
    (hs : Synthesis.ofSettings profile ty settings = .ok s)
    (hplan : Plan.forType ty profile settings = .ok plan) (hkey : s.hasRoutine key = true) :
    ∃ machine, Machine.ofPlan plan = .ok machine ∧
      (∀ values : List ty.Value, values.length = key.width * s.limits.lanes →
        (∀ a ∈ values, Scalar.IsNumber a) →
        ∃ out, machine.runByKey key values = .ok out ∧
          (∀ a, out.countP (Scalar.eq a) = values.countP (Scalar.eq a)) ∧
          (∀ a ∈ out, a ∈ values) ∧
          ((∀ pos neg, ty.zeros? = some (pos, neg) → pos ∉ values ∨ neg ∉ values) →
            out.Perm values)) ∧
      ((∀ values : List ty.Value, values.length = key.width * s.limits.lanes →
          (∀ a ∈ values, Scalar.IsNumber a) →
          ∃ out, machine.runByKey key values = .ok out ∧ out.Perm values) ↔
        s.limits.lanes = 1 ∨ ty.zeros? = none) := by
  obtain ⟨helement, hlanes, cells, networks, entries, dispatch, hparts, hfollows⟩ :=
    exists_follows hregister hs hplan
  have htype : Scalar.element ty.Value = s.limits.element :=
    (ScalarType.element_value ty).trans helement.symm
  obtain ⟨table, _, htable⟩ := hparts.lengthTable?_eq
  have hcoverage := Synthesis.coverage_lt_limit htable
  obtain ⟨routine, hfind, hroutine⟩ := hparts.find?_eq hkey
  obtain ⟨⟨_, hwidth⟩, _⟩ :=
    Synthesis.requireAvailable_eq_ok_iff.1 (Synthesis.routineOf_eq_ok hroutine).1
  rw [hlanes] at hcoverage ⊢
  have hroom : key.width * 2 ^ size < Count.limit :=
    (Nat.mul_le_mul_right _ hwidth).trans_lt hcoverage
  refine ⟨_, ofPlan_eq_ok hparts.limits, fun values hlength hnum => ?_, ?_, ?_⟩
  · obtain ⟨out, hrun, hnum', hmem, hperm, _⟩ :=
      hfollows.runOn_perm htype hroutine hroom hlength hnum
    refine ⟨out, (runByKey_eq_runOn hfind values).trans hrun,
      (Scalar.sameCounts_iff_perm hnum hnum').2 hperm, hmem, fun hzeros => ?_⟩
    exact Scalar.perm_of_perm_rank hmem hperm (Scalar.rank_inj_of_zeros hzeros)
  · -- with a second lane and a second zero, some input shows the loss
    intro hall
    by_contra hneither
    obtain ⟨hseveral, hzeros⟩ := not_or.1 hneither
    have hsize : size ≠ 0 := by
      rintro rfl
      exact hseveral rfl
    obtain ⟨⟨pos, neg⟩, hpair⟩ := Option.ne_none_iff_exists'.1 hzeros
    obtain ⟨hpos, hneg⟩ := Scalar.isNumber_zeros hpair
    have hwidthPos := (Synthesis.width_of_bodyOf (Synthesis.routineOf_eq_ok hroutine).2.1).1
    have hfile :=
      RegisterFile.wellFormed_rareLast (Nat.two_pow_pos size) hwidthPos hpos hneg
    obtain ⟨out, hrun, hperm⟩ := hall _ hfile.length_flatten hfile.isNumber
    rw [runByKey_eq_runOn hfind] at hrun
    have hcommon := hfollows.runOn_eq_common htype hroutine hroom hsize (Scalar.tied_zeros hpair)
      hpos hneg hrun
    exact Scalar.zeros_ne hpair
      (hcommon neg (hperm.mem_iff.2 RegisterFile.rare_mem_rareLast)).symm
  · intro hexact values hlength hnum
    obtain ⟨out, hrun, _, hmem, hperm, hsame⟩ :=
      hfollows.runOn_perm htype hroutine hroom hlength hnum
    refine ⟨out, (runByKey_eq_runOn hfind values).trans hrun, ?_⟩
    rcases hexact with hone | hnone
    · exact hsame ((Nat.pow_eq_one.1 hone).resolve_left (by decide))
    · refine Scalar.perm_of_perm_rank hmem hperm (Scalar.rank_inj_of_zeros fun pos neg hpair => ?_)
      rw [hnone] at hpair
      cases hpair

/-- Negative zeros among other numbers than zero come back. -/
theorem runByKey_rearranges_four :
    let values : List ScalarType.double.Value :=
      [⟨0x3ff0000000000000⟩, ⟨0x8000000000000000⟩, ⟨0xbff0000000000000⟩, ⟨0x8000000000000000⟩]
    ∃ s plan machine out,
      Synthesis.ofSettings InstructionSet.avx2Profile .double { widest := some 1 } = .ok s ∧
      Plan.forType .double InstructionSet.avx2Profile { widest := some 1 } = .ok plan ∧
      s.hasRoutine (.sort 1 .ascending) = true ∧ Machine.ofPlan plan = .ok machine ∧
      machine.runByKey (.sort 1 .ascending) values = .ok out ∧ out.Perm values := by
  intro values
  have hregister : InstructionSet.avx2Profile.HasRegister .double 2 := ⟨by decide, rfl⟩
  have hs : Synthesis.ofSettings InstructionSet.avx2Profile .double { widest := some 1 } =
      .ok ⟨InstructionSet.avx2Profile, ⟨.avx2, .double, 4, 1, 0, 0, 0⟩⟩ := rfl
  obtain ⟨plan, hplan⟩ := Outcome.exists_eq_ok_of_isOk (x := Plan.forType .double
    InstructionSet.avx2Profile { widest := some 1 }) (by decide +kernel)
  have hkey : Synthesis.hasRoutine ⟨InstructionSet.avx2Profile, ⟨.avx2, .double, 4, 1, 0, 0, 0⟩⟩
      (.sort 1 .ascending) = true := by decide
  obtain ⟨machine, hmachine, hruns, _⟩ := runByKey_rearranges hregister hs hplan hkey
  obtain ⟨out, hrun, _, _, hperm⟩ := hruns values rfl (List.forall_iff_forall_mem.1 (by decide))
  refine ⟨_, plan, machine, out, hs, hplan, hkey, hmachine, hrun, hperm fun pos neg hpair => ?_⟩
  cases hpair
  exact Or.inl (by decide)

/-- A zero is overwritten by the negative zero in the lane before it. -/
theorem runByKey_loses_zero :
    let values : List ScalarType.double.Value := [⟨0x8000000000000000⟩, ⟨0⟩]
    ∃ plan machine,
      Plan.forType .double InstructionSet.neonProfile { widest := some 1 } = .ok plan ∧
      Machine.ofPlan plan = .ok machine ∧
      machine.runByKey (.sort 1 .ascending) values =
        .ok [⟨0x8000000000000000⟩, ⟨0x8000000000000000⟩] ∧
      ¬ ∃ out, machine.runByKey (.sort 1 .ascending) values = .ok out ∧ out.Perm values := by
  intro values
  have hrun : (Plan.forType .double InstructionSet.neonProfile { widest := some 1 } >>= fun plan =>
      Machine.ofPlan plan >>= fun machine => machine.runByKey (.sort 1 .ascending) values) =
        .ok [⟨0x8000000000000000⟩, ⟨0x8000000000000000⟩] := by
    decide +kernel
  obtain ⟨plan, hplan, hrun⟩ := Outcome.bind_eq_ok_iff.1 hrun
  obtain ⟨machine, hmachine, hrun⟩ := Outcome.bind_eq_ok_iff.1 hrun
  refine ⟨plan, machine, hplan, hmachine, hrun, ?_⟩
  rintro ⟨out, hout, hperm⟩
  rw [hrun] at hout
  cases hout
  exact absurd (hperm.mem_iff.2 (List.mem_cons_of_mem _ List.mem_cons_self)) (by decide)

end Unit

end Machine

end Bitonic
