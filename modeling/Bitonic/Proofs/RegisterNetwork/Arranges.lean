import Bitonic.Proofs.RegisterNetwork.Sorts
/-!
# Registers in order

The exchanges of a single-register network, applied to the lane values of a register one after the
other.  On ranks that is `Exchange.allOnWires`, so a cleaning arranges what is bitonic and a sorting
everything.

* `Exchange.runAll_eq_ok` — a run of sound exchanges on ranks;
* `Cleaning.arranges`, `Sorting.arranges` — the two networks on lane values;
* `IsaProfile.registerNetworks_arrange` — every instruction set and element type has both networks,
  with as many exchanges as their recursions say.
-/

namespace Bitonic

namespace Exchange

variable {α : Type} [Scalar α]

def runAll (xs : List Exchange) (register : List α) : Outcome (List α) :=
  xs.foldlM (fun register x => x.run register) register

variable [Ranked α] {lanes : Nat} {x : Exchange} {xs : List Exchange}

/-- On ranks a run is the exchange of all wires, those past the register among them. -/
theorem run_onWires (hx : x.Sound lanes) {register : List α} (hlength : register.length = lanes)
    (hnum : ∀ a ∈ register, Scalar.IsNumber a) :
    ∃ register', x.run register = .ok register' ∧ register'.length = lanes ∧
      (∀ a ∈ register', a ∈ register) ∧
      Scalar.wires register' = x.onWires (Scalar.wires register) := by
  obtain ⟨register', hrun, hlength', hmem, hlanes⟩ := run_eq_ok hx hlength hnum
  refine ⟨register', hrun, hlength', hmem, ?_⟩
  ext lane
  rcases Nat.lt_or_ge lane lanes with hlt | hge
  · exact hlanes lane hlt
  · have hself : x.pairing.partner lane = lane :=
      Pairing.partner_of_le (hx.length.trans_le hge)
    rw [onWires, Wires.exchange_of_fixed hself]
    simp [Scalar.wires, hlength, hlength', hge]

theorem runAll_eq_ok (hxs : ∀ x ∈ xs, x.Sound lanes) {register : List α}
    (hlength : register.length = lanes) (hnum : ∀ a ∈ register, Scalar.IsNumber a) :
    ∃ out, runAll xs register = .ok out ∧ out.length = lanes ∧ (∀ a ∈ out, Scalar.IsNumber a) ∧
      Scalar.wires out = allOnWires xs (Scalar.wires register) := by
  induction xs generalizing register with
  | nil => exact ⟨register, rfl, hlength, hnum, rfl⟩
  | cons x xs ih =>
      rw [List.forall_mem_cons] at hxs
      obtain ⟨register', hrun, hlength', hmem, hwires⟩ := run_onWires hxs.1 hlength hnum
      obtain ⟨out, hrest, hout⟩ := ih hxs.2 hlength' fun a ha => hnum a (hmem a ha)
      rw [hwires] at hout
      refine ⟨out, ?_, hout⟩
      rw [runAll, List.foldlM_cons, Outcome.bind_of_ok hrun]
      exact hrest

theorem runAll_arranged (hxs : ∀ x ∈ xs, x.Sound lanes) {d : Direction} {register : List α}
    (hlength : register.length = lanes) (hnum : ∀ a ∈ register, Scalar.IsNumber a)
    (hordered : (allOnWires xs (Scalar.wires register)).Ordered d 0 lanes)
    (hperm : ((allOnWires xs (Scalar.wires register)).values 0 lanes).Perm
      ((Scalar.wires register).values 0 lanes)) :
    ∃ out, runAll xs register = .ok out ∧ Scalar.Arranged d register out := by
  obtain ⟨out, hrun, hout, hnumOut, hwires⟩ := runAll_eq_ok hxs hlength hnum
  rw [← hwires, ← hlength] at hordered hperm
  exact ⟨out, hrun, Scalar.arranged_of_wires hnum hnumOut (hout.trans hlength.symm) hordered hperm⟩

end Exchange

open Exchange (runAll)

section Networks

variable {size : Nat} {d : Direction} {xs : List Exchange} {α : Type} [Scalar α] [Ranked α]
  {register : List α}

theorem Cleaning.arranges (h : Cleaning (2 ^ size) d size xs)
    (hlength : register.length = 2 ^ size) (hnum : ∀ a ∈ register, Scalar.IsNumber a)
    (hbitonic : Scalar.IsBitonic register) :
    ∃ out, runAll xs register = .ok out ∧ Scalar.Arranged d register out := by
  have hroom : 0 + 2 ^ size ≤ 2 ^ size := by omega
  have hwires := hbitonic.wires hnum
  rw [hlength] at hwires
  apply Exchange.runAll_arranged h.sound hlength hnum
  · exact h.ordered (Nat.dvd_zero _) hroom hwires
  · exact h.perm (Nat.le_refl size) (Nat.dvd_zero _) hroom _

theorem Sorting.arranges (h : Sorting (2 ^ size) d size xs)
    (hlength : register.length = 2 ^ size) (hnum : ∀ a ∈ register, Scalar.IsNumber a) :
    ∃ out, runAll xs register = .ok out ∧ Scalar.Arranged d register out := by
  have hroom : 0 + 2 ^ size ≤ 2 ^ size := by omega
  apply Exchange.runAll_arranged h.sound hlength hnum
  · exact h.ordered (Nat.dvd_zero _) hroom _
  · exact h.perm (Nat.le_refl size) (Nat.dvd_zero _) hroom _

end Networks

/-- A network of `count` exchanges along `d` that arranges every register of numbers it admits. -/
structure RegisterArranger (ty : ScalarType) (lanes count : Nat) (d : Direction)
    (admits : List ty.Value → Prop) (network : List Exchange) : Prop where
  count : network.length = count
  direction : ∀ x ∈ network, x.direction = d
  arranges : ∀ register : List ty.Value, register.length = lanes →
    (∀ a ∈ register, Scalar.IsNumber a) → admits register →
      ∃ out, runAll network register = .ok out ∧ Scalar.Arranged d register out

namespace IsaProfile

variable {profile : IsaProfile} {ty : ScalarType} {size : Nat}

/-- The sorter admits all registers, the merger those that are bitonic. -/
theorem registerNetworks_arrange (h : profile.HasRegister ty size) (d : Direction) :
    (∃ sorter, profile.registerSorter ty d = .ok sorter ∧
      RegisterArranger ty (2 ^ size) (size * (size + 1) / 2) d (fun _ => True) sorter) ∧
    (∃ merger, profile.registerMerger ty d = .ok merger ∧
      RegisterArranger ty (2 ^ size) size d Scalar.IsBitonic merger) := by
  obtain ⟨sorter, hsorter, hsorting⟩ := registerSorter_eq_ok h d
  obtain ⟨merger, hmerger, hcleaning⟩ := registerMerger_eq_ok h d
  refine ⟨⟨sorter, hsorter, hsorting.length, fun x hx => (hsorting.along x hx).2, ?_⟩,
    ⟨merger, hmerger, hcleaning.length, fun x hx => (hcleaning.along x hx).2, ?_⟩⟩
  · intro register hlength hnum _
    exact hsorting.arranges hlength hnum
  · intro register hlength hnum hbitonic
    exact hcleaning.arranges hlength hnum hbitonic

/-- Eight floating-point lanes, zeros of both signs among them, against the order they come in; and
the same lanes turned so that they fall and rise. -/
theorem registerNetworks_arrange_eight :
    let mixed : List ScalarType.float.Value := [⟨0x40000000⟩, ⟨0x80000000⟩, ⟨0xbf800000⟩,
      ⟨0x3f800000⟩, ⟨0⟩, ⟨0xff800000⟩, ⟨0x7f800000⟩, ⟨0x3f800000⟩]
    let bitonic : List ScalarType.float.Value := [⟨0x3f800000⟩, ⟨0x80000000⟩, ⟨0xbf800000⟩,
      ⟨0xff800000⟩, ⟨0⟩, ⟨0x3f800000⟩, ⟨0x7f800000⟩, ⟨0x40000000⟩]
    ∃ sorter merger sorted merged,
      InstructionSet.avx2Profile.registerSorter .float .descending = .ok sorter ∧
      InstructionSet.avx2Profile.registerMerger .float .descending = .ok merger ∧
      sorter.length = 6 ∧ merger.length = 3 ∧
      runAll sorter mixed = .ok sorted ∧ Scalar.Arranged .descending mixed sorted ∧
      runAll merger bitonic = .ok merged ∧ Scalar.Arranged .descending bitonic merged := by
  intro mixed bitonic
  have hregister : InstructionSet.avx2Profile.HasRegister .float 3 := ⟨by decide, rfl⟩
  obtain ⟨⟨sorter, hsorter, hsorts⟩, ⟨merger, hmerger, hmerges⟩⟩ :=
    registerNetworks_arrange hregister .descending
  have hbitonic : Scalar.IsBitonic bitonic := by
    refine ⟨3, 4, ?_, ?_⟩ <;> decide
  obtain ⟨sorted, hsorted, harranged⟩ := hsorts.arranges mixed rfl
    (List.forall_iff_forall_mem.1 (by decide)) trivial
  obtain ⟨merged, hmerged, harranged'⟩ := hmerges.arranges bitonic rfl
    (List.forall_iff_forall_mem.1 (by decide)) hbitonic
  exact ⟨sorter, merger, sorted, merged, hsorter, hmerger, hsorts.count, hmerges.count, hsorted,
    harranged, hmerged, harranged'⟩

end IsaProfile

end Bitonic
