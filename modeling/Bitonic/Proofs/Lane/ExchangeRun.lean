import Bitonic.Machine
import Bitonic.Proofs.Lane.Partner
import Bitonic.Proofs.Scalar.OnWires
/-!
# Exchanges inside a register

An exchange is sound for a register if its pairing fits, is its own inverse, and the lower lane of
each pair is marked as such.  `IsaProfile.exchangeOf_eq_ok` makes such exchanges.

Any exchange gives a lane its own or its partner's value, `Exchange.run_values`.  On ranks, a sound
one is the exchange of wires with their partners, `Exchange.run_eq_ok`.
-/

namespace Bitonic

structure Exchange.Sound (x : Exchange) (lanes : Nat) : Prop where
  length : x.pairing.length = lanes
  twice : ∀ lane, x.pairing.partner (x.pairing.partner lane) = lane
  lower : ∀ lane, x.lowerLanes.contains lane = decide (lane < x.pairing.partner lane)

theorem IsaProfile.exchangeOf_eq_ok {profile : IsaProfile} {ty : ScalarType} {p : Pairing}
    {lanes : Nat} (d : Direction) (hlanes : profile.lanes ty = .ok lanes) (h64 : lanes ≤ 64)
    (hlength : p.length = lanes) (htwice : ∀ lane, p.partner (p.partner lane) = lane) :
    ∃ x, profile.exchangeOf ty p d = .ok x ∧ x.Sound lanes ∧ x.direction = d ∧ x.pairing = p := by
  have hword : ∀ lane, lane < p.partner lane → lane < 64 := by
    intro lane hlane
    by_cases hlt : lane < p.length
    · omega
    · rw [Pairing.partner_of_le (by omega)] at hlane
      omega
  obtain ⟨lower, hlower, hcontains⟩ := Pairing.lowerLanes_eq_ok hword
  refine ⟨⟨p, lower, d, if p.spansGroups (profile.groupLanes ty) then .acrossGroups
    else .insideGroup⟩, ?_, ⟨hlength, htwice, hcontains⟩, rfl, rfl⟩
  rw [exchangeOf, hlanes]
  show (if p.length ≠ lanes then _ else _) = _
  rw [if_neg (by simp [hlength]), Pairing.isSelfInverse_iff.2 htwice, hlower]
  rfl

namespace Exchange

variable {α : Type} [Scalar α] {x : Exchange} {lanes : Nat}

theorem length_newValues {lane : Nat} {partners : List Nat} {owns others : List α}
    (hown : owns.length = partners.length) (hother : others.length = partners.length) :
    (x.newValues lane partners owns others).length = partners.length := by
  induction partners generalizing lane owns others with
  | nil => rfl
  | cons q partners ih =>
      cases owns with
      | nil => simp at hown
      | cons own owns =>
          cases others with
          | nil => simp at hother
          | cons other others =>
              simp only [newValues, List.length_cons, Nat.add_right_cancel_iff] at *
              exact ih hown hother

theorem getElem?_newValues (lane : Nat) {q i : Nat} {partners : List Nat} {owns others : List α}
    {own other : α} (hq : partners[i]? = some q) (hown : owns[i]? = some own)
    (hother : others[i]? = some other) :
    (x.newValues lane partners owns others)[i]? = some (x.newValue (lane + i) q own other) := by
  induction partners generalizing lane owns others i with
  | nil => simp at hq
  | cons q' partners ih =>
      cases owns with
      | nil => simp at hown
      | cons own' owns =>
          cases others with
          | nil => simp at hother
          | cons other' others =>
              cases i with
              | zero =>
                  cases hq
                  cases hown
                  cases hother
                  rfl
              | succ i =>
                  have hrest := ih (lane + 1) hq hown hother
                  rwa [Nat.add_assoc, Nat.add_comm 1 i] at hrest

/-- An exchange takes every lane's new value from the lane and its partner. -/
theorem run_values (x : Exchange) {register : List α} (hfit : register.length = x.pairing.length) :
    ∃ register', x.run register = .ok register' ∧ register'.length = x.pairing.length ∧
      ∀ lane < x.pairing.length, ∃ own other, register[lane]? = some own ∧
        register[x.pairing.partner lane]? = some other ∧
        register'[lane]? = some (x.newValue lane (x.pairing.partner lane) own other) := by
  have hgather : (x.pairing.gather register hfit).length = x.pairing.partners.length :=
    Pairing.length_gather
  refine ⟨_, dif_pos hfit, length_newValues hfit hgather, fun lane hlane => ?_⟩
  have hpartner := Pairing.partner_lt_length hlane
  rw [← hfit] at hpartner
  have hown := List.getElem?_eq_getElem (hlane.trans_eq hfit.symm)
  have hother := List.getElem?_eq_getElem hpartner
  have hgathered := Pairing.getElem?_gather hfit hlane
  rw [hother] at hgathered
  have hq : x.pairing.partners[lane]? = some (x.pairing.partner lane) := by
    rw [Pairing.partner_of_lt hlane]
    exact List.getElem?_eq_getElem hlane
  have hnew := getElem?_newValues (x := x) 0 hq hown hgathered
  rw [Nat.zero_add] at hnew
  exact ⟨_, _, hown, hother, hnew⟩

theorem newValue_mem {lane q : Nat} {own other : α} {register : List α} (hown : own ∈ register)
    (hother : other ∈ register) : x.newValue lane q own other ∈ register := by
  unfold newValue
  dsimp only
  split
  · exact hown
  · exact hother

variable [Ranked α]

open Ranked (rank)

theorem rank_newValue {lane q : Nat} {own other : α} (hown : Scalar.IsNumber own)
    (hother : Scalar.IsNumber other) (hlower : x.lowerLanes.contains lane = decide (lane < q)) :
    rank (x.newValue lane q own other) =
      if lane ≤ q then x.direction.first (rank own) (rank other)
      else x.direction.last (rank own) (rank other) := by
  have hlow : (x.lowerLanes.contains lane || q == lane) = decide (lane ≤ q) := by
    rw [hlower, Bool.eq_iff_iff, Bool.or_eq_true, beq_iff_eq, decide_eq_true_iff,
      decide_eq_true_iff]
    omega
  have hnoLater := Scalar.noLater_iff_before (d := x.direction) hown hother
  simp only [newValue, hlow, Direction.first_eq, Direction.last_eq, ← hnoLater]
  cases Scalar.noLater x.direction own other <;> by_cases hle : lane ≤ q
  all_goals simp [hle]

theorem run_eq_ok (hx : x.Sound lanes) {register : List α} (hlength : register.length = lanes)
    (hnum : ∀ a ∈ register, Scalar.IsNumber a) :
    ∃ register', x.run register = .ok register' ∧ register'.length = lanes ∧
      (∀ a ∈ register', a ∈ register) ∧
      ∀ lane < lanes, Scalar.wires register' lane =
        (Scalar.wires register).exchange x.direction x.pairing.partner lane := by
  obtain ⟨register', hrun, hlength', hvalue⟩ :=
    x.run_values (hlength.trans hx.length.symm)
  rw [hx.length] at hlength' hvalue
  refine ⟨register', hrun, hlength', ?_, ?_⟩
  · intro a ha
    obtain ⟨lane, hget⟩ := List.mem_iff_getElem?.1 ha
    obtain ⟨hlt, _⟩ := List.getElem?_eq_some_iff.1 hget
    obtain ⟨own, other, hown, hother, hnew⟩ := hvalue lane (hlt.trans_eq hlength')
    rw [hget] at hnew
    cases hnew
    exact newValue_mem (List.mem_of_getElem? hown) (List.mem_of_getElem? hother)
  · intro lane hlane
    obtain ⟨own, other, hown, hother, hnew⟩ := hvalue lane hlane
    rw [Scalar.wires_of_getElem? hnew, Wires.exchange, Scalar.wires_of_getElem? hown,
      Scalar.wires_of_getElem? hother]
    exact rank_newValue (hnum own (List.mem_of_getElem? hown))
      (hnum other (List.mem_of_getElem? hother)) (hx.lower lane)

end Exchange

end Bitonic
