import Bitonic.Proofs.Lane.Constructed
import Bitonic.Proofs.RegisterNetwork.Sorts
/-!
# Which exchanges are made and what they deliver

An exchange is made for a pairing that covers one register of a supported type and is its own
inverse, unless a lane that the 64-bit word of lower lanes has no bit for stands below its partner.
A pairing of more than 256 lanes names only partners among the first 256, so it is never its own
inverse: what an exchange pairs is what was asked for.

* `Pairing.exists_lowerLanes_iff` — the pairings whose lower lanes the word has bits for;
* `IsaProfile.exchangeOf_eq_ok_iff` — the one way in which an exchange is made;
* `Exchange.Sound.delivers` — what it leaves at the two lanes of a pair;
* `IsaProfile.exchangeOf_contract` — all of it, for every pairing that can be constructed.
-/

namespace Bitonic

namespace Pairing

variable {p : Pairing}

private theorem foldlM_insert_eq_error {lanes : List (Nat × Nat)} (s : LaneSet)
    (h : ∃ x ∈ lanes, 64 ≤ x.2) :
    lanes.foldlM (fun s (_, lane) => s.insert lane) s = .error .shiftTooWide := by
  induction lanes generalizing s with
  | nil => simp at h
  | cons x lanes ih =>
      rw [List.foldlM_cons]
      show (s.insert x.2 >>= _) = _
      by_cases hx : x.2 < 64
      · have hrest : ∃ y ∈ lanes, 64 ≤ y.2 := by
          obtain ⟨y, hy, hword⟩ := h
          rcases List.mem_cons.1 hy with rfl | hy
          · omega
          · exact ⟨y, hy, hword⟩
        rw [Outcome.bind_of_ok (show s.insert x.2 = .ok _ from if_pos hx)]
        exact ih _ hrest
      · rw [show s.insert x.2 = .error .shiftTooWide from if_neg hx]
        rfl

/-- A lane past the word that stands below its partner cannot be collected. -/
theorem lowerLanes_eq_error (h : ∃ lane, 64 ≤ lane ∧ lane < p.partner lane) :
    p.lowerLanes = .error .shiftTooWide := by
  obtain ⟨lane, hword, hlower⟩ := h
  apply foldlM_insert_eq_error
  refine ⟨(p.partner lane, lane), List.mem_filter.2 ⟨?_, decide_eq_true hlower⟩, hword⟩
  apply mem_pairs.2 ⟨?_, rfl⟩
  by_contra hout
  rw [partner_of_le (by omega)] at hlower
  exact Nat.lt_irrefl _ hlower

theorem lower_lt_of_word (h : ∀ lane, 64 ≤ lane → p.partner lane ≤ lane) (lane : Nat)
    (hlower : lane < p.partner lane) : lane < 64 := by
  by_contra hpast
  have hle := h lane (by omega)
  omega

theorem exists_lowerLanes_iff :
    (∃ lower, p.lowerLanes = .ok lower) ↔ ∀ lane, 64 ≤ lane → p.partner lane ≤ lane := by
  constructor
  · rintro ⟨lower, hlower⟩ lane hword
    by_contra hlane
    rw [lowerLanes_eq_error ⟨lane, hword, by omega⟩] at hlower
    cases hlower
  · intro h
    obtain ⟨lower, hlower, _⟩ := lowerLanes_eq_ok (lower_lt_of_word h)
    exact ⟨lower, hlower⟩

theorem contains_lowerLanes {lower : LaneSet} (h : p.lowerLanes = .ok lower) (lane : Nat) :
    lower.contains lane = decide (lane < p.partner lane) := by
  have hword := exists_lowerLanes_iff.1 ⟨lower, h⟩
  obtain ⟨lower', hlower', hcontains⟩ := lowerLanes_eq_ok (lower_lt_of_word hword)
  rw [h] at hlower'
  cases hlower'
  exact hcontains lane

theorem spansGroups_iff {size : Nat} : p.spansGroups size = true ↔
    ∃ lane < p.length, lane / max size 1 ≠ p.partner lane / max size 1 := by
  rw [spansGroups, List.any_eq_true]
  constructor
  · rintro ⟨⟨q, lane⟩, hmem, hne⟩
    obtain ⟨hlane, rfl⟩ := mem_pairs.1 hmem
    exact ⟨lane, hlane, bne_iff_ne.1 hne⟩
  · rintro ⟨lane, hlane, hne⟩
    exact ⟨(p.partner lane, lane), mem_pairs.2 ⟨hlane, rfl⟩, bne_iff_ne.2 hne⟩

end Pairing

/-! ## The exchange that is made -/

namespace IsaProfile

variable {profile : IsaProfile} {ty : ScalarType} {p : Pairing} {d : Direction}

/-- A pairing of the lanes of one register of a supported type that is its own inverse. -/
structure Fits (profile : IsaProfile) (ty : ScalarType) (p : Pairing) : Prop where
  offers : profile.offers ty = true
  length : p.length = profile.registerBytes / ty.byteSize
  twice : ∀ lane < p.length, p.partner (p.partner lane) = lane

theorem Fits.isSelfInverse (h : profile.Fits ty p) : p.isSelfInverse = true := by
  apply Pairing.isSelfInverse_iff.2
  intro lane
  rcases Nat.lt_or_ge lane p.length with hlt | hge
  · exact h.twice lane hlt
  · rw [Pairing.partner_of_le hge, Pairing.partner_of_le hge]

theorem exchangeOf_of_fits (h : profile.Fits ty p) (d : Direction) :
    profile.exchangeOf ty p d = Outcome.ofChecked p.lowerLanes >>= fun lower =>
      .ok ⟨p, lower, d,
        if p.spansGroups (profile.groupLanes ty) then .acrossGroups else .insideGroup⟩ := by
  have hlanes : profile.lanes ty = .ok p.length := lanes_eq_ok_iff.2 ⟨h.offers, h.length⟩
  rw [exchangeOf, Outcome.bind_of_ok hlanes, if_neg (by simp), if_neg (by simp [h.isSelfInverse])]
  rfl

theorem fits_of_exchangeOf {x : Exchange} (h : profile.exchangeOf ty p d = .ok x) :
    profile.Fits ty p := by
  obtain ⟨lanes, hlanes, h⟩ := Outcome.bind_eq_ok_iff.1 h
  obtain ⟨hoffers, rfl⟩ := lanes_eq_ok_iff.1 hlanes
  split at h
  · cases h
  · next hlength =>
    split at h
    · cases h
    · next hself =>
      rw [Bool.not_eq_true', Bool.not_eq_false] at hself
      exact ⟨hoffers, not_not.1 hlength, fun lane _ => Pairing.isSelfInverse_iff.1 hself lane⟩

theorem exchangeOf_eq_ok_iff {x : Exchange} : profile.exchangeOf ty p d = .ok x ↔
    profile.Fits ty p ∧ ∃ lower, p.lowerLanes = .ok lower ∧ x = ⟨p, lower, d,
      if p.spansGroups (profile.groupLanes ty) then .acrossGroups else .insideGroup⟩ := by
  constructor
  · intro h
    have hfits := fits_of_exchangeOf h
    rw [exchangeOf_of_fits hfits] at h
    obtain ⟨lower, hlower, hx⟩ := Outcome.bind_eq_ok_iff.1 h
    exact ⟨hfits, lower, Outcome.liftM_eq_ok_iff.1 hlower, (Except.ok.inj hx).symm⟩
  · rintro ⟨hfits, lower, hlower, rfl⟩
    rw [exchangeOf_of_fits hfits, hlower]
    rfl

end IsaProfile

/-! ## What it delivers -/

namespace Scalar

variable {α : Type} [Scalar α]

/-- Of any two values that differ one is below the other, and never both. -/
def TotallyOrdered (values : List α) : Prop :=
  ∀ a ∈ values, ∀ b ∈ values,
    (lt a b = true → lt b a = false) ∧ (lt a b = false → lt b a = false → a = b)

instance [DecidableEq α] (values : List α) : Decidable (TotallyOrdered values) :=
  inferInstanceAs (Decidable (∀ a ∈ values, ∀ b ∈ values, _))

end Scalar

namespace Exchange

open Scalar (noLater)

variable {α : Type} [Scalar α] {x : Exchange} {lanes : Nat} {register : List α}

/-- The values of every pair stand at its lanes, in the direction of the exchange, and every other
value stays.  The value that comes first is one of the two; the other one is so up to `same`. -/
structure Delivers (same : α → α → Prop) (x : Exchange) (register out : List α) : Prop where
  length : out.length = register.length
  alone : ∀ lane, x.pairing.partner lane = lane → out[lane]? = register[lane]?
  pair : ∀ {low high : Nat} {a b : α}, low < high → x.pairing.partner low = high →
    register[low]? = some a → register[high]? = some b →
    ∃ first last, out[low]? = some first ∧ out[high]? = some last ∧
      noLater x.direction first last = true ∧ (first = a ∧ same last b ∨ first = b ∧ same last a)

theorem newValue_alone (x : Exchange) (lane : Nat) (a : α) : x.newValue lane lane a a = a := by
  simp [newValue]

theorem newValue_low {low high : Nat} (hlower : x.lowerLanes.contains low = true) (a b : α) :
    x.newValue low high a b = if noLater x.direction a b then a else b := by
  simp [newValue, hlower]

theorem newValue_high {low high : Nat} (hlower : x.lowerLanes.contains high = false)
    (hne : low ≠ high) (a b : α) :
    x.newValue high low b a = if noLater x.direction b a then a else b := by
  cases hab : noLater x.direction b a <;> simp [newValue, hlower, hne, hab]

theorem Sound.delivers (hx : x.Sound lanes) (hlength : register.length = lanes)
    (same : α → α → Prop) (hsame : ∀ a ∈ register, same a a)
    (htotal : ∀ a ∈ register, ∀ b ∈ register,
      noLater x.direction a b = true ∨ noLater x.direction b a = true)
    (htie : ∀ a ∈ register, ∀ b ∈ register, noLater x.direction a b = true →
      noLater x.direction b a = true → same a b) :
    ∃ out, x.run register = .ok out ∧ x.Delivers same register out := by
  obtain ⟨out, hrun, hout, hvalue⟩ := x.run_values (hlength.trans hx.length.symm)
  rw [← hx.length] at hlength
  refine ⟨out, hrun, hout.trans hlength.symm, ?_, ?_⟩
  · intro lane hself
    rcases Nat.lt_or_ge lane x.pairing.length with hlt | hge
    · obtain ⟨own, other, hown, hother, hnew⟩ := hvalue lane hlt
      rw [hself, hown, Option.some.injEq] at hother
      rw [hnew, hown, hself, ← hother, newValue_alone]
    · rw [List.getElem?_eq_none (hout.trans_le hge), List.getElem?_eq_none (hlength.trans_le hge)]
  · intro low high a b hlt hhigh ha hb
    have hlow : x.pairing.partner high = low := by rw [← hhigh, hx.twice]
    obtain ⟨hhighLt, _⟩ := List.getElem?_eq_some_iff.1 hb
    obtain ⟨own, other, hown, hother, hfirst⟩ := hvalue low (by omega)
    obtain ⟨own', other', hown', hother', hlast⟩ := hvalue high (by omega)
    rw [hhigh, hb] at hother
    rw [hlow, ha] at hother'
    rw [ha] at hown
    rw [hb] at hown'
    cases hown
    cases hother
    cases hown'
    cases hother'
    have hlowerLow : x.lowerLanes.contains low = true := by
      rw [hx.lower, hhigh, decide_eq_true hlt]
    have hlowerHigh : x.lowerLanes.contains high = false := by
      rw [hx.lower, hlow, decide_eq_false (by omega)]
    rw [hhigh, newValue_low hlowerLow] at hfirst
    rw [hlow, newValue_high hlowerHigh (Nat.ne_of_lt hlt)] at hlast
    have hmemA := List.mem_of_getElem? ha
    have hmemB := List.mem_of_getElem? hb
    refine ⟨_, _, hfirst, hlast, ?_⟩
    -- equal values are the case in which both lanes take the lower one's
    cases hab : noLater x.direction a b <;> cases hba : noLater x.direction b a
    · have hnone := htotal a hmemA b hmemB
      simp [hab, hba] at hnone
    · exact ⟨hba, Or.inr ⟨rfl, hsame a hmemA⟩⟩
    · exact ⟨hab, Or.inl ⟨rfl, hsame b hmemB⟩⟩
    · exact ⟨(htotal a hmemA a hmemA).elim id id, Or.inl ⟨rfl, htie a hmemA b hmemB hab hba⟩⟩

theorem Sound.delivers_of_totallyOrdered (hx : x.Sound lanes) (hlength : register.length = lanes)
    (h : Scalar.TotallyOrdered register) :
    ∃ out, x.run register = .ok out ∧ x.Delivers (· = ·) register out := by
  apply hx.delivers hlength (· = ·) (fun a _ => rfl)
  · intro a ha b hb
    have hasymm := (h a ha b hb).1
    cases x.direction <;> cases hab : Scalar.lt a b <;> simp_all [noLater]
  · intro a ha b hb hab hba
    have hconnex := (h a ha b hb).2
    cases hd : x.direction <;> simp_all [noLater]

/-- Numbers are ordered up to numeric equality. -/
theorem Sound.delivers_of_isNumber [Ranked α] (hx : x.Sound lanes)
    (hlength : register.length = lanes) (hnum : ∀ a ∈ register, Scalar.IsNumber a) :
    ∃ out, x.run register = .ok out ∧ x.Delivers (fun a b => Scalar.eq a b = true) register out := by
  apply hx.delivers hlength (fun a b => Scalar.eq a b = true) hnum
  · intro a ha b hb
    rw [Scalar.noLater_iff_before (hnum a ha) (hnum b hb),
      Scalar.noLater_iff_before (hnum b hb) (hnum a ha)]
    exact x.direction.before_total _ _
  · intro a ha b hb hab hba
    rw [Scalar.noLater_iff_before (hnum a ha) (hnum b hb)] at hab
    rw [Scalar.noLater_iff_before (hnum b hb) (hnum a ha)] at hba
    exact Ranked.eq_iff_rank_eq.2 ⟨hnum a ha, hnum b hb, Direction.before_antisymm hab hba⟩

structure Contract (ty : ScalarType) (p : Pairing) (d : Direction) (groupLanes : Nat)
    (x : Exchange) : Prop where
  pairing : x.pairing = p
  direction : x.direction = d
  lower : ∀ lane, x.lowerLanes.contains lane = decide (lane < p.partner lane)
  reach : x.reach = .acrossGroups ↔
    ∃ lane < p.length, lane / groupLanes ≠ p.partner lane / groupLanes
  totallyOrdered : ∀ (α : Type) [Scalar α] (register : List α), register.length = p.length →
    Scalar.TotallyOrdered register →
      ∃ out, x.run register = .ok out ∧ x.Delivers (· = ·) register out
  numbers : ∀ register : List ty.Value, register.length = p.length →
    (∀ a ∈ register, Scalar.IsNumber a) →
      ∃ out, x.run register = .ok out ∧ x.Delivers (fun a b => Scalar.eq a b = true) register out

end Exchange

namespace IsaProfile

variable {profile : IsaProfile} {ty : ScalarType} {p : Pairing} {d : Direction}

theorem contract_of_exchangeOf {x : Exchange} (h : profile.exchangeOf ty p d = .ok x) :
    x.Contract ty p d (max 1 (profile.groupBytes / ty.byteSize)) := by
  obtain ⟨hfits, lower, hlower, rfl⟩ := exchangeOf_eq_ok_iff.1 h
  have hcontains := Pairing.contains_lowerLanes hlower
  have hsound : Exchange.Sound ⟨p, lower, d, if p.spansGroups (profile.groupLanes ty)
      then .acrossGroups else .insideGroup⟩ p.length :=
    ⟨rfl, Pairing.isSelfInverse_iff.1 hfits.isSelfInverse, hcontains⟩
  refine ⟨rfl, rfl, hcontains, ?_, ?_, ?_⟩
  · have hgroups : max (profile.groupLanes ty) 1 = max 1 (profile.groupBytes / ty.byteSize) := by
      rw [groupLanes]
      omega
    rw [← hgroups, ← Pairing.spansGroups_iff]
    cases p.spansGroups (profile.groupLanes ty) <;> simp
  · intro α _ register hlength htotal
    exact hsound.delivers_of_totallyOrdered hlength htotal
  · intro register hlength hnum
    exact hsound.delivers_of_isNumber hlength hnum

/-- Exchanges are made for the pairings that fit and whose lower lanes have a bit in the word.  They
pair the lanes as was asked for, so none is made where a partner did not fit into its cell. -/
theorem exchangeOf_contract {asked : Nat → Nat} (hp : p.Constructed asked) (profile : IsaProfile)
    (ty : ScalarType) (d : Direction) :
    ((∃ x, profile.exchangeOf ty p d = .ok x) ↔
      profile.Fits ty p ∧ ∀ lane, 64 ≤ lane → p.partner lane ≤ lane) ∧
    (profile.Fits ty p → (∃ lane, 64 ≤ lane ∧ lane < p.partner lane) →
      profile.exchangeOf ty p d = .error (.fault .shiftTooWide)) ∧
    ∀ x, profile.exchangeOf ty p d = .ok x →
      (∀ lane < p.length, p.partner lane = asked lane) ∧ p.length ≤ 256 ∧
        x.Contract ty p d (max 1 (profile.groupBytes / ty.byteSize)) := by
  refine ⟨⟨?_, ?_⟩, ?_, ?_⟩
  · rintro ⟨x, hx⟩
    obtain ⟨hfits, lower, hlower, _⟩ := exchangeOf_eq_ok_iff.1 hx
    exact ⟨hfits, Pairing.exists_lowerLanes_iff.1 ⟨lower, hlower⟩⟩
  · rintro ⟨hfits, hword⟩
    obtain ⟨lower, hlower⟩ := Pairing.exists_lowerLanes_iff.2 hword
    exact ⟨_, exchangeOf_eq_ok_iff.2 ⟨hfits, lower, hlower, rfl⟩⟩
  · intro hfits hpast
    rw [exchangeOf_of_fits hfits, Pairing.lowerLanes_eq_error hpast]
    rfl
  · intro x hx
    have hfits := fits_of_exchangeOf hx
    exact ⟨hp.partner_eq hfits.twice, hp.stores.length_le hfits.twice, contract_of_exchangeOf hx⟩

/-- Two lanes that change places and two that stay, in a register of four. -/
theorem exchangeOf_contract_four :
    let register : List ScalarType.int32.Value := [7, -2, 3, 7]
    ∃ p x out, Pairing.ofPartners? [2, 1, 0, 3] = some p ∧
      InstructionSet.neonProfile.exchangeOf .int32 p .ascending = .ok x ∧
      x.lowerLanes.contains 0 = true ∧ x.lowerLanes.contains 1 = false ∧
      x.run register = .ok out ∧ x.Delivers (· = ·) register out := by
  intro register
  obtain ⟨p, hp⟩ : ∃ p, Pairing.ofPartners? [2, 1, 0, 3] = some p := Option.isSome_iff_exists.1 rfl
  obtain ⟨hiff, _, hcontract⟩ := exchangeOf_contract (.ofPartners hp) InstructionSet.neonProfile
    .int32 .ascending
  cases hp
  have hfits : InstructionSet.neonProfile.Fits .int32 ⟨[2, 1, 0, 3], by decide⟩ :=
    ⟨rfl, rfl, by decide⟩
  obtain ⟨x, hx⟩ := hiff.2 ⟨hfits, fun lane hword =>
    (Pairing.partner_of_le (show 4 ≤ lane by omega)).le⟩
  obtain ⟨_, _, hx'⟩ := hcontract x hx
  obtain ⟨out, hrun, hdelivers⟩ := hx'.totallyOrdered _ register rfl (by decide)
  exact ⟨_, x, out, rfl, hx, hx'.lower 0, hx'.lower 1, hrun, hdelivers⟩

end IsaProfile

end Bitonic
