import Bitonic.Proofs.Lane.ExchangeContract
import Bitonic.Proofs.RegisterNetwork.Shape
/-!
# Which exchanges of a register cross groups

The pairings of the single-register networks are an exclusive or with a mask.  Where groups are a
power of two of lanes, dividing by their size drops the low bits of a lane, so a pair lies in two
groups exactly if the mask reaches up to a bit that is kept.

* `exists_div_xor_ne_iff` — when an exclusive or leaves the groups;
* `IsaProfile.shaped_of_shapedExchange` — the exchange that is made for the pairs of a shape;
* `IsaProfile.registerSorter_shaped`, `IsaProfile.registerMerger_shaped` — the exchanges of both
  networks.
-/

namespace Bitonic

/-- Groups of `2 ^ b` lanes are left where the mask has a bit from `b` on. -/
theorem exists_div_xor_ne_iff {lanes b mask : Nat} (hlanes : 0 < lanes) :
    (∃ lane < lanes, lane / 2 ^ b ≠ (lane ^^^ mask) / 2 ^ b) ↔ 2 ^ b ≤ mask := by
  have hkept : ∀ lane, lane / 2 ^ b ≠ (lane ^^^ mask) / 2 ^ b ↔ mask / 2 ^ b ≠ 0 := by
    intro lane
    rw [Nat.xor_div_two_pow, not_iff_not]
    constructor
    · intro hsame
      rw [← Nat.xor_xor_cancel_left (lane / 2 ^ b) (mask / 2 ^ b), ← hsame, Nat.xor_self]
    · intro hzero
      rw [hzero, Nat.xor_zero]
  simp only [hkept]
  rw [Nat.div_ne_zero_iff]
  constructor
  · rintro ⟨_, _, _, hle⟩
    exact hle
  · intro hle
    exact ⟨0, hlanes, (Nat.two_pow_pos b).ne', hle⟩

/-- How one layer of a single-register network pairs the lanes. -/
inductive PairingShape where
  /-- Every lane with its mirror image in its block. -/
  | folded (block : Nat)
  /-- Every lane with the one at a distance. -/
  | atDistance (distance : Nat)

namespace PairingShape

def pairing (lanes : Nat) : PairingShape → Checked Pairing
  | folded block => Pairing.folded lanes block
  | atDistance distance => Pairing.atDistance lanes distance

/-- Some pair of this shape lies in two groups of so many lanes. -/
def Spans (groupLanes : Nat) : PairingShape → Prop
  | folded block => groupLanes < block
  | atDistance distance => groupLanes ≤ distance

def cleaning (count : Nat) : List PairingShape :=
  (List.range count).reverse.map fun e => atDistance (2 ^ e)

/-- A fold of blocks of 2, 4, …, `2 ^ count` lanes, each with the distances inside its halves. -/
def sorting (count : Nat) : List PairingShape :=
  (List.range count).flatMap fun e => folded (2 ^ (e + 1)) :: cleaning e

/-- The shapes that a register of `2 ^ size` lanes has room for. -/
inductive Fits (size : Nat) : PairingShape → Prop
  | folded {e : Nat} (h : e < size) : Fits size (folded (2 ^ (e + 1)))
  | atDistance {e : Nat} (h : e < size) : Fits size (atDistance (2 ^ e))

variable {size count : Nat} {shape : PairingShape}

theorem fits_of_mem_cleaning (hcount : count ≤ size) (h : shape ∈ cleaning count) :
    shape.Fits size := by
  obtain ⟨e, he, rfl⟩ := List.mem_map.1 h
  rw [List.mem_reverse, List.mem_range] at he
  exact .atDistance (he.trans_le hcount)

theorem fits_of_mem_sorting (h : shape ∈ sorting size) : shape.Fits size := by
  obtain ⟨e, he, hshape⟩ := List.mem_flatMap.1 h
  rw [List.mem_range] at he
  rcases List.mem_cons.1 hshape with rfl | hshape
  · exact .folded he
  · exact fits_of_mem_cleaning he.le hshape

theorem Fits.exists_mask (h : shape.Fits size) (hsize : size ≤ 6) : ∃ p mask,
    shape.pairing (2 ^ size) = .ok p ∧ p.length = 2 ^ size ∧
      (∀ lane < 2 ^ size, p.partner lane = lane ^^^ mask) ∧
      ∀ groupLanes, groupLanes ≤ mask ↔ shape.Spans groupLanes := by
  cases h with
  | folded he =>
      rename_i e
      obtain ⟨p, hp, hlength, hpartner⟩ := Pairing.folded_eq_ok (hsize.trans (by decide)) he
      exact ⟨p, 2 ^ (e + 1) - 1, hp, hlength, hpartner, fun groupLanes =>
        Nat.le_sub_one_iff_lt (Nat.two_pow_pos _)⟩
  | atDistance he =>
      rename_i e
      obtain ⟨p, hp, hlength, hpartner⟩ := Pairing.atDistance_eq_ok (hsize.trans (by decide)) he
      exact ⟨p, 2 ^ e, hp, hlength, hpartner, fun groupLanes => Iff.rfl⟩

end PairingShape

/-- The exchange pairs the lanes in this shape, and crosses groups if the shape does. -/
structure Exchange.Shaped (x : Exchange) (shape : PairingShape) (lanes groupLanes : Nat) :
    Prop where
  pairing : shape.pairing lanes = .ok x.pairing
  reach : x.reach = .acrossGroups ↔ shape.Spans groupLanes

namespace IsaProfile

variable {profile : IsaProfile} {ty : ScalarType} {size : Nat} {d : Direction}
  {shape : PairingShape} {x : Exchange}

def shapedExchange (profile : IsaProfile) (ty : ScalarType) (lanes : Nat) (d : Direction)
    (shape : PairingShape) : Outcome Exchange := do
  profile.exchangeOf ty (← shape.pairing lanes) d

theorem cleaningExchanges_eq_mapM (profile : IsaProfile) (ty : ScalarType) (lanes count : Nat)
    (d : Direction) : profile.cleaningExchanges ty lanes count d =
      (PairingShape.cleaning count).mapM (profile.shapedExchange ty lanes d) := by
  rw [PairingShape.cleaning, List.mapM_map]
  rfl

theorem blockExchanges_eq_mapM (h : profile.lanes ty = .ok (2 ^ size)) (e : Nat) (d : Direction) :
    profile.blockExchanges ty (2 ^ size) e d =
      (.folded (2 ^ (e + 1)) :: PairingShape.cleaning e).mapM
        (profile.shapedExchange ty (2 ^ size) d) := by
  rw [blockExchanges, blockPairing_eq h, List.mapM_cons, ← cleaningExchanges_eq_mapM,
    shapedExchange, bind_assoc]
  rfl

theorem registerSorter_eq_mapM (h : profile.lanes ty = .ok (2 ^ size)) (d : Direction) :
    profile.registerSorter ty d =
      (PairingShape.sorting size).mapM (profile.shapedExchange ty (2 ^ size) d) := by
  rw [registerSorter, Outcome.bind_of_ok h, Nat.log2_two_pow, PairingShape.sorting,
    Outcome.mapM_flatMap]
  simp only [blockExchanges_eq_mapM h]
  rfl

theorem registerMerger_eq_mapM (h : profile.lanes ty = .ok (2 ^ size)) (d : Direction) :
    profile.registerMerger ty d =
      (PairingShape.cleaning size).mapM (profile.shapedExchange ty (2 ^ size) d) := by
  rw [registerMerger, Outcome.bind_of_ok h, Nat.log2_two_pow, cleaningExchanges_eq_mapM]

theorem shaped_of_shapedExchange (h : profile.HasRegister ty size)
    (hgroup : (profile.groupLanes ty).isPowerOfTwo) (hshape : shape.Fits size)
    (hx : profile.shapedExchange ty (2 ^ size) d shape = .ok x) :
    x.Shaped shape (2 ^ size) (profile.groupLanes ty) := by
  obtain ⟨p, mask, hp, hlength, hpartner, hspans⟩ := hshape.exists_mask h.1
  rw [shapedExchange, Outcome.bind_of_ok (Outcome.liftM_eq_ok_iff.2 hp)] at hx
  have hcontract := contract_of_exchangeOf hx
  have hpairing := hcontract.pairing
  subst hpairing
  refine ⟨hp, ?_⟩
  obtain ⟨b, hb⟩ := hgroup
  have hcross : (∃ lane < 2 ^ size, lane / 2 ^ b ≠ x.pairing.partner lane / 2 ^ b) ↔
      ∃ lane < 2 ^ size, lane / 2 ^ b ≠ (lane ^^^ mask) / 2 ^ b :=
    exists_congr fun lane => and_congr_right fun hlane => by rw [hpartner lane hlane]
  have hgroupLanes : max 1 (profile.groupBytes / ty.byteSize) = 2 ^ b := by
    rw [Nat.max_comm, ← hb, groupLanes]
  rw [hcontract.reach, hlength, hgroupLanes, hcross, exists_div_xor_ne_iff (Nat.two_pow_pos size),
    hspans, hb]

theorem shaped_of_mapM (h : profile.HasRegister ty size)
    (hgroup : (profile.groupLanes ty).isPowerOfTwo) {shapes : List PairingShape}
    {xs : List Exchange} (hshapes : ∀ shape ∈ shapes, shape.Fits size)
    (hxs : shapes.mapM (profile.shapedExchange ty (2 ^ size) d) = .ok xs) :
    List.Forall₂ (fun shape x => x.Shaped shape (2 ^ size) (profile.groupLanes ty)) shapes xs := by
  have hmade := (List.forall₂_and_left _ _).2 ⟨hshapes, Outcome.mapM_eq_ok_iff.1 hxs⟩
  exact hmade.imp fun shape x hshape => shaped_of_shapedExchange h hgroup hshape.1 hshape.2

theorem registerSorter_shaped (h : profile.HasRegister ty size)
    (hgroup : (profile.groupLanes ty).isPowerOfTwo) (d : Direction) :
    ∃ xs, profile.registerSorter ty d = .ok xs ∧ List.Forall₂
      (fun shape x => x.Shaped shape (2 ^ size) (profile.groupLanes ty))
      (PairingShape.sorting size) xs := by
  obtain ⟨xs, hxs, _⟩ := registerSorter_eq_ok h d
  refine ⟨xs, hxs, ?_⟩
  rw [registerSorter_eq_mapM h.2] at hxs
  exact shaped_of_mapM h hgroup (fun _ => PairingShape.fits_of_mem_sorting) hxs

theorem registerMerger_shaped (h : profile.HasRegister ty size)
    (hgroup : (profile.groupLanes ty).isPowerOfTwo) (d : Direction) :
    ∃ xs, profile.registerMerger ty d = .ok xs ∧ List.Forall₂
      (fun shape x => x.Shaped shape (2 ^ size) (profile.groupLanes ty))
      (PairingShape.cleaning size) xs := by
  obtain ⟨xs, hxs, _⟩ := registerMerger_eq_ok h d
  refine ⟨xs, hxs, ?_⟩
  rw [registerMerger_eq_mapM h.2] at hxs
  exact shaped_of_mapM h hgroup
    (fun _ => PairingShape.fits_of_mem_cleaning (Nat.le_refl size)) hxs

end IsaProfile

end Bitonic
