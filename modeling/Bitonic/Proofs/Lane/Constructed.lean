import Bitonic.Proofs.Lane.Partner
import Bitonic.Proofs.Outcome
/-!
# Pairings that can be made

Every pairing is made for partners that were asked for, and keeps of each what its cell has room
for.  Past 256 lanes the cells are too small, so such a pairing is not its own inverse.

* `Pairing.ofPartners?_eq_some_iff` — a pairing is made of the partners that name no lane twice;
* `Pairing.Constructed.stores` — what is kept of the partners that were asked for;
* `Pairing.Constructed.partner_eq` — a pairing that is its own inverse has lost nothing to storage.
-/

namespace Bitonic

namespace Pairing

variable {p : Pairing} {asked : Nat → Nat}

/-- The pairings that can be made, with the partners that were asked for. -/
inductive Constructed : Pairing → (Nat → Nat) → Prop where
  | identity {p : Pairing} {lanes : Nat} (h : identity lanes = .ok p) : Constructed p id
  | atDistance {p : Pairing} {lanes distance : Nat} (h : atDistance lanes distance = .ok p) :
      Constructed p (· ^^^ distance)
  | folded {p : Pairing} {lanes block : Nat} (h : folded lanes block = .ok p) :
      Constructed p (· ^^^ (block - 1))
  | reversal {p : Pairing} {lanes : Nat} (h : reversal lanes = .ok p) :
      Constructed p (lanes - 1 - ·)
  | ofPartners {p : Pairing} {partners : List Nat} (h : ofPartners? partners = some p) :
      Constructed p (partners.getD · 0)

theorem ofPartners?_eq_some_iff {partners : List Nat} : ofPartners? partners = some p ↔
    p.partners = partners ∧ 0 < partners.length ∧ partners.length < cellSize ∧ partners.Nodup := by
  unfold ofPartners?
  split
  · next hlength => exact iff_of_false (Option.some_ne_none p).symm fun h => by omega
  · next hlength =>
    split
    · next hmarks =>
      obtain ⟨hlt, hnodup⟩ := allUnmarked_replicate_iff.1 hmarks
      have hkept : partners.map (· % cellSize) = partners := by
        refine (List.map_congr_left fun q hq => ?_).trans (List.map_id partners)
        exact Nat.mod_eq_of_lt ((hlt q hq).trans (by omega))
      constructor
      · rintro ⟨⟩
        exact ⟨hkept, by omega, by omega, hnodup⟩
      · rintro ⟨rfl, _⟩
        cases p
        rw [Option.some.injEq, Pairing.mk.injEq]
        exact hkept
    · next hmarks =>
      apply iff_of_false (Option.some_ne_none p).symm
      rintro ⟨rfl, _, _, hnodup⟩
      exact absurd (allUnmarked_replicate_iff.2 ⟨p.partner_lt, hnodup⟩) hmarks

/-- A partner that was asked for is a lane, and it is kept as far as its cell goes. -/
def Stores (p : Pairing) (asked : Nat → Nat) : Prop :=
  ∀ lane < p.length, asked lane < p.length ∧ p.partner lane = asked lane % cellSize

theorem stores_of_build {lanes : Nat} {f : Nat → Nat} {h : ∀ i < lanes, f i % cellSize < lanes}
    (hbuild : build lanes f h = .ok p) (hf : ∀ i < lanes, f i < lanes) : p.Stores f := by
  obtain ⟨_, _, hofFn⟩ := Outcome.bind_eq_ok_iff.1 hbuild
  cases hofFn
  intro lane hlane
  rw [length_ofFn] at hlane ⊢
  exact ⟨hf lane hlane, partner_ofFn hlane⟩

theorem stores_of_folded {lanes block : Nat} (h : folded lanes block = .ok p) :
    lanes.isPowerOfTwo ∧ p.length = lanes ∧ p.Stores (· ^^^ (block - 1)) := by
  unfold folded at h
  split at h
  · next hlanes =>
    split at h
    · next hblock =>
      refine ⟨hlanes, ?_, stores_of_build h fun i hi => xor_lt hlanes hi (by omega)⟩
      obtain ⟨_, _, hofFn⟩ := Outcome.bind_eq_ok_iff.1 h
      cases hofFn
      exact length_ofFn
    · cases h
  · cases h

theorem Constructed.stores (h : p.Constructed asked) : p.Stores asked := by
  cases h with
  | identity h => exact stores_of_build h fun _ hi => hi
  | atDistance h =>
      unfold Pairing.atDistance at h
      split at h
      · next hlanes =>
        split at h
        · next hdistance => exact stores_of_build h fun i hi => xor_lt hlanes hi hdistance.2
        · cases h
      · cases h
  | folded h => exact (stores_of_folded h).2.2
  | reversal h =>
      obtain ⟨⟨k, rfl⟩, hlength, hstores⟩ := stores_of_folded h
      intro lane hlane
      have hstored := hstores lane hlane
      dsimp only at hstored ⊢
      rwa [xor_ones (hlane.trans_eq hlength)] at hstored
  | ofPartners h =>
      obtain ⟨rfl, _, hcell, _⟩ := ofPartners?_eq_some_iff.1 h
      intro lane hlane
      have hget := partner_lt_length hlane
      dsimp only
      rw [List.getD_eq_getElem _ _ hlane, ← partner_of_lt hlane]
      exact ⟨hget, (Nat.mod_eq_of_lt (hget.trans hcell)).symm⟩

/-- Past the cells of the partners there is no lane that anything is paired with. -/
theorem Stores.length_le (h : p.Stores asked)
    (htwice : ∀ lane < p.length, p.partner (p.partner lane) = lane) : p.length ≤ cellSize := by
  have hcell : ∀ lane < p.length, p.partner lane < cellSize := by
    intro lane hlane
    rw [(h lane hlane).2]
    exact Nat.mod_lt _ (by decide)
  apply Nat.le_of_not_lt
  intro hlong
  have hback := hcell _ (partner_lt_length hlong)
  rw [htwice cellSize hlong] at hback
  exact Nat.lt_irrefl _ hback

theorem Constructed.partner_eq (h : p.Constructed asked)
    (htwice : ∀ lane < p.length, p.partner (p.partner lane) = lane) :
    ∀ lane < p.length, p.partner lane = asked lane := by
  intro lane hlane
  have hlength := h.stores.length_le htwice
  obtain ⟨hasked, hpartner⟩ := h.stores lane hlane
  rw [hpartner, Nat.mod_eq_of_lt (hasked.trans_le hlength)]

end Pairing

end Bitonic
