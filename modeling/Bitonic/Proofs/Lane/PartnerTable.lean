import Bitonic.Proofs.Lane.Constructed
import Mathlib.Data.List.Nodup
import Mathlib.Data.List.Perm.Subperm
/-!
# Pairings as tables of partners

A pairing is a table with one cell for each lane.  The tables that can be given are the permutations
of up to 255 lanes.  Distances and folds give tables of any power of two of lanes, and up to 256
lanes they pair every lane with another one, since there a cell holds every lane.

* `Pairing.exists_ofPartners?_iff` — the scan for repeated partners finds the permutations;
* `Pairing.pairsOff_of_xor` — an exclusive or with a mask pairs off the lanes;
* `Pairing.checkedSelfInverse_eq` — the test for self-inverse pairings stays inside the table;
* `Pairing.restores_of_isSelfInverse`, `Pairing.isSelfInverse_of_restores` — and tells whether
  gathering twice gives back every register;
* `Pairing.constructors_tabulate` — all of it, for every pairing that can be made.
-/

namespace Bitonic

def mirrorImage (block lane : Nat) : Nat := block * (lane / block) + (block - 1 - lane % block)

theorem xor_ones_eq_mirrorImage (lane e : Nat) :
    lane ^^^ (2 ^ e - 1) = mirrorImage (2 ^ e) lane := by
  have hpos := Nat.two_pow_pos e
  have hlane := Nat.mod_lt lane hpos
  rw [mirrorImage, ← xor_ones hlane, ← xor_of_aligned (Nat.dvd_mul_right _ _) hlane (by omega),
    Nat.div_add_mod]

theorem perm_range_iff {lanes : List Nat} : lanes.Perm (List.range lanes.length) ↔
    (∀ lane ∈ lanes, lane < lanes.length) ∧ lanes.Nodup := by
  constructor
  · intro h
    exact ⟨fun lane hlane => List.mem_range.1 (h.subset hlane), h.symm.nodup List.nodup_range⟩
  · rintro ⟨hlt, hnodup⟩
    have hrange : lanes ⊆ List.range lanes.length := fun lane hlane =>
      List.mem_range.2 (hlt lane hlane)
    exact (hnodup.subperm hrange).perm_of_length_le (by rw [List.length_range])

namespace Pairing

variable {p : Pairing} {asked : Nat → Nat}

/-! ## Tables that can be given -/

theorem exists_ofPartners?_iff {partners : List Nat} : (∃ p, ofPartners? partners = some p) ↔
    ∃ lanes, 1 ≤ lanes ∧ lanes ≤ 255 ∧ partners.Perm (List.range lanes) := by
  constructor
  · rintro ⟨p, hp⟩
    obtain ⟨rfl, hpos, hcell, hnodup⟩ := ofPartners?_eq_some_iff.1 hp
    exact ⟨_, hpos, Nat.le_of_lt_succ hcell, perm_range_iff.2 ⟨p.partner_lt, hnodup⟩⟩
  · rintro ⟨lanes, hpos, hcell, hperm⟩
    have hlength : partners.length = lanes := by simpa using hperm.length_eq
    subst hlength
    obtain ⟨hlt, hnodup⟩ := perm_range_iff.1 hperm
    exact ⟨⟨partners, hlt⟩,
      ofPartners?_eq_some_iff.2 ⟨rfl, hpos, Nat.lt_succ_of_le hcell, hnodup⟩⟩

theorem partnerOf_of_ofPartners? {partners : List Nat} (h : ofPartners? partners = some p) :
    p.length = partners.length ∧
      ∀ (lane : Nat) (hlane : lane < partners.length), p.partnerOf lane = .ok partners[lane] := by
  obtain ⟨rfl, _⟩ := ofPartners?_eq_some_iff.1 h
  refine ⟨rfl, fun lane hlane => ?_⟩
  rw [partnerOf_eq_ok hlane, partner_of_lt hlane]

/-! ## Tables of distances and folds -/

/-- The lanes of a register go two by two, and `other` is the other lane of a pair. -/
structure PairsOff (p : Pairing) (lanes : Nat) (other : Nat → Nat) : Prop where
  length : p.length = lanes
  permutation : p.partners.Perm (List.range lanes)
  partner : ∀ lane < lanes, p.partnerOf lane = .ok (other lane)
  apart : ∀ lane < lanes, other lane ≠ lane
  back : ∀ lane < lanes, p.partnerOf (other lane) = .ok lane
  selfInverse : p.isSelfInverse = true

theorem perm_range_of_isSelfInverse (h : p.isSelfInverse = true) :
    p.partners.Perm (List.range p.length) := by
  refine perm_range_iff.2 ⟨p.partner_lt, List.nodup_iff_injective_getElem.2 fun i j hij => ?_⟩
  have hback := isSelfInverse_iff.1 h
  dsimp only at hij
  rw [← partner_of_lt, ← partner_of_lt] at hij
  exact Fin.ext (by rw [← hback i, hij, hback j])

variable {lanes size mask : Nat}

theorem pairsOff_of_xor (hlength : p.length = 2 ^ size) (hpos : 0 < mask) (hmask : mask < 2 ^ size)
    (hpartner : ∀ lane < 2 ^ size, p.partner lane = lane ^^^ mask) :
    p.PairsOff (2 ^ size) (· ^^^ mask) := by
  have hback := partner_partner_of_xor hlength hmask hpartner
  have hself := isSelfInverse_iff.2 hback
  have hlane : ∀ lane < 2 ^ size, p.partnerOf lane = .ok (lane ^^^ mask) := by
    intro lane hlt
    rw [partnerOf_eq_ok (hlt.trans_eq hlength.symm), hpartner lane hlt]
  refine ⟨hlength, hlength ▸ perm_range_of_isSelfInverse hself, hlane, ?_, ?_, hself⟩
  · intro lane _ hfixed
    have hzero : lane ^^^ mask = lane ^^^ 0 := hfixed.trans (Nat.xor_zero lane).symm
    exact hpos.ne' (Nat.xor_right_inj.1 hzero)
  · intro lane hlt
    rw [hlane _ (Nat.xor_lt_two_pow hlt hmask), Nat.xor_xor_cancel_right]

theorem exists_pairsOff_atDistance {distance : Nat} (hlanes : lanes.isPowerOfTwo)
    (hcell : lanes ≤ 256) (hdistance : distance.isPowerOfTwo) (hlt : distance < lanes) :
    ∃ p, atDistance lanes distance = .ok p ∧ p.PairsOff lanes (· ^^^ distance) := by
  obtain ⟨size, rfl⟩ := hlanes
  obtain ⟨e, rfl⟩ := hdistance
  have hsize : size ≤ 8 := (Nat.pow_le_pow_iff_right Nat.one_lt_two).1 hcell
  have he : e < size := (Nat.pow_lt_pow_iff_right Nat.one_lt_two).1 hlt
  obtain ⟨p, hp, hlength, hpartner⟩ := atDistance_eq_ok hsize he
  exact ⟨p, hp, pairsOff_of_xor hlength (Nat.two_pow_pos e) hlt hpartner⟩

theorem exists_pairsOff_folded {block : Nat} (hlanes : lanes.isPowerOfTwo) (hcell : lanes ≤ 256)
    (hblock : block.isPowerOfTwo) (htwo : 2 ≤ block) (hle : block ≤ lanes) :
    ∃ p, folded lanes block = .ok p ∧ p.PairsOff lanes (mirrorImage block) := by
  obtain ⟨size, rfl⟩ := hlanes
  obtain ⟨count, rfl⟩ := hblock
  have hsize : size ≤ 8 := (Nat.pow_le_pow_iff_right Nat.one_lt_two).1 hcell
  have hcount : count ≤ size := (Nat.pow_le_pow_iff_right Nat.one_lt_two).1 hle
  obtain ⟨e, rfl⟩ : ∃ e, count = e + 1 :=
    Nat.exists_eq_succ_of_ne_zero fun hzero => by simp [hzero] at htwo
  obtain ⟨p, hp, hlength, hpartner⟩ := folded_eq_ok hsize hcount
  have hmirror : mirrorImage (2 ^ (e + 1)) = (· ^^^ (2 ^ (e + 1) - 1)) :=
    funext fun lane => (xor_ones_eq_mirrorImage lane (e + 1)).symm
  refine ⟨p, hp, hmirror ▸ pairsOff_of_xor hlength ?_ ?_ hpartner⟩ <;> omega

/-! ## The test for self-inverse pairings -/

/-- Both look-ups of a lane are inside the table, so none is refused. -/
theorem checkedSelfInverse_eq (p : Pairing) : p.checkedSelfInverse = .ok p.isSelfInverse := by
  apply Outcome.allM_eq_ok
  rintro ⟨q, lane⟩ hmem
  obtain ⟨hlane, rfl⟩ := mem_pairs.1 hmem
  have hpartner := partner_lt_length hlane
  dsimp only
  rw [Outcome.bind_of_ok (partnerOf_eq_ok hpartner), partner_of_lt hpartner,
    List.getElem?_eq_getElem hpartner]
  rfl

/-- Gathering twice gives back every register of values of a type. -/
def Restores (p : Pairing) (α : Type) : Prop :=
  ∀ register : List α, register.length = p.length →
    (p.permute register >>= p.permute) = .ok register

theorem permute_permute {α : Type} {register : List α} (h : register.length = p.length) :
    ∃ out, (p.permute register >>= p.permute) = .ok out ∧ out.length = p.length ∧
      ∀ lane < p.length, out[lane]? = register[p.partner (p.partner lane)]? := by
  have hfirst : p.permute register = .ok (p.gather register h) := dif_pos h
  refine ⟨p.gather (p.gather register h) length_gather, ?_, length_gather, fun lane hlane => ?_⟩
  · rw [Outcome.bind_of_ok hfirst]
    exact dif_pos length_gather
  · rw [getElem?_gather _ hlane, getElem?_gather h (partner_lt_length hlane)]

theorem restores_of_isSelfInverse (h : p.isSelfInverse = true) (α : Type) : p.Restores α := by
  intro register hlength
  obtain ⟨out, hrun, hout, hvalue⟩ := permute_permute hlength
  rw [hrun]
  congr 1
  apply List.ext_getElem?
  intro lane
  rcases Nat.lt_or_ge lane p.length with hlt | hge
  · rw [hvalue lane hlt, isSelfInverse_iff.1 h lane]
  · rw [List.getElem?_eq_none (hout.trans_le hge), List.getElem?_eq_none (hlength.trans_le hge)]

section Marked

variable {α : Type}

def marked (lanes lane : Nat) (mark rest : α) : List α :=
  (List.range lanes).map fun i => if i = lane then mark else rest

theorem length_marked (lanes lane : Nat) (mark rest : α) :
    (marked lanes lane mark rest).length = lanes := by
  rw [marked, List.length_map, List.length_range]

theorem getElem?_marked {lane i : Nat} {mark rest : α} (hi : i < lanes) :
    (marked lanes lane mark rest)[i]? = some (if i = lane then mark else rest) := by
  rw [marked, List.getElem?_map, List.getElem?_range hi]
  rfl

end Marked

/-- Two values are enough to tell: one that stands at a single lane comes back only if that lane is
where its partner leads. -/
theorem isSelfInverse_of_restores {α : Type} [Nontrivial α] (h : p.Restores α) :
    p.isSelfInverse = true := by
  obtain ⟨mark, rest, hne⟩ := exists_pair_ne α
  refine isSelfInverse_iff.2 fun lane => ?_
  rcases Nat.lt_or_ge lane p.length with hlt | hge
  · have hlength := length_marked p.length lane mark rest
    obtain ⟨out, hrun, _, hvalue⟩ := permute_permute hlength
    have hsame := (h _ hlength).symm.trans hrun
    have hback := hvalue lane hlt
    rw [← Except.ok.inj hsame, getElem?_marked hlt,
      getElem?_marked (partner_lt_length (partner_lt_length hlt)), if_pos rfl,
      Option.some.injEq] at hback
    by_contra hother
    exact hne (hback.trans (if_neg hother))
  · rw [partner_of_le hge, partner_of_le hge]

/-! ## All constructors -/

/-- A pairing keeps a lane for every lane that was asked for, and the test for self-inverse pairings
says what gathering twice does. -/
structure Tabulates (p : Pairing) (asked : Nat → Nat) : Prop where
  requested : ∀ lane < p.length, asked lane < p.length
  kept : ∀ lane < p.length, p.partnerOf lane = .ok (asked lane % cellSize)
  isLane : ∀ lane < p.length, asked lane % cellSize < p.length
  tested : p.checkedSelfInverse = .ok p.isSelfInverse
  restores : p.isSelfInverse = true → ∀ α : Type, p.Restores α
  restored : ∀ (α : Type) [Nontrivial α], p.Restores α → p.isSelfInverse = true
  long : 256 < p.length → p.isSelfInverse = false

theorem Constructed.tabulates (h : p.Constructed asked) : p.Tabulates asked := by
  have hstores := h.stores
  refine ⟨fun lane hlane => (hstores lane hlane).1, fun lane hlane => ?_, fun lane hlane => ?_,
    p.checkedSelfInverse_eq, restores_of_isSelfInverse, fun α _ => isSelfInverse_of_restores,
    fun hlong => ?_⟩
  · rw [partnerOf_eq_ok hlane, (hstores lane hlane).2]
  · exact (Nat.mod_le _ _).trans_lt (hstores lane hlane).1
  · rw [← Bool.not_eq_true]
    intro hself
    have hle := hstores.length_le fun lane _ => isSelfInverse_iff.1 hself lane
    exact Nat.not_lt_of_le hle hlong

/-- A table can be given exactly if it is a permutation of up to 255 lanes.  Distances and folds of up
to 256 lanes pair the lanes off.  Whatever is made names lanes only, and the test for self-inverse
pairings says what gathering twice does. -/
theorem constructors_tabulate :
    (∀ partners : List Nat,
      ((∃ p, ofPartners? partners = some p) ↔
        ∃ lanes, 1 ≤ lanes ∧ lanes ≤ 255 ∧ partners.Perm (List.range lanes)) ∧
      ∀ p, ofPartners? partners = some p → p.length = partners.length ∧
        ∀ (lane : Nat) (h : lane < partners.length), p.partnerOf lane = .ok partners[lane]) ∧
    (∀ lanes : Nat, lanes.isPowerOfTwo → lanes ≤ 256 →
      (∀ distance : Nat, distance.isPowerOfTwo → distance < lanes →
        ∃ p, atDistance lanes distance = .ok p ∧ p.PairsOff lanes (· ^^^ distance)) ∧
      ∀ block : Nat, block.isPowerOfTwo → 2 ≤ block → block ≤ lanes →
        ∃ p, folded lanes block = .ok p ∧ p.PairsOff lanes (mirrorImage block)) ∧
    ∀ (p : Pairing) (asked : Nat → Nat), p.Constructed asked → p.Tabulates asked := by
  refine ⟨fun partners => ⟨exists_ofPartners?_iff, fun p => partnerOf_of_ofPartners?⟩, ?_,
    fun p asked => Constructed.tabulates⟩
  intro lanes hlanes hcell
  exact ⟨fun distance => exists_pairsOff_atDistance hlanes hcell,
    fun block => exists_pairsOff_folded hlanes hcell⟩

/-- A cycle of three lanes, the widest distance and a fold of the widest register, and a register
that is too wide for the cells, where gathering twice loses a value. -/
theorem constructors_tabulate_wide :
    (∃ p, ofPartners? [1, 2, 0, 3] = some p ∧ p.partnerOf 2 = .ok 0) ∧
    (∃ p, atDistance 256 128 = .ok p ∧ p.partnerOf 3 = .ok 131) ∧
    (∃ p, folded 256 16 = .ok p ∧ p.partnerOf 21 = .ok 26) ∧
    ∃ p, identity 300 = .ok p ∧ p.partnerOf 299 = .ok 43 ∧ p.checkedSelfInverse = .ok false ∧
      ¬ p.Restores Nat := by
  obtain ⟨hgiven, hpaired, hmade⟩ := constructors_tabulate
  have hregister := hpaired 256 ⟨8, rfl⟩ (Nat.le_refl _)
  refine ⟨?_, ?_, ?_, ?_⟩
  · obtain ⟨p, hp⟩ := (hgiven [1, 2, 0, 3]).1.2 ⟨4, by decide, by decide, by decide⟩
    exact ⟨p, hp, ((hgiven _).2 p hp).2 2 (by decide)⟩
  · obtain ⟨p, hp, hoff⟩ := hregister.1 128 ⟨7, rfl⟩ (by decide)
    exact ⟨p, hp, hoff.partner 3 (by decide)⟩
  · obtain ⟨p, hp, hoff⟩ := hregister.2 16 ⟨4, rfl⟩ (by decide) (by decide)
    exact ⟨p, hp, hoff.partner 21 (by decide)⟩
  · obtain ⟨p, hp, hlength⟩ : ∃ p, identity 300 = .ok p ∧ p.length = 300 :=
      ⟨_, build_eq_ok (by decide), length_ofFn⟩
    have htable := hmade p _ (.identity hp)
    have hself := htable.long (by omega)
    refine ⟨p, hp, htable.kept 299 (by omega), hself ▸ htable.tested, ?_⟩
    intro hrestores
    rw [htable.restored Nat hrestores] at hself
    cases hself

end Pairing

end Bitonic
