import Bitonic.InstructionSet.RegisterNetwork
import Mathlib.Data.List.Basic
import Mathlib.Data.Nat.Bitwise
/-!
# Partners

The partner of a lane, continued past the register by letting the lanes there be their own partners.
A pairing is its own inverse exactly when this function is, `isSelfInverse_iff`.  The pairings of the
single-register networks are the ones whose partners are an exclusive or.
-/

namespace Bitonic

section Masks

variable {e start t mask : Nat}

theorem xor_of_aligned (haligned : 2 ^ e ∣ start) (ht : t < 2 ^ e) (hmask : mask < 2 ^ e) :
    (start + t) ^^^ mask = start + (t ^^^ mask) := by
  obtain ⟨block, rfl⟩ := haligned
  have hpos := Nat.two_pow_pos e
  have hdiv : ((2 ^ e * block + t) ^^^ mask) / 2 ^ e = block := by
    rw [Nat.xor_div_two_pow, Nat.mul_add_div hpos, Nat.div_eq_of_lt ht, Nat.div_eq_of_lt hmask,
      Nat.add_zero, Nat.xor_zero]
  have hmod : ((2 ^ e * block + t) ^^^ mask) % 2 ^ e = t ^^^ mask := by
    rw [Nat.xor_mod_two_pow, Nat.mul_add_mod, Nat.mod_eq_of_lt ht, Nat.mod_eq_of_lt hmask]
  rw [← Nat.div_add_mod ((2 ^ e * block + t) ^^^ mask) (2 ^ e), hdiv, hmod]

theorem xor_two_pow (ht : t < 2 ^ e) : t ^^^ 2 ^ e = t + 2 ^ e := by
  have hpos := Nat.two_pow_pos e
  have hdiv : (t ^^^ 2 ^ e) / 2 ^ e = 1 := by
    rw [Nat.xor_div_two_pow, Nat.div_eq_of_lt ht, Nat.div_self hpos, Nat.zero_xor]
  have hmod : (t ^^^ 2 ^ e) % 2 ^ e = t := by
    rw [Nat.xor_mod_two_pow, Nat.mod_eq_of_lt ht, Nat.mod_self, Nat.xor_zero]
  have hsplit := Nat.div_add_mod (t ^^^ 2 ^ e) (2 ^ e)
  rw [hdiv, hmod] at hsplit
  omega

theorem xor_ones (ht : t < 2 ^ e) : t ^^^ (2 ^ e - 1) = 2 ^ e - 1 - t := by
  apply Nat.eq_of_testBit_eq
  intro bit
  rw [Nat.testBit_xor, Nat.testBit_two_pow_sub_one, show 2 ^ e - 1 - t = 2 ^ e - (t + 1) by omega,
    Nat.testBit_two_pow_sub_succ ht]
  by_cases hbit : bit < e
  · simp [hbit]
  · have hzero : t.testBit bit = false :=
      Nat.testBit_lt_two_pow (Nat.lt_of_lt_of_le ht (Nat.pow_le_pow_right (by omega) (by omega)))
    simp [hbit, hzero]

end Masks

namespace Pairing

variable {p : Pairing}

def partner (p : Pairing) (lane : Nat) : Nat := p.partners.getD lane lane

theorem partner_of_lt {lane : Nat} (h : lane < p.partners.length) :
    p.partner lane = p.partners[lane] := by
  rw [partner, List.getD_eq_getElem?_getD, List.getElem?_eq_getElem h]
  rfl

theorem partner_of_le {lane : Nat} (h : p.length ≤ lane) : p.partner lane = lane := by
  have h' : p.partners.length ≤ lane := h
  simp [partner, h']

theorem partner_lt_length {lane : Nat} (h : lane < p.length) : p.partner lane < p.length := by
  rw [partner_of_lt h]
  exact p.partner_lt _ (List.getElem_mem h)

theorem partnerOf_eq_ok {lane : Nat} (h : lane < p.length) :
    p.partnerOf lane = .ok (p.partner lane) := by
  rw [partnerOf, List.getElem?_eq_getElem h, partner_of_lt h]

theorem mem_pairs {q lane : Nat} : (q, lane) ∈ p.pairs ↔ lane < p.length ∧ p.partner lane = q := by
  rw [pairs, List.mk_mem_zipIdx_iff_getElem?, List.getElem?_eq_some_iff]
  constructor
  · rintro ⟨h, rfl⟩
    exact ⟨h, partner_of_lt h⟩
  · rintro ⟨h, rfl⟩
    exact ⟨h, (partner_of_lt h).symm⟩

theorem isSelfInverse_iff : p.isSelfInverse = true ↔ ∀ lane, p.partner (p.partner lane) = lane := by
  rw [isSelfInverse, List.all_eq_true]
  constructor
  · intro h lane
    by_cases hlane : lane < p.length
    · have hback := h (p.partner lane, lane) (mem_pairs.2 ⟨hlane, rfl⟩)
      rw [beq_iff_eq, List.getElem?_eq_some_iff] at hback
      obtain ⟨hlt, hget⟩ := hback
      rw [partner_of_lt hlt, hget]
    · have hself := partner_of_le (Nat.le_of_not_lt hlane)
      rw [hself, hself]
  · rintro h ⟨q, lane⟩ hmem
    obtain ⟨hlane, rfl⟩ := mem_pairs.1 hmem
    have hlt := partner_lt_length hlane
    rw [beq_iff_eq, List.getElem?_eq_some_iff]
    exact ⟨hlt, by rw [← partner_of_lt hlt, h]⟩

theorem getElem?_gatherCells {α : Type} {cells : Array α} {places : List Nat}
    {h : ∀ q ∈ places, q < cells.size} (i : Nat) :
    (gatherCells cells places h)[i]? = places[i]?.bind fun q => cells[q]? := by
  induction places generalizing i with
  | nil => rfl
  | cons q places ih =>
      cases i with
      | zero => simp [gatherCells, h q]
      | succ i => exact ih i

theorem getElem?_gather {α : Type} {register : List α} (h : register.length = p.length)
    {lane : Nat} (hlane : lane < p.length) :
    (p.gather register h)[lane]? = register[p.partner lane]? := by
  rw [gather, getElem?_gatherCells, List.getElem?_eq_getElem hlane, partner_of_lt hlane]
  exact List.getElem?_toArray

private theorem foldlM_insert (lanes : List (Nat × Nat)) (s : LaneSet)
    (h : ∀ x ∈ lanes, x.2 < 64) :
    ∃ s', lanes.foldlM (fun s (_, lane) => s.insert lane) s = .ok s' ∧
      ∀ i, s'.contains i = (s.contains i || lanes.any fun x => i == x.2) := by
  induction lanes generalizing s with
  | nil => exact ⟨s, rfl, fun i => by simp⟩
  | cons x lanes ih =>
    have hinsert : s.insert x.2 = .ok ⟨s.bits ||| 2 ^ x.2⟩ := if_pos (h x (by simp))
    obtain ⟨s', hrest, hcontains⟩ := ih ⟨s.bits ||| 2 ^ x.2⟩ fun y hy => h y (by simp [hy])
    refine ⟨s', ?_, fun i => ?_⟩
    · rw [List.foldlM_cons]
      show (s.insert x.2 >>= _) = _
      rw [hinsert]
      exact hrest
    · rw [hcontains, LaneSet.contains_insert hinsert, List.any_cons, Bool.or_assoc]

theorem lowerLanes_eq_ok (h : ∀ lane, lane < p.partner lane → lane < 64) :
    ∃ s, p.lowerLanes = .ok s ∧ ∀ lane, s.contains lane = decide (lane < p.partner lane) := by
  have hlow : ∀ x ∈ p.pairs.filter (fun (q, lane) => lane < q), x.2 < 64 := by
    rintro ⟨q, lane⟩ hmem
    rw [List.mem_filter] at hmem
    obtain ⟨_, rfl⟩ := mem_pairs.1 hmem.1
    exact h lane (of_decide_eq_true hmem.2)
  obtain ⟨s, hs, hcontains⟩ := foldlM_insert _ LaneSet.empty hlow
  refine ⟨s, hs, fun lane => ?_⟩
  rw [hcontains, LaneSet.contains_empty, Bool.false_or, Bool.eq_iff_iff, List.any_eq_true,
    decide_eq_true_iff]
  constructor
  · rintro ⟨⟨q, lane'⟩, hmem, heq⟩
    obtain rfl : lane = lane' := beq_iff_eq.1 heq
    rw [List.mem_filter] at hmem
    obtain ⟨_, rfl⟩ := mem_pairs.1 hmem.1
    exact of_decide_eq_true hmem.2
  · intro hlane
    refine ⟨(p.partner lane, lane), ?_, beq_self_eq_true lane⟩
    rw [List.mem_filter]
    refine ⟨mem_pairs.2 ⟨?_, rfl⟩, decide_eq_true hlane⟩
    by_cases hlt : lane < p.length
    · exact hlt
    · rw [partner_of_le (by omega)] at hlane
      exact absurd hlane (Nat.lt_irrefl _)

theorem build_eq_ok {lanes : Nat} {f : Nat → Nat} {h : ∀ i < lanes, f i % cellSize < lanes}
    (hlanes : lanes < 2 ^ 63) : build lanes f h = .ok (ofFn lanes f h) := by
  rw [build, Memory.reserve_addressable (by omega)]
  rfl

theorem partner_ofFn {lanes : Nat} {f : Nat → Nat} {h : ∀ i < lanes, f i % cellSize < lanes}
    {lane : Nat} (hlane : lane < lanes) : (ofFn lanes f h).partner lane = f lane % cellSize := by
  rw [partner_of_lt (show lane < (ofFn lanes f h).length by rwa [length_ofFn])]
  simp [ofFn]

section PowerOfTwo

variable {size e : Nat}

theorem two_pow_le_of_le_six (h : size ≤ 6) : 2 ^ size ≤ 64 :=
  Nat.pow_le_pow_right (by omega : 0 < 2) h

theorem isPowerOfTwo_two_pow (size : Nat) : (2 ^ size).isPowerOfTwo := ⟨size, rfl⟩

theorem two_pow_le_cellSize (h : size ≤ 8) : 2 ^ size ≤ cellSize :=
  Nat.pow_le_pow_right (by omega : 0 < 2) h

/-- In a register of at most 256 lanes nothing is lost to the storage of partners. -/
theorem xor_mod_cellSize {lane mask : Nat} (hsize : size ≤ 8) (hlane : lane < 2 ^ size)
    (hmask : mask < 2 ^ size) : (lane ^^^ mask) % cellSize = lane ^^^ mask := by
  exact Nat.mod_eq_of_lt ((Nat.xor_lt_two_pow hlane hmask).trans_le (two_pow_le_cellSize hsize))

theorem partner_partner_of_xor {mask : Nat} (hlength : p.length = 2 ^ size)
    (hmask : mask < 2 ^ size) (hpartner : ∀ lane < 2 ^ size, p.partner lane = lane ^^^ mask)
    (lane : Nat) : p.partner (p.partner lane) = lane := by
  by_cases hlane : lane < 2 ^ size
  · rw [hpartner lane hlane, hpartner _ (Nat.xor_lt_two_pow hlane hmask),
      Nat.xor_xor_cancel_right]
  · have hself := partner_of_le (show p.length ≤ lane by omega)
    rw [hself, hself]

theorem exists_build_xor {mask : Nat} (hsize : size ≤ 8) (hmask : mask < 2 ^ size)
    {h : ∀ i < 2 ^ size, (i ^^^ mask) % cellSize < 2 ^ size} :
    ∃ p, build (2 ^ size) (· ^^^ mask) h = .ok p ∧ p.length = 2 ^ size ∧
      ∀ lane < 2 ^ size, p.partner lane = lane ^^^ mask := by
  have hle : 2 ^ size ≤ 256 := two_pow_le_cellSize hsize
  refine ⟨_, build_eq_ok (by omega), length_ofFn, fun lane hlane => ?_⟩
  rw [partner_ofFn hlane, xor_mod_cellSize hsize hlane hmask]

theorem atDistance_eq_ok (hsize : size ≤ 8) (he : e < size) :
    ∃ p, atDistance (2 ^ size) (Nat.pow 2 e) = .ok p ∧ p.length = 2 ^ size ∧
      ∀ lane < 2 ^ size, p.partner lane = lane ^^^ 2 ^ e := by
  have hlt : 2 ^ e < 2 ^ size := Nat.pow_lt_pow_right (by omega) he
  rw [Nat.pow_eq, atDistance, dif_pos (isPowerOfTwo_two_pow size),
    dif_pos ⟨isPowerOfTwo_two_pow e, hlt⟩]
  exact exists_build_xor hsize hlt

theorem folded_eq_ok (hsize : size ≤ 8) (he : e < size) :
    ∃ p, folded (2 ^ size) (Nat.pow 2 (e + 1)) = .ok p ∧ p.length = 2 ^ size ∧
      ∀ lane < 2 ^ size, p.partner lane = lane ^^^ (2 ^ (e + 1) - 1) := by
  have hblock : 2 ^ (e + 1) ≤ 2 ^ size := Nat.pow_le_pow_right (by omega) he
  have htwo : 2 ^ (e + 1) = 2 * 2 ^ e := by rw [Nat.pow_succ, Nat.mul_comm]
  have hpos := Nat.two_pow_pos e
  rw [Nat.pow_eq, folded, dif_pos (isPowerOfTwo_two_pow size),
    dif_pos ⟨isPowerOfTwo_two_pow (e + 1), by omega, hblock⟩]
  exact exists_build_xor hsize (by omega)

end PowerOfTwo

end Pairing

end Bitonic
