import Bitonic.Proofs.Scalar.Arranged
import Bitonic.Proofs.Wires.BitonicSegment
import Mathlib.Data.List.Rotate
/-!
# Lists of lane values on wires

A list of lane values is laid on wires by its ranks.  What lists and segments of wires say about
order, occurrence and bitonicity is the same:

* `arranged_of_wires` — a list whose wires are in order and permuted is the other list arranged;
* `MergerInput.mergeable` — a list that is bitonic around, after padding with a number that comes
  last, is mergeable on the wires.
-/

namespace Bitonic

namespace Wires

variable {d : Direction} {v w : Wires} {start count : Nat}

theorem pairwise_values : (values v start count).Pairwise d.Before ↔ Ordered d v start count := by
  rw [values, List.pairwise_map, List.pairwise_iff_getElem]
  simp only [List.length_range', List.getElem_range', Nat.one_mul]
  constructor
  · intro h p q hp hpq hq
    rcases Nat.eq_or_lt_of_le hpq with rfl | hlt
    · exact d.before_refl _
    · have hget := h (p - start) (q - start) (by omega) (by omega) (by omega)
      rwa [show start + (p - start) = p by omega, show start + (q - start) = q by omega] at hget
  · intro h i j hi hj hij
    exact h _ _ (by omega) (by omega) (by omega)

theorem IsBitonic.rotated {shift : Nat} (h : IsBitonic w 0 count) (hshift : shift ≤ count)
    (hlow : ∀ p, p + shift < count → v p = w (p + shift))
    (hhigh : ∀ p, p < count → count ≤ p + shift → v p = w (p + shift - count)) :
    IsBitonic v 0 count := by
  -- each wire behind the turning point comes to stand before all that are not
  have hv : ∀ p, p < count → ∃ q, v p = w q ∧ q < count ∧
      (p + shift < count ∧ q = p + shift ∨ count ≤ p + shift ∧ q + count = p + shift) := by
    intro p hp
    by_cases hps : p + shift < count
    · exact ⟨_, hlow p hps, hps, Or.inl ⟨hps, rfl⟩⟩
    · exact ⟨_, hhigh p hp (by omega), by omega, Or.inr ⟨by omega, by omega⟩⟩
  intro i j k l hi hij hjk hkl hl
  obtain ⟨i', hi', hi'c, hir⟩ := hv i (by omega)
  obtain ⟨j', hj', hj'c, hjr⟩ := hv j (by omega)
  obtain ⟨k', hk', hk'c, hkr⟩ := hv k (by omega)
  obtain ⟨l', hl', hl'c, hlr⟩ := hv l (by omega)
  unfold Below
  rw [hi', hj', hk', hl']
  by_cases h1 : l + shift < count
  · have hw := h i' j' k' l' (by omega) (by omega) (by omega) (by omega) (by omega)
    unfold Below at hw
    omega
  by_cases h2 : k + shift < count
  · have hw := h l' i' j' k' (by omega) (by omega) (by omega) (by omega) (by omega)
    unfold Below at hw
    omega
  by_cases h3 : j + shift < count
  · have hw := h k' l' i' j' (by omega) (by omega) (by omega) (by omega) (by omega)
    unfold Below at hw
    omega
  by_cases h4 : i + shift < count
  · have hw := h j' k' l' i' (by omega) (by omega) (by omega) (by omega) (by omega)
    unfold Below at hw
    omega
  · have hw := h i' j' k' l' (by omega) (by omega) (by omega) (by omega) (by omega)
    unfold Below at hw
    omega

end Wires

namespace Scalar

variable {α : Type} [Scalar α]

/-- Some rotation of the values rises and then falls. -/
def IsBitonic (values : List α) : Prop :=
  ∃ shift top, ((values.rotate shift).take top).Pairwise (fun a b => noLater .ascending a b = true) ∧
    ((values.rotate shift).drop top).Pairwise (fun a b => noLater .descending a b = true)

/-- Filled up to `room` values with a number that comes after all of them, the values are
bitonic. -/
def MergerInput (d : Direction) (values : List α) (room : Nat) : Prop :=
  ∃ pad, IsNumber pad ∧ (∀ a ∈ values, noLater d a pad = true) ∧
    IsBitonic (values ++ List.replicate (room - values.length) pad)

variable [Ranked α]

open Ranked (rank)

def wires (values : List α) : Wires := fun p => (values.map rank).getD p 0

theorem wires_of_lt {values : List α} {p : Nat} (h : p < values.length) :
    wires values p = rank values[p] := by
  simp [wires, h]

theorem wires_of_getElem? {values : List α} {p : Nat} {a : α} (h : values[p]? = some a) :
    wires values p = rank a := by
  simp [wires, h]

theorem values_wires (values : List α) :
    (wires values).values 0 values.length = values.map rank := by
  apply List.ext_getElem
  · simp [Wires.values]
  · intro p _ hp
    have hp' : p < values.length := by simpa using hp
    simp [Wires.values, wires_of_lt hp']

theorem ordered_wires_iff {d : Direction} {values : List α} (h : ∀ a ∈ values, IsNumber a) :
    (values.Pairwise fun a b => noLater d a b = true) ↔
      (wires values).Ordered d 0 values.length := by
  rw [pairwise_noLater_iff h, ← Wires.pairwise_values, values_wires]

theorem arranged_of_wires {d : Direction} {input output : List α}
    (hin : ∀ a ∈ input, IsNumber a) (hout : ∀ a ∈ output, IsNumber a)
    (hlength : output.length = input.length)
    (hordered : (wires output).Ordered d 0 input.length)
    (hperm : ((wires output).values 0 input.length).Perm ((wires input).values 0 input.length)) :
    Arranged d input output := by
  rw [← hlength, ← Wires.pairwise_values, values_wires] at hordered
  rw [values_wires, ← hlength, values_wires] at hperm
  exact (arranged_iff_ranks hin hout).2 ⟨hordered, hperm⟩

theorem wires_append_left {front back : List α} {p : Nat} (h : p < front.length) :
    wires (front ++ back) p = wires front p := by
  simp [wires, List.getElem?_append_left, h]

theorem wires_append_right (front back : List α) (p : Nat) :
    wires (front ++ back) (front.length + p) = wires back p := by
  simp [wires, List.getElem?_append_right]

theorem ordered_runs {d d' : Direction} {front back : List α}
    (hfront : front.Pairwise fun a b => noLater d a b = true)
    (hback : back.Pairwise fun a b => noLater d' a b = true)
    (hnum : ∀ a ∈ front ++ back, IsNumber a) :
    (wires (front ++ back)).Ordered d 0 front.length ∧
      (wires (front ++ back)).Ordered d' (0 + front.length)
        ((front ++ back).length - front.length) := by
  have hfront' := (ordered_wires_iff fun a ha => hnum a (List.mem_append_left _ ha)).1 hfront
  have hback' := (ordered_wires_iff fun a ha => hnum a (List.mem_append_right _ ha)).1 hback
  constructor
  · exact hfront'.congr fun p _ hp => wires_append_left (by omega)
  · intro p q hp hpq hq
    rw [List.length_append] at hq
    obtain ⟨p', rfl⟩ : ∃ p', p = front.length + p' := ⟨p - front.length, by omega⟩
    obtain ⟨q', rfl⟩ : ∃ q', q = front.length + q' := ⟨q - front.length, by omega⟩
    rw [wires_append_right, wires_append_right]
    exact hback' p' q' (by omega) (by omega) (by omega)

omit [Scalar α] [Ranked α] in
theorem rotate_back (values : List α) (shift : Nat) :
    (values.rotate shift).rotate (values.length - shift % values.length) = values := by
  rcases Nat.eq_zero_or_pos values.length with hzero | hpos
  · simp [List.length_eq_zero_iff.1 hzero]
  · have hmod := Nat.mod_add_div shift values.length
    have hlt := Nat.mod_lt shift hpos
    have hturns : shift + (values.length - shift % values.length) =
        values.length * (shift / values.length + 1) := by
      rw [Nat.mul_succ]
      omega
    rw [List.rotate_rotate, ← List.rotate_mod, hturns, Nat.mul_mod_right, List.rotate_zero]

theorem wires_rotate (values : List α) (shift : Nat) {p : Nat} (hp : p < values.length) :
    wires (values.rotate shift) p = wires values ((p + shift) % values.length) := by
  have hlt : (p + shift) % values.length < values.length := Nat.mod_lt _ (by omega)
  rw [wires_of_lt hlt, wires_of_lt (by rwa [List.length_rotate]), List.getElem_rotate]

theorem IsBitonic.wires {values : List α} (h : IsBitonic values)
    (hnum : ∀ a ∈ values, IsNumber a) : (wires values).IsBitonic 0 values.length := by
  obtain ⟨shift, top, hrise, hfall⟩ := h
  have hturned : ∀ a ∈ values.rotate shift, IsNumber a :=
    fun a ha => hnum a (List.mem_rotate.1 ha)
  have hsplit := List.take_append_drop top (values.rotate shift)
  obtain ⟨hup, hdown⟩ := ordered_runs hrise hfall (by rwa [hsplit])
  rw [hsplit] at hup hdown
  have hbitonic := Wires.isBitonic_of_runs (d := .descending) hup hdown
  rw [List.length_rotate] at hbitonic
  have hget : ∀ p, p < values.length → Scalar.wires values p = Scalar.wires (values.rotate shift)
      ((p + (values.length - shift % values.length)) % values.length) := by
    intro p hp
    have hback := wires_rotate (values.rotate shift)
      (values.length - shift % values.length) (by rwa [List.length_rotate])
    rwa [rotate_back, List.length_rotate] at hback
  apply hbitonic.rotated (Nat.sub_le _ (shift % values.length))
  · intro p hp
    rw [hget p (by omega), Nat.mod_eq_of_lt hp]
  · intro p hp hp'
    rw [hget p hp, Nat.mod_eq_sub_mod hp', Nat.mod_eq_of_lt (by omega)]

theorem MergerInput.mergeable {d : Direction} {values : List α} {room : Nat}
    (h : MergerInput d values room) (hnum : ∀ a ∈ values, IsNumber a)
    (hroom : values.length ≤ room) :
    (Scalar.wires values).Mergeable d 0 values.length room := by
  obtain ⟨pad, hpad, hlast, hbitonic⟩ := h
  have hfilled := hbitonic.wires fun a ha => (List.mem_append.1 ha).elim (hnum a) fun ha => by
    rw [List.eq_of_mem_replicate ha]
    exact hpad
  rw [List.length_append, List.length_replicate, Nat.add_sub_cancel' hroom] at hfilled
  refine ⟨rank pad, ?_, hfilled.congr ?_⟩
  · intro p _ hp
    rw [Nat.zero_add] at hp
    rw [wires_of_lt hp]
    have hmem : values[p] ∈ values := List.getElem_mem hp
    exact (noLater_iff_before (hnum _ hmem) hpad).1 (hlast _ hmem)
  · intro p _ hp
    rw [Nat.zero_add]
    by_cases hlow : p < values.length
    · rw [Wires.filled_of_lt hlow, wires_append_left hlow]
    · rw [Wires.filled_of_le (by omega)]
      obtain ⟨q, rfl⟩ : ∃ q, p = values.length + q := ⟨p - values.length, by omega⟩
      rw [wires_append_right, wires_of_lt (by simp; omega), List.getElem_replicate]

end Scalar

end Bitonic
