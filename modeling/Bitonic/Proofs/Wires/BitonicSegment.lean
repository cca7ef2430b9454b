import Bitonic.Proofs.Wires.Exchange
import Mathlib.Data.Nat.Basic
/-!
# Bitonic segments and half-cleaners

A segment of wires is bitonic if, going once around it, the numbers rise once and fall once.  The
form used here speaks of four wires only: no two wires that take turns with two others are both
below them.  It does not change under rotation, and holds of every part of a bitonic segment.

A half-cleaner compares wire `t` of the lower half with wire `t` of the upper half.

* `HalfCleaned.isBitonic_low`, `HalfCleaned.isBitonic_high` — both halves are bitonic again;
* `HalfCleaned.separated` — and the lower half stands before the upper one;
* `Mergeable.halves` — the same for a segment that is bitonic only once it is filled up at its end
  with a number that comes last, where the half-cleaner leaves out the filling.
-/

namespace Bitonic

namespace Wires

variable {d : Direction} {v w : Wires} {start count half : Nat}

def Below (v : Wires) (i k j l : Nat) : Prop := v i < v j ∧ v i < v l ∧ v k < v j ∧ v k < v l

/-- Going once around the segment, the numbers rise once and fall once. -/
def IsBitonic (v : Wires) (start count : Nat) : Prop :=
  ∀ i j k l, start ≤ i → i < j → j < k → k < l → l < start + count →
    ¬ Below v i k j l ∧ ¬ Below v j l i k

theorem IsBitonic.part {start' count' : Nat} (h : IsBitonic v start count)
    (hstart : start ≤ start') (hstop : start' + count' ≤ start + count) :
    IsBitonic v start' count' := by
  intro i j k l hi hij hjk hkl hl
  exact h i j k l (by omega) hij hjk hkl (by omega)

theorem IsBitonic.congr (h : IsBitonic v start count)
    (hw : ∀ p, start ≤ p → p < start + count → w p = v p) : IsBitonic w start count := by
  intro i j k l hi hij hjk hkl hl
  unfold Below
  rw [hw i hi (by omega), hw j (by omega) (by omega), hw k (by omega) (by omega),
    hw l (by omega) hl]
  exact h i j k l hi hij hjk hkl hl

theorem IsBitonic.reversed (h : IsBitonic v start count)
    (hw : ∀ p, start ≤ p → p < start + count → w p = v (2 * start + count - 1 - p)) :
    IsBitonic w start count := by
  intro i j k l hi hij hjk hkl hl
  have hback := h (2 * start + count - 1 - l) (2 * start + count - 1 - k)
    (2 * start + count - 1 - j) (2 * start + count - 1 - i)
    (by omega) (by omega) (by omega) (by omega) (by omega)
  rw [Below, Below, ← hw i hi (by omega), ← hw j (by omega) (by omega),
    ← hw k (by omega) (by omega), ← hw l (by omega) hl] at hback
  unfold Below
  omega

theorem isBitonic_of_runs {mid : Nat} (hagainst : Ordered d.reverse v start mid)
    (halong : Ordered d v (start + mid) (count - mid)) : IsBitonic v start count := by
  intro i j k l hi hij hjk hkl hl
  unfold Below
  have hfall : ∀ p q, start ≤ p → p ≤ q → q < start + mid → d.Before (v q) (v p) :=
    fun p q hp hpq hq => Direction.before_reverse.1 (hagainst p q hp hpq hq)
  have hrise : ∀ p q, start + mid ≤ p → p ≤ q → q < start + count → d.Before (v p) (v q) :=
    fun p q hp hpq hq => halong p q hp hpq (by omega)
  -- the one turn lies before or behind each of the two inner wires
  have hj : d.Before (v j) (v i) ∨ d.Before (v j) (v k) := by
    by_cases h : j < start + mid
    · exact Or.inl (hfall i j hi (by omega) h)
    · exact Or.inr (hrise j k (by omega) (by omega) (by omega))
  have hk : d.Before (v k) (v j) ∨ d.Before (v k) (v l) := by
    by_cases h : k < start + mid
    · exact Or.inl (hfall j k (by omega) (by omega) h)
    · exact Or.inr (hrise k l (by omega) (by omega) hl)
  cases d <;> simp only [Direction.Before] at hj hk <;> omega

/-- Four wires that spoil the minima lead back to four wires that spoil the whole: the two that are
above bring both wires of their pairs, the two that are below one wire each. -/
private theorem isBitonic_min (hv : IsBitonic v start (half + half))
    (hw : ∀ p, start ≤ p → p < start + half → w p = min (v p) (v (p + half))) :
    IsBitonic w start half := by
  intro i j k l hi hij hjk hkl hl
  have hle : ∀ p, start ≤ p → p < start + half → w p ≤ v p ∧ w p ≤ v (p + half) := by
    intro p hp hp'
    rw [hw p hp hp']
    exact ⟨Int.min_le_left _ _, Int.min_le_right _ _⟩
  have heq : ∀ p, start ≤ p → p < start + half → w p = v p ∨ w p = v (p + half) := by
    intro p hp hp'
    rw [hw p hp hp']
    omega
  have hwi := hle i hi (by omega)
  have hwj := hle j (by omega) (by omega)
  have hwk := hle k (by omega) (by omega)
  have hwl := hle l (by omega) hl
  constructor
  · rintro ⟨hij', hil', hkj', hkl'⟩
    rcases heq i hi (by omega) with hi' | hi' <;>
      rcases heq k (by omega) (by omega) with hk' | hk'
    · exact (hv i j k l hi hij hjk hkl (by omega)).1 (by unfold Below; omega)
    · exact (hv i j (k + half) (l + half) hi hij (by omega) (by omega) (by omega)).1
        (by unfold Below; omega)
    · exact (hv k l (i + half) (j + half) (by omega) hkl (by omega) (by omega) (by omega)).1
        (by unfold Below; omega)
    · exact (hv (i + half) (j + half) (k + half) (l + half) (by omega) (by omega) (by omega)
        (by omega) (by omega)).1 (by unfold Below; omega)
  · rintro ⟨hji', hjk', hli', hlk'⟩
    rcases heq j (by omega) (by omega) with hj' | hj' <;>
      rcases heq l (by omega) hl with hl' | hl'
    · exact (hv i j k l hi hij hjk hkl (by omega)).2 (by unfold Below; omega)
    · exact (hv i j k (l + half) hi hij hjk (by omega) (by omega)).2 (by unfold Below; omega)
    · exact (hv l (i + half) (j + half) (k + half) (by omega) (by omega) (by omega) (by omega)
        (by omega)).1 (by unfold Below; omega)
    · exact (hv (i + half) (j + half) (k + half) (l + half) (by omega) (by omega) (by omega)
        (by omega) (by omega)).2 (by unfold Below; omega)

theorem IsBitonic.neg (h : IsBitonic v start count) : IsBitonic (fun p => -v p) start count := by
  intro i j k l hi hij hjk hkl hl
  have hv := h i j k l hi hij hjk hkl hl
  simp only [Below, Int.neg_lt_neg_iff] at hv ⊢
  omega

private theorem isBitonic_max (hv : IsBitonic v start (half + half))
    (hw : ∀ p, start ≤ p → p < start + half → w p = max (v p) (v (p + half))) :
    IsBitonic w start half := by
  have hneg : IsBitonic (fun p => -w p) start half := by
    apply isBitonic_min hv.neg
    intro p hp hp'
    have := hw p hp hp'
    omega
  exact hneg.neg.congr fun p _ _ => (Int.neg_neg (w p)).symm

theorem IsBitonic.shifted {offset : Nat} (h : IsBitonic (fun p => v (p + offset)) start count) :
    IsBitonic v (start + offset) count := by
  intro i j k l hi hij hjk hkl hl
  have hback := h (i - offset) (j - offset) (k - offset) (l - offset) (by omega) (by omega)
    (by omega) (by omega) (by omega)
  simp only [Below, show i - offset + offset = i by omega, show j - offset + offset = j by omega,
    show k - offset + offset = k by omega, show l - offset + offset = l by omega] at hback
  exact hback

theorem IsBitonic.fromStart (h : IsBitonic v start count) :
    IsBitonic (fun t => v (start + t)) 0 count := by
  intro i j k l hi hij hjk hkl hl
  exact h (start + i) (start + j) (start + k) (start + l) (by omega) (by omega) (by omega)
    (by omega) (by omega)

/-- What a half-cleaner makes of the numbers. -/
structure HalfCleaned (d : Direction) (v w : Wires) (start half : Nat) : Prop where
  low : ∀ p, start ≤ p → p < start + half → w p = d.first (v p) (v (p + half))
  high : ∀ p, start ≤ p → p < start + half → w (p + half) = d.last (v p) (v (p + half))

namespace HalfCleaned

theorem isBitonic_low (h : HalfCleaned d v w start half)
    (hv : IsBitonic v start (half + half)) : IsBitonic w start half := by
  cases d
  · exact isBitonic_min hv h.low
  · exact isBitonic_max hv h.low

theorem isBitonic_high (h : HalfCleaned d v w start half)
    (hv : IsBitonic v start (half + half)) : IsBitonic w (start + half) half := by
  apply IsBitonic.shifted
  cases d
  · exact isBitonic_max hv h.high
  · exact isBitonic_min hv h.high

/-- Otherwise the two wires out of order and their partners would spoil the whole. -/
theorem separated (h : HalfCleaned d v w start half) (hv : IsBitonic v start (half + half)) :
    Separated d w start half (start + half) half := by
  intro p q hp hp' hq hq'
  obtain ⟨r, rfl⟩ : ∃ r, q = r + half := ⟨q - half, by omega⟩
  have hlow := h.low p hp hp'
  have hhigh := h.high r (by omega) (by omega)
  rcases Nat.lt_trichotomy p r with hlt | rfl | hgt
  · have hspoil := hv p r (p + half) (r + half) hp hlt (by omega) (by omega) (by omega)
    unfold Below at hspoil
    cases d <;> simp only [Direction.first, Direction.last, Direction.Before] at * <;> omega
  · cases d <;> simp only [Direction.first, Direction.last, Direction.Before] at * <;> omega
  · have hspoil := hv r p (r + half) (p + half) (by omega) hgt (by omega) (by omega) (by omega)
    unfold Below at hspoil
    cases d <;> simp only [Direction.first, Direction.last, Direction.Before] at * <;> omega

end HalfCleaned

/-! ## Segments that are filled up -/

/-- The wires before `stop`, and a number on all others. -/
def filled (v : Wires) (stop : Nat) (pad : Int) : Wires := fun p => if p < stop then v p else pad

/-- Filled up at its end to `room` wires with a number that comes last, the segment is bitonic. -/
def Mergeable (d : Direction) (v : Wires) (start count room : Nat) : Prop :=
  ∃ pad, (∀ p, start ≤ p → p < start + count → d.Before (v p) pad) ∧
    IsBitonic (filled v (start + count) pad) start room

theorem filled_of_lt {stop p : Nat} {pad : Int} (h : p < stop) : filled v stop pad p = v p :=
  if_pos h

theorem filled_of_le {stop p : Nat} {pad : Int} (h : stop ≤ p) : filled v stop pad p = pad :=
  if_neg (by omega)

theorem Mergeable.of_le {room room' : Nat} (h : Mergeable d v start count room)
    (hroom : room' ≤ room) : Mergeable d v start count room' := by
  obtain ⟨pad, hpad, hv⟩ := h
  exact ⟨pad, hpad, hv.part (Nat.le_refl _) (by omega)⟩

theorem Mergeable.congr {room : Nat} (h : Mergeable d v start count room)
    (hw : ∀ p, start ≤ p → p < start + count → w p = v p) : Mergeable d w start count room := by
  obtain ⟨pad, hpad, hv⟩ := h
  refine ⟨pad, ?_, hv.congr ?_⟩
  · intro p hp hp'
    rw [hw p hp hp']
    exact hpad p hp hp'
  · intro p hp _
    by_cases hlt : p < start + count
    · rw [filled_of_lt hlt, filled_of_lt hlt, hw p hp hlt]
    · rw [filled_of_le (by omega), filled_of_le (by omega)]

theorem exists_last (d : Direction) (v : Wires) (start count : Nat) :
    ∃ pad, ∀ p, start ≤ p → p < start + count → d.Before (v p) pad := by
  induction count with
  | zero => exact ⟨0, fun p hp hp' => by omega⟩
  | succ count ih =>
    obtain ⟨pad, hpad⟩ := ih
    rcases d.before_total (v (start + count)) pad with hlast | hlast
    · refine ⟨pad, fun p hp hp' => ?_⟩
      by_cases h : p = start + count
      · rwa [h]
      · exact hpad p hp (by omega)
    · refine ⟨v (start + count), fun p hp hp' => ?_⟩
      by_cases h : p = start + count
      · rw [h]
        exact d.before_refl _
      · exact Direction.before_trans (hpad p hp (by omega)) hlast

theorem IsBitonic.mergeable (h : IsBitonic v start count) (d : Direction) :
    Mergeable d v start count count := by
  obtain ⟨pad, hpad⟩ := exists_last d v start count
  exact ⟨pad, hpad, h.congr fun p _ hp' => filled_of_lt hp'⟩

theorem Mergeable.isBitonic {room : Nat} (h : Mergeable d v start count room)
    (hroom : count ≤ room) : IsBitonic v start count := by
  obtain ⟨pad, _, hv⟩ := h
  exact (hv.part (Nat.le_refl _) (by omega)).congr fun p _ hp' => (filled_of_lt hp').symm

theorem mergeable_of_runs {mid room : Nat} (hmid : mid ≤ count)
    (hagainst : Ordered d.reverse v start mid)
    (halong : Ordered d v (start + mid) (count - mid)) : Mergeable d v start count room := by
  obtain ⟨pad, hpad⟩ := exists_last d v start count
  have hagainst' : Ordered d.reverse (filled v (start + count) pad) start mid :=
    hagainst.congr fun p _ hp' => filled_of_lt (by omega)
  have halong' : Ordered d (filled v (start + count) pad) (start + mid) (room - mid) := by
    intro p q hp hpq hq
    by_cases hqc : q < start + count
    · rw [filled_of_lt (by omega), filled_of_lt hqc]
      exact halong p q hp hpq (by omega)
    · rw [filled_of_le (by omega : start + count ≤ q)]
      by_cases hpc : p < start + count
      · rw [filled_of_lt hpc]
        exact hpad p (by omega) hpc
      · rw [filled_of_le (by omega)]
        exact d.before_refl _
  exact ⟨pad, hpad, isBitonic_of_runs hagainst' halong'⟩

/-- What a half-cleaner makes of a segment whose upper half is not full: wires whose partner would
be filling keep their numbers. -/
structure PartHalfCleaned (d : Direction) (v w : Wires) (start count half : Nat) : Prop where
  low : ∀ p, start ≤ p → p + half < start + count → w p = d.first (v p) (v (p + half))
  alone : ∀ p, p < start + half → start + count ≤ p + half → w p = v p
  high : ∀ p, start ≤ p → p + half < start + count → w (p + half) = d.last (v p) (v (p + half))

theorem PartHalfCleaned.halfCleaned {pad : Int} (h : PartHalfCleaned d v w start count half)
    (hhalf : half ≤ count)
    (hpad : ∀ p, start ≤ p → p < start + count → d.Before (v p) pad) :
    HalfCleaned d (filled v (start + count) pad) (filled w (start + count) pad) start half := by
  constructor <;> intro p hp hp'
  all_goals rw [filled_of_lt (v := v) (by omega : p < start + count)]
  · rw [filled_of_lt (by omega)]
    by_cases hq : p + half < start + count
    · rw [filled_of_lt hq]
      exact h.low p hp hq
    · rw [filled_of_le (by omega), h.alone p hp' (by omega), Direction.first_eq,
        if_pos (hpad p hp (by omega))]
  · by_cases hq : p + half < start + count
    · rw [filled_of_lt hq, filled_of_lt hq]
      exact h.high p hp hq
    · rw [filled_of_le (by omega), filled_of_le (by omega), Direction.last_eq,
        if_pos (hpad p hp (by omega))]

/-- After a half-cleaner the lower half is bitonic, the rest can be filled up to a full half, and
the lower half stands before the rest. -/
theorem Mergeable.halves (hv : Mergeable d v start count (half + half))
    (h : PartHalfCleaned d v w start count half) (hhalf : half ≤ count)
    (hcount : count ≤ half + half) :
    IsBitonic w start half ∧ Mergeable d w (start + half) (count - half) half ∧
      Separated d w start half (start + half) (count - half) := by
  obtain ⟨pad, hpad, hbitonic⟩ := hv
  have hclean := h.halfCleaned hhalf hpad
  have hsep := hclean.separated hbitonic
  have hstop : start + half + (count - half) = start + count := by omega
  refine ⟨?_, ⟨pad, ?_, ?_⟩, ?_⟩
  · exact (hclean.isBitonic_low hbitonic).congr fun p _ hp' => (filled_of_lt (by omega)).symm
  · intro p hp hp'
    obtain ⟨q, rfl⟩ : ∃ q, p = q + half := ⟨p - half, by omega⟩
    rw [h.high q (by omega) (by omega), Direction.last_eq]
    split
    · exact hpad _ (by omega) (by omega)
    · exact hpad _ (by omega) (by omega)
  · rw [hstop]
    exact hclean.isBitonic_high hbitonic
  · intro p q hp hp' hq hq'
    have hpq := hsep p q hp hp' hq (by omega)
    rwa [filled_of_lt (by omega), filled_of_lt (by omega)] at hpq

end Wires

end Bitonic
