import Bitonic.Proofs.RegisterNetwork.Shape
/-!
# What the single-register networks do

The lanes of a register are wires.  A cleaning orders every block whose numbers are bitonic, and a
sorting every block, each by induction on the exchanges.  Blocks start at a multiple of their size,
so an exclusive or with a smaller mask stays inside.

* `Cleaning.ordered` — a cleaning is a half-cleaner followed by the cleaning of both halves;
* `Sorting.ordered` — a fold compares a block whose halves are in order as a half-cleaner would if
  the upper half stood in reverse;
* `Cleaning.perm`, `Sorting.perm` — the numbers of a block stay in it.
-/

namespace Bitonic

namespace Wires

variable {d : Direction} {v w : Wires} {start half : Nat}

def mirrored (v : Wires) (start half : Nat) : Wires := fun p =>
  if p < start + half then v p else v (2 * (start + half) + half - 1 - p)

/-- What a fold of a segment onto its mirror image makes of the numbers. -/
structure Folded (d : Direction) (v w : Wires) (start half : Nat) : Prop where
  low : ∀ t < half, w (start + t) = d.first (v (start + t)) (v (start + (2 * half - 1 - t)))
  high : ∀ t < half,
    w (start + (2 * half - 1 - t)) = d.last (v (start + t)) (v (start + (2 * half - 1 - t)))

theorem Folded.halfCleaned (h : Folded d v w start half) :
    HalfCleaned d (mirrored v start half) (mirrored w start half) start half := by
  constructor <;> intro p hp hp' <;> obtain ⟨t, rfl⟩ := Nat.exists_eq_add_of_le hp
  all_goals
    simp only [mirrored, if_pos hp', if_neg (show ¬ start + t + half < start + half by omega),
      show 2 * (start + half) + half - 1 - (start + t + half) = start + (2 * half - 1 - t) by omega]
  · exact h.low t (by omega)
  · exact h.high t (by omega)

/-- A fold of two halves in order leaves bitonic halves, the lower one before the upper one. -/
theorem Folded.halves (h : Folded d v w start half) (hlow : Ordered d v start half)
    (hhigh : Ordered d v (start + half) half) :
    IsBitonic w start half ∧ IsBitonic w (start + half) half ∧
      Separated d w start half (start + half) half := by
  have hbitonic : IsBitonic (mirrored v start half) start (half + half) := by
    refine isBitonic_of_runs (d := d.reverse) (?_ : Ordered _ _ start half) ?_
    · rw [Direction.reverse_reverse]
      exact hlow.congr fun p _ hp => if_pos hp
    · intro p q hp hpq hq
      rw [Direction.before_reverse, mirrored, mirrored, if_neg (by omega), if_neg (by omega)]
      exact hhigh _ _ (by omega) (by omega) (by omega)
  have hclean := h.halfCleaned
  have hback : ∀ p, start + half ≤ p → p < start + half + half →
      w p = mirrored w start half (2 * (start + half) + half - 1 - p) := by
    intro p hp hp'
    rw [mirrored, if_neg (by omega)]
    congr 1
    omega
  refine ⟨?_, ?_, ?_⟩
  · exact (hclean.isBitonic_low hbitonic).congr fun p _ hp => (if_pos hp).symm
  · exact (hclean.isBitonic_high hbitonic).reversed hback
  · intro p q hp hp' hq hq'
    have hsep := hclean.separated hbitonic p (2 * (start + half) + half - 1 - q) hp hp' (by omega)
      (by omega)
    rwa [mirrored, if_pos hp', ← hback q hq hq'] at hsep

end Wires

namespace Exchange

def onWires (x : Exchange) (v : Wires) : Wires := v.exchange x.direction x.pairing.partner

def allOnWires (xs : List Exchange) (v : Wires) : Wires := xs.foldl (fun v x => x.onWires v) v

theorem allOnWires_append (xs ys : List Exchange) (v : Wires) :
    allOnWires (xs ++ ys) v = allOnWires ys (allOnWires xs v) := List.foldl_append

variable {x : Exchange} {lanes e start mask : Nat} {d : Direction} {v : Wires}

theorem Follows.partner_add (h : x.Follows lanes d mask) (haligned : 2 ^ e ∣ start)
    (hroom : start + 2 ^ e ≤ lanes) (hmask : mask < 2 ^ e) {t : Nat} (ht : t < 2 ^ e) :
    x.pairing.partner (start + t) = start + (t ^^^ mask) := by
  rw [h.partner _ (by omega), xor_of_aligned haligned ht hmask]

theorem Follows.pairs (h : x.Follows lanes d mask) (haligned : 2 ^ e ∣ start)
    (hroom : start + 2 ^ e ≤ lanes) (hmask : mask < 2 ^ e) :
    Wires.Pairs x.pairing.partner start (2 ^ e) := by
  refine ⟨h.sound.twice, fun p hp hp' => ?_⟩
  obtain ⟨t, rfl⟩ := Nat.exists_eq_add_of_le hp
  have ht : t < 2 ^ e := by omega
  have hxor := Nat.xor_lt_two_pow ht hmask
  rw [h.partner_add haligned hroom hmask ht]
  omega

theorem Follows.halfCleaned (h : x.Follows lanes d (2 ^ e)) (haligned : 2 ^ (e + 1) ∣ start)
    (hroom : start + 2 ^ (e + 1) ≤ lanes) :
    Wires.HalfCleaned d v (x.onWires v) start (2 ^ e) := by
  have htwo : 2 ^ (e + 1) = 2 ^ e + 2 ^ e := by rw [Nat.pow_succ, Nat.mul_two]
  have hpos := Nat.two_pow_pos e
  have hpartner : ∀ t < 2 ^ e, x.pairing.partner (start + t) = start + t + 2 ^ e := by
    intro t ht
    rw [h.partner_add haligned hroom (by omega) (by omega), xor_two_pow ht]
    omega
  constructor <;> intro p hp hp' <;> obtain ⟨t, rfl⟩ := Nat.exists_eq_add_of_le hp
  · rw [onWires, h.direction]
    exact Wires.exchange_lower (hpartner t (by omega)) (by omega)
  · have hback : x.pairing.partner (start + t + 2 ^ e) = start + t := by
      rw [← hpartner t (by omega), h.sound.twice]
    rw [onWires, h.direction]
    exact Wires.exchange_upper hback (by omega)

theorem Follows.folded (h : x.Follows lanes d (2 ^ (e + 1) - 1)) (haligned : 2 ^ (e + 1) ∣ start)
    (hroom : start + 2 ^ (e + 1) ≤ lanes) : Wires.Folded d v (x.onWires v) start (2 ^ e) := by
  have htwo : 2 ^ (e + 1) = 2 * 2 ^ e := by rw [Nat.pow_succ, Nat.mul_comm]
  have hpos := Nat.two_pow_pos e
  have hpartner : ∀ t < 2 ^ e,
      x.pairing.partner (start + t) = start + (2 * 2 ^ e - 1 - t) := by
    intro t ht
    rw [h.partner_add haligned hroom (by omega) (by omega), xor_ones (by omega), htwo]
  constructor <;> intro t ht
  · rw [onWires, h.direction]
    exact Wires.exchange_lower (hpartner t ht) (by omega)
  · have hback : x.pairing.partner (start + (2 * 2 ^ e - 1 - t)) = start + t := by
      rw [← hpartner t ht, h.sound.twice]
    rw [onWires, h.direction]
    exact Wires.exchange_upper hback (by omega)

end Exchange

open Exchange (allOnWires)

variable {d : Direction} {lanes e start : Nat} {xs : List Exchange}

theorem Cleaning.perm (h : Cleaning lanes d e xs) {size : Nat} (hsize : e ≤ size)
    (haligned : 2 ^ size ∣ start) (hroom : start + 2 ^ size ≤ lanes) (v : Wires) :
    ((allOnWires xs v).values start (2 ^ size)).Perm (v.values start (2 ^ size)) := by
  induction h generalizing v with
  | nil => exact List.Perm.refl _
  | cons first rest ih =>
      rename_i e x xs
      have hmask : 2 ^ e < 2 ^ size := Nat.pow_lt_pow_right (by omega) (by omega)
      exact (ih (by omega) (x.onWires v)).trans
        (Wires.values_exchange_perm (first.pairs haligned hroom hmask))

theorem Cleaning.ordered (h : Cleaning lanes d e xs) (haligned : 2 ^ e ∣ start)
    (hroom : start + 2 ^ e ≤ lanes) {v : Wires} (hv : v.IsBitonic start (2 ^ e)) :
    (allOnWires xs v).Ordered d start (2 ^ e) := by
  induction h generalizing v start with
  | nil => exact Wires.ordered_one d _ start
  | cons first rest ih =>
      rename_i e x xs
      have htwo : 2 ^ (e + 1) = 2 ^ e + 2 ^ e := by rw [Nat.pow_succ, Nat.mul_two]
      have hclean := first.halfCleaned haligned hroom (v := v)
      have hlow : 2 ^ e ∣ start := (Nat.pow_dvd_pow 2 (Nat.le_succ e)).trans haligned
      have hhigh : 2 ^ e ∣ start + 2 ^ e := Nat.dvd_add hlow (Nat.dvd_refl _)
      rw [htwo] at hv hroom ⊢
      apply Wires.Ordered.append
      · exact ih hlow (by omega) (hclean.isBitonic_low hv)
      · exact ih hhigh (by omega) (hclean.isBitonic_high hv)
      · apply (hclean.separated hv).of_perm
        · exact rest.perm (Nat.le_refl e) hlow (by omega) _
        · exact rest.perm (Nat.le_refl e) hhigh (by omega) _

theorem Sorting.perm (h : Sorting lanes d e xs) {size : Nat} (hsize : e ≤ size)
    (haligned : 2 ^ size ∣ start) (hroom : start + 2 ^ size ≤ lanes) (v : Wires) :
    ((allOnWires xs v).values start (2 ^ size)).Perm (v.values start (2 ^ size)) := by
  induction h with
  | nil => exact List.Perm.refl _
  | snoc blocks fold cleaning ih =>
      rename_i e x xs ys
      have hle : 2 ^ (e + 1) ≤ 2 ^ size := Nat.pow_le_pow_right (by omega) hsize
      have hpos := Nat.two_pow_pos (e + 1)
      rw [Exchange.allOnWires_append]
      have hclean := cleaning.perm (by omega) haligned hroom (x.onWires (allOnWires xs v))
      have hfold := Wires.values_exchange_perm (d := x.direction) (v := allOnWires xs v)
        (fold.pairs haligned hroom (by omega))
      exact (hclean.trans hfold).trans (ih (by omega))

theorem Sorting.ordered (h : Sorting lanes d e xs) (haligned : 2 ^ e ∣ start)
    (hroom : start + 2 ^ e ≤ lanes) (v : Wires) :
    (allOnWires xs v).Ordered d start (2 ^ e) := by
  induction h generalizing start with
  | nil => exact Wires.ordered_one d _ start
  | snoc blocks fold cleaning ih =>
      rename_i e x xs ys
      have htwo : 2 ^ (e + 1) = 2 ^ e + 2 ^ e := by rw [Nat.pow_succ, Nat.mul_two]
      have hfolded := fold.folded haligned hroom (v := allOnWires xs v)
      have hlow : 2 ^ e ∣ start := (Nat.pow_dvd_pow 2 (Nat.le_succ e)).trans haligned
      have hhigh : 2 ^ e ∣ start + 2 ^ e := Nat.dvd_add hlow (Nat.dvd_refl _)
      rw [htwo] at hroom ⊢
      obtain ⟨hbitonicLow, hbitonicHigh, hsep⟩ :=
        hfolded.halves (ih hlow (by omega)) (ih hhigh (by omega))
      rw [Exchange.allOnWires_append]
      apply Wires.Ordered.append
      · exact cleaning.ordered hlow (by omega) hbitonicLow
      · exact cleaning.ordered hhigh (by omega) hbitonicHigh
      · apply hsep.of_perm
        · exact cleaning.perm (Nat.le_refl e) hlow (by omega) _
        · exact cleaning.perm (Nat.le_refl e) hhigh (by omega) _

end Bitonic
