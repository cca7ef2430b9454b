import Bitonic.Network.Synthesis
import Bitonic.Proofs.Network.LayersOnWires
/-!
# Networks with all calls written out

`mergeLayers` and `sortLayers` are the two recursions over the width with nothing left to call.
The split is a power of two, so a merger of more than `2 ^ e` and at most `2 ^ (e + 1)` registers
splits at `2 ^ e`, and both parts are mergers of at most `2 ^ e` registers.

* `ordered_mergeLayers` — a merger orders what is bitonic once it is filled up to a power of two of
  registers;
* `ordered_sortLayers` — a sorter orders everything.
-/

namespace Bitonic

theorem exists_splitPoint_eq {width : Nat} (h : 2 ≤ width) :
    ∃ e, splitPoint width = 2 ^ e ∧ 2 ^ e < width ∧ width ≤ 2 ^ (e + 1) := by
  have hlow := Nat.log2_self_le (n := width - 1) (by omega)
  have hhigh := Nat.lt_log2_self (n := width - 1)
  exact ⟨(width - 1).log2, if_neg (by omega), by omega, by omega⟩

theorem sub_splitPoint_le {width : Nat} (h : 2 ≤ width) :
    width - splitPoint width ≤ splitPoint width := by
  obtain ⟨e, he, _, hhigh⟩ := exists_splitPoint_eq h
  rw [Nat.pow_succ] at hhigh
  omega

theorem exists_splitPoint_lt {width e : Nat} (h : 2 ≤ width) (hwidth : width ≤ 2 ^ e) :
    ∃ k < e, splitPoint width = 2 ^ k ∧ 2 ^ k < width ∧ width - 2 ^ k ≤ 2 ^ k := by
  obtain ⟨k, hsplit, hlow, hhigh⟩ := exists_splitPoint_eq h
  rw [Nat.pow_succ] at hhigh
  have hke : k < e := (Nat.pow_lt_pow_iff_right Nat.one_lt_two).1 (hlow.trans_le hwidth)
  exact ⟨k, hke, hsplit, hlow, by omega⟩

/-- The networks of single registers of `2 ^ size` lanes. -/
structure RegisterNetworks (size : Nat) where
  merger : Direction → List Exchange
  sorter : Direction → List Exchange
  cleaning : ∀ d, Cleaning (2 ^ size) d size (merger d)
  sorting : ∀ d, Sorting (2 ^ size) d size (sorter d)

def halfCleanerLayers (first half rest : Nat) (d : Direction) : List Layer :=
  (List.range rest).map fun i => .between (first + i) (first + i + half) d

namespace RegisterNetworks

variable {size : Nat}

def mergeLayers (cells : RegisterNetworks size) (d : Direction) (first width : Nat) : List Layer :=
  match width with
  | 0 => []
  | 1 => (cells.merger d).map (.inside first)
  | width + 2 =>
    let half := splitPoint (width + 2)
    halfCleanerLayers first half (width + 2 - half) d ++ cells.mergeLayers d first half ++
      cells.mergeLayers d (first + half) (width + 2 - half)
termination_by width
decreasing_by
  · exact splitPoint_lt (by omega)
  · have : 0 < splitPoint (width + 2) := splitPoint_pos (by omega)
    omega

def sortLayers (cells : RegisterNetworks size) (d : Direction) (first width : Nat) : List Layer :=
  match width with
  | 0 => []
  | 1 => (cells.sorter d).map (.inside first)
  | width + 2 =>
    let half := splitPoint (width + 2)
    cells.sortLayers d.reverse first half ++
      cells.sortLayers d (first + half) (width + 2 - half) ++ cells.mergeLayers d first (width + 2)
termination_by width
decreasing_by
  · exact splitPoint_lt (by omega)
  · have : 0 < splitPoint (width + 2) := splitPoint_pos (by omega)
    omega

end RegisterNetworks

open Layer (AllWithin allOnWires)

theorem allWithin_halfCleanerLayers (lanes first : Nat) {half rest : Nat} (d : Direction)
    (hrest : rest ≤ half) :
    AllWithin lanes first (half + rest) (halfCleanerLayers first half rest d) := by
  intro l hl
  rw [halfCleanerLayers, List.mem_map] at hl
  obtain ⟨i, hi, rfl⟩ := hl
  rw [List.mem_range] at hi
  simp only [Layer.Sound, Layer.Within]
  omega

theorem allWithin_inside {lanes : Nat} {xs : List Exchange} (hxs : ∀ x ∈ xs, x.Sound lanes)
    (first : Nat) : AllWithin lanes first 1 (xs.map (.inside first)) := by
  intro l hl
  rw [List.mem_map] at hl
  obtain ⟨x, hx, rfl⟩ := hl
  exact ⟨hxs x hx, Nat.le_refl first, Nat.lt_succ_self first⟩

section HalfCleaner

variable {lanes half rest first r t : Nat} {d : Direction} {v : Wires}

theorem halfCleanerLayers_succ (first half k : Nat) (d : Direction) :
    halfCleanerLayers first half (k + 1) d =
      halfCleanerLayers first half k d ++ [.between (first + k) (first + k + half) d] := by
  rw [halfCleanerLayers, List.range_succ, List.map_append]
  rfl

theorem halfCleanerLayers_alone (first half rest : Nat) (d : Direction) (v : Wires)
    (ht : t < lanes) (hlow : r < first ∨ first + rest ≤ r)
    (hhigh : r < first + half ∨ first + half + rest ≤ r) :
    allOnWires lanes (halfCleanerLayers first half rest d) v (r * lanes + t) =
      v (r * lanes + t) := by
  induction rest with
  | zero => rfl
  | succ k ih =>
      rw [halfCleanerLayers_succ, Layer.allOnWires_append]
      exact (Layer.onWires_between_other (by omega) (by omega) ht).trans (ih (by omega) (by omega))

theorem halfCleanerLayers_pair (hrest : rest ≤ half) (ht : t < lanes) (hr : first ≤ r)
    (hr' : r < first + rest) :
    let w := allOnWires lanes (halfCleanerLayers first half rest d) v
    w (r * lanes + t) = d.first (v (r * lanes + t)) (v ((r + half) * lanes + t)) ∧
      w ((r + half) * lanes + t) = d.last (v (r * lanes + t)) (v ((r + half) * lanes + t)) := by
  induction rest with
  | zero => omega
  | succ k ih =>
      dsimp only at ih ⊢
      rw [halfCleanerLayers_succ, Layer.allOnWires_append]
      by_cases hk : r = first + k
      · -- the last layer is the only one that touches the two registers
        have hlow := halfCleanerLayers_alone first half k d v (r := r) ht (by omega) (by omega)
        have hhigh := halfCleanerLayers_alone first half k d v (r := r + half) ht (by omega)
          (by omega)
        rw [← hlow, ← hhigh, hk]
        exact ⟨Layer.onWires_between_low (by omega) ht, Layer.onWires_between_high (by omega) ht⟩
      · obtain ⟨hlow, hhigh⟩ := ih (by omega) (by omega)
        rw [← hlow, ← hhigh]
        exact ⟨Layer.onWires_between_other (by omega) (by omega) ht,
          Layer.onWires_between_other (by omega) (by omega) ht⟩

theorem partHalfCleaned_halfCleanerLayers (first : Nat) (d : Direction) (v : Wires)
    (hlanes : 0 < lanes) (hrest : rest ≤ half) :
    v.PartHalfCleaned d (allOnWires lanes (halfCleanerLayers first half rest d) v) (first * lanes)
      ((half + rest) * lanes) (half * lanes) := by
  have hmove : ∀ r t, r * lanes + t + half * lanes = (r + half) * lanes + t := by
    intro r t
    rw [Nat.add_mul]
    omega
  constructor
  · intro p hp hp'
    obtain ⟨r, t, ht, rfl⟩ := Wires.exists_wire hlanes p
    rw [hmove, ← Nat.add_mul, Wires.wire_lt_iff ht] at hp'
    rw [Wires.le_wire_iff ht] at hp
    rw [hmove]
    exact (halfCleanerLayers_pair hrest ht hp (by omega)).1
  · intro p hp hp'
    obtain ⟨r, t, ht, rfl⟩ := Wires.exists_wire hlanes p
    rw [hmove, ← Nat.add_mul, Wires.le_wire_iff ht] at hp'
    rw [← Nat.add_mul, Wires.wire_lt_iff ht] at hp
    exact halfCleanerLayers_alone first half rest d v ht (by omega) (by omega)
  · intro p hp hp'
    obtain ⟨r, t, ht, rfl⟩ := Wires.exists_wire hlanes p
    rw [hmove, ← Nat.add_mul, Wires.wire_lt_iff ht] at hp'
    rw [Wires.le_wire_iff ht] at hp
    rw [hmove]
    exact (halfCleanerLayers_pair hrest ht hp (by omega)).2

end HalfCleaner

section Parts

variable {lanes first half rest : Nat} {d d' : Direction} {ls ms : List Layer} {v : Wires}

/-- Layers on one segment leave the order in the segment before it alone, and work on what they find
in their own. -/
theorem ordered_parts (hlanes : 0 < lanes) (hms : AllWithin lanes (first + half) rest ms)
    (hlow : (allOnWires lanes ls v).Ordered d (first * lanes) (half * lanes))
    (hhigh : (allOnWires lanes ms (allOnWires lanes ls v)).Ordered d' ((first + half) * lanes)
      (rest * lanes)) :
    (allOnWires lanes (ls ++ ms) v).Ordered d (first * lanes) (half * lanes) ∧
      (allOnWires lanes (ls ++ ms) v).Ordered d' ((first + half) * lanes) (rest * lanes) := by
  rw [Layer.allOnWires_append]
  refine ⟨hlow.congr fun p _ hp => ?_, hhigh⟩
  rw [← Nat.add_mul] at hp
  exact hms.of_outside hlanes (Or.inl hp)

theorem ordered_append (hlanes : 0 < lanes) (hls : AllWithin lanes first half ls)
    (hms : AllWithin lanes (first + half) rest ms)
    (hlow : (allOnWires lanes ls v).Ordered d (first * lanes) (half * lanes))
    (hhigh : (allOnWires lanes ms (allOnWires lanes ls v)).Ordered d ((first + half) * lanes)
      (rest * lanes))
    (hsep : v.Separated d (first * lanes) (half * lanes) ((first + half) * lanes)
      (rest * lanes)) :
    (allOnWires lanes (ls ++ ms) v).Ordered d (first * lanes) ((half + rest) * lanes) := by
  have hlowPerm : ((allOnWires lanes (ls ++ ms) v).values (first * lanes) (half * lanes)).Perm
      (v.values (first * lanes) (half * lanes)) := by
    rw [Layer.allOnWires_append]
    have hsame := Wires.values_congr (first * lanes) (half * lanes)
      fun p _ hp => hms.of_outside hlanes (v := allOnWires lanes ls v)
        (Or.inl (by rwa [← Nat.add_mul] at hp))
    rw [hsame]
    exact hls.perm hlanes v
  have hhighPerm : ((allOnWires lanes (ls ++ ms) v).values ((first + half) * lanes)
      (rest * lanes)).Perm (v.values ((first + half) * lanes) (rest * lanes)) := by
    rw [Layer.allOnWires_append]
    have hsame := Wires.values_congr ((first + half) * lanes) (rest * lanes)
      fun p hp _ => hls.of_outside hlanes (v := v) (Or.inr hp)
    rw [← hsame]
    exact hms.perm hlanes _
  obtain ⟨hlow', hhigh'⟩ := ordered_parts hlanes hms hlow hhigh
  have hsep' := hsep.of_perm hlowPerm hhighPerm
  rw [Nat.add_mul] at hhigh' hsep'
  rw [Nat.add_mul]
  exact hlow'.append hhigh' hsep'

end Parts

namespace RegisterNetworks

variable {size : Nat} (cells : RegisterNetworks size) {d : Direction} {v : Wires}

theorem ordered_register {xs : List Exchange} (hxs : ∀ x ∈ xs, x.Sound (2 ^ size)) (first : Nat)
    (h : (Exchange.allOnWires xs fun t => v (first * 2 ^ size + t)).Ordered d 0 (2 ^ size)) :
    (allOnWires (2 ^ size) (xs.map (.inside first)) v).Ordered d (first * 2 ^ size)
      (1 * 2 ^ size) := by
  rw [← Layer.allOnWires_inside (Nat.two_pow_pos size) hxs] at h
  intro p q hp hpq hq
  obtain ⟨t, rfl⟩ := Nat.exists_eq_add_of_le hp
  obtain ⟨u, rfl⟩ := Nat.exists_eq_add_of_le (Nat.le_trans hp hpq)
  exact h t u (Nat.zero_le t) (by omega) (by omega)

theorem allWithin_mergeLayers (d : Direction) (first width : Nat) :
    AllWithin (2 ^ size) first width (cells.mergeLayers d first width) := by
  induction width using splitPoint_induction generalizing first with
  | zero =>
      rw [mergeLayers]
      exact fun l hl => absurd hl List.not_mem_nil
  | one =>
      rw [mergeLayers]
      exact allWithin_inside (cells.cleaning d).sound first
  | split width ihLow ihHigh =>
      have hlt := splitPoint_lt (show 2 ≤ width + 2 by omega)
      have hclean := allWithin_halfCleanerLayers (2 ^ size) first d
        (sub_splitPoint_le (show 2 ≤ width + 2 by omega))
      have hlow := ihLow first
      have hhigh := ihHigh (first + splitPoint (width + 2))
      rw [mergeLayers]
      exact ((hclean.mono (by omega) (by omega)).append (hlow.mono (by omega) (by omega))).append
        (hhigh.mono (by omega) (by omega))

theorem allWithin_sortLayers (d : Direction) (first width : Nat) :
    AllWithin (2 ^ size) first width (cells.sortLayers d first width) := by
  induction width using splitPoint_induction generalizing first d with
  | zero =>
      rw [sortLayers]
      exact fun l hl => absurd hl List.not_mem_nil
  | one =>
      rw [sortLayers]
      exact allWithin_inside (cells.sorting d).sound first
  | split width ihLow ihHigh =>
      have hlt := splitPoint_lt (show 2 ≤ width + 2 by omega)
      have hagainst := ihLow d.reverse first
      have halong := ihHigh d (first + splitPoint (width + 2))
      rw [sortLayers]
      exact ((hagainst.mono (by omega) (by omega)).append
        (halong.mono (by omega) (by omega))).append (cells.allWithin_mergeLayers d first _)

theorem ordered_mergeLayers_one (first : Nat)
    (hv : v.IsBitonic (first * 2 ^ size) (1 * 2 ^ size)) :
    (allOnWires (2 ^ size) (cells.mergeLayers d first 1) v).Ordered d (first * 2 ^ size)
      (1 * 2 ^ size) := by
  rw [mergeLayers]
  apply ordered_register (cells.cleaning d).sound
  apply (cells.cleaning d).ordered (Nat.dvd_zero _) (by omega)
  rw [Nat.one_mul] at hv
  exact hv.fromStart

theorem ordered_mergeLayers (first : Nat) {e width : Nat} (hwidth : width ≤ 2 ^ e)
    (hv : v.Mergeable d (first * 2 ^ size) (width * 2 ^ size) (2 ^ e * 2 ^ size)) :
    (allOnWires (2 ^ size) (cells.mergeLayers d first width) v).Ordered d (first * 2 ^ size)
      (width * 2 ^ size) := by
  induction width using Nat.strongRecOn generalizing e first v with
  | ind width ih =>
      match width with
      | 0 =>
          intro p q hp hpq hq
          omega
      | 1 =>
          exact cells.ordered_mergeLayers_one first
            (hv.isBitonic (Nat.mul_le_mul_right _ hwidth))
      | width + 2 =>
          obtain ⟨k, hke, hsplit, hlow, hhigh⟩ :=
            exists_splitPoint_lt (show 2 ≤ width + 2 by omega) hwidth
          have hpos := Nat.two_pow_pos k
          have hroom : 2 ^ (k + 1) ≤ 2 ^ e := Nat.pow_le_pow_right (by omega) hke
          have htwo : 2 ^ (k + 1) * 2 ^ size = 2 ^ k * 2 ^ size + 2 ^ k * 2 ^ size := by
            rw [Nat.pow_succ, Nat.mul_two, Nat.add_mul]
          have hvk := hv.of_le (Nat.mul_le_mul_right _ hroom)
          rw [htwo] at hvk
          rw [mergeLayers, hsplit, List.append_assoc, Layer.allOnWires_append]
          have hsum : 2 ^ k + (width + 2 - 2 ^ k) = width + 2 := Nat.add_sub_cancel' hlow.le
          have hclean := partHalfCleaned_halfCleanerLayers first d v (Nat.two_pow_pos size) hhigh
          rw [hsum] at hclean
          generalize allOnWires (2 ^ size) (halfCleanerLayers first (2 ^ k) (width + 2 - 2 ^ k) d) v
            = w at hclean
          obtain ⟨hbitonic, hrest, hsep⟩ := hvk.halves hclean (Nat.mul_le_mul_right _ hlow.le)
            (by rw [← Nat.add_mul]; exact Nat.mul_le_mul_right _ (by omega))
          rw [← Nat.add_mul, ← Nat.sub_mul] at hrest hsep
          have hordered := ih (2 ^ k) hlow first (e := k) (Nat.le_refl _) (hbitonic.mergeable d)
          have hmerged := cells.allWithin_mergeLayers d first (2 ^ k)
          have hrest' := hrest.congr (w := allOnWires (2 ^ size) (cells.mergeLayers d first (2 ^ k)) w)
            fun p hp _ => hmerged.of_outside (Nat.two_pow_pos size) (Or.inr hp)
          have hordered' := ih (width + 2 - 2 ^ k) (by omega) (first + 2 ^ k) (e := k) hhigh hrest'
          have hwhole := ordered_append (Nat.two_pow_pos size) hmerged
            (cells.allWithin_mergeLayers d (first + 2 ^ k) _) hordered hordered' hsep
          rwa [hsum] at hwhole

theorem ordered_sortLayers (d : Direction) (first width : Nat) (v : Wires) :
    (allOnWires (2 ^ size) (cells.sortLayers d first width) v).Ordered d (first * 2 ^ size)
      (width * 2 ^ size) := by
  induction width using Nat.strongRecOn generalizing first d v with
  | ind width ih =>
      match width with
      | 0 =>
          intro p q hp hpq hq
          omega
      | 1 =>
          rw [sortLayers]
          apply ordered_register (cells.sorting d).sound
          exact (cells.sorting d).ordered (Nat.dvd_zero _) (by omega) _
      | width + 2 =>
          obtain ⟨k, hsplit, hlow, hhigh⟩ :=
            exists_splitPoint_eq (show 2 ≤ width + 2 by omega)
          have hpos := Nat.two_pow_pos k
          have hagainst := ih (2 ^ k) hlow d.reverse first v
          have halong := ih (width + 2 - 2 ^ k) (by omega) d (first + 2 ^ k)
            (allOnWires (2 ^ size) (cells.sortLayers d.reverse first (2 ^ k)) v)
          obtain ⟨hrun, hrun'⟩ := ordered_parts (Nat.two_pow_pos size)
            (cells.allWithin_sortLayers d (first + 2 ^ k) _) hagainst halong
          rw [Nat.add_mul, Nat.sub_mul] at hrun'
          rw [sortLayers, hsplit, Layer.allOnWires_append]
          apply cells.ordered_mergeLayers first hhigh
          exact Wires.mergeable_of_runs (Nat.mul_le_mul_right _ hlow.le) hrun hrun'

end RegisterNetworks

end Bitonic
