import Bitonic.Proofs.Scalar.Rank
import Mathlib.Data.List.Pairwise
/-!
# Arranged values

What it means that one list of lane values is another one put in order: `Arranged`.  Numerically
equal values count as one value there, since that is all a comparison can tell.

For numbers this is a statement about ranks, `arranged_iff_ranks`, and the stable sort has it,
`arranged_sorted`.
-/

namespace Bitonic

theorem Direction.pairwise_mergeSort (d : Direction) (ranks : List Int) :
    (ranks.mergeSort fun a b => decide (d.Before a b)).Pairwise d.Before := by
  have hsorted : (ranks.mergeSort fun a b => decide (d.Before a b)).Pairwise
      fun a b => decide (d.Before a b) = true := by
    apply List.pairwise_mergeSort
    · intro a b c hab hbc
      rw [decide_eq_true_iff] at *
      exact Direction.before_trans hab hbc
    · intro a b
      rw [Bool.or_eq_true, decide_eq_true_iff, decide_eq_true_iff]
      exact d.before_total a b
  exact hsorted.imp fun hab => of_decide_eq_true hab

namespace Scalar

variable {α : Type} [Scalar α]

/-- `output` holds the values of `input`, each as often, and they follow the direction. -/
structure Arranged (d : Direction) (input output : List α) : Prop where
  length : output.length = input.length
  ordered : output.Pairwise fun a b => noLater d a b = true
  sameCounts : ∀ a, output.countP (eq a) = input.countP (eq a)

/-- A number that lies between the two sentinels of its type. -/
structure InRange (a : α) : Prop where
  isNumber : IsNumber a
  above : noLater .ascending smallest a = true
  below : noLater .ascending a largest = true

instance (a : α) : Decidable (InRange a) :=
  decidable_of_iff (IsNumber a ∧ noLater .ascending smallest a = true ∧
    noLater .ascending a largest = true) ⟨fun h => ⟨h.1, h.2.1, h.2.2⟩, fun h => ⟨h.1, h.2, h.3⟩⟩

theorem InRange.noLater_sentinel {a : α} (h : InRange a) (d : Direction) :
    noLater d a (sentinel d.sentinel) = true := by
  cases d with
  | ascending => exact h.below
  | descending => exact h.above

variable [Ranked α]

open Ranked (rank)

theorem countP_eq_of_isNumber {a : α} {values : List α} (ha : IsNumber a)
    (hvalues : ∀ b ∈ values, IsNumber b) :
    values.countP (eq a) = (values.map rank).count (rank a) := by
  rw [List.count, List.countP_map]
  apply List.countP_congr
  intro b hb
  rw [Ranked.eq_iff_rank_eq, Function.comp, beq_iff_eq]
  constructor
  · exact fun h => h.2.2.symm
  · exact fun h => ⟨ha, hvalues b hb, h.symm⟩

theorem countP_eq_of_not_isNumber {a : α} {values : List α} (ha : ¬ IsNumber a) :
    values.countP (eq a) = 0 := by
  apply List.countP_eq_zero.2
  intro b _ hab
  exact ha (Ranked.eq_iff_rank_eq.1 hab).1

theorem sameCounts_iff_perm {input output : List α} (hin : ∀ a ∈ input, IsNumber a)
    (hout : ∀ a ∈ output, IsNumber a) :
    (∀ a, output.countP (eq a) = input.countP (eq a)) ↔
      (output.map rank).Perm (input.map rank) := by
  constructor
  · intro h
    apply List.perm_iff_count.2
    intro r
    -- a rank that no value has counts 0 on both sides
    by_cases hr : r ∈ output.map rank ++ input.map rank
    · rw [← List.map_append, List.mem_map] at hr
      obtain ⟨a, ha, rfl⟩ := hr
      have hnum : IsNumber a := (List.mem_append.1 ha).elim (hout a) (hin a)
      rw [← countP_eq_of_isNumber hnum hout, ← countP_eq_of_isNumber hnum hin]
      exact h a
    · rw [List.mem_append, not_or] at hr
      rw [List.count_eq_zero.2 hr.1, List.count_eq_zero.2 hr.2]
  · intro h a
    by_cases ha : IsNumber a
    · rw [countP_eq_of_isNumber ha hout, countP_eq_of_isNumber ha hin]
      exact h.count_eq _
    · rw [countP_eq_of_not_isNumber ha, countP_eq_of_not_isNumber ha]

theorem pairwise_noLater_iff {d : Direction} {values : List α}
    (hvalues : ∀ a ∈ values, IsNumber a) :
    (values.Pairwise fun a b => noLater d a b = true) ↔
      (values.map rank).Pairwise d.Before := by
  rw [List.pairwise_map]
  exact List.Pairwise.iff_of_mem fun ha hb => noLater_iff_before (hvalues _ ha) (hvalues _ hb)

theorem arranged_iff_ranks {d : Direction} {input output : List α}
    (hin : ∀ a ∈ input, IsNumber a) (hout : ∀ a ∈ output, IsNumber a) :
    Arranged d input output ↔
      (output.map rank).Pairwise d.Before ∧ (output.map rank).Perm (input.map rank) := by
  rw [← pairwise_noLater_iff hout, ← sameCounts_iff_perm hin hout]
  constructor
  · exact fun h => ⟨h.ordered, h.sameCounts⟩
  · rintro ⟨hordered, hcounts⟩
    have hlength := ((sameCounts_iff_perm hin hout).1 hcounts).length_eq
    rw [List.length_map, List.length_map] at hlength
    exact ⟨hlength, hordered, hcounts⟩

theorem map_rank_sorted {d : Direction} {values : List α} (h : ∀ a ∈ values, IsNumber a) :
    (sorted d values).map rank = (values.map rank).mergeSort fun a b => decide (d.Before a b) := by
  apply List.map_mergeSort
  intro a ha b hb
  rw [Bool.eq_iff_iff, decide_eq_true_iff]
  exact noLater_iff_before (h a ha) (h b hb)

theorem arranged_sorted (d : Direction) {values : List α} (h : ∀ a ∈ values, IsNumber a) :
    Arranged d values (sorted d values) := by
  have hperm : (sorted d values).Perm values := List.mergeSort_perm _ _
  apply (arranged_iff_ranks h fun a ha => h a (hperm.mem_iff.1 ha)).2
  refine ⟨?_, hperm.map rank⟩
  rw [map_rank_sorted h]
  exact d.pairwise_mergeSort _

end Scalar

end Bitonic
