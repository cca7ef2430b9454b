import Bitonic.Proofs.Scalar.Arranged
/-!
# Comparison with a sorted copy

A list that is arranged holds numbers only if the list that it was made from does,
`Arranged.isNumber`, and what follows a direction is determined by what occurs in it.  So a list
that is arranged from the values of another one equals the sorted copy of that one, numerically and
place by place, `Arranged.eqLists_sorted`.
-/

namespace Bitonic

namespace Scalar

variable {α : Type} [Scalar α] [Ranked α] {d : Direction}

open Ranked (rank)

theorem eqLists_of_map_rank {as bs : List α} (has : ∀ a ∈ as, IsNumber a)
    (hbs : ∀ b ∈ bs, IsNumber b) (h : as.map rank = bs.map rank) : eqLists as bs = true := by
  induction as generalizing bs with
  | nil =>
      cases bs with
      | nil => rfl
      | cons b bs => cases h
  | cons a as ih =>
      cases bs with
      | nil => cases h
      | cons b bs =>
          rw [List.map_cons, List.map_cons, List.cons.injEq] at h
          have hhead : eq a b = true :=
            Ranked.eq_iff_rank_eq.2 ⟨has a List.mem_cons_self, hbs b List.mem_cons_self, h.1⟩
          have htail := ih (fun a ha => has a (List.mem_cons_of_mem _ ha))
            (fun b hb => hbs b (List.mem_cons_of_mem _ hb)) h.2
          rw [eqLists, hhead, htail]
          rfl

theorem countP_filter_isNumber (values : List α) (a : α) :
    (values.filter fun b => decide (IsNumber b)).countP (eq a) = values.countP (eq a) := by
  rw [List.countP_filter]
  apply List.countP_congr
  intro b _
  rw [Bool.and_eq_true, decide_eq_true_iff, and_iff_left_iff_imp]
  exact fun hab => (Ranked.eq_iff_rank_eq.1 hab).2.1

/-- Numbers are counted, so a list that is as long as its count holds nothing else. -/
theorem Arranged.isNumber {input output : List α} (h : Arranged d input output)
    (hin : ∀ a ∈ input, IsNumber a) : ∀ a ∈ output, IsNumber a := by
  have hnumbers : ∀ a ∈ output.filter fun b => decide (IsNumber b), IsNumber a :=
    fun a ha => of_decide_eq_true (List.mem_filter.1 ha).2
  have hperm := (sameCounts_iff_perm hin hnumbers).1 fun a =>
    (countP_filter_isNumber output a).trans (h.sameCounts a)
  have hlength := hperm.length_eq
  rw [List.length_map, List.length_map, ← h.length, List.length_filter_eq_length_iff] at hlength
  exact fun a ha => of_decide_eq_true (hlength a ha)

omit [Ranked α] in
theorem isNumber_sorted {values : List α} (h : ∀ a ∈ values, IsNumber a) :
    ∀ a ∈ sorted d values, IsNumber a :=
  fun a ha => h a ((List.mergeSort_perm _ _).mem_iff.1 ha)

theorem Arranged.eqLists_sorted {values input output : List α} (h : Arranged d input output)
    (hvalues : ∀ a ∈ values, IsNumber a) (hin : ∀ a ∈ input, IsNumber a)
    (hperm : (input.map rank).Perm (values.map rank)) :
    eqLists output (sorted d values) = true := by
  have hout := h.isNumber hin
  have hsorted := isNumber_sorted (d := d) hvalues
  have houtput := (arranged_iff_ranks hin hout).1 h
  have hcopy := (arranged_iff_ranks hvalues hsorted).1 (arranged_sorted d hvalues)
  apply eqLists_of_map_rank hout hsorted
  exact List.Perm.eq_of_pairwise (fun a b _ _ => Direction.before_antisymm) houtput.1 hcopy.1
    ((houtput.2.trans hperm).trans hcopy.2.symm)

end Scalar

end Bitonic
