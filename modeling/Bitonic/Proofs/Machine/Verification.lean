import Bitonic.Proofs.Machine.Sorting
import Bitonic.Proofs.Scalar.Naturals
import Bitonic.Proofs.Scalar.SortedCopy
import Bitonic.Verify
/-!
# The checks of a verification

All inputs of a verification are made from naturals below `2 ^ 64`, so their lane values are in
range whatever the element type.

* `Verify.checkNetwork_eq_ok` — a network of the plan passes on every input of its length;
* `Verify.checkLength_eq_ok` — so does every array, whichever way it is sorted.
-/

namespace Bitonic

namespace Verify

open Ranked (rank)

/-! ## Inputs -/

theorem length_noiseFrom (count : Nat) (state : UInt64) :
    (noiseFrom count state).length = count := by
  induction count generalizing state with
  | zero => rfl
  | succ count ih =>
      rw [noiseFrom]
      exact congrArg Nat.succ (ih _)

theorem noiseFrom_lt {count : Nat} {state : UInt64} :
    ∀ n ∈ noiseFrom count state, n < noiseRange := by
  induction count generalizing state with
  | zero => exact nofun
  | succ count ih =>
      rw [noiseFrom]
      exact List.forall_mem_cons.2 ⟨Nat.mod_lt _ (by decide), ih⟩

@[simp] theorem length_values (shape : InputShape) (length : Nat) :
    (shape.values length).length = length := by
  cases shape <;> simp [InputShape.values, length_noiseFrom]

theorem values_lt (shape : InputShape) (length : Nat) :
    ∀ n ∈ shape.values length, n < length ∨ n < noiseRange := by
  intro n hn
  cases shape with
  | falling =>
      rw [InputShape.values, List.mem_reverse, List.mem_range] at hn
      exact Or.inl hn
  | risingAndFalling =>
      rcases List.mem_map.1 hn with ⟨i, hi, rfl⟩
      exact Or.inl ((Nat.min_le_left _ _).trans_lt (List.mem_range.1 hi))
  | sawtooth =>
      rcases List.mem_map.1 hn with ⟨i, _, rfl⟩
      exact Or.inr ((Nat.mod_lt i (by decide)).trans (by decide))
  | constant =>
      rw [List.eq_of_mem_replicate hn]
      exact Or.inr (by decide)
  | noise => exact Or.inr (noiseFrom_lt n hn)

theorem length_laneValues {α : Type} [Scalar α] (values : List Nat) :
    (laneValues values : List α).length = values.length :=
  List.length_map _

theorem inRange_laneValues (ty : ScalarType) (shape : InputShape) {length : Nat}
    (hlength : length ≤ 2 ^ 62) :
    ∀ a ∈ (laneValues (shape.values length) : List ty.Value), Scalar.InRange a := by
  intro a ha
  rcases List.mem_map.1 ha with ⟨n, hn, rfl⟩
  apply Scalar.inRange_ofNat
  rcases values_lt shape length n hn with h | h
  · omega
  · unfold noiseRange at h
    omega

theorem bitonicInput_perm {α : Type} [Scalar α] (d : Direction) (values : List α) :
    (bitonicInput d values).Perm values := by
  have hfirst : (Scalar.sorted d.reverse (values.take (values.length / 2))).Perm _ :=
    List.mergeSort_perm _ _
  have hsecond : (Scalar.sorted d (values.drop (values.length / 2))).Perm _ :=
    List.mergeSort_perm _ _
  have hboth := hfirst.append hsecond
  rw [List.take_append_drop] at hboth
  rwa [bitonicInput, List.splitAt_eq]

theorem networkInput_perm {α : Type} [Scalar α] (key : NetworkKey) (values : List α) :
    (networkInput key values).Perm values := by
  rcases key with ⟨task, width, d⟩
  cases task with
  | sort => exact .refl values
  | merge => exact bitonicInput_perm d values

section Checks

variable {α : Type} [Scalar α] [Ranked α] {values : List α}

/-- What is made for a merger is what a merger accepts, wherever the halves meet. -/
theorem mergerInput_bitonicInput (d : Direction) (room : Nat)
    (hnum : ∀ a ∈ values, Scalar.IsNumber a) :
    Scalar.MergerInput d (bitonicInput d values) room := by
  have hinput : ∀ a ∈ bitonicInput d values, Scalar.IsNumber a :=
    fun a ha => hnum a ((bitonicInput_perm d values).mem_iff.1 ha)
  have hfirst : ∀ a ∈ values.take (values.length / 2), Scalar.IsNumber a :=
    fun a ha => hnum a (List.mem_of_mem_take ha)
  have hsecond : ∀ a ∈ values.drop (values.length / 2), Scalar.IsNumber a :=
    fun a ha => hnum a (List.mem_of_mem_drop ha)
  have hagainst := Scalar.arranged_sorted d.reverse hfirst
  have halong := Scalar.arranged_sorted d hsecond
  rw [bitonicInput, List.splitAt_eq] at hinput ⊢
  exact Scalar.mergerInput_of_runs room hinput hagainst.ordered halong.ordered

/-! ## Networks -/

section Networks

variable {size : Nat} {machine : Machine} {s : Synthesis} {cells : RegisterNetworks size}
  {key : NetworkKey} {routine : Routine}

theorem runOn_networkInput (h : machine.Follows s cells)
    (htype : Scalar.element α = s.limits.element) (hroutine : s.routineOf key = .ok routine)
    (hwidth : key.width * 2 ^ size < 2 ^ 62) (hlength : values.length = key.width * 2 ^ size)
    (hnum : ∀ a ∈ values, Scalar.IsNumber a) :
    ∃ out, machine.runOn routine (networkInput key values) = .ok out ∧
      Scalar.Arranged key.direction (networkInput key values) out := by
  have hperm := networkInput_perm key values
  have hlength' := hperm.length_eq.trans hlength
  have hinput : ∀ a ∈ networkInput key values, Scalar.IsNumber a :=
    fun a ha => hnum a (hperm.mem_iff.1 ha)
  rcases key with ⟨task, width, d⟩
  cases task with
  | sort => exact h.runOn_sorter htype hwidth hroutine hlength' hinput
  | merge =>
      have hroom : width ≤ 2 ^ width := Nat.lt_two_pow_self.le
      exact h.runOn_merger htype hwidth hroom hroutine hlength' hinput
        (mergerInput_bitonicInput d _ hnum)

theorem checkNetwork_eq_ok (h : machine.Follows s cells)
    (htype : Scalar.element α = s.limits.element) (hroutine : s.routineOf key = .ok routine)
    (hwidth : key.width * 2 ^ size < 2 ^ 62) (hlength : values.length = key.width * 2 ^ size)
    (hnum : ∀ a ∈ values, Scalar.IsNumber a) :
    checkNetwork machine routine key values = .ok () := by
  have hperm := networkInput_perm key values
  have hinput : ∀ a ∈ networkInput key values, Scalar.IsNumber a :=
    fun a ha => hnum a (hperm.mem_iff.1 ha)
  rcases runOn_networkInput h htype hroutine hwidth hlength hnum with ⟨out, hrun, harranged⟩
  rw [checkNetwork, Outcome.bind_of_ok hrun,
    if_pos (harranged.eqLists_sorted hnum hinput (hperm.map rank))]
  rfl

end Networks

theorem checkLength_eq_ok {machine : Machine} {d : Direction} {out : List α} {route : SortRoute}
    (hsort : machine.sort d values = (out, .ok route)) (harranged : Scalar.Arranged d values out)
    (hnum : ∀ a ∈ values, Scalar.IsNumber a) : checkLength machine d values = .ok () := by
  unfold checkLength
  rw [hsort]
  dsimp only
  rw [Outcome.bind_of_ok rfl, if_pos (harranged.eqLists_sorted hnum hnum (.refl _))]
  rfl

end Checks

end Verify

end Bitonic
