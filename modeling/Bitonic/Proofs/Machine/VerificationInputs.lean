import Bitonic.Proofs.Machine.Verification
import Bitonic.Proofs.Scalar.ExactNaturals
/-!
# The values of verification inputs

Four of the five inputs of a length stay below a bound of their own, and the falling one reaches up
to its length.  So the values leave the range of the noise at the first length past it, and the lane
values stop being exact where the single format does.

* `Verify.checkedValues_eq_ok` — no difference falls below zero and no value leaves 64 bits;
* `Verify.forall_values_lt_iff` — the bounds that all values of a length keep to;
* `Verify.inputs_in_range` — how far each promise about the inputs of a length holds.
-/

namespace Bitonic

namespace Verify

/-- The values of a shape, where every difference and every value must be a count. -/
def InputShape.checkedValues (shape : InputShape) (length : Nat) : Checked (List Nat) :=
  match shape with
  | risingAndFalling => (List.range length).mapM fun i => do
    return min i (← Count.sub (length - 1) i)
  | shape => (shape.values length).mapM Count.ofNat

theorem checkedValues_eq_ok (shape : InputShape) {length : Nat} (h : length < Count.limit) :
    shape.checkedValues length = .ok (shape.values length) := by
  have hcounts : (shape.values length).mapM Count.ofNat = .ok (shape.values length) := by
    apply Outcome.mapM_eq_ok_iff.2
    refine List.forall₂_same.2 fun n hn => Count.ofNat_eq_ok ?_
    rcases values_lt shape length n hn with hlt | hlt
    · omega
    · exact hlt.trans (by decide)
  cases shape with
  | risingAndFalling =>
      apply Outcome.mapM_eq_ok_iff.2
      refine List.forall₂_map_right_iff.2 (List.forall₂_same.2 fun i hi => ?_)
      have hlt : i < length := List.mem_range.1 hi
      rw [Outcome.bind_of_ok (Count.sub_eq_ok (show i ≤ length - 1 by omega))]
      rfl
  | falling | sawtooth | constant | noise => exact hcounts

theorem mem_inputsOfLength {length : Nat} {values : List Nat} :
    values ∈ inputsOfLength length ↔ ∃ shape : InputShape, shape.values length = values := by
  have hall : ∀ shape : InputShape, shape ∈ InputShape.all := fun shape => by
    cases shape <;> decide
  rw [inputsOfLength, List.mem_map]
  exact exists_congr fun shape => and_iff_right (hall shape)

theorem exists_falling {length n : Nat} (h : n < length) :
    ∃ values ∈ inputsOfLength length, n ∈ values :=
  ⟨_, mem_inputsOfLength.2 ⟨.falling, rfl⟩, List.mem_reverse.2 (List.mem_range.2 h)⟩

theorem forall_values_lt_iff {length bound : Nat} (hbound : noiseRange ≤ bound) :
    (∀ values ∈ inputsOfLength length, ∀ n ∈ values, n < bound) ↔ length ≤ bound := by
  constructor
  · intro h
    by_contra hlong
    obtain ⟨values, hvalues, hmem⟩ := exists_falling (show bound < length by omega)
    exact Nat.lt_irrefl bound (h values hvalues bound hmem)
  · intro hle values hvalues n hn
    obtain ⟨shape, rfl⟩ := mem_inputsOfLength.1 hvalues
    rcases values_lt shape length n hn with hlt | hlt
    · omega
    · omega

/-- Lane values of all types are exact as long as the falling input stays within the significand of
the single format. -/
theorem forall_values_hold_iff {length : Nat} :
    (∀ values ∈ inputsOfLength length, ∀ n ∈ values, ∀ ty : ScalarType,
      Scalar.Holds ty (Scalar.ofNat n) n) ↔ length ≤ 2 ^ 24 + 1 := by
  constructor
  · intro h
    by_contra hlong
    obtain ⟨values, hvalues, hmem⟩ := exists_falling (show 2 ^ 24 + 1 < length by omega)
    exact Scalar.not_holds_float (h values hvalues _ hmem .float)
  · intro hle values hvalues n hn ty
    have hlt := (forall_values_lt_iff (by decide)).2 hle values hvalues n hn
    exact Scalar.holds_ofNat ty (Nat.le_of_lt_succ hlt)

theorem inputsIn_addressable (length : Nat) : inputsIn .addressable length =
    if length < 2 ^ 60 then .ok (inputsOfLength length) else .error .listTooLong := by
  have hreserve : Memory.addressable.reserve length valueBytes =
      if length * 8 ≤ 0x7fffffffffffffff then .ok () else .error .listTooLong := rfl
  rw [inputsIn, hreserve]
  by_cases h : length < 2 ^ 60
  · rw [if_pos h, if_pos (by omega)]
    rfl
  · rw [if_neg h, if_neg (by omega)]
    rfl

/-- Memory holds the five inputs of every length below `2 ^ 60`.  Whatever the length, they have as
many values as it says and are computed on counts.  Their values stay in the range of the noise for
lengths up to that range, and are exact in all element types for lengths up to `2 ^ 24 + 1`. -/
theorem inputs_in_range {length : Nat} (h : length < Count.limit) :
    (inputsIn .addressable length =
      if length < 2 ^ 60 then .ok (inputsOfLength length) else .error .listTooLong) ∧
    (inputsOfLength length).length = 5 ∧
    (∀ values ∈ inputsOfLength length, values.length = length) ∧
    (∀ shape : InputShape, shape.checkedValues length = .ok (shape.values length)) ∧
    ((∀ values ∈ inputsOfLength length, ∀ n ∈ values, n < noiseRange) ↔ length ≤ noiseRange) ∧
    ((∀ values ∈ inputsOfLength length, ∀ n ∈ values, ∀ ty : ScalarType,
      Scalar.Holds ty (Scalar.ofNat n) n) ↔ length ≤ 2 ^ 24 + 1) := by
  refine ⟨inputsIn_addressable length, rfl, fun values hvalues => ?_,
    fun shape => checkedValues_eq_ok shape h, forall_values_lt_iff (Nat.le_refl _),
    forall_values_hold_iff⟩
  obtain ⟨shape, rfl⟩ := mem_inputsOfLength.1 hvalues
  exact length_values shape length

theorem inputs_in_range_thirty :
    (∀ shape : InputShape, shape.checkedValues 30 = .ok (shape.values 30)) ∧
      (∀ values ∈ inputsOfLength 30, ∀ n ∈ values, n < noiseRange) := by
  obtain ⟨_, _, _, hchecked, hrange, _⟩ := inputs_in_range (show 30 < Count.limit by decide)
  exact ⟨hchecked, hrange.2 (by decide)⟩

/-- At the first length past the range the falling input starts with a value out of range, and
memory does not hold the inputs of `2 ^ 60` values. -/
theorem inputs_leave_range :
    (∃ values ∈ inputsOfLength (noiseRange + 1), ∃ n ∈ values, ¬ n < noiseRange) ∧
      inputsIn .addressable 1152921504606846976 = .error .listTooLong := by
  refine ⟨?_, by rw [inputsIn_addressable, if_neg (by decide)]⟩
  obtain ⟨values, hvalues, hmem⟩ := exists_falling (Nat.lt_succ_self noiseRange)
  exact ⟨values, hvalues, noiseRange, hmem, Nat.lt_irrefl _⟩

end Verify

end Bitonic
