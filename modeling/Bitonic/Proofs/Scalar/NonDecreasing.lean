import Bitonic.Proofs.Scalar.Arranged
import Bitonic.Proofs.Scalar.Zeros
/-!
# Maps that keep the order, and cuts

Where all values are numbers and ranks tell them apart, as whole numbers are, two values that come
no later than each other are the same.  So a map that keeps the order of values can be applied
before two of them are compared or after it: it may make them equal, and then it does not matter
which one is taken.

A cut is such a map with two values.  What holds after every cut holds of the values themselves:

* `Scalar.pairwise_of_cuts` — that a list follows a direction;
* `Scalar.arranged_of_cuts` — that a list is another one put in order.
-/

namespace Bitonic

def ScalarType.isInteger : ScalarType → Bool
  | int32 | uint32 | int64 | uint64 => true
  | float | double => false

namespace Scalar

open Ranked (rank)

/-- All values are numbers, and ranks tell them apart. -/
structure Exact (α : Type) [Scalar α] [Ranked α] : Prop where
  isNumber : ∀ a : α, IsNumber a
  rank_inj : ∀ {a b : α}, rank a = rank b → a = b

theorem exact_of_isInteger {ty : ScalarType} (h : ty.isInteger = true) : Exact ty.Value := by
  have hzeros : ty.zeros? = none := by cases ty <;> first | rfl | cases h
  refine ⟨fun a => ?_, fun {a b} hrank => ?_⟩
  · cases ty with
    | int32 => exact beq_self_eq_true (α := Int32) a
    | uint32 => exact beq_self_eq_true (α := UInt32) a
    | float => cases h
    | int64 => exact beq_self_eq_true (α := Int64) a
    | uint64 => exact beq_self_eq_true (α := UInt64) a
    | double => cases h
  · rcases eq_or_zeros_of_rank_eq hrank with hsame | hpair | hpair
    · exact hsame
    · rw [hzeros] at hpair
      cases hpair
    · rw [hzeros] at hpair
      cases hpair

variable {α : Type} [Scalar α]

def NonDecreasing (f : α → α) : Prop :=
  ∀ a b, noLater .ascending a b = true → noLater .ascending (f a) (f b) = true

theorem NonDecreasing.noLater {f : α → α} (hf : NonDecreasing f) {d : Direction} {a b : α}
    (h : noLater d a b = true) : Scalar.noLater d (f a) (f b) = true := by
  cases d with
  | ascending => exact hf a b h
  | descending => exact hf b a h

/-- The values that come up after a property holds have it as well. -/
def Upward (p : α → Bool) : Prop :=
  ∀ a b, noLater .ascending a b = true → p a = true → p b = true

def notBelow (t a : α) : Bool := !lt a t

/-- The value `y` in place of those that have the property, and `x` in place of the others. -/
def cut (x y : α) (p : α → Bool) (a : α) : α := if p a then y else x

omit [Scalar α] in
theorem cut_of_true {x y a : α} {p : α → Bool} (h : p a = true) : cut x y p a = y := if_pos h

omit [Scalar α] in
theorem cut_of_false {x y a : α} {p : α → Bool} (h : p a = false) : cut x y p a = x :=
  if_neg (Bool.not_eq_true _ ▸ h)

omit [Scalar α] in
theorem cut_mem (x y : α) (p : α → Bool) (a : α) : cut x y p a = x ∨ cut x y p a = y := by
  cases h : p a with
  | true => exact Or.inr (cut_of_true h)
  | false => exact Or.inl (cut_of_false h)

variable [Ranked α]

namespace Exact

variable (hα : Exact α)

include hα

theorem lt_iff {a b : α} : lt a b = true ↔ rank a < rank b :=
  Ranked.lt_iff_rank_lt (hα.isNumber a) (hα.isNumber b)

theorem notBelow_iff {t a : α} : notBelow t a = true ↔ rank t ≤ rank a := by
  rw [notBelow, Bool.not_eq_true', Bool.eq_false_iff, ne_eq, hα.lt_iff, Int.not_lt]

theorem eq_iff_rank_eq {a b : α} : eq a b = true ↔ rank a = rank b := by
  rw [Ranked.eq_iff_rank_eq]
  exact ⟨fun h => h.2.2, fun h => ⟨hα.isNumber a, hα.isNumber b, h⟩⟩

theorem eq_iff {a b : α} : eq a b = true ↔ a = b :=
  hα.eq_iff_rank_eq.trans ⟨hα.rank_inj, congrArg rank⟩

theorem noLater_iff {d : Direction} {a b : α} : noLater d a b = true ↔ d.Before (rank a) (rank b) :=
  noLater_iff_before (hα.isNumber a) (hα.isNumber b)

theorem antisymm {d : Direction} {a b : α} (h : noLater d a b = true) (h' : noLater d b a = true) :
    a = b := by
  rw [hα.noLater_iff] at h h'
  apply hα.rank_inj
  cases d with
  | ascending => exact Int.le_antisymm h h'
  | descending => exact Int.le_antisymm h' h

theorem noLater_total (d : Direction) (a b : α) : noLater d a b = true ∨ noLater d b a = true := by
  rw [hα.noLater_iff, hα.noLater_iff]
  exact d.before_total _ _

theorem upward_notBelow (t : α) : Upward (notBelow t) := by
  intro a b hab ha
  rw [hα.noLater_iff] at hab
  rw [hα.notBelow_iff] at ha ⊢
  exact Int.le_trans ha hab

theorem upward_above (t : α) : Upward (lt t) := by
  intro a b hab ha
  rw [hα.noLater_iff] at hab
  rw [hα.lt_iff] at ha ⊢
  exact Int.lt_of_lt_of_le ha hab

theorem nonDecreasing_cut {x y : α} (hxy : lt x y = true) {p : α → Bool} (hp : Upward p) :
    NonDecreasing (cut x y p) := by
  intro a b hab
  rw [hα.lt_iff] at hxy
  rw [hα.noLater_iff]
  cases ha : p a with
  | true =>
      rw [cut_of_true ha, cut_of_true (hp a b hab ha)]
      exact Int.le_refl _
  | false =>
      rw [cut_of_false ha]
      rcases cut_mem x y p b with h | h
      · rw [h]
        exact Int.le_refl _
      · rw [h]
        exact Int.le_of_lt hxy

/-- Values that a cut keeps in order wherever it cuts are in order. -/
theorem noLater_of_cuts {x y : α} (hxy : lt x y = true) {d : Direction} {a b : α}
    (h : ∀ p : α → Bool, Upward p → noLater d (cut x y p a) (cut x y p b) = true) :
    noLater d a b = true := by
  have hself : ∀ t : α, notBelow t t = true := fun t => hα.notBelow_iff.2 (Int.le_refl _)
  by_contra hnot
  cases d with
  | ascending =>
      have hba : notBelow a b = false := Bool.eq_false_iff.2 hnot
      have hcut := h _ (hα.upward_notBelow a)
      rw [cut_of_true (hself a), cut_of_false hba, Scalar.noLater, hxy] at hcut
      cases hcut
  | descending =>
      have hab : notBelow b a = false := Bool.eq_false_iff.2 hnot
      have hcut := h _ (hα.upward_notBelow b)
      rw [cut_of_false hab, cut_of_true (hself b), Scalar.noLater, hxy] at hcut
      cases hcut

theorem pairwise_of_cuts {x y : α} (hxy : lt x y = true) {d : Direction} {values : List α}
    (h : ∀ p : α → Bool, Upward p →
      (values.map (cut x y p)).Pairwise fun a b => noLater d a b = true) :
    values.Pairwise fun a b => noLater d a b = true := by
  rw [List.pairwise_iff_getElem]
  intro i j hi hj hij
  refine hα.noLater_of_cuts hxy fun p hp => ?_
  exact List.pairwise_iff_getElem.1 (List.pairwise_map.1 (h p hp)) i j hi hj hij

theorem countP_cut {x y : α} (hxy : lt x y = true) (p : α → Bool) (values : List α) :
    (values.map (cut x y p)).countP (eq y) = values.countP p := by
  rw [List.countP_map]
  refine List.countP_congr fun a _ => ?_
  rw [Function.comp, hα.eq_iff]
  cases h : p a with
  | true => exact iff_of_true (cut_of_true h).symm rfl
  | false =>
      rw [cut_of_false h]
      refine iff_of_false (fun hsame => ?_) Bool.false_ne_true
      rw [hα.lt_iff, hsame] at hxy
      exact Int.lt_irrefl _ hxy

theorem countP_notBelow (a : α) (values : List α) :
    values.countP (notBelow a) = values.countP (eq a) + values.countP (lt a) := by
  rw [List.countP_eq_countP_filter_add values (notBelow a) (eq a), List.countP_filter,
    List.countP_filter]
  refine congrArg₂ (· + ·) (List.countP_congr fun b _ => ?_) (List.countP_congr fun b _ => ?_)
  · rw [Bool.and_eq_true, hα.notBelow_iff, hα.eq_iff_rank_eq]
    omega
  · rw [Bool.and_eq_true, hα.notBelow_iff, Bool.not_eq_true', Bool.eq_false_iff, ne_eq,
      hα.eq_iff_rank_eq, hα.lt_iff]
    omega

theorem arranged_of_cuts {x y : α} (hxy : lt x y = true) {d : Direction} {input output : List α}
    (h : ∀ p : α → Bool, Upward p →
      Arranged d (input.map (cut x y p)) (output.map (cut x y p))) : Arranged d input output := by
  have hcounts : ∀ p : α → Bool, Upward p → output.countP p = input.countP p := by
    intro p hp
    rw [← hα.countP_cut hxy p output, ← hα.countP_cut hxy p input]
    exact (h p hp).sameCounts y
  refine ⟨?_, hα.pairwise_of_cuts hxy fun p hp => (h p hp).ordered, fun a => ?_⟩
  · have hlength := (h (fun _ => true) fun _ _ _ _ => rfl).length
    rwa [List.length_map, List.length_map] at hlength
  · have hnotBelow := hcounts _ (hα.upward_notBelow a)
    have habove := hcounts _ (hα.upward_above a)
    rw [hα.countP_notBelow, hα.countP_notBelow, habove] at hnotBelow
    exact Nat.add_right_cancel hnotBelow

end Exact

end Scalar

end Bitonic
