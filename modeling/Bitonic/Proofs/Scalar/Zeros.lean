import Bitonic.Proofs.Scalar.Infinity
import Mathlib.Data.List.Perm.Basic
/-!
# The two zeros

A value is told by its rank, except that the two zeros of a floating-point type share theirs:
`eq_or_zeros_of_rank_eq`.  So a list that holds the ranks of another, each as often, and no value
that the other does not hold, holds the values of the other as often unless both zeros are among
them: `perm_of_perm_rank`.
-/

namespace Bitonic

/-- The two values of a type that are equal as numbers, the one without a sign first. -/
def ScalarType.zeros? : (ty : ScalarType) → Option (ty.Value × ty.Value)
  | .float => some ((⟨0⟩ : Binary32), (⟨0x80000000⟩ : Binary32))
  | .double => some ((⟨0⟩ : Binary64), (⟨0x8000000000000000⟩ : Binary64))
  | _ => none

theorem BinaryFormat.placeOf_inj {half bits bits' : Nat} (hbits : bits < 2 * half)
    (hbits' : bits' < 2 * half) (h : placeOf half bits = placeOf half bits') :
    bits = bits' ∨ bits = 0 ∧ bits' = half ∨ bits' = 0 ∧ bits = half := by
  unfold placeOf at h
  split at h <;> split at h <;> omega

namespace Scalar

open Ranked (rank)

/-- Of values told by their bits, two of one place are the same or the two whose other bits are
clear. -/
theorem eq_or_zeros_of_place {α : Type} {bits : α → Nat} (hinj : bits.Injective) {half : Nat}
    {pos neg a b : α} (hpos : bits pos = 0) (hneg : bits neg = half) (ha : bits a < 2 * half)
    (hb : bits b < 2 * half)
    (h : BinaryFormat.placeOf half (bits a) = BinaryFormat.placeOf half (bits b)) :
    a = b ∨ (pos, neg) = (a, b) ∨ (pos, neg) = (b, a) := by
  rcases BinaryFormat.placeOf_inj ha hb h with hsame | ⟨hzero, hhalf⟩ | ⟨hzero, hhalf⟩
  · exact Or.inl (hinj hsame)
  · exact Or.inr (Or.inl (Prod.ext (hinj (hpos.trans hzero.symm)) (hinj (hneg.trans hhalf.symm))))
  · exact Or.inr (Or.inr (Prod.ext (hinj (hpos.trans hzero.symm)) (hinj (hneg.trans hhalf.symm))))

theorem eq_or_zeros_binary32 {a b : Binary32} (h : rank a = rank b) :
    a = b ∨ ScalarType.float.zeros? = some (a, b) ∨ ScalarType.float.zeros? = some (b, a) := by
  have hplaces : a.rank.toNat = b.rank.toNat := Int.ofNat_inj.1 h
  rw [Binary32.toNat_rank, Binary32.toNat_rank] at hplaces
  have hinj : Function.Injective fun x : Binary32 => x.bits.toNat :=
    fun ⟨_⟩ ⟨_⟩ hbits => congrArg Binary32.mk (UInt32.toNat_inj.1 hbits)
  have hpos : (⟨0⟩ : Binary32).bits.toNat = 0 := rfl
  have hneg : (⟨0x80000000⟩ : Binary32).bits.toNat = 2 ^ 31 := rfl
  exact (eq_or_zeros_of_place hinj hpos hneg a.bits.toNat_lt b.bits.toNat_lt hplaces).imp_right
    (Or.imp (congrArg some) (congrArg some))

theorem eq_or_zeros_binary64 {a b : Binary64} (h : rank a = rank b) :
    a = b ∨ ScalarType.double.zeros? = some (a, b) ∨ ScalarType.double.zeros? = some (b, a) := by
  have hplaces : a.rank.toNat = b.rank.toNat := Int.ofNat_inj.1 h
  rw [Binary64.toNat_rank, Binary64.toNat_rank] at hplaces
  have hinj : Function.Injective fun x : Binary64 => x.bits.toNat :=
    fun ⟨_⟩ ⟨_⟩ hbits => congrArg Binary64.mk (UInt64.toNat_inj.1 hbits)
  have hpos : (⟨0⟩ : Binary64).bits.toNat = 0 := rfl
  have hneg : (⟨0x8000000000000000⟩ : Binary64).bits.toNat = 2 ^ 63 := rfl
  exact (eq_or_zeros_of_place hinj hpos hneg a.bits.toNat_lt b.bits.toNat_lt hplaces).imp_right
    (Or.imp (congrArg some) (congrArg some))

variable {ty : ScalarType}

theorem eq_or_zeros_of_rank_eq {a b : ty.Value} (h : rank a = rank b) :
    a = b ∨ ty.zeros? = some (a, b) ∨ ty.zeros? = some (b, a) := by
  cases ty with
  | int32 => exact Or.inl (Int32.toInt_inj.1 h)
  | uint32 => exact Or.inl (UInt32.toNat_inj.1 (Int.ofNat_inj.1 h))
  | float => exact eq_or_zeros_binary32 h
  | int64 => exact Or.inl (Int64.toInt_inj.1 h)
  | uint64 => exact Or.inl (UInt64.toNat_inj.1 (Int.ofNat_inj.1 h))
  | double => exact eq_or_zeros_binary64 h

theorem zeros_ne {pos neg : ty.Value} (h : ty.zeros? = some (pos, neg)) : pos ≠ neg := by
  cases ty <;> cases h <;> decide

/-- No comparison tells the two values apart. -/
def Tied {α : Type} [Scalar α] (a b : α) : Prop :=
  ∀ d, ∀ x ∈ [a, b], ∀ y ∈ [a, b], noLater d x y = true

theorem tied_zeros {pos neg : ty.Value} (h : ty.zeros? = some (pos, neg)) : Tied pos neg := by
  intro d
  cases ty <;> cases h <;> cases d <;> decide

theorem isNumber_zeros {pos neg : ty.Value} (h : ty.zeros? = some (pos, neg)) :
    IsNumber pos ∧ IsNumber neg := by
  cases ty <;> cases h <;> decide

section Lookup

variable {α : Type} [Scalar α] [Ranked α] {values out : List α}

def ofRank? (values : List α) (r : Int) : Option α := values.find? fun a => rank a == r

theorem ofRank?_rank (hinj : ∀ a ∈ values, ∀ b ∈ values, rank a = rank b → a = b) {a : α}
    (ha : a ∈ values) : ofRank? values (rank a) = some a := by
  unfold ofRank?
  cases hfound : values.find? fun b => rank b == rank a with
  | none => exact absurd (beq_self_eq_true _) (List.find?_eq_none.1 hfound a ha)
  | some b =>
      have hrank := List.find?_some hfound
      rw [hinj b (List.mem_of_find?_eq_some hfound) a ha (beq_iff_eq.1 hrank)]

/-- Values from a list, with the ranks of that list, are its values if ranks tell those apart. -/
theorem perm_of_perm_rank (hmem : ∀ a ∈ out, a ∈ values)
    (hranks : (out.map rank).Perm (values.map rank))
    (hinj : ∀ a ∈ values, ∀ b ∈ values, rank a = rank b → a = b) : out.Perm values := by
  have hperm := hranks.map (ofRank? values)
  have hlookup : ∀ a ∈ values, (ofRank? values ∘ rank) a = some a :=
    fun a ha => ofRank?_rank hinj ha
  rw [List.map_map, List.map_map, List.map_congr_left fun a ha => hlookup a (hmem a ha),
    List.map_congr_left hlookup] at hperm
  exact (List.map_perm_map_iff fun _ _ => Option.some.inj).1 hperm

end Lookup

theorem rank_inj_of_zeros {values : List ty.Value}
    (hzeros : ∀ pos neg, ty.zeros? = some (pos, neg) → pos ∉ values ∨ neg ∉ values) :
    ∀ a ∈ values, ∀ b ∈ values, rank a = rank b → a = b := by
  intro a ha b hb h
  rcases eq_or_zeros_of_rank_eq h with hsame | hpair | hpair
  · exact hsame
  · exact (hzeros a b hpair).elim (absurd ha) (absurd hb)
  · exact (hzeros b a hpair).elim (absurd hb) (absurd ha)

end Scalar

end Bitonic
