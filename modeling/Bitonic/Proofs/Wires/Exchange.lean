import Bitonic.Direction
import Mathlib.Data.List.Nodup
import Mathlib.Data.List.Range
import Mathlib.Logic.Function.Basic
/-!
# Exchanges on wires

A register file is seen as numbers on wires: wire `p` is lane `p % lanes` of register `p / lanes`,
and the number is the place of its value in numeric order.  Every layer of a network compares each
wire with a partner.  The two facts that all later arguments use:

* `values_exchange_perm` — where partners are mutual, an exchange permutes every segment of wires
  that it maps onto itself;
* `exchange_of_fixed` — wires that are their own partners keep their values.
-/

namespace Bitonic

namespace Direction

def Before (d : Direction) (a b : Int) : Prop :=
  match d with
  | ascending => a ≤ b
  | descending => b ≤ a

instance (d : Direction) (a b : Int) : Decidable (d.Before a b) :=
  match d with
  | ascending => inferInstanceAs (Decidable (a ≤ b))
  | descending => inferInstanceAs (Decidable (b ≤ a))

def first (d : Direction) (a b : Int) : Int :=
  match d with
  | ascending => min a b
  | descending => max a b

def last (d : Direction) (a b : Int) : Int :=
  match d with
  | ascending => max a b
  | descending => min a b

theorem before_refl (d : Direction) (a : Int) : d.Before a a := by
  cases d <;> exact Int.le_refl a

theorem before_trans {d : Direction} {a b c : Int} (hab : d.Before a b) (hbc : d.Before b c) :
    d.Before a c := by
  cases d
  · exact Int.le_trans hab hbc
  · exact Int.le_trans hbc hab

theorem before_antisymm {d : Direction} {a b : Int} (hab : d.Before a b) (hba : d.Before b a) :
    a = b := by
  cases d
  · exact Int.le_antisymm hab hba
  · exact Int.le_antisymm hba hab

theorem before_total (d : Direction) (a b : Int) : d.Before a b ∨ d.Before b a := by
  cases d
  · exact Int.le_total a b
  · exact Int.le_total b a

@[simp] theorem before_reverse {d : Direction} {a b : Int} :
    d.reverse.Before a b ↔ d.Before b a := by
  cases d <;> exact Iff.rfl

theorem first_eq (d : Direction) (a b : Int) :
    d.first a b = if d.Before a b then a else b := by
  cases d
  · exact Int.min_def a b
  · rw [show first descending a b = max b a from Int.max_comm a b]
    exact Int.max_def b a

theorem last_eq (d : Direction) (a b : Int) :
    d.last a b = if d.Before a b then b else a := by
  cases d
  · exact Int.max_def a b
  · rw [show last descending a b = min b a from Int.min_comm a b]
    exact Int.min_def b a

@[simp] theorem first_self (d : Direction) (a : Int) : d.first a a = a := by
  cases d <;> simp [first]

theorem last_comm (d : Direction) (a b : Int) : d.last a b = d.last b a := by
  cases d <;> simp only [last] <;> omega

end Direction

/-- The numbers on the wires of a network. -/
abbrev Wires := Nat → Int

namespace Wires

variable {d : Direction} {v w : Wires} {start count : Nat}

/-- Compares every wire with its partner.  The value that comes first goes to the lower wire. -/
def exchange (d : Direction) (partner : Nat → Nat) (v : Wires) : Wires := fun p =>
  if p ≤ partner p then d.first (v p) (v (partner p)) else d.last (v p) (v (partner p))

def values (v : Wires) (start count : Nat) : List Int := (List.range' start count).map v

def Ordered (d : Direction) (v : Wires) (start count : Nat) : Prop :=
  ∀ p q, start ≤ p → p ≤ q → q < start + count → d.Before (v p) (v q)

def Separated (d : Direction) (v : Wires) (start count start' count' : Nat) : Prop :=
  ∀ p q, start ≤ p → p < start + count → start' ≤ q → q < start' + count' →
    d.Before (v p) (v q)

/-- Partners are mutual, and no wire of the segment has its partner outside. -/
structure Pairs (partner : Nat → Nat) (start count : Nat) : Prop where
  twice : ∀ p, partner (partner p) = p
  inside : ∀ p, start ≤ p → p < start + count →
    start ≤ partner p ∧ partner p < start + count

theorem exchange_of_fixed {partner : Nat → Nat} {p : Nat} (h : partner p = p) :
    exchange d partner v p = v p := by
  simp [exchange, h]

theorem exchange_lower {partner : Nat → Nat} {p q : Nat} (h : partner p = q) (hpq : p < q) :
    exchange d partner v p = d.first (v p) (v q) := by
  simp only [exchange, h]
  exact if_pos (by omega)

theorem exchange_upper {partner : Nat → Nat} {p q : Nat} (h : partner q = p) (hpq : p < q) :
    exchange d partner v q = d.last (v p) (v q) := by
  simp only [exchange, h]
  rw [if_neg (by omega), Direction.last_comm]

private def source (d : Direction) (partner : Nat → Nat) (v : Wires) (p : Nat) : Nat :=
  if exchange d partner v p = v p then p else partner p

private theorem exchange_eq_source (d : Direction) (partner : Nat → Nat) (v : Wires) (p : Nat) :
    exchange d partner v p = v (source d partner v p) := by
  unfold source
  split
  · assumption
  · next h =>
    revert h
    simp only [exchange, Direction.first_eq, Direction.last_eq]
    repeat' split
    all_goals simp

private theorem source_source {partner : Nat → Nat} (htwice : ∀ p, partner (partner p) = p)
    (p : Nat) : source d partner v (source d partner v p) = p := by
  -- a wire takes its partner's value exactly when the partner takes its value
  have hswap : exchange d partner v p ≠ v p →
      exchange d partner v (partner p) ≠ v (partner p) := by
    rcases Nat.lt_trichotomy p (partner p) with hlt | heq | hgt
    · rw [exchange_lower rfl hlt, exchange_upper (htwice p) hlt, Direction.first_eq, Direction.last_eq]
      split
      · exact fun h => absurd rfl h
      · exact Ne.symm
    · rw [exchange_of_fixed heq.symm]
      simp
    · rw [exchange_upper rfl hgt, exchange_lower (htwice p) hgt, Direction.first_eq,
        Direction.last_eq]
      split
      · exact fun h => absurd rfl h
      · exact Ne.symm
  by_cases h : exchange d partner v p = v p
  · rw [show source d partner v p = p from if_pos h]
    exact if_pos h
  · rw [show source d partner v p = partner p from if_neg h]
    unfold source
    rw [if_neg (hswap h), htwice]

theorem values_exchange_perm {partner : Nat → Nat} (h : Pairs partner start count) :
    (values (exchange d partner v) start count).Perm (values v start count) := by
  have hinv := source_source (d := d) (v := v) h.twice
  have hmem : ∀ p ∈ List.range' start count, source d partner v p ∈ List.range' start count := by
    intro p hp
    rw [List.mem_range'_1] at hp ⊢
    unfold source
    split
    · exact hp
    · exact h.inside p hp.1 hp.2
  have hperm : ((List.range' start count).map (source d partner v)).Perm
      (List.range' start count) := by
    apply (List.perm_ext_iff_of_nodup _ List.nodup_range').2
    · intro p
      rw [List.mem_map]
      constructor
      · rintro ⟨q, hq, rfl⟩
        exact hmem q hq
      · intro hp
        exact ⟨_, hmem p hp, hinv p⟩
    · exact List.Nodup.map (Function.Involutive.injective hinv) List.nodup_range'
  have hmap := hperm.map v
  rw [List.map_map] at hmap
  have hvalues : values (exchange d partner v) start count =
      (List.range' start count).map (v ∘ source d partner v) := by
    apply List.map_congr_left
    intro p _
    exact exchange_eq_source d partner v p
  rw [hvalues]
  exact hmap

theorem mem_values {x : Int} :
    x ∈ values v start count ↔ ∃ p, start ≤ p ∧ p < start + count ∧ v p = x := by
  simp only [values, List.mem_map, List.mem_range'_1, and_assoc]

theorem values_congr (start count : Nat) (h : ∀ p, start ≤ p → p < start + count → v p = w p) :
    values v start count = values w start count := by
  apply List.map_congr_left
  intro p hp
  rw [List.mem_range'_1] at hp
  exact h p hp.1 hp.2

theorem Separated.of_perm {start' count' : Nat} (h : Separated d v start count start' count')
    (hlow : (values w start count).Perm (values v start count))
    (hhigh : (values w start' count').Perm (values v start' count')) :
    Separated d w start count start' count' := by
  intro p q hp hp' hq hq'
  have hpw : w p ∈ values v start count := hlow.subset (mem_values.2 ⟨p, hp, hp', rfl⟩)
  have hqw : w q ∈ values v start' count' := hhigh.subset (mem_values.2 ⟨q, hq, hq', rfl⟩)
  obtain ⟨a, ha, ha', hav⟩ := mem_values.1 hpw
  obtain ⟨b, hb, hb', hbv⟩ := mem_values.1 hqw
  rw [← hav, ← hbv]
  exact h a b ha ha' hb hb'

theorem Ordered.append {count' : Nat} (hlow : Ordered d v start count)
    (hhigh : Ordered d v (start + count) count')
    (hbetween : Separated d v start count (start + count) count') :
    Ordered d v start (count + count') := by
  intro p q hp hpq hq
  by_cases hpl : p < start + count
  · by_cases hql : q < start + count
    · exact hlow p q hp hpq hql
    · exact hbetween p q hp hpl (by omega) (by omega)
  · exact hhigh p q (by omega) hpq (by omega)

theorem Ordered.congr (h : Ordered d v start count)
    (hw : ∀ p, start ≤ p → p < start + count → w p = v p) : Ordered d w start count := by
  intro p q hp hpq hq
  rw [hw p hp (by omega), hw q (by omega) hq]
  exact h p q hp hpq hq

theorem ordered_one (d : Direction) (v : Wires) (start : Nat) : Ordered d v start 1 := by
  intro p q hp hpq hq
  rw [show p = q by omega]
  exact d.before_refl _

end Wires

end Bitonic
