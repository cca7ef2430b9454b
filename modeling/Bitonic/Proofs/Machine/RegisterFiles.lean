import Bitonic.Machine
import Bitonic.Proofs.Network.LayersOnWires
/-!
# Register files on wires

A register file whose registers are full of numbers is seen as numbers on wires: its values one
register after the other have the same ranks, `RegisterFile.wires_flatten`.
-/

namespace Bitonic

namespace RegisterFile

section Registers

variable {α : Type} {file : RegisterFile α} {r lanes count : Nat} {values : List α}

theorem getD_mem (hr : r < file.length) : file.getD r [] ∈ file := by
  rw [List.getD_eq_getElem?_getD, List.getElem?_eq_getElem hr]
  exact List.getElem_mem hr

theorem getD_set (hr : r < file.length) (register : List α) (r' : Nat) :
    (file.set r register).getD r' [] = if r' = r then register else file.getD r' [] := by
  rw [List.getD_eq_getElem?_getD, List.getD_eq_getElem?_getD, List.getElem?_set]
  by_cases h : r = r'
  · rw [if_pos h, if_pos h.symm, if_pos hr]
    rfl
  · rw [if_neg h, if_neg (Ne.symm h)]

theorem set_getD (file : RegisterFile α) (r : Nat) : file.set r (file.getD r []) = file := by
  by_cases hr : r < file.length
  · rw [List.getD_eq_getElem _ _ hr, List.set_getElem_self]
  · exact List.set_eq_of_length_le (Nat.le_of_not_lt hr)

theorem flatten_take (h : values.length = count * lanes) :
    (take lanes count values).flatten = values := by
  induction count generalizing values with
  | zero =>
      rw [Nat.zero_mul] at h
      rw [List.length_eq_zero_iff.1 h]
      rfl
  | succ count ih =>
      rw [Nat.succ_mul] at h
      rw [take, List.flatten_cons, ih (by rw [List.length_drop]; omega), List.take_append_drop]

theorem take_flatten (h : ∀ register ∈ file, register.length = lanes) :
    take lanes file.length file.flatten = file := by
  induction file with
  | nil => rfl
  | cons register file ih =>
      have hregister := h register List.mem_cons_self
      have hrest := ih fun register' hmem => h register' (List.mem_cons_of_mem register hmem)
      rw [List.length_cons, take, List.flatten_cons, List.take_left' hregister,
        List.drop_left' hregister, hrest]

theorem ofValues_eq_take (hlanes : 0 < lanes) (h : values.length = count * lanes) :
    ofValues lanes values = take lanes count values := by
  rw [ofValues, h, Nat.mul_div_cancel _ hlanes]

def Shaped (lanes : Nat) (file : RegisterFile α) : Prop :=
  ∀ register ∈ file, register.length = lanes

theorem Shaped.tail {register : List α} (h : Shaped lanes (register :: file)) :
    Shaped lanes file :=
  fun register' hmem => h register' (List.mem_cons_of_mem register hmem)

theorem Shaped.length_getD (h : file.Shaped lanes) (hr : r < file.length) :
    (file.getD r []).length = lanes :=
  h _ (getD_mem hr)

theorem Shaped.set {register : List α} (h : file.Shaped lanes) (hregister : register.length = lanes)
    (r : Nat) : Shaped lanes (file.set r register) := by
  intro register' hmem
  rcases List.mem_or_eq_of_mem_set hmem with hmem | rfl
  · exact h register' hmem
  · exact hregister

theorem Shaped.length_flatten (h : file.Shaped lanes) :
    file.flatten.length = file.length * lanes := by
  rw [List.length_flatten, List.map_congr_left h, List.map_const', List.sum_replicate_nat]

theorem shaped_take (h : values.length = count * lanes) : Shaped lanes (take lanes count values) := by
  induction count generalizing values with
  | zero => exact nofun
  | succ count ih =>
      rw [Nat.succ_mul] at h
      have hdrop : (values.drop lanes).length = count * lanes := by
        rw [List.length_drop]
        omega
      exact List.forall_mem_cons.2 ⟨by rw [List.length_take]; omega, ih hdrop⟩

theorem length_take (lanes count : Nat) (values : List α) :
    (take lanes count values).length = count := by
  induction count generalizing values with
  | zero => rfl
  | succ count ih => rw [take, List.length_cons, ih]

theorem ofValues_spec (h : values.length = count * lanes) :
    Shaped lanes (ofValues lanes values) ∧ (ofValues lanes values).flatten = values := by
  by_cases hlanes : 0 < lanes
  · rw [ofValues_eq_take hlanes h]
    exact ⟨shaped_take h, flatten_take h⟩
  · obtain rfl : lanes = 0 := Nat.eq_zero_of_not_pos hlanes
    obtain rfl : values = [] := List.eq_nil_of_length_eq_zero h
    rw [ofValues, List.length_nil, Nat.zero_div, take]
    exact ⟨List.forall_mem_nil _, rfl⟩

end Registers

variable {α : Type} [Scalar α] {lanes count : Nat} {file : RegisterFile α}

/-- `count` registers of `lanes` numbers. -/
structure WellFormed (lanes count : Nat) (file : RegisterFile α) : Prop where
  length : file.length = count
  registers : ∀ register ∈ file, register.length = lanes
  numbers : ∀ register ∈ file, ∀ a ∈ register, Scalar.IsNumber a

theorem WellFormed.register (hf : file.WellFormed lanes count) {r : Nat} (hr : r < count) :
    (file.getD r []).length = lanes ∧ ∀ a ∈ file.getD r [], Scalar.IsNumber a := by
  have hmem := getD_mem (hr.trans_eq hf.length.symm)
  exact ⟨hf.registers _ hmem, hf.numbers _ hmem⟩

theorem WellFormed.set (hf : file.WellFormed lanes count) {register : List α} (r : Nat)
    (hlength : register.length = lanes) (hnum : ∀ a ∈ register, Scalar.IsNumber a) :
    WellFormed lanes count (file.set r register) := by
  refine ⟨by rw [List.length_set]; exact hf.length, Shaped.set hf.registers hlength r, ?_⟩
  · intro register' hmem
    rcases List.mem_or_eq_of_mem_set hmem with hmem | rfl
    · exact hf.numbers register' hmem
    · exact hnum

theorem wellFormed_take {values : List α} (h : values.length = count * lanes)
    (hnum : ∀ a ∈ values, Scalar.IsNumber a) :
    WellFormed lanes count (take lanes count values) := by
  refine ⟨length_take lanes count values, shaped_take h, fun register hmem a ha => hnum a ?_⟩
  rw [← flatten_take h]
  exact List.mem_flatten.2 ⟨register, hmem, ha⟩

theorem WellFormed.length_flatten (hf : file.WellFormed lanes count) :
    file.flatten.length = count * lanes := by
  rw [Shaped.length_flatten hf.registers, hf.length]

theorem WellFormed.isNumber (hf : file.WellFormed lanes count) :
    ∀ a ∈ file.flatten, Scalar.IsNumber a := by
  intro a ha
  obtain ⟨register, hmem, ha⟩ := List.mem_flatten.1 ha
  exact hf.numbers register hmem a ha

variable [Ranked α]

/-- The ranks in the registers. -/
def wires (lanes : Nat) (file : RegisterFile α) : Wires := fun p =>
  Scalar.wires (file.getD (p / lanes) []) (p % lanes)

theorem wires_wire {r t : Nat} (ht : t < lanes) :
    file.wires lanes (r * lanes + t) = Scalar.wires (file.getD r []) t := by
  rw [wires, Wires.div_wire ht, Wires.mod_wire ht]

theorem wires_set {r r' t : Nat} (hr : r < file.length) (register : List α) (ht : t < lanes) :
    wires lanes (file.set r register) (r' * lanes + t) =
      if r' = r then Scalar.wires register t else file.wires lanes (r' * lanes + t) := by
  rw [wires_wire ht, wires_wire ht, getD_set hr]
  split
  · rfl
  · rfl

theorem wires_flatten (hf : ∀ register ∈ file, register.length = lanes) {r t : Nat}
    (ht : t < lanes) :
    Scalar.wires file.flatten (r * lanes + t) = file.wires lanes (r * lanes + t) := by
  rw [wires_wire ht]
  induction file generalizing r with
  | nil => rfl
  | cons register file ih =>
      have hregister : register.length = lanes := hf register List.mem_cons_self
      cases r with
      | zero =>
          rw [List.flatten_cons, Nat.zero_mul, Nat.zero_add,
            Scalar.wires_append_left (by omega)]
          rfl
      | succ r =>
          rw [List.flatten_cons, show (r + 1) * lanes + t = register.length + (r * lanes + t) by
            rw [Nat.succ_mul]; omega, Scalar.wires_append_right]
          exact ih fun register' hmem => hf register' (List.mem_cons_of_mem register hmem)

theorem wires_flatten_eq (hlanes : 0 < lanes) (hf : ∀ register ∈ file, register.length = lanes) :
    Scalar.wires file.flatten = file.wires lanes := by
  funext p
  obtain ⟨r, t, ht, rfl⟩ := Wires.exists_wire hlanes p
  exact wires_flatten hf ht

end RegisterFile

end Bitonic
