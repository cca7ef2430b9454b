import Bitonic.Network.Step
import Bitonic.Proofs.RegisterNetwork.Sorts
/-!
# Layers on wires

Wire `r * lanes + t` is lane `t` of register `r`.  Every layer of a network is an exchange of wires:
`Layer.onWires`.  A layer that names only registers of a segment keeps the numbers of the segment in
it, `Sound.perm`, and leaves all other wires alone, `onWires_of_outside`.
-/

namespace Bitonic

namespace Wires

variable {lanes r t : Nat}

theorem div_wire (ht : t < lanes) : (r * lanes + t) / lanes = r := by
  rw [Nat.mul_comm, Nat.mul_add_div (by omega), Nat.div_eq_of_lt ht, Nat.add_zero]

theorem mod_wire (ht : t < lanes) : (r * lanes + t) % lanes = t := by
  rw [Nat.mul_comm, Nat.mul_add_mod, Nat.mod_eq_of_lt ht]

theorem exists_wire (hlanes : 0 < lanes) (p : Nat) : ∃ r t, t < lanes ∧ p = r * lanes + t :=
  ⟨p / lanes, p % lanes, Nat.mod_lt p hlanes, by rw [Nat.mul_comm, Nat.div_add_mod]⟩

theorem le_wire_iff {first : Nat} (ht : t < lanes) :
    first * lanes ≤ r * lanes + t ↔ first ≤ r := by
  rw [← Nat.le_div_iff_mul_le (by omega), div_wire ht]

theorem wire_lt_iff {stop : Nat} (ht : t < lanes) :
    r * lanes + t < stop * lanes ↔ r < stop := by
  rw [← Nat.div_lt_iff_lt_mul (by omega), div_wire ht]

end Wires

namespace Layer

open Wires (div_wire mod_wire exists_wire le_wire_iff wire_lt_iff)

def direction : Layer → Direction
  | inside _ x => x.direction
  | between _ _ d => d

def partner (lanes : Nat) : Layer → Nat → Nat
  | inside r x, p => if p / lanes = r then r * lanes + x.pairing.partner (p % lanes) else p
  | between low high _, p =>
      if p / lanes = low then high * lanes + p % lanes
      else if p / lanes = high then low * lanes + p % lanes
      else p

def onWires (lanes : Nat) (l : Layer) (v : Wires) : Wires := v.exchange l.direction (l.partner lanes)

def allOnWires (lanes : Nat) (ls : List Layer) (v : Wires) : Wires :=
  ls.foldl (fun v l => l.onWires lanes v) v

/-- The layer fits registers of `lanes` lanes and names two registers from low to high. -/
def Sound (lanes : Nat) : Layer → Prop
  | inside _ x => x.Sound lanes
  | between low high _ => low < high

/-- The layer names only registers among the `count` from `first` on. -/
def Within (first count : Nat) : Layer → Prop
  | inside r _ => first ≤ r ∧ r < first + count
  | between low high _ => first ≤ low ∧ low < first + count ∧ first ≤ high ∧ high < first + count

variable {lanes r low high t first count : Nat} {x : Exchange} {d : Direction} {l : Layer}
  {v : Wires}

theorem Within.mono {first' count' : Nat} (h : l.Within first count) (hfirst : first' ≤ first)
    (hstop : first + count ≤ first' + count') : l.Within first' count' := by
  cases l with
  | inside r x =>
      simp only [Within] at *
      omega
  | between low high d =>
      simp only [Within] at *
      omega

theorem Within.topRegister_lt (h : l.Within first count) : l.topRegister < first + count := by
  cases l with
  | inside r x => exact h.2
  | between low high d => exact Nat.max_lt.2 ⟨h.2.1, h.2.2.2⟩

theorem partner_inside (ht : t < lanes) :
    (inside r x).partner lanes (r * lanes + t) = r * lanes + x.pairing.partner t := by
  simp only [partner, div_wire ht, mod_wire ht, if_true]

theorem partner_between_low (ht : t < lanes) :
    (between low high d).partner lanes (low * lanes + t) = high * lanes + t := by
  simp only [partner, div_wire ht, mod_wire ht, if_true]

theorem partner_between_high (hne : low ≠ high) (ht : t < lanes) :
    (between low high d).partner lanes (high * lanes + t) = low * lanes + t := by
  simp only [partner, div_wire ht, mod_wire ht, if_neg hne.symm, if_true]

theorem partner_of_outside (hlanes : 0 < lanes) (hl : l.Within first count) {p : Nat}
    (hp : p < first * lanes ∨ (first + count) * lanes ≤ p) : l.partner lanes p = p := by
  obtain ⟨r', t, ht, rfl⟩ := exists_wire hlanes p
  rw [wire_lt_iff ht, le_wire_iff ht] at hp
  cases l with
  | inside r x =>
      simp only [Within] at hl
      simp only [partner, div_wire ht]
      rw [if_neg (by omega)]
  | between low high d =>
      simp only [Within] at hl
      simp only [partner, div_wire ht]
      rw [if_neg (by omega), if_neg (by omega)]

theorem Sound.partner_lt {x : Exchange} (hx : x.Sound lanes) (ht : t < lanes) :
    x.pairing.partner t < lanes := by
  have hlt := Pairing.partner_lt_length (show t < x.pairing.length by rwa [hx.length])
  rwa [hx.length] at hlt

theorem Sound.twice (hlanes : 0 < lanes) (hl : l.Sound lanes) (p : Nat) :
    l.partner lanes (l.partner lanes p) = p := by
  obtain ⟨r', t, ht, rfl⟩ := exists_wire hlanes p
  cases l with
  | inside r x =>
      by_cases hr : r' = r
      · rw [hr, partner_inside ht, partner_inside (partner_lt hl ht), hl.twice]
      · have hself : (inside r x).partner lanes (r' * lanes + t) = r' * lanes + t := by
          simp only [partner, div_wire ht, if_neg hr]
        rw [hself, hself]
  | between low high d =>
      have hne : low ≠ high := Nat.ne_of_lt hl
      by_cases hlow : r' = low
      · rw [hlow, partner_between_low ht, partner_between_high hne ht]
      · by_cases hhigh : r' = high
        · rw [hhigh, partner_between_high hne ht, partner_between_low ht]
        · have hself : (between low high d).partner lanes (r' * lanes + t) = r' * lanes + t := by
            simp only [partner, div_wire ht, if_neg hlow, if_neg hhigh]
          rw [hself, hself]

theorem Sound.pairs (hlanes : 0 < lanes) (hl : l.Sound lanes) (hw : l.Within first count) :
    Wires.Pairs (l.partner lanes) (first * lanes) (count * lanes) := by
  have htwice := hl.twice hlanes
  refine ⟨htwice, fun p hp hp' => ?_⟩
  rw [← Nat.add_mul] at hp' ⊢
  -- a partner outside would be its own partner, and so the wire itself
  by_cases hout : l.partner lanes p < first * lanes ∨ (first + count) * lanes ≤ l.partner lanes p
  · have hself := partner_of_outside hlanes hw hout
    rw [htwice] at hself
    omega
  · omega

theorem Sound.perm (hlanes : 0 < lanes) (hl : l.Sound lanes) (hw : l.Within first count)
    (v : Wires) : ((l.onWires lanes v).values (first * lanes) (count * lanes)).Perm
      (v.values (first * lanes) (count * lanes)) :=
  Wires.values_exchange_perm (hl.pairs hlanes hw)

theorem onWires_of_outside (hlanes : 0 < lanes) (hw : l.Within first count) {p : Nat}
    (hp : p < first * lanes ∨ (first + count) * lanes ≤ p) : l.onWires lanes v p = v p :=
  Wires.exchange_of_fixed (partner_of_outside hlanes hw hp)

/-! ## The two kinds of layers -/

theorem onWires_inside (ht : t < lanes) :
    (inside r x).onWires lanes v (r * lanes + t) =
      x.onWires (fun t => v (r * lanes + t)) t := by
  have hle : r * lanes + t ≤ r * lanes + x.pairing.partner t ↔ t ≤ x.pairing.partner t := by omega
  simp only [onWires, Exchange.onWires, Wires.exchange, partner_inside ht, direction, hle]

theorem onWires_inside_other {r' : Nat} (hr : r' ≠ r) (ht : t < lanes) :
    (inside r x).onWires lanes v (r' * lanes + t) = v (r' * lanes + t) := by
  apply Wires.exchange_of_fixed
  simp only [partner, div_wire ht, if_neg hr]

theorem onWires_between_low (hl : low < high) (ht : t < lanes) :
    (between low high d).onWires lanes v (low * lanes + t) =
      d.first (v (low * lanes + t)) (v (high * lanes + t)) := by
  have hlt : low * lanes < high * lanes := Nat.mul_lt_mul_of_pos_right hl (by omega)
  exact Wires.exchange_lower (partner_between_low ht) (by omega)

theorem onWires_between_high (hl : low < high) (ht : t < lanes) :
    (between low high d).onWires lanes v (high * lanes + t) =
      d.last (v (low * lanes + t)) (v (high * lanes + t)) := by
  have hlt : low * lanes < high * lanes := Nat.mul_lt_mul_of_pos_right hl (by omega)
  exact Wires.exchange_upper (partner_between_high (Nat.ne_of_lt hl) ht) (by omega)

theorem onWires_between_other (hlow : r ≠ low) (hhigh : r ≠ high) (ht : t < lanes) :
    (between low high d).onWires lanes v (r * lanes + t) = v (r * lanes + t) := by
  apply Wires.exchange_of_fixed
  simp only [partner, div_wire ht, if_neg hlow, if_neg hhigh]

/-! ## Several layers -/

theorem allOnWires_append (lanes : Nat) (ls ms : List Layer) (v : Wires) :
    allOnWires lanes (ls ++ ms) v = allOnWires lanes ms (allOnWires lanes ls v) := List.foldl_append

def AllWithin (lanes first count : Nat) (ls : List Layer) : Prop :=
  ∀ l ∈ ls, l.Sound lanes ∧ l.Within first count

variable {ls : List Layer}

theorem AllWithin.mono {first' count' : Nat} (h : AllWithin lanes first count ls)
    (hfirst : first' ≤ first) (hstop : first + count ≤ first' + count') :
    AllWithin lanes first' count' ls :=
  fun l hl => ⟨(h l hl).1, (h l hl).2.mono hfirst hstop⟩

theorem AllWithin.append {ms : List Layer} (hls : AllWithin lanes first count ls)
    (hms : AllWithin lanes first count ms) : AllWithin lanes first count (ls ++ ms) := by
  intro l hl
  rcases List.mem_append.1 hl with hl | hl
  · exact hls l hl
  · exact hms l hl

theorem AllWithin.perm (hlanes : 0 < lanes) (h : AllWithin lanes first count ls) (v : Wires) :
    ((allOnWires lanes ls v).values (first * lanes) (count * lanes)).Perm
      (v.values (first * lanes) (count * lanes)) := by
  induction ls generalizing v with
  | nil => exact List.Perm.refl _
  | cons l ls ih =>
      obtain ⟨hsound, hwithin⟩ := h l List.mem_cons_self
      have hrest : AllWithin lanes first count ls := fun m hm => h m (List.mem_cons_of_mem l hm)
      exact (ih hrest (l.onWires lanes v)).trans (hsound.perm hlanes hwithin v)

theorem AllWithin.of_outside (hlanes : 0 < lanes) (h : AllWithin lanes first count ls) {p : Nat}
    (hp : p < first * lanes ∨ (first + count) * lanes ≤ p) : allOnWires lanes ls v p = v p := by
  induction ls generalizing v with
  | nil => rfl
  | cons l ls ih =>
      have hrest : AllWithin lanes first count ls := fun m hm => h m (List.mem_cons_of_mem l hm)
      have hfirst := onWires_of_outside hlanes (h l List.mem_cons_self).2 (v := v) hp
      exact (ih hrest).trans hfirst

theorem allOnWires_inside (hlanes : 0 < lanes) {xs : List Exchange}
    (hxs : ∀ x ∈ xs, x.Sound lanes) :
    (fun t => allOnWires lanes (xs.map (inside r)) v (r * lanes + t)) =
      Exchange.allOnWires xs fun t => v (r * lanes + t) := by
  induction xs generalizing v with
  | nil => rfl
  | cons x xs ih =>
      have hx : x.Sound lanes := hxs x List.mem_cons_self
      have hlocal : (fun t => (inside r x).onWires lanes v (r * lanes + t)) =
          x.onWires fun t => v (r * lanes + t) := by
        funext t
        by_cases ht : t < lanes
        · exact onWires_inside ht
        · have hlane : x.pairing.partner t = t :=
            Pairing.partner_of_le (by rw [hx.length]; omega)
          have hout : r * lanes + t < r * lanes ∨ (r + 1) * lanes ≤ r * lanes + t := by
            rw [Nat.succ_mul]
            omega
          have hwithin : (inside r x).Within r 1 := ⟨Nat.le_refl r, Nat.lt_succ_self r⟩
          rw [onWires_of_outside hlanes hwithin hout, Exchange.onWires,
            Wires.exchange_of_fixed hlane]
      calc (fun t => allOnWires lanes ((x :: xs).map (inside r)) v (r * lanes + t))
          = fun t => allOnWires lanes (xs.map (inside r)) ((inside r x).onWires lanes v)
              (r * lanes + t) := rfl
        _ = Exchange.allOnWires xs fun t => (inside r x).onWires lanes v (r * lanes + t) :=
            ih fun y hy => hxs y (List.mem_cons_of_mem x hy)
        _ = Exchange.allOnWires (x :: xs) fun t => v (r * lanes + t) := by
            rw [hlocal]
            rfl

end Layer

end Bitonic
