import Bitonic.Machine.InPlace
import Bitonic.Proofs.Lane.ExchangeRun
import Bitonic.Proofs.Machine.RegisterFiles
/-!
# Layers on a row of lanes

The registers of a file, laid one after the other, are a row: lane `t` of register `r` is at place
`r * lanes + t`.  A layer that goes through the lanes in place, one after the other, makes of the row
what `Layer.run` makes of the registers, `Layer.onCopy_runAt`; in particular every place that it
reads or writes is one of the row.

Each loop over the lanes is followed by its states: after `t` lanes, the first `t` lanes of the
registers that it works on are new and the others still old, `OnRow.written`.
-/

namespace Bitonic

variable {α β : Type}

namespace OnRow

theorem run_bind_of_ok {x : OnRow α β} {row row' : List α} {b : β} {γ : Type}
    (h : x.run row = .ok b row') (f : β → OnRow α γ) : (x >>= f).run row = (f b).run row' := by
  rw [EStateM.run_bind, h]

theorem run_outcome_ok (b : β) (row : List α) :
    (liftM (Except.ok b : Outcome β) : OnRow α β).run row = .ok b row := rfl

theorem run_checked_of_ok {x : Checked β} {b : β} (h : x = .ok b) (row : List α) :
    (liftM x : OnRow α β).run row = .ok b row := by
  rw [h]
  rfl

/-! ## Runs on a copy -/

theorem onCopy_liftM_bind (x : Outcome β) (f : β → OnRow α Unit) (row : List α) :
    onCopy (liftM x >>= f) row = x >>= fun b => onCopy (f b) row := by
  cases x with
  | error failure => rfl
  | ok b => rfl

theorem onCopy_checked_bind (x : Checked β) (f : β → OnRow α Unit) (row : List α) :
    onCopy (liftM x >>= f) row = (liftM x : Outcome β) >>= fun b => onCopy (f b) row := by
  cases x with
  | error fault => rfl
  | ok b => rfl

theorem onCopy_bind_of_ok {x : OnRow α β} {row row' : List α} {b : β}
    (h : x.run row = .ok b row') (f : β → OnRow α Unit) :
    onCopy (x >>= f) row = onCopy (f b) row' := by
  rw [onCopy, run_bind_of_ok h, onCopy]

theorem onCopy_get_bind (f : List α → OnRow α Unit) (row : List α) :
    onCopy (get >>= f) row = onCopy (f row) row := rfl

theorem onCopy_bind (x : OnRow α Unit) (f : Unit → OnRow α Unit) (row : List α) :
    onCopy (x >>= f) row = onCopy x row >>= onCopy (f ()) := by
  rw [onCopy, onCopy, EStateM.run_bind]
  cases x.run row with
  | error failure row' => rfl
  | ok b row' => rfl

theorem onCopy_forM (f : β → OnRow α Unit) (bs : List β) (row : List α) :
    onCopy (bs.forM f) row = bs.foldlM (fun row b => onCopy (f b) row) row := by
  induction bs generalizing row with
  | nil => rfl
  | cons b bs ih =>
      rw [List.foldlM_cons]
      change onCopy (f b >>= fun _ => bs.forM f) row = _
      rw [onCopy_bind]
      exact congrArg _ (funext ih)

theorem run_forM_range {f : Nat → OnRow α Unit} {state : Nat → List α} {count : Nat}
    (h : ∀ t < count, (f t).run (state t) = .ok () (state (t + 1))) :
    ((List.range count).forM f).run (state 0) = .ok () (state count) := by
  induction count with
  | zero => rfl
  | succ count ih =>
      have hbefore : (forM (List.range count) f).run (state 0) = .ok () (state count) :=
        ih fun t ht => h t (Nat.lt_succ_of_lt ht)
      have hlast := h count (Nat.lt_succ_self count)
      rw [List.range_succ, List.forM_eq_forM, List.forM_append]
      rw [run_bind_of_ok hbefore, List.forM_cons, run_bind_of_ok hlast]
      rfl

/-! ## Values that are replaced one by one -/

/-- The new values up to `count` and the old ones from there on. -/
def written (new old : List α) (count : Nat) : List α := new.take count ++ old.drop count

variable {new old : List α} {t : Nat} {a : α}

theorem written_length (h : new.length = old.length) : written new old old.length = new := by
  rw [written, ← h, List.take_length, h, List.drop_length, List.append_nil]

theorem length_written (h : new.length = old.length) : (written new old t).length = old.length := by
  rw [written, List.length_append, List.length_take, List.length_drop]
  omega

theorem getElem?_written (h : new.length = old.length) (ht : t < old.length) :
    (written new old t)[t]? = old[t]? := by
  rw [written, List.getElem?_append_right (by rw [List.length_take]; omega), List.length_take,
    Nat.min_eq_left (by omega), Nat.sub_self, List.getElem?_drop, Nat.add_zero]

theorem set_written (h : new.length = old.length) (ha : new[t]? = some a) :
    (written new old t).set t a = written new old (t + 1) := by
  obtain ⟨ht, rfl⟩ := List.getElem?_eq_some_iff.1 ha
  rw [written, written, List.set_append_right _ _ (by rw [List.length_take]; omega),
    List.length_take, Nat.min_eq_left ht.le, Nat.sub_self, List.drop_eq_getElem_cons (h ▸ ht),
    List.set_cons_zero, List.take_succ_eq_append_getElem ht, List.append_assoc]
  rfl

end OnRow

namespace RegisterFile

open OnRow

variable {file : RegisterFile α} {lanes r t : Nat} {a : α} {register : List α}

theorem Shaped.place_lt (h : file.Shaped lanes) (hr : r < file.length) (ht : t < lanes) :
    r * lanes + t < file.flatten.length := by
  have hnext : (r + 1) * lanes ≤ file.length * lanes := Nat.mul_le_mul_right lanes hr
  rw [Nat.succ_mul] at hnext
  rw [h.length_flatten]
  omega

theorem Shaped.getElem?_flatten (h : file.Shaped lanes) (ht : t < lanes) :
    file.flatten[r * lanes + t]? = (file.getD r [])[t]? := by
  induction file generalizing r with
  | nil => rfl
  | cons register file ih =>
      have hregister : register.length = lanes := h register List.mem_cons_self
      rw [List.flatten_cons]
      cases r with
      | zero =>
          rw [Nat.zero_mul, Nat.zero_add, List.getElem?_append_left (by omega)]
          rfl
      | succ r =>
          rw [Nat.succ_mul, List.getElem?_append_right (by omega),
            show r * lanes + lanes + t - register.length = r * lanes + t by omega]
          exact ih h.tail

theorem Shaped.set_flatten (h : file.Shaped lanes) (ht : t < lanes) :
    file.flatten.set (r * lanes + t) a = (file.set r ((file.getD r []).set t a)).flatten := by
  induction file generalizing r with
  | nil => rfl
  | cons register file ih =>
      have hregister : register.length = lanes := h register List.mem_cons_self
      rw [List.flatten_cons]
      cases r with
      | zero =>
          rw [Nat.zero_mul, Nat.zero_add, List.set_append_left _ _ (by omega)]
          rfl
      | succ r =>
          rw [Nat.succ_mul, List.set_append_right _ _ (by omega),
            show r * lanes + lanes + t - register.length = r * lanes + t by omega, ih h.tail]
          rfl

theorem Shaped.slice_flatten (h : file.Shaped lanes) (hr : r < file.length) :
    slice file.flatten (r * lanes) lanes = .ok (file.getD r []) := by
  have hfits : r * lanes + lanes ≤ file.flatten.length := by
    rw [h.length_flatten, ← Nat.succ_mul]
    exact Nat.mul_le_mul_right lanes hr
  rw [slice, if_pos hfits]
  apply congrArg
  apply List.ext_getElem?
  intro t
  rw [List.getElem?_take]
  by_cases ht : t < lanes
  · rw [if_pos ht, List.getElem?_drop, h.getElem?_flatten ht]
  · rw [if_neg ht]
    exact (List.getElem?_eq_none ((h.length_getD hr).trans_le (Nat.le_of_not_lt ht))).symm

theorem Shaped.run_read (h : file.Shaped lanes) (ht : t < lanes)
    (ha : (file.getD r [])[t]? = some a) :
    (read (r * lanes + t)).run file.flatten = .ok a file.flatten := by
  have hmember : memberAt file.flatten (r * lanes + t) = .ok a := by
    rw [memberAt, h.getElem?_flatten ht, ha]
  exact run_checked_of_ok hmember _

def setLane (file : RegisterFile α) (r t : Nat) (a : α) : RegisterFile α :=
  file.set r ((file.getD r []).set t a)

theorem setLane_self (ha : (file.getD r [])[t]? = some a) : file.setLane r t a = file := by
  obtain ⟨ht, rfl⟩ := List.getElem?_eq_some_iff.1 ha
  rw [setLane, List.set_getElem_self, set_getD]

theorem length_setLane : (file.setLane r t a).length = file.length := List.length_set

theorem shaped_setLane (h : file.Shaped lanes) (hr : r < file.length) :
    Shaped lanes (file.setLane r t a) :=
  h.set (List.length_set.trans (h.length_getD hr)) r

theorem Shaped.run_write (h : file.Shaped lanes) (hr : r < file.length) (ht : t < lanes)
    (a : α) : (write (r * lanes + t) a).run file.flatten = .ok () (file.setLane r t a).flatten := by
  have hplace := h.place_lt hr ht
  rw [setLane, ← h.set_flatten ht, write, run_bind_of_ok (EStateM.run_get _), if_pos hplace]
  rfl

/-! ## Registers that are renewed lane by lane -/

/-- The file with the first `count` lanes of a register renewed. -/
def renewed (file : RegisterFile α) (r : Nat) (new : List α) (count : Nat) : RegisterFile α :=
  file.set r (written new (file.getD r []) count)

section Renewed

variable {new : List α} {q : Nat}

theorem renewed_zero (file : RegisterFile α) (r : Nat) (new : List α) :
    file.renewed r new 0 = file := set_getD file r

theorem length_renewed : (file.renewed r new t).length = file.length := List.length_set

theorem Shaped.renewed (h : file.Shaped lanes) (hr : r < file.length) (hnew : new.length = lanes)
    (t : Nat) : Shaped lanes (file.renewed r new t) := by
  have hold := h.length_getD hr
  exact h.set ((length_written (hnew.trans hold.symm)).trans hold) r

theorem Shaped.renewed_lanes (h : file.Shaped lanes) (hr : r < file.length)
    (hnew : new.length = lanes) : file.renewed r new lanes = file.set r new := by
  have hold := h.length_getD hr
  have hlast := written_length (hnew.trans hold.symm)
  rw [hold] at hlast
  rw [RegisterFile.renewed, hlast]

theorem Shaped.getElem?_renewed (h : file.Shaped lanes) (hr : r < file.length)
    (hnew : new.length = lanes) (ht : t < lanes) :
    ((file.renewed r new t).getD r [])[t]? = (file.getD r [])[t]? := by
  have hold := h.length_getD hr
  rw [RegisterFile.renewed, getD_set hr, if_pos rfl,
    getElem?_written (hnew.trans hold.symm) (ht.trans_eq hold.symm)]

theorem Shaped.setLane_renewed (h : file.Shaped lanes) (hr : r < file.length)
    (hnew : new.length = lanes) (ha : new[t]? = some a) :
    (file.renewed r new t).setLane r t a = file.renewed r new (t + 1) := by
  have hold := h.length_getD hr
  rw [setLane, RegisterFile.renewed, getD_set hr, if_pos rfl, List.set_set,
    set_written (hnew.trans hold.symm) ha, RegisterFile.renewed]

theorem getD_set_of_ne (hne : q ≠ r) : (file.set r register).getD q [] = file.getD q [] := by
  rw [List.getD_eq_getElem?_getD, List.getElem?_set_ne hne.symm, ← List.getD_eq_getElem?_getD]

theorem getD_renewed_of_ne (hne : q ≠ r) :
    (file.renewed r new t).getD q [] = file.getD q [] := getD_set_of_ne hne

theorem setLane_renewed_of_ne (hne : q ≠ r) :
    (file.renewed r new t).setLane q t a = (file.setLane q t a).renewed r new t := by
  rw [setLane, getD_renewed_of_ne hne, renewed, renewed, setLane, getD_set_of_ne hne.symm,
    List.set_comm _ _ hne.symm]

end Renewed

section RenewedBoth

variable {low high : Nat} {lows highs : List α} {b : α}

def renewedBoth (file : RegisterFile α) (low high : Nat) (lows highs : List α) (count : Nat) :
    RegisterFile α := (file.renewed low lows count).renewed high highs count

/-- Two registers of a file and as many new values for each of them. -/
structure Renewable (file : RegisterFile α) (lanes low high : Nat) (lows highs : List α) :
    Prop where
  shaped : file.Shaped lanes
  low_lt : low < file.length
  high_lt : high < file.length
  ne : low ≠ high
  length_lows : lows.length = lanes
  length_highs : highs.length = lanes

theorem renewedBoth_zero (file : RegisterFile α) (low high : Nat) (lows highs : List α) :
    file.renewedBoth low high lows highs 0 = file :=
  (renewed_zero _ high highs).trans (renewed_zero file low lows)

theorem length_renewedBoth : (file.renewedBoth low high lows highs t).length = file.length :=
  length_renewed.trans length_renewed

namespace Renewable

variable (h : file.Renewable lanes low high lows highs)

include h

theorem shaped_low (t : Nat) : Shaped lanes (file.renewed low lows t) :=
  h.shaped.renewed h.low_lt h.length_lows t

theorem high_lt_renewed (t : Nat) : high < (file.renewed low lows t).length :=
  h.high_lt.trans_eq length_renewed.symm

theorem shaped_both (t : Nat) : Shaped lanes (file.renewedBoth low high lows highs t) :=
  (h.shaped_low t).renewed (h.high_lt_renewed t) h.length_highs t

theorem length_flatten (t : Nat) :
    (file.renewedBoth low high lows highs t).flatten.length = file.flatten.length := by
  rw [(h.shaped_both t).length_flatten, length_renewedBoth, h.shaped.length_flatten]

theorem getElem?_low (ht : t < lanes) :
    ((file.renewedBoth low high lows highs t).getD low [])[t]? = (file.getD low [])[t]? := by
  rw [renewedBoth, getD_renewed_of_ne h.ne, h.shaped.getElem?_renewed h.low_lt h.length_lows ht]

theorem getElem?_high (ht : t < lanes) :
    ((file.renewedBoth low high lows highs t).getD high [])[t]? = (file.getD high [])[t]? := by
  rw [renewedBoth, (h.shaped_low t).getElem?_renewed (h.high_lt_renewed t) h.length_highs ht,
    getD_renewed_of_ne h.ne.symm]

theorem setLane_renewedBoth (ha : lows[t]? = some a) (hb : highs[t]? = some b) :
    ((file.renewedBoth low high lows highs t).setLane low t a).setLane high t b =
      file.renewedBoth low high lows highs (t + 1) := by
  rw [renewedBoth, setLane_renewed_of_ne h.ne, h.shaped.setLane_renewed h.low_lt h.length_lows ha,
    (h.shaped_low (t + 1)).setLane_renewed (h.high_lt_renewed (t + 1)) h.length_highs hb,
    renewedBoth]

theorem renewedBoth_lanes :
    file.renewedBoth low high lows highs lanes = (file.set low lows).set high highs := by
  rw [renewedBoth, (h.shaped_low lanes).renewed_lanes (h.high_lt_renewed lanes) h.length_highs,
    h.shaped.renewed_lanes h.low_lt h.length_lows]

end Renewable

end RenewedBoth

end RegisterFile

open OnRow RegisterFile

theorem Pairing.mapM_memberAt {p : Pairing} {register : List α}
    (h : register.length = p.length) :
    p.partners.mapM (memberAt register) = .ok (p.gather register h) := by
  have hcells : ∀ (places : List Nat) (hlt : ∀ q ∈ places, q < register.toArray.size),
      places.mapM (memberAt register) = .ok (gatherCells register.toArray places hlt) := by
    intro places hlt
    induction places with
    | nil => rfl
    | cons q places ih =>
        have hq : q < register.length := hlt q List.mem_cons_self
        have hmember : memberAt register q = .ok register[q] := by
          rw [memberAt, List.getElem?_eq_getElem hq]
        rw [List.mapM_cons, hmember, ih fun q' hq' => hlt q' (List.mem_cons_of_mem q hq')]
        rfl
  exact hcells _ _

variable [Scalar α] {file : RegisterFile α} {lanes r : Nat}

namespace Exchange

theorem run_runLane (x : Exchange) (hfile : file.Shaped lanes)
    (hcount : file.flatten.length < Count.limit) (hr : r < file.length) {others : List α}
    {lane : Nat} {own other : α} (hlane : lane < lanes) (hfit : x.pairing.length = lanes)
    (hown : (file.getD r [])[lane]? = some own) (hother : others[lane]? = some other) :
    (x.runLane (r * lanes) others lane).run file.flatten =
      .ok () (file.setLane r lane (x.newValue lane (x.pairing.partner lane) own other)).flatten := by
  have hplace := Count.add_eq_ok ((hfile.place_lt hr hlane).trans hcount)
  have hmember : memberAt others lane = .ok other := by rw [memberAt, hother]
  have hpartner := Pairing.partnerOf_eq_ok (hlane.trans_eq hfit.symm)
  rw [runLane, run_bind_of_ok (run_checked_of_ok hplace _),
    run_bind_of_ok (hfile.run_read hlane hown), run_bind_of_ok (run_checked_of_ok hmember _),
    run_bind_of_ok (run_checked_of_ok hpartner _)]
  exact hfile.run_write hr hlane _

theorem onCopy_runAt (x : Exchange) (hfile : file.Shaped lanes)
    (hcount : file.flatten.length < Count.limit) (hr : r < file.length) :
    onCopy (x.runAt (r * lanes) lanes) file.flatten =
      (fun register => (file.set r register).flatten) <$> x.run (file.getD r []) := by
  have hlength := hfile.length_getD hr
  rw [Exchange.runAt, onCopy_get_bind,
    onCopy_bind_of_ok (run_checked_of_ok (hfile.slice_flatten hr) _)]
  by_cases hfit : (file.getD r []).length = x.pairing.length
  · obtain ⟨register', hrun, hlength', hvalue⟩ := x.run_values hfit
    have hnew : register'.length = lanes := by omega
    rw [if_pos hfit, onCopy_bind_of_ok (run_checked_of_ok (Pairing.mapM_memberAt hfit) _), hrun]
    have hshaped := hfile.renewed hr hnew
    have hsize : ∀ t, (file.renewed r register' t).flatten.length < Count.limit := by
      intro t
      rwa [(hshaped t).length_flatten, length_renewed, ← hfile.length_flatten]
    -- after `t` lanes, the register has the first `t` of its new values
    have hstep : ∀ lane < lanes,
        (x.runLane (r * lanes) (x.pairing.gather (file.getD r []) hfit) lane).run
          (file.renewed r register' lane).flatten =
            .ok () (file.renewed r register' (lane + 1)).flatten := by
      intro lane hlane
      have hlt : lane < x.pairing.length := by omega
      obtain ⟨own, other, hown, hother, hvalue⟩ := hvalue lane hlt
      rw [← Pairing.getElem?_gather hfit hlt] at hother
      rw [← hfile.getElem?_renewed hr hnew hlane] at hown
      rw [x.run_runLane (hshaped lane) (hsize lane) (hr.trans_eq length_renewed.symm) hlane
        (by omega) hown hother, hfile.setLane_renewed hr hnew hvalue]
    have hloop := run_forM_range hstep
    rw [renewed_zero, hfile.renewed_lanes hr hnew] at hloop
    rw [onCopy, hloop]
    rfl
  · rw [if_neg hfit, Exchange.run, dif_neg hfit]
    rfl

end Exchange

namespace Layer

variable {base low high lane : Nat} {d : Direction} {a b : α}

omit [Scalar α] in
theorem placeOf_eq_ok (hfile : file.Shaped lanes) (hcount : file.flatten.length < Count.limit)
    (hlanes : 0 < lanes) (hr : base + r < file.length) (hlane : lane < lanes) :
    placeOf lanes base r lane = .ok ((base + r) * lanes + lane) := by
  have hplace := (hfile.place_lt hr hlane).trans hcount
  have hregister : base + r < Count.limit := by
    have hle := Nat.le_mul_of_pos_right (base + r) hlanes
    omega
  have hfirst : (base + r) * lanes < Count.limit := by omega
  rw [placeOf, Count.add_eq_ok hregister, Outcome.bind_of_ok rfl, Count.mul_eq_ok hfirst,
    Outcome.bind_of_ok rfl, Count.add_eq_ok hplace]

theorem run_orderLane (hfile : file.Shaped lanes) (hcount : file.flatten.length < Count.limit)
    (hlow : base + low < file.length) (hhigh : base + high < file.length) (hlane : lane < lanes)
    (ha : (file.getD (base + low) [])[lane]? = some a)
    (hb : (file.getD (base + high) [])[lane]? = some b) :
    (orderLane lanes base low high d lane).run file.flatten =
      .ok () ((file.setLane (base + low) lane (lowValue d a b)).setLane (base + high) lane
        (highValue d a b)).flatten := by
  have hlanes : 0 < lanes := Nat.zero_lt_of_lt hlane
  have hlowPlace := placeOf_eq_ok hfile hcount hlanes hlow hlane
  have hhighPlace := placeOf_eq_ok hfile hcount hlanes hhigh hlane
  rw [orderLane, run_bind_of_ok (run_checked_of_ok hlowPlace _),
    run_bind_of_ok (run_checked_of_ok hhighPlace _), run_bind_of_ok (hfile.run_read hlane ha),
    run_bind_of_ok (hfile.run_read hlane hb), lowValue, highValue]
  by_cases hordered : Scalar.noLater d a b = true
  · rw [if_pos hordered, if_pos hordered, if_pos hordered, setLane_self ha, setLane_self hb]
    rfl
  · rw [if_neg hordered, if_neg hordered, if_neg hordered,
      run_bind_of_ok (hfile.run_write hlow hlane b)]
    exact (shaped_setLane hfile hlow).run_write (hhigh.trans_eq length_setLane.symm) hlane a

/-- Two registers in place get the values that come first and those that come last. -/
theorem run_forM_orderLane_of_ne (hfile : file.Shaped lanes)
    (hcount : file.flatten.length < Count.limit) (hlow : base + low < file.length)
    (hhigh : base + high < file.length) (hne : base + low ≠ base + high) (d : Direction) :
    ((List.range lanes).forM (orderLane lanes base low high d)).run file.flatten =
      .ok () ((file.set (base + low) ((file.getD (base + low) []).zipWith (lowValue d)
        (file.getD (base + high) []))).set (base + high)
        ((file.getD (base + low) []).zipWith (highValue d)
          (file.getD (base + high) []))).flatten := by
  have hlengthLow := hfile.length_getD hlow
  have hlengthHigh := hfile.length_getD hhigh
  generalize hlows : (file.getD (base + low) []).zipWith (lowValue d)
    (file.getD (base + high) []) = lows
  generalize hhighs : (file.getD (base + low) []).zipWith (highValue d)
    (file.getD (base + high) []) = highs
  have hboth : file.Renewable lanes (base + low) (base + high) lows highs := by
    refine ⟨hfile, hlow, hhigh, hne, ?_, ?_⟩
    · rw [← hlows, List.length_zipWith]
      omega
    · rw [← hhighs, List.length_zipWith]
      omega
  -- after `t` lanes, both registers have the first `t` of their new values
  have hstep : ∀ lane < lanes,
      (orderLane lanes base low high d lane).run
          (file.renewedBoth (base + low) (base + high) lows highs lane).flatten =
        .ok () (file.renewedBoth (base + low) (base + high) lows highs (lane + 1)).flatten := by
    intro lane hlane
    have ha := List.getElem?_eq_getElem (hlane.trans_eq hlengthLow.symm)
    have hb := List.getElem?_eq_getElem (hlane.trans_eq hlengthHigh.symm)
    generalize (file.getD (base + low) [])[lane] = a at ha
    generalize (file.getD (base + high) [])[lane] = b at hb
    have hlowValue : lows[lane]? = some (lowValue d a b) := by
      rw [← hlows, List.getElem?_zipWith, ha, hb]
    have hhighValue : highs[lane]? = some (highValue d a b) := by
      rw [← hhighs, List.getElem?_zipWith, ha, hb]
    rw [run_orderLane (hboth.shaped_both lane) ((hboth.length_flatten lane).trans_lt hcount)
      (hlow.trans_eq length_renewedBoth.symm) (hhigh.trans_eq length_renewedBoth.symm) hlane
      ((hboth.getElem?_low hlane).trans ha) ((hboth.getElem?_high hlane).trans hb),
      hboth.setLane_renewedBoth hlowValue hhighValue]
  have hloop := run_forM_range hstep
  rwa [renewedBoth_zero, hboth.renewedBoth_lanes] at hloop

theorem zipWith_highValue_self (d : Direction) (values : List α) :
    values.zipWith (highValue d) values = values := by
  have hself : ∀ a : α, highValue d a a = a := fun a => ite_self a
  rw [List.zipWith_self]
  simp only [hself, List.map_id']

theorem run_forM_orderLane_self (hfile : file.Shaped lanes)
    (hcount : file.flatten.length < Count.limit) (hlow : base + low < file.length) (d : Direction) :
    ((List.range lanes).forM (orderLane lanes base low low d)).run file.flatten =
      .ok () file.flatten := by
  have hstep : ∀ lane < lanes,
      (orderLane lanes base low low d lane).run file.flatten = .ok () file.flatten := by
    intro lane hlane
    have ha := List.getElem?_eq_getElem (hlane.trans_eq (hfile.length_getD hlow).symm)
    rw [run_orderLane hfile hcount hlow hlow hlane ha ha, lowValue, highValue, ite_self,
      setLane_self ha, setLane_self ha]
  exact run_forM_range hstep

/-- A layer in place makes of the row what the layer makes of the registers. -/
theorem onCopy_runAt (layer : Layer) (hfile : file.Shaped lanes) (hlanes : 0 < lanes)
    (hcount : file.flatten.length < Count.limit) (base : Nat) :
    onCopy (layer.runAt lanes file.length base) file.flatten =
      List.flatten <$> layer.run base file := by
  rw [runAt.eq_def, Layer.run.eq_def, onCopy_checked_bind, map_bind]
  cases htop : Count.add base layer.topRegister with
  | error fault => rfl
  | ok top =>
      obtain ⟨_, rfl⟩ := Count.add_eq_ok_iff.1 htop
      change onCopy (if _ then _ else _) _ = _ <$> (if _ then _ else _)
      by_cases hrange : file.length ≤ base + layer.topRegister
      · rw [if_pos hrange, if_pos hrange]
        rfl
      · rw [if_neg hrange, if_neg hrange]
        cases layer with
        | inside r x =>
            have hr : base + r < file.length := Nat.lt_of_not_le hrange
            have hplace := placeOf_eq_ok hfile hcount hlanes hr hlanes
            rw [onCopy_bind_of_ok (run_checked_of_ok hplace _), Nat.add_zero,
              x.onCopy_runAt hfile hcount hr]
            change _ = List.flatten <$> (x.run (file.getD (base + r) []) >>= fun register =>
              pure (file.set (base + r) register))
            rw [bind_pure_comp, Functor.map_map]
        | between low high d =>
            have hmax : base + max low high < file.length := Nat.lt_of_not_le hrange
            have hlow : base + low < file.length := by omega
            have hhigh : base + high < file.length := by omega
            by_cases heq : low = high
            · subst heq
              change _ = Except.ok (List.flatten ((file.set _ _).set _ _))
              rw [onCopy, run_forM_orderLane_self hfile hcount hlow d, List.set_set,
                zipWith_highValue_self, set_getD]
            · have hne : base + low ≠ base + high := fun h => heq (Nat.add_left_cancel h)
              rw [onCopy, run_forM_orderLane_of_ne hfile hcount hlow hhigh hne d]
              rfl

end Layer

end Bitonic
