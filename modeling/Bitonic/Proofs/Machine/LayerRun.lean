import Bitonic.Proofs.Machine.RegisterFiles
import Bitonic.Proofs.Outcome
/-!
# Layers on register files

Running a layer on a well-formed register file is the exchange of wires, and the file stays well
formed:

* `Layer.run_eq_ok` — for one layer;
* `Layer.AllWithin.runAll_eq_ok` — for layers one after the other;
* `Layer.AllWithin.runAll_arranged` — layers that order the wires arrange the values;
* `Layer.run_eq_movedBy` — register numbers that are counted from a base can be moved beforehand.
-/

namespace Bitonic

theorem Wires.exchange_congr {d : Direction} {partner : Nat → Nat} {v w : Wires} {p : Nat}
    (hp : v p = w p) (hpartner : v (partner p) = w (partner p)) :
    v.exchange d partner p = w.exchange d partner p := by
  simp only [Wires.exchange, hp, hpartner]

namespace Layer

open RegisterFile (WellFormed)

variable {α : Type} [Scalar α]

theorem lowValue_mem (d : Direction) (a b : α) : lowValue d a b = a ∨ lowValue d a b = b := by
  unfold lowValue
  split
  · exact Or.inl rfl
  · exact Or.inr rfl

theorem highValue_mem (d : Direction) (a b : α) : highValue d a b = a ∨ highValue d a b = b := by
  unfold highValue
  split
  · exact Or.inr rfl
  · exact Or.inl rfl

theorem run_of_lt {base : Nat} {l : Layer} {file : RegisterFile α}
    (htop : base + l.topRegister < file.length) (hlimit : file.length ≤ Count.limit) :
    l.run base file = match l with
      | .inside register exchange => do
        return file.set (base + register) (← exchange.run (file.getD (base + register) []))
      | .between low high direction =>
        return (file.set (base + low) ((file.getD (base + low) []).zipWith (lowValue direction)
          (file.getD (base + high) []))).set (base + high)
          ((file.getD (base + low) []).zipWith (highValue direction)
            (file.getD (base + high) [])) := by
  have hadd : Count.add base l.topRegister = .ok (base + l.topRegister) :=
    Count.add_eq_ok (by omega)
  rw [Layer.run.eq_def, Outcome.bind_of_ok (Outcome.liftM_eq_ok_iff.2 hadd), if_neg (by omega)]
  cases l
  · rfl
  · rfl

/-- Register numbers that are counted from a base can be moved beforehand. -/
theorem run_eq_movedBy (base : Nat) (l : Layer) (file : RegisterFile α) :
    l.run base file = liftM (l.movedBy base) >>= fun l => l.run 0 file := by
  have hmoved : ∀ r, Count.add r base = Count.add base r := by
    intro r
    rw [Count.add, Count.add, Nat.add_comm]
  have hzero : ∀ r, r < Count.limit → (Count.add 0 r) = .ok r := by
    intro r hr
    rw [Count.add_eq_ok (by omega), Nat.zero_add]
  cases l with
  | inside r x =>
      rw [Layer.run.eq_def, movedBy, hmoved]
      by_cases h : base + r < Count.limit
      · rw [topRegister, Count.add_eq_ok h]
        show _ = Layer.run 0 (inside (base + r) x) file
        rw [Layer.run.eq_def, topRegister, hzero _ h]
        simp only [Nat.zero_add]
      · have hfault : Count.add base r = .error .overflow := if_neg h
        rw [topRegister, hfault]
        rfl
  | between low high d =>
      rw [Layer.run.eq_def, movedBy, hmoved, hmoved, topRegister]
      by_cases h : base + max low high < Count.limit
      · rw [Count.add_eq_ok h, Count.add_eq_ok (show base + low < _ by omega),
          Count.add_eq_ok (show base + high < _ by omega)]
        show _ = Layer.run 0 (between (base + low) (base + high) d) file
        rw [Layer.run.eq_def, topRegister, hzero _ (by omega), Nat.add_max_add_left]
        simp only [Nat.zero_add]
      · have hfault : Count.add base (max low high) = .error .overflow := if_neg h
        rw [hfault]
        by_cases hlow : base + low < Count.limit
        · have hhigh : Count.add base high = .error .overflow := if_neg (by omega)
          rw [Count.add_eq_ok hlow, hhigh]
          rfl
        · have hlow' : Count.add base low = .error .overflow := if_neg hlow
          rw [hlow']
          rfl

def runAll (layers : List Layer) (file : RegisterFile α) : Outcome (RegisterFile α) :=
  layers.foldlM (fun file l => l.run 0 file) file

theorem runAll_append (front back : List Layer) (file : RegisterFile α) :
    runAll (front ++ back) file = runAll front file >>= runAll back :=
  List.foldlM_append

omit [Scalar α] in
theorem mem_zipWith {f : α → α → α} (hf : ∀ a b, f a b = a ∨ f a b = b) {as bs : List α} :
    ∀ c ∈ as.zipWith f bs, c ∈ as ∨ c ∈ bs := by
  intro c hc
  obtain ⟨i, hi, rfl⟩ := List.getElem_of_mem hc
  rw [List.length_zipWith] at hi
  have hia : i < as.length := by omega
  have hib : i < bs.length := by omega
  rw [List.getElem_zipWith]
  rcases hf as[i] bs[i] with h | h
  · rw [h]
    exact Or.inl (List.getElem_mem _)
  · rw [h]
    exact Or.inr (List.getElem_mem _)

theorem zipWith_numbers {f : α → α → α} (hf : ∀ a b, f a b = a ∨ f a b = b) {as bs : List α}
    (ha : ∀ a ∈ as, Scalar.IsNumber a) (hb : ∀ b ∈ bs, Scalar.IsNumber b) :
    ∀ c ∈ as.zipWith f bs, Scalar.IsNumber c :=
  fun c hc => (mem_zipWith hf c hc).elim (ha c) (hb c)

variable [Ranked α] {lanes count : Nat} {file : RegisterFile α} {l : Layer} {d : Direction}

open Ranked (rank)

theorem rank_lowValue {a b : α} (ha : Scalar.IsNumber a) (hb : Scalar.IsNumber b) :
    rank (lowValue d a b) = d.first (rank a) (rank b) := by
  rw [lowValue, Direction.first_eq]
  by_cases h : Scalar.noLater d a b = true
  · rw [if_pos h, if_pos ((Scalar.noLater_iff_before ha hb).1 h)]
  · rw [if_neg h, if_neg fun hbefore => h ((Scalar.noLater_iff_before ha hb).2 hbefore)]

theorem rank_highValue {a b : α} (ha : Scalar.IsNumber a) (hb : Scalar.IsNumber b) :
    rank (highValue d a b) = d.last (rank a) (rank b) := by
  rw [highValue, Direction.last_eq]
  by_cases h : Scalar.noLater d a b = true
  · rw [if_pos h, if_pos ((Scalar.noLater_iff_before ha hb).1 h)]
  · rw [if_neg h, if_neg fun hbefore => h ((Scalar.noLater_iff_before ha hb).2 hbefore)]

theorem wires_zipWith {f : α → α → α} {g : Int → Int → Int} {as bs : List α}
    (hf : ∀ a b, Scalar.IsNumber a → Scalar.IsNumber b → rank (f a b) = g (rank a) (rank b))
    (has : as.length = lanes) (hbs : bs.length = lanes) (ha : ∀ a ∈ as, Scalar.IsNumber a)
    (hb : ∀ b ∈ bs, Scalar.IsNumber b) {t : Nat} (ht : t < lanes) :
    Scalar.wires (as.zipWith f bs) t = g (Scalar.wires as t) (Scalar.wires bs t) := by
  rw [Scalar.wires_of_lt (by rw [List.length_zipWith]; omega), Scalar.wires_of_lt (by omega),
    Scalar.wires_of_lt (by omega), List.getElem_zipWith]
  exact hf _ _ (ha _ (List.getElem_mem _)) (hb _ (List.getElem_mem _))

theorem run_inside_eq_ok {r : Nat} {x : Exchange} (hlanes : 0 < lanes)
    (hcount : count ≤ Count.limit) (hx : x.Sound lanes) (hr : r < count)
    (hf : WellFormed lanes count file) :
    ∃ file', (inside r x).run 0 file = .ok file' ∧ WellFormed lanes count file' ∧
      file'.wires lanes = (inside r x).onWires lanes (file.wires lanes) := by
  have hlength := hf.length
  obtain ⟨hlen, hnum⟩ := hf.register hr
  obtain ⟨register, hrun, hlen', hmem, hwires⟩ := x.run_eq_ok hx hlen hnum
  refine ⟨file.set r register, ?_, hf.set r hlen' fun a ha => hnum a (hmem a ha), ?_⟩
  · rw [run_of_lt (by simp only [topRegister]; omega) (by omega)]
    simp only [Nat.zero_add, hrun]
    rfl
  · funext p
    obtain ⟨r', t, ht, rfl⟩ := Wires.exists_wire hlanes p
    rw [RegisterFile.wires_set (by omega) _ ht]
    split
    · next h =>
      rw [h, onWires_inside ht, hwires t ht]
      apply Wires.exchange_congr
      · rw [RegisterFile.wires_wire ht]
      · rw [RegisterFile.wires_wire (Sound.partner_lt hx ht)]
    · next h => rw [onWires_inside_other h ht]

theorem run_between_eq_ok {low high : Nat} (hlanes : 0 < lanes) (hcount : count ≤ Count.limit)
    (hlt : low < high) (hhigh : high < count) (hf : WellFormed lanes count file) :
    ∃ file', (between low high d).run 0 file = .ok file' ∧ WellFormed lanes count file' ∧
      file'.wires lanes = (between low high d).onWires lanes (file.wires lanes) := by
  have hlength := hf.length
  obtain ⟨hlenLow, hnumLow⟩ := hf.register (hlt.trans hhigh)
  obtain ⟨hlenHigh, hnumHigh⟩ := hf.register hhigh
  have hlen : ∀ f : α → α → α,
      ((file.getD low []).zipWith f (file.getD high [])).length = lanes := by
    intro f
    rw [List.length_zipWith, hlenLow, hlenHigh, Nat.min_self]
  have hset := hf.set low (hlen (lowValue d))
    (zipWith_numbers (lowValue_mem d) hnumLow hnumHigh)
  refine ⟨_, ?_, hset.set high (hlen (highValue d))
    (zipWith_numbers (highValue_mem d) hnumLow hnumHigh), ?_⟩
  · rw [run_of_lt (by simp only [topRegister]; omega) (by omega)]
    simp only [Nat.zero_add]
    rfl
  · funext p
    obtain ⟨r, t, ht, rfl⟩ := Wires.exists_wire hlanes p
    rw [RegisterFile.wires_set (by rw [List.length_set]; omega) _ ht,
      RegisterFile.wires_set (by omega) _ ht]
    by_cases hr : r = high
    · rw [if_pos hr, hr, onWires_between_high hlt ht,
        RegisterFile.wires_wire ht, RegisterFile.wires_wire ht]
      exact wires_zipWith (fun a b => rank_highValue) hlenLow hlenHigh hnumLow hnumHigh ht
    · rw [if_neg hr]
      by_cases hr' : r = low
      · rw [if_pos hr', hr', onWires_between_low hlt ht,
          RegisterFile.wires_wire ht, RegisterFile.wires_wire ht]
        exact wires_zipWith (fun a b => rank_lowValue) hlenLow hlenHigh hnumLow hnumHigh ht
      · rw [if_neg hr', onWires_between_other hr' hr ht]

theorem run_eq_ok (hlanes : 0 < lanes) (hcount : count ≤ Count.limit) (hl : l.Sound lanes)
    (hw : l.Within 0 count) (hf : WellFormed lanes count file) :
    ∃ file', l.run 0 file = .ok file' ∧ WellFormed lanes count file' ∧
      file'.wires lanes = l.onWires lanes (file.wires lanes) := by
  cases l with
  | inside r x =>
      simp only [Within, Nat.zero_add] at hw
      exact run_inside_eq_ok hlanes hcount hl hw.2 hf
  | between low high d =>
      have hlt : low < high := hl
      simp only [Within, Nat.zero_add] at hw
      exact run_between_eq_ok hlanes hcount hlt (by omega) hf

theorem AllWithin.runAll_eq_ok {ls : List Layer} (hlanes : 0 < lanes) (hcount : count ≤ Count.limit)
    (h : AllWithin lanes 0 count ls) (hf : WellFormed lanes count file) :
    ∃ file', runAll ls file = .ok file' ∧
      WellFormed lanes count file' ∧
      file'.wires lanes = allOnWires lanes ls (file.wires lanes) := by
  induction ls generalizing file with
  | nil => exact ⟨file, rfl, hf, rfl⟩
  | cons l ls ih =>
      obtain ⟨hsound, hwithin⟩ := h l List.mem_cons_self
      obtain ⟨file₁, hrun, hf₁, hwires⟩ := Layer.run_eq_ok hlanes hcount hsound hwithin hf
      obtain ⟨file₂, hrun₂, hf₂, hwires₂⟩ :=
        ih (fun m hm => h m (List.mem_cons_of_mem l hm)) hf₁
      refine ⟨file₂, ?_, hf₂, ?_⟩
      · rw [runAll, List.foldlM_cons, Outcome.bind_of_ok hrun]
        exact hrun₂
      · rw [hwires₂, hwires]
        rfl

theorem AllWithin.runAll_ofValues {ls : List Layer} (hlanes : 0 < lanes)
    (hcount : count ≤ Count.limit) (h : AllWithin lanes 0 count ls) {values : List α}
    (hlength : values.length = count * lanes) (hnum : ∀ a ∈ values, Scalar.IsNumber a) :
    ∃ file, runAll ls (RegisterFile.ofValues lanes values) = .ok file ∧
      file.flatten.length = values.length ∧ (∀ a ∈ file.flatten, Scalar.IsNumber a) ∧
      Scalar.wires file.flatten = allOnWires lanes ls (Scalar.wires values) := by
  have hstart := RegisterFile.wellFormed_take hlength hnum
  have hflat := RegisterFile.flatten_take hlength
  have hwires := RegisterFile.wires_flatten_eq hlanes hstart.registers
  obtain ⟨file, hrun, hf, hfile⟩ := h.runAll_eq_ok hlanes hcount hstart
  rw [RegisterFile.ofValues_eq_take hlanes hlength]
  refine ⟨file, hrun, ?_, hf.isNumber, ?_⟩
  · rw [hf.length_flatten, hlength]
  · rw [RegisterFile.wires_flatten_eq hlanes hf.registers, hfile, ← hwires, hflat]

theorem AllWithin.runAll_perm {ls : List Layer} (hlanes : 0 < lanes) (hcount : count ≤ Count.limit)
    (h : AllWithin lanes 0 count ls) {values : List α} (hlength : values.length = count * lanes)
    (hnum : ∀ a ∈ values, Scalar.IsNumber a) :
    ∃ file, runAll ls (RegisterFile.ofValues lanes values) = .ok file ∧
      (∀ a ∈ file.flatten, Scalar.IsNumber a) ∧
      (file.flatten.map rank).Perm (values.map rank) := by
  obtain ⟨file, hrun, hlen, hnum', hwires⟩ := h.runAll_ofValues hlanes hcount hlength hnum
  have hperm := h.perm hlanes (Scalar.wires values)
  rw [← hwires, Nat.zero_mul, ← hlength, Scalar.values_wires, ← hlen, Scalar.values_wires] at hperm
  exact ⟨file, hrun, hnum', hperm⟩

theorem AllWithin.runAll_arranged {ls : List Layer} (hlanes : 0 < lanes)
    (hcount : count ≤ Count.limit) (h : AllWithin lanes 0 count ls) {values : List α}
    (hlength : values.length = count * lanes) (hnum : ∀ a ∈ values, Scalar.IsNumber a)
    (hordered : (allOnWires lanes ls (Scalar.wires values)).Ordered d 0 (count * lanes)) :
    ∃ file, runAll ls (RegisterFile.ofValues lanes values) = .ok file ∧
      (∀ a ∈ file.flatten, Scalar.IsNumber a) ∧ Scalar.Arranged d values file.flatten := by
  obtain ⟨file, hrun, hlen, hnum', hwires⟩ := h.runAll_ofValues hlanes hcount hlength hnum
  have hperm := h.perm hlanes (Scalar.wires values)
  rw [← hwires, Nat.zero_mul, ← hlength] at hperm
  rw [← hwires, ← hlength] at hordered
  exact ⟨file, hrun, hnum', Scalar.arranged_of_wires hnum hnum' hlen hordered hperm⟩

end Layer

end Bitonic
