import Bitonic.Proofs.Machine.LayerRun
import Bitonic.Proofs.Scalar.Zeros
import Mathlib.Data.List.Perm.Basic
/-!
# What layers do with the values themselves

On the wires two values of one rank are the same.  Here they are not: the values of a register file
are looked at as they are.

* `Layer.mem_of_runAll` — layers make no value that was not there;
* `Layer.perm_of_run_between` — a layer between two registers moves values, and nothing else;
* `Layer.run_inside_of_allBut` — a layer inside a register copies the value of the lower lane over
  one of its rank in the upper lane.
-/

namespace Bitonic

namespace RegisterFile

variable {α : Type} {file : RegisterFile α} {r : Nat} {register : List α}

theorem mem_flatten_of_getD {a : α} (ha : a ∈ file.getD r []) : a ∈ file.flatten := by
  by_cases hr : r < file.length
  · exact List.mem_flatten.2 ⟨_, getD_mem hr, ha⟩
  · rw [List.getD_eq_default _ _ (Nat.le_of_not_lt hr)] at ha
    cases ha

theorem mem_flatten_of_set (hregister : ∀ a ∈ register, a ∈ file.flatten) :
    ∀ a ∈ (file.set r register).flatten, a ∈ file.flatten := by
  intro a ha
  obtain ⟨register', hmem, hin⟩ := List.mem_flatten.1 ha
  rcases List.mem_or_eq_of_mem_set hmem with hmem | rfl
  · exact List.mem_flatten.2 ⟨register', hmem, hin⟩
  · exact hregister a hin

theorem count_flatten_set [DecidableEq α] (hr : r < file.length) (register : List α) (a : α) :
    (file.set r register).flatten.count a + (file.getD r []).count a =
      file.flatten.count a + register.count a := by
  induction file generalizing r with
  | nil => cases hr
  | cons first rest ih =>
      cases r with
      | zero =>
          simp only [List.set_cons_zero, List.flatten_cons, List.count_append, List.getD_cons_zero]
          omega
      | succ r =>
          have hrest := ih (Nat.lt_of_succ_lt_succ hr)
          simp only [List.set_cons_succ, List.flatten_cons, List.count_append, List.getD_cons_succ]
          omega

/-- All values are the common one, except that the last lane of the first register may hold the rare
one. -/
def AllBut (lanes : Nat) (common rare : α) (file : RegisterFile α) : Prop :=
  ∀ r t a, (file.getD r [])[t]? = some a → a = common ∨ a = rare ∧ r = 0 ∧ t + 1 = lanes

theorem AllBut.mem {lanes : Nat} {common rare : α} (h : file.AllBut lanes common rare) :
    ∀ a ∈ file.flatten, a ∈ [common, rare] := by
  intro a ha
  obtain ⟨register, hmem, ha⟩ := List.mem_flatten.1 ha
  obtain ⟨r, hr, rfl⟩ := List.getElem_of_mem hmem
  obtain ⟨t, hget⟩ := List.mem_iff_getElem?.1 ha
  rw [← List.getD_eq_getElem _ [] hr] at hget
  rcases h r t a hget with rfl | ⟨rfl, _⟩
  · exact List.mem_cons_self
  · exact List.mem_cons_of_mem _ List.mem_cons_self

theorem AllBut.eq_common {lanes : Nat} {common : α} (h : file.AllBut lanes common common) :
    ∀ a ∈ file.flatten, a = common := by
  intro a ha
  simpa using h.mem a ha

end RegisterFile

variable {α : Type} [Scalar α]

theorem Exchange.mem_of_run {x : Exchange} {register register' : List α}
    (h : x.run register = .ok register') : ∀ a ∈ register', a ∈ register := by
  by_cases hfit : register.length = x.pairing.length
  · obtain ⟨found, hrun, hlength, hvalues⟩ := x.run_values hfit
    rw [hrun] at h
    cases h
    intro a ha
    obtain ⟨lane, hget⟩ := List.mem_iff_getElem?.1 ha
    obtain ⟨hlt, _⟩ := List.getElem?_eq_some_iff.1 hget
    obtain ⟨own, other, hown, hother, hnew⟩ := hvalues lane (hlt.trans_eq hlength)
    rw [hget] at hnew
    cases hnew
    exact newValue_mem (List.mem_of_getElem? hown) (List.mem_of_getElem? hother)
  · rw [Exchange.run, dif_neg hfit] at h
    cases h

namespace Layer

open RegisterFile (WellFormed)

variable {base low high lanes count : Nat} {d : Direction} {file file' : RegisterFile α} {l : Layer}

theorem mem_of_run (h : l.run base file = .ok file') : ∀ a ∈ file'.flatten, a ∈ file.flatten := by
  rw [Layer.run.eq_def] at h
  obtain ⟨top, _, h⟩ := Outcome.bind_eq_ok_iff.1 h
  split at h
  · cases h
  · cases l with
    | inside r x =>
        obtain ⟨register, hrun, h⟩ := Outcome.bind_eq_ok_iff.1 h
        cases h
        exact RegisterFile.mem_flatten_of_set fun a ha =>
          RegisterFile.mem_flatten_of_getD (Exchange.mem_of_run hrun a ha)
    | between low high d =>
        cases h
        have hold : ∀ {f : α → α → α}, (∀ a b, f a b = a ∨ f a b = b) →
            ∀ a ∈ (file.getD (base + low) []).zipWith f (file.getD (base + high) []),
              a ∈ file.flatten := fun hf a ha =>
          (mem_zipWith hf a ha).elim RegisterFile.mem_flatten_of_getD
            RegisterFile.mem_flatten_of_getD
        intro a ha
        obtain ⟨register, hmem, hin⟩ := List.mem_flatten.1 ha
        rcases List.mem_or_eq_of_mem_set hmem with hmem | rfl
        · exact RegisterFile.mem_flatten_of_set (hold (lowValue_mem d)) a
            (List.mem_flatten.2 ⟨register, hmem, hin⟩)
        · exact hold (highValue_mem d) a hin

theorem mem_of_runAll {ls : List Layer} (h : runAll ls file = .ok file') :
    ∀ a ∈ file'.flatten, a ∈ file.flatten := by
  induction ls generalizing file with
  | nil =>
      cases h
      exact fun _ ha => ha
  | cons l ls ih =>
      rw [runAll, List.foldlM_cons] at h
      obtain ⟨between, hfirst, hrest⟩ := Outcome.bind_eq_ok_iff.1 h
      exact fun a ha => mem_of_run hfirst a (ih hrest a ha)

theorem count_zipWith [DecidableEq α] (d : Direction) {as bs : List α}
    (hlength : as.length = bs.length) (a : α) :
    (as.zipWith (lowValue d) bs).count a + (as.zipWith (highValue d) bs).count a =
      as.count a + bs.count a := by
  induction as generalizing bs with
  | nil =>
      rw [List.length_eq_zero_iff.1 hlength.symm]
      rfl
  | cons x as ih =>
      cases bs with
      | nil => cases hlength
      | cons y bs =>
          have hrest := ih (Nat.succ_inj.1 hlength)
          simp only [List.zipWith_cons_cons, List.count_cons, lowValue, highValue]
          split <;> omega

/-- A layer between two registers loses no value, whatever ties there are. -/
theorem perm_of_run_between (hlt : low < high)
    (hregisters : ∀ register ∈ file, register.length = lanes)
    (h : (between low high d).run 0 file = .ok file') : file'.flatten.Perm file.flatten := by
  classical
  rw [Layer.run.eq_def] at h
  obtain ⟨top, htop, h⟩ := Outcome.bind_eq_ok_iff.1 h
  obtain ⟨_, rfl⟩ := Count.add_eq_ok_iff.1 (Outcome.liftM_eq_ok_iff.1 htop)
  split at h
  · cases h
  · next hin =>
    cases h
    simp only [topRegister, Nat.zero_add] at hin ⊢
    have hlow : low < file.length := by omega
    have hhigh : high < file.length := by omega
    have hlength : (file.getD low []).length = (file.getD high []).length :=
      (hregisters _ (RegisterFile.getD_mem hlow)).trans
        (hregisters _ (RegisterFile.getD_mem hhigh)).symm
    refine List.perm_iff_count.2 fun a => ?_
    generalize hx : (file.getD low []).zipWith (lowValue d) (file.getD high []) = x
    generalize hy : (file.getD low []).zipWith (highValue d) (file.getD high []) = y
    have hpair := count_zipWith d hlength a
    have hfirst := RegisterFile.count_flatten_set hlow x a
    have hsecond := RegisterFile.count_flatten_set
      (show high < (file.set low x).length by rwa [List.length_set]) y a
    rw [RegisterFile.getD_set hlow, if_neg (Nat.ne_of_gt hlt)] at hsecond
    rw [hx, hy] at hpair
    omega

end Layer

theorem Exchange.run_one {x : Exchange} {register : List α} (hx : x.Sound 1)
    (hlength : register.length = 1) : x.run register = .ok register := by
  obtain ⟨register', hrun, hlength', hvalues⟩ := x.run_values (hlength.trans hx.length.symm)
  rw [hx.length] at hlength' hvalues
  obtain ⟨own, other, hown, hother, hnew⟩ := hvalues 0 Nat.one_pos
  have halone : x.pairing.partner 0 = 0 := by
    have hlt := Layer.Sound.partner_lt hx Nat.one_pos
    omega
  rw [halone, hown] at hother
  cases hother
  have hkept : x.newValue 0 (x.pairing.partner 0) own own = own := ite_self own
  obtain ⟨a, rfl⟩ := List.length_eq_one_iff.1 hlength
  obtain ⟨b, rfl⟩ := List.length_eq_one_iff.1 hlength'
  rw [hrun]
  rw [hkept] at hnew
  cases hown
  cases hnew
  rfl

/-! ## Ties -/

/-- Where no value comes before another, both lanes of a pair get the value of the lower one. -/
theorem Exchange.run_of_tie {x : Exchange} {lanes : Nat} {register : List α} (hx : x.Sound lanes)
    (hlength : register.length = lanes)
    (htie : ∀ a ∈ register, ∀ b ∈ register, Scalar.noLater x.direction a b = true) :
    ∃ register', x.run register = .ok register' ∧ register'.length = lanes ∧
      ∀ t < lanes, register'[t]? = register[min t (x.pairing.partner t)]? := by
  obtain ⟨register', hrun, hlength', hvalues⟩ := x.run_values (hlength.trans hx.length.symm)
  rw [hx.length] at hlength' hvalues
  refine ⟨register', hrun, hlength', fun t ht => ?_⟩
  obtain ⟨own, other, hown, hother, hnew⟩ := hvalues t ht
  have hnoLater := htie own (List.mem_of_getElem? hown) other (List.mem_of_getElem? hother)
  rw [hnew, newValue, hnoLater, hx.lower]
  by_cases hle : t ≤ x.pairing.partner t
  · rw [Nat.min_eq_left hle, hown, if_pos]
    simp only [beq_iff_eq, Bool.true_eq, Bool.or_eq_true, decide_eq_true_iff]
    omega
  · rw [Nat.min_eq_right (by omega), hother, if_neg]
    simp only [beq_iff_eq, Bool.true_eq, Bool.or_eq_true, decide_eq_true_iff]
    omega

namespace Layer

open RegisterFile (AllBut WellFormed)

variable {common rare : α} {x : Exchange} {r low high lanes count : Nat} {d : Direction}
  {file file' : RegisterFile α} {ls : List Layer}

omit [Scalar α] in
theorem zipWith_eq_left {f : α → α → α} {as bs : List α} (hlength : as.length = bs.length)
    (hf : ∀ a ∈ as, ∀ b ∈ bs, f a b = a) : as.zipWith f bs = as := by
  apply List.ext_getElem
  · rw [List.length_zipWith, hlength, Nat.min_self]
  · intro t _ _
    rw [List.getElem_zipWith]
    exact hf _ (List.getElem_mem _) _ (List.getElem_mem _)

/-- Between two registers, a tie leaves both values where they are. -/
theorem run_between_of_allBut (htied : Scalar.Tied common rare)
    (hregisters : ∀ register ∈ file, register.length = lanes) (hall : file.AllBut lanes common rare)
    (hlt : low < high) (hhigh : high < file.length) (hlimit : file.length ≤ Count.limit) :
    (between low high d).run 0 file = .ok file := by
  have hlow := hlt.trans hhigh
  have hmem : ∀ {r : Nat}, ∀ a ∈ file.getD r [], a ∈ [common, rare] :=
    fun a ha => hall.mem a (RegisterFile.mem_flatten_of_getD ha)
  have hlength : (file.getD low []).length = (file.getD high []).length :=
    (hregisters _ (RegisterFile.getD_mem hlow)).trans
      (hregisters _ (RegisterFile.getD_mem hhigh)).symm
  have hleft : (file.getD low []).zipWith (lowValue d) (file.getD high []) = file.getD low [] :=
    zipWith_eq_left hlength fun a ha b hb => if_pos (htied d a (hmem a ha) b (hmem b hb))
  have hright : (file.getD low []).zipWith (highValue d) (file.getD high []) =
      file.getD high [] := by
    rw [List.zipWith_comm]
    exact zipWith_eq_left hlength.symm fun b hb a ha =>
      if_pos (htied d a (hmem a ha) b (hmem b hb))
  rw [run_of_lt (by simp only [topRegister]; omega) hlimit]
  simp only [Nat.zero_add]
  rw [hleft, hright, RegisterFile.set_getD, RegisterFile.set_getD]
  rfl

/-- Inside a register, the rare value stays in the last lane at most, and is lost if that lane has a
partner. -/
theorem run_inside_of_allBut (htied : Scalar.Tied common rare) (hx : x.Sound lanes)
    (hregisters : ∀ register ∈ file, register.length = lanes) (hall : file.AllBut lanes common rare)
    (hr : r < file.length) (hlimit : file.length ≤ Count.limit) :
    ∃ file', (inside r x).run 0 file = .ok file' ∧ file'.AllBut lanes common rare ∧
      (r = 0 → x.pairing.partner (lanes - 1) ≠ lanes - 1 → file'.AllBut lanes common common) := by
  have hmem : ∀ a ∈ file.getD r [], a ∈ [common, rare] :=
    fun a ha => hall.mem a (RegisterFile.mem_flatten_of_getD ha)
  obtain ⟨register, hrun, hlength, hvalues⟩ :=
    Exchange.run_of_tie hx (hregisters _ (RegisterFile.getD_mem hr)) fun a ha b hb =>
      htied x.direction a (hmem a ha) b (hmem b hb)
  -- a lane of the register holds what the lower lane of its pair held
  have hlane : ∀ t a, register[t]? = some a → a = common ∨ a = rare ∧ r = 0 ∧ t + 1 = lanes ∧
      x.pairing.partner (lanes - 1) = lanes - 1 := by
    intro t a hget
    have ht : t < lanes := hlength ▸ (List.getElem?_eq_some_iff.1 hget).1
    have hpartner := Sound.partner_lt hx ht
    rw [hvalues t ht] at hget
    rcases hall r _ a hget with hcommon | ⟨hrare, hfirst, hlast⟩
    · exact Or.inl hcommon
    · have hend : t = lanes - 1 := by omega
      subst hend
      exact Or.inr ⟨hrare, hfirst, by omega, by omega⟩
  refine ⟨file.set r register, ?_, ?_, ?_⟩
  · rw [run_of_lt (by simp only [topRegister]; omega) hlimit]
    simp only [Nat.zero_add, hrun]
    rfl
  · intro r' t a hget
    rw [RegisterFile.getD_set hr] at hget
    split at hget
    · next hsame =>
      rcases hlane t a hget with hcommon | ⟨hrare, hfirst, hlast, _⟩
      · exact Or.inl hcommon
      · exact Or.inr ⟨hrare, hsame.trans hfirst, hlast⟩
    · exact hall r' t a hget
  · intro hfirst hmoves r' t a hget
    rw [RegisterFile.getD_set hr] at hget
    split at hget
    · rcases hlane t a hget with hcommon | ⟨_, _, _, hfixed⟩
      · exact Or.inl hcommon
      · exact absurd hfixed hmoves
    · next hother =>
      rcases hall r' t a hget with hcommon | ⟨_, hzero, _⟩
      · exact Or.inl hcommon
      · exact absurd (hzero.trans hfirst.symm) hother

variable [Ranked α]

theorem AllWithin.exists_of_runAll_cons (hlanes : 0 < lanes) (hcount : count ≤ Count.limit)
    {l : Layer} (h : AllWithin lanes 0 count (l :: ls)) (hf : WellFormed lanes count file)
    (hrun : runAll (l :: ls) file = .ok file') :
    ∃ between, l.run 0 file = .ok between ∧ WellFormed lanes count between ∧
      runAll ls between = .ok file' := by
  obtain ⟨hsound, hwithin⟩ := h l List.mem_cons_self
  obtain ⟨between, hfirst, hbetween, _⟩ := Layer.run_eq_ok hlanes hcount hsound hwithin hf
  rw [runAll, List.foldlM_cons, Outcome.bind_of_ok hfirst] at hrun
  exact ⟨between, hfirst, hbetween, hrun⟩

/-- Layers that pair the last lane of the first register lose what only that lane holds. -/
theorem AllWithin.eq_common_of_runAll (hlanes : 0 < lanes) (hcount : count ≤ Count.limit)
    (h : AllWithin lanes 0 count ls) (htied : Scalar.Tied common rare)
    (hmoves : ∃ x, inside 0 x ∈ ls ∧ x.pairing.partner (lanes - 1) ≠ lanes - 1)
    (hf : WellFormed lanes count file) (hall : file.AllBut lanes common rare)
    (hrun : runAll ls file = .ok file') : ∀ a ∈ file'.flatten, a = common := by
  induction ls generalizing file with
  | nil =>
      obtain ⟨_, hmem, _⟩ := hmoves
      cases hmem
  | cons l ls ih =>
      obtain ⟨hsound, hwithin⟩ := h l List.mem_cons_self
      have hrest : AllWithin lanes 0 count ls := fun m hm => h m (List.mem_cons_of_mem l hm)
      have hlimit : file.length ≤ Count.limit := hf.length.trans_le hcount
      obtain ⟨between, hfirst, hbetween, hmore⟩ := h.exists_of_runAll_cons hlanes hcount hf hrun
      obtain ⟨x, hmem, hpaired⟩ := hmoves
      cases l with
      | between low high d =>
          simp only [Within, Nat.zero_add] at hwithin
          have hhigh : high < file.length := hf.length.symm ▸ hwithin.2.2.2
          rw [run_between_of_allBut htied hf.registers hall hsound hhigh hlimit] at hfirst
          cases hfirst
          exact ih hrest ⟨x, (List.mem_cons.1 hmem).resolve_left Layer.noConfusion, hpaired⟩ hf hall
            hmore
      | inside r y =>
          simp only [Within, Nat.zero_add] at hwithin
          have hr : r < file.length := hf.length.symm ▸ hwithin.2
          obtain ⟨found, hfound, hall', hlost⟩ :=
            run_inside_of_allBut htied hsound hf.registers hall hr hlimit
          rw [hfirst] at hfound
          cases hfound
          rcases List.mem_cons.1 hmem with hhead | htail
          · cases hhead
            exact fun a ha => (hlost rfl hpaired).eq_common a (mem_of_runAll hmore a ha)
          · exact ih hrest ⟨x, htail, hpaired⟩ hbetween hall' hmore

/-- Registers of a single lane have nothing to exchange inside, so that no value is lost. -/
theorem AllWithin.perm_of_runAll_one (hcount : count ≤ Count.limit) (h : AllWithin 1 0 count ls)
    (hf : WellFormed 1 count file) (hrun : runAll ls file = .ok file') :
    file'.flatten.Perm file.flatten := by
  induction ls generalizing file with
  | nil =>
      cases hrun
      exact List.Perm.refl _
  | cons l ls ih =>
      obtain ⟨hsound, hwithin⟩ := h l List.mem_cons_self
      have hrest : AllWithin 1 0 count ls := fun m hm => h m (List.mem_cons_of_mem l hm)
      obtain ⟨between, hfirst, hbetween, hmore⟩ :=
        h.exists_of_runAll_cons Nat.one_pos hcount hf hrun
      refine (ih hrest hbetween hmore).trans ?_
      cases l with
      | between low high d => exact perm_of_run_between hsound hf.registers hfirst
      | inside r x =>
          simp only [Within, Nat.zero_add] at hwithin
          have hr : r < file.length := hf.length.symm ▸ hwithin.2
          rw [run_of_lt (by simp only [topRegister]; omega) (hf.length.trans_le hcount)] at hfirst
          simp only [Nat.zero_add] at hfirst
          rw [Outcome.bind_of_ok (Exchange.run_one hsound (hf.registers _
            (RegisterFile.getD_mem hr))), RegisterFile.set_getD] at hfirst
          cases hfirst
          exact List.Perm.refl _

end Layer

end Bitonic
