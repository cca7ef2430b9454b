import Bitonic.Network.Synthesis
import Bitonic.Proofs.Outcome
import Mathlib.Algebra.Order.BigOperators.Group.List
import Mathlib.Algebra.Order.Group.Nat
import Mathlib.Data.List.Nodup
/-!
# Networks that become routines

Single-register routines are emitted under a test of their own, wider ones in a loop over the widths
from two on, while calls are made by `hasRoutine` alone.  Both come to the same networks, the
`routineKeys` of all widths.

* `Synthesis.requireAvailable_eq_ok_iff` — the networks for which routines can be requested;
* `Synthesis.mem_routineKeys` — a network has a routine exactly if it is called;
* `Synthesis.nodup_routineKeys`, `Synthesis.length_routineKeys_le` — at most four of each width;
* `Synthesis.sortersAndMergers_eq_mapM` — the loops make the routines of these networks, in order.
-/

namespace Bitonic

namespace Synthesis

variable {s : Synthesis} {key : NetworkKey} {r : Routine} {width : Nat}

/-! ## Requests -/

theorem routineOf_eq_ok (h : s.routineOf key = .ok r) :
    s.requireAvailable key = .ok () ∧ s.bodyOf key = .ok r.body ∧ r.key = some key ∧
      r.name = key.name ∧ r.width = key.width ∧ r.role = roleOf key ∧
      r.direction = some key.direction := by
  obtain ⟨_, havailable, h⟩ := Outcome.bind_eq_ok_iff.1 h
  obtain ⟨body, hbody, h⟩ := Outcome.bind_eq_ok_iff.1 h
  cases h
  exact ⟨havailable, hbody, rfl, rfl, rfl, rfl, rfl⟩

theorem requireAvailable_eq_ok_iff : s.requireAvailable key = .ok () ↔
    (0 < key.width ∧ key.width ≤ s.limits.widest) ∧
      (key.task = .merge → 1 < key.width → key.width ≤ s.limits.widestMerger) := by
  have hrange : (key.width = 0 || decide (s.limits.widest < key.width)) = true ↔
      ¬ (0 < key.width ∧ key.width ≤ s.limits.widest) := by
    simp only [Bool.or_eq_true, decide_eq_true_iff]
    omega
  have hceiling : (key.task = .merge && decide (1 < key.width) &&
      decide (s.limits.widestMerger < key.width)) = true ↔
      ¬ (key.task = .merge → 1 < key.width → key.width ≤ s.limits.widestMerger) := by
    simp only [Bool.and_eq_true, decide_eq_true_iff, Classical.not_imp, Nat.not_le,
      and_assoc]
  unfold requireAvailable
  dsimp only
  split
  · next h =>
    constructor
    · intro hfail
      cases hfail
    · intro hok
      exact absurd hok.1 (hrange.1 h)
  · next h =>
    split
    · next h' =>
      constructor
      · intro hfail
        cases hfail
      · intro hok
        exact absurd hok.2 (hceiling.1 h')
    · next h' =>
      exact ⟨fun _ => ⟨not_not.1 (mt hrange.2 h), not_not.1 (mt hceiling.2 h')⟩, fun _ => rfl⟩

theorem width_of_routineOf (h : s.routineOf key = .ok r) :
    0 < key.width ∧ key.width ≤ s.limits.widest :=
  (requireAvailable_eq_ok_iff.1 (routineOf_eq_ok h).1).1

theorem exists_routineOf {body : List Step} (havailable : s.requireAvailable key = .ok ())
    (hbody : s.bodyOf key = .ok body) : ∃ r, s.routineOf key = .ok r := by
  rw [routineOf, Outcome.bind_of_ok havailable, Outcome.bind_of_ok hbody]
  exact ⟨_, rfl⟩

/-! ## Networks by width -/

def keysOfWidth (width : Nat) : List NetworkKey :=
  if width = 1 then singleKeys else compoundKeys width

def routineKeys (s : Synthesis) : List NetworkKey :=
  (List.range' 1 s.limits.widest).flatMap fun width => (keysOfWidth width).filter s.hasRoutine

theorem mem_keysOfWidth : key ∈ keysOfWidth width ↔ key.width = width := by
  obtain ⟨task, width', d⟩ := key
  by_cases hwidth : width = 1
  · subst hwidth
    cases task <;> cases d <;>
      simp [keysOfWidth, singleKeys, Direction.both, NetworkKey.sort, NetworkKey.merge]
  · cases task <;> cases d <;>
      simp [keysOfWidth, compoundKeys, hwidth, Direction.both, NetworkTask.all, eq_comm]

theorem nodup_keysOfWidth (width : Nat) : (keysOfWidth width).Nodup := by
  by_cases hwidth : width = 1
  · subst hwidth
    decide
  · rw [keysOfWidth, if_neg hwidth]
    simp [compoundKeys, NetworkTask.all, Direction.both]

theorem length_keysOfWidth (width : Nat) : (keysOfWidth width).length = 4 := by
  by_cases hwidth : width = 1
  · subst hwidth
    rfl
  · rw [keysOfWidth, if_neg hwidth]
    rfl

theorem mem_routineKeys : key ∈ s.routineKeys ↔ s.hasRoutine key = true := by
  rw [routineKeys, List.mem_flatMap]
  constructor
  · rintro ⟨width, _, hmem⟩
    exact (List.mem_filter.1 hmem).2
  · intro h
    have hrange : ¬ (key.width = 0 ∨ s.limits.widest < key.width) := by
      intro hout
      rw [hasRoutine, if_pos (by simpa using hout)] at h
      cases h
    refine ⟨key.width, ?_, List.mem_filter.2 ⟨mem_keysOfWidth.2 rfl, h⟩⟩
    rw [List.mem_range'_1]
    omega

theorem nodup_routineKeys (s : Synthesis) : s.routineKeys.Nodup := by
  apply List.nodup_flatMap.2
  refine ⟨fun width _ => (nodup_keysOfWidth width).filter _, List.Pairwise.imp ?_ List.nodup_range'⟩
  intro width width' hne key hkey hkey'
  apply hne
  rw [← mem_keysOfWidth.1 (List.mem_of_mem_filter hkey),
    ← mem_keysOfWidth.1 (List.mem_of_mem_filter hkey')]

theorem length_routineKeys_le (s : Synthesis) : s.routineKeys.length ≤ 4 * s.limits.widest := by
  have hfew : ∀ n ∈ (List.range' 1 s.limits.widest).map fun width =>
      ((keysOfWidth width).filter s.hasRoutine).length, n ≤ 4 := by
    intro n hn
    rcases List.mem_map.1 hn with ⟨width, _, rfl⟩
    exact (List.length_filter_le _ _).trans_eq (length_keysOfWidth width)
  rw [routineKeys, List.length_flatMap, Nat.mul_comm]
  exact (List.sum_le_card_nsmul _ 4 hfew).trans_eq (by simp)

/-! ## The loops -/

/-- The test of the single-register routines is the one by which they are called. -/
theorem filter_singleKeys (hwidest : 0 < s.limits.widest) :
    singleKeys.filter s.hasRoutine = if s.limits.unroll < 1 then singleKeys else [] := by
  have hsingle : ∀ key ∈ singleKeys, s.hasRoutine key = decide (s.limits.unroll < 1) := by
    intro key hkey
    have hwidth : key.width = 1 := mem_keysOfWidth.1 (show key ∈ keysOfWidth 1 from hkey)
    rw [hasRoutine, hwidth, if_neg (by simp; omega), if_pos rfl, Bool.eq_iff_iff]
    simp
  split
  · next hunroll =>
    exact List.filter_eq_self.2 fun key hkey => (hsingle key hkey).trans (decide_eq_true hunroll)
  · next hunroll =>
    apply List.filter_eq_nil_iff.2
    intro key hkey
    rw [hsingle key hkey, decide_eq_true_iff]
    exact hunroll

theorem routineKeys_eq_append (hwidest : 0 < s.limits.widest) :
    s.routineKeys = (if s.limits.unroll < 1 then singleKeys else []) ++
      (List.range' 2 (s.limits.widest - 1)).flatMap fun width =>
        (compoundKeys width).filter s.hasRoutine := by
  have hcompound : ((List.range' 2 (s.limits.widest - 1)).flatMap fun width =>
      (keysOfWidth width).filter s.hasRoutine) = (List.range' 2 (s.limits.widest - 1)).flatMap
        fun width => (compoundKeys width).filter s.hasRoutine := by
    apply List.flatMap_congr
    intro width hwidth
    rw [List.mem_range'_1] at hwidth
    rw [keysOfWidth, if_neg (by omega)]
  have hrange : List.range' 1 s.limits.widest = 1 :: List.range' 2 (s.limits.widest - 1) := by
    conv_lhs => rw [← Nat.sub_add_cancel hwidest, List.range'_succ]
  rw [routineKeys, hrange, List.flatMap_cons, hcompound, keysOfWidth, if_pos rfl,
    filter_singleKeys hwidest]

/-- Where single-register routines are asked for without a register, the loops fail. -/
theorem sortersAndMergers_eq_mapM (hwidest : s.limits.unroll < 1 → 0 < s.limits.widest) :
    s.sortersAndMergers = s.routineKeys.mapM s.routineOf := by
  have hsingle : s.singleRoutines =
      (if s.limits.unroll < 1 then singleKeys else []).mapM s.routineOf := by
    rw [singleRoutines]
    split <;> rfl
  have hcompound : Count.mapFrom s.compoundRoutines 2 (s.limits.widest - 1) =
      (List.range' 2 (s.limits.widest - 1)).mapM s.compoundRoutines := Count.mapFrom_eq_mapM _ _ _
  rw [sortersAndMergers, hsingle, hcompound]
  rcases Nat.eq_zero_or_pos s.limits.widest with hzero | hpos
  · have hunroll : ¬ s.limits.unroll < 1 := fun h => Nat.lt_irrefl 0 (hzero ▸ hwidest h)
    rw [routineKeys, hzero, if_neg hunroll]
    rfl
  · rw [routineKeys_eq_append hpos, List.mapM_append, Outcome.mapM_flatMap]
    simp only [map_eq_pure_bind, bind_assoc, pure_bind]
    rfl

theorem mapM_routineKeys_of_sortersAndMergers {networks : List Routine}
    (h : s.sortersAndMergers = .ok networks) : s.routineKeys.mapM s.routineOf = .ok networks := by
  rw [← sortersAndMergers_eq_mapM, h]
  intro hunroll
  obtain ⟨single, hsingle, _⟩ := Outcome.bind_eq_ok_iff.1 h
  rw [singleRoutines, if_pos hunroll] at hsingle
  obtain ⟨r, _, hr⟩ := Outcome.exists_of_mem_left (Outcome.mapM_eq_ok_iff.1 hsingle)
    (show .sort 1 .ascending ∈ singleKeys by decide)
  obtain ⟨hpos, hle⟩ := width_of_routineOf hr
  exact hpos.trans_le hle

end Synthesis

end Bitonic
