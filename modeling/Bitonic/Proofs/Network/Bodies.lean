import Bitonic.Proofs.Network.Expansion
import Bitonic.Proofs.Network.WrittenOut
/-!
# The bodies of networks

The body of every network of at least one register can be made, and comes to the written-out network
whatever the settings make of its parts: a part that is called comes to the layers of its body, and
a part that is spliced in to the same layers.

* `Synthesis.mergeBody_expands` — a merger of at most `2 ^ e` registers nests at most `e` calls;
* `Synthesis.sortBody_expands` — a sorter nests one more;
* `Synthesis.bodyOf_expands` — the same for the network of a key.
-/

namespace Bitonic

variable {size : Nat}

namespace RegisterNetworks

def layersOf (cells : RegisterNetworks size) (key : NetworkKey) (first : Nat) : List Layer :=
  match key.task with
  | .sort => cells.sortLayers key.direction first key.width
  | .merge => cells.mergeLayers key.direction first key.width

theorem allWithin_layersOf (cells : RegisterNetworks size) (key : NetworkKey) (first : Nat) :
    Layer.AllWithin (2 ^ size) first key.width (cells.layersOf key first) := by
  obtain ⟨task, width, d⟩ := key
  cases task with
  | sort => exact cells.allWithin_sortLayers d first width
  | merge => exact cells.allWithin_mergeLayers d first width

end RegisterNetworks

namespace Synthesis

/-- The single-register networks of the unit. -/
structure Uses (s : Synthesis) (cells : RegisterNetworks size) : Prop where
  merger : ∀ d, s.profile.registerMerger s.limits.element d = .ok (cells.merger d)
  sorter : ∀ d, s.profile.registerSorter s.limits.element d = .ok (cells.sorter d)

theorem exists_uses {s : Synthesis} (h : s.profile.HasRegister s.limits.element size) :
    ∃ cells : RegisterNetworks size, s.Uses cells := by
  choose merger hmerger hcleaning using IsaProfile.registerMerger_eq_ok h
  choose sorter hsorter hsorting using IsaProfile.registerSorter_eq_ok h
  exact ⟨⟨merger, sorter, hcleaning, hsorting⟩, hmerger, hsorter⟩

/-- The body of a network that is a routine; no other network is called. -/
def routineBody (s : Synthesis) (key : NetworkKey) : Outcome (List Step) :=
  if s.hasRoutine key then s.bodyOf key else Outcome.fail (.unknownRoutine key.name)

variable {s : Synthesis} {cells : RegisterNetworks size} {e width levels : Nat}

theorem callOrSplice_expands (first : Nat) (key : NetworkKey) {steps : List Step}
    {layers : Nat → List Layer} {body : Outcome (List Step)} (hbody : body = .ok steps)
    (hkey : s.bodyOf key = .ok steps) (hpos : 0 < width) (hroom : first + width ≤ Count.limit)
    (hexp : ∀ base, base + width ≤ Count.limit →
      Expansion s.routineBody levels base steps (layers base)) :
    ∃ out, s.callOrSplice key first (fun _ => body) = .ok out ∧ ∀ base,
      base + first + width ≤ Count.limit →
        Expansion s.routineBody (levels + 1) base out (layers (base + first)) := by
  by_cases hroutine : s.hasRoutine key = true
  · refine ⟨[.call key first], if_pos hroutine, fun base hbase => ?_⟩
    have hfound : s.routineBody key = .ok steps := by
      rw [routineBody, if_pos hroutine, hkey]
    rw [← List.append_nil (layers (base + first))]
    exact .call hfound (by omega) (hexp (base + first) hbase) .nil
  · have hstart := hexp (0 + first) (by omega)
    obtain ⟨out, hmoved, _⟩ := hstart.spliced
    refine ⟨out, ?_, fun base hbase => ?_⟩
    · rw [callOrSplice, if_neg hroutine, Outcome.bind_of_ok hbody]
      exact Outcome.liftM_eq_ok_iff.2 hmoved
    · obtain ⟨out', hmoved', hout⟩ := (hexp (base + first) hbase).spliced
      rw [hmoved] at hmoved'
      cases hmoved'
      exact hout.mono (fun _ _ h => h) (Nat.le_succ levels)

theorem registerLayers_expands {bodies : NetworkKey → Outcome (List Step)} (xs : List Exchange)
    {base : Nat} (hbase : base < Count.limit) :
    Expansion bodies levels base (registerLayers xs) (xs.map (.inside base)) := by
  induction xs with
  | nil => exact .nil
  | cons x xs ih =>
      refine .layer ?_ ih
      rw [Layer.movedBy_eq_ok_iff, Layer.shifted, Layer.topRegister, Nat.zero_add]
      exact ⟨hbase, rfl⟩

theorem halfCleaner_expands {bodies : NetworkKey → Outcome (List Step)} {half rest base : Nat}
    (hbase : base + (half + rest) ≤ Count.limit) (d : Direction) :
    Expansion bodies levels base (halfCleaner half rest d) (halfCleanerLayers base half rest d) := by
  induction rest with
  | zero => exact .nil
  | succ k ih =>
      have hlast : halfCleaner half (k + 1) d =
          halfCleaner half k d ++ [.layer (.between k (k + half) d)] := by
        rw [halfCleaner, List.range_succ, List.map_append]
        rfl
      rw [hlast, halfCleanerLayers_succ]
      apply (ih (by omega)).append
      refine .layer ?_ .nil
      rw [Layer.movedBy_eq_ok_iff, Layer.shifted, Layer.topRegister, Nat.add_comm base k,
        Nat.add_right_comm k base half]
      exact ⟨by omega, rfl⟩

theorem mergeBody_expands (hs : s.Uses cells) (he : e ≤ 63) (hpos : 0 < width)
    (hwidth : width ≤ 2 ^ e) (d : Direction) :
    ∃ body, s.mergeBody d width = .ok body ∧ ∀ base, base + width ≤ Count.limit →
      Expansion s.routineBody e base body (cells.mergeLayers d base width) := by
  induction width using Nat.strongRecOn generalizing e with
  | ind width ih =>
      match width with
      | 0 => omega
      | 1 =>
          refine ⟨registerLayers (cells.merger d), ?_, fun base hbase => ?_⟩
          · rw [mergeBody, Outcome.bind_of_ok (hs.merger d)]
            rfl
          · rw [RegisterNetworks.mergeLayers]
            exact registerLayers_expands _ (by omega)
      | width + 2 =>
          have hlimit : 2 ^ e ≤ 2 ^ 63 := Nat.pow_le_pow_right (by omega) he
          obtain ⟨k, hke, hsplit, hlow, hhigh⟩ :=
            exists_splitPoint_lt (show 2 ≤ width + 2 by omega) hwidth
          have hkpos := Nat.two_pow_pos k
          obtain ⟨lowBody, hlowBody, hlowExp⟩ := ih (2 ^ k) hlow (e := k) (by omega) hkpos
            (Nat.le_refl _)
          obtain ⟨highBody, hhighBody, hhighExp⟩ := ih (width + 2 - 2 ^ k) (by omega) (e := k)
            (by omega) (by omega) hhigh
          obtain ⟨low, hlowPart, hlowLayers⟩ := callOrSplice_expands (s := s) 0 (.merge (2 ^ k) d)
            hlowBody hlowBody hkpos (by unfold Count.limit; omega) hlowExp
          obtain ⟨high, hhighPart, hhighLayers⟩ := callOrSplice_expands (s := s) (2 ^ k)
            (.merge (width + 2 - 2 ^ k) d) hhighBody hhighBody (by omega)
            (by unfold Count.limit; omega) hhighExp
          refine ⟨halfCleaner (2 ^ k) (width + 2 - 2 ^ k) d ++ low ++ high, ?_, ?_⟩
          · have hchecked : checkedSplitPoint (width + 2) = .ok (splitPoint (width + 2)) :=
              if_pos (by omega)
            rw [mergeBody, Outcome.bind_of_ok (Outcome.liftM_eq_ok_iff.2 hchecked), hsplit,
              Outcome.bind_of_ok hlowPart, Outcome.bind_of_ok hhighPart]
            rfl
          · intro base hbase
            rw [RegisterNetworks.mergeLayers, hsplit]
            have hclean : Expansion s.routineBody (k + 1) base
                (halfCleaner (2 ^ k) (width + 2 - 2 ^ k) d) _ :=
              halfCleaner_expands (by omega) d
            have hwhole := (hclean.append (hlowLayers base (by omega))).append
              (hhighLayers base (by omega))
            exact hwhole.mono (fun _ _ h => h) hke

theorem sortBody_expands (hs : s.Uses cells) (he : e ≤ 63) (hpos : 0 < width)
    (hwidth : width ≤ 2 ^ e) (d : Direction) :
    ∃ body, s.sortBody d width = .ok body ∧ ∀ base, base + width ≤ Count.limit →
      Expansion s.routineBody (e + 1) base body (cells.sortLayers d base width) := by
  induction width using Nat.strongRecOn generalizing e d with
  | ind width ih =>
      match width with
      | 0 => omega
      | 1 =>
          refine ⟨registerLayers (cells.sorter d), ?_, fun base hbase => ?_⟩
          · rw [sortBody, Outcome.bind_of_ok (hs.sorter d)]
            rfl
          · rw [RegisterNetworks.sortLayers]
            exact registerLayers_expands _ (by omega)
      | width + 2 =>
          have hlimit : 2 ^ e ≤ 2 ^ 63 := Nat.pow_le_pow_right (by omega) he
          obtain ⟨k, hke, hsplit, hlow, hhigh⟩ :=
            exists_splitPoint_lt (show 2 ≤ width + 2 by omega) hwidth
          have hkpos := Nat.two_pow_pos k
          obtain ⟨againstBody, hagainstBody, hagainstExp⟩ := ih (2 ^ k) hlow (e := k) (by omega)
            hkpos (Nat.le_refl _) d.reverse
          obtain ⟨alongBody, halongBody, halongExp⟩ := ih (width + 2 - 2 ^ k) (by omega) (e := k)
            (by omega) (by omega) hhigh d
          obtain ⟨mergeBody, hmergeBody, hmergeExp⟩ := mergeBody_expands hs he hpos hwidth d
          obtain ⟨against, hagainstPart, hagainstLayers⟩ := callOrSplice_expands (s := s) 0
            (.sort (2 ^ k) d.reverse) hagainstBody hagainstBody hkpos
            (by unfold Count.limit; omega) hagainstExp
          obtain ⟨along, halongPart, halongLayers⟩ := callOrSplice_expands (s := s) (2 ^ k)
            (.sort (width + 2 - 2 ^ k) d) halongBody halongBody (by omega)
            (by unfold Count.limit; omega) halongExp
          obtain ⟨merged, hmergedPart, hmergedLayers⟩ := callOrSplice_expands (s := s) 0
            (.merge (width + 2) d) hmergeBody hmergeBody hpos (by unfold Count.limit; omega)
            hmergeExp
          refine ⟨against ++ along ++ merged, ?_, ?_⟩
          · have hchecked : checkedSplitPoint (width + 2) = .ok (splitPoint (width + 2)) :=
              if_pos (by omega)
            rw [sortBody, Outcome.bind_of_ok (Outcome.liftM_eq_ok_iff.2 hchecked), hsplit,
              Outcome.bind_of_ok hagainstPart, Outcome.bind_of_ok halongPart,
              Outcome.bind_of_ok hmergedPart]
            rfl
          · intro base hbase
            rw [RegisterNetworks.sortLayers, hsplit]
            have hparts := (hagainstLayers base (by omega)).append
              (halongLayers base (by omega))
            exact (hparts.mono (fun _ _ h => h) (show k + 2 ≤ e + 1 by omega)).append
              (hmergedLayers base (by omega))

/-- A network that can be made has a register, and no more than its split can count. -/
theorem width_of_bodyOf {key : NetworkKey} {body : List Step} (h : s.bodyOf key = .ok body) :
    0 < key.width ∧ key.width ≤ 2 ^ 63 := by
  have hsplit : ∀ {width half : Nat}, checkedSplitPoint width = .ok half → width ≤ 2 ^ 63 := by
    intro width half hchecked
    unfold checkedSplitPoint at hchecked
    split at hchecked
    · assumption
    · cases hchecked
  obtain ⟨task, width, d⟩ := key
  match task, width with
  | .sort, 0 =>
      rw [bodyOf, sortBody] at h
      cases h
  | .merge, 0 =>
      rw [bodyOf, mergeBody] at h
      cases h
  | .sort, 1 => exact ⟨Nat.one_pos, Nat.one_le_two_pow⟩
  | .merge, 1 => exact ⟨Nat.one_pos, Nat.one_le_two_pow⟩
  | .sort, width + 2 =>
      rw [bodyOf, sortBody] at h
      obtain ⟨_, hchecked, _⟩ := Outcome.bind_eq_ok_iff.1 h
      exact ⟨Nat.succ_pos _, hsplit (Outcome.liftM_eq_ok_iff.1 hchecked)⟩
  | .merge, width + 2 =>
      rw [bodyOf, mergeBody] at h
      obtain ⟨_, hchecked, _⟩ := Outcome.bind_eq_ok_iff.1 h
      exact ⟨Nat.succ_pos _, hsplit (Outcome.liftM_eq_ok_iff.1 hchecked)⟩

theorem bodyOf_expands (hs : s.Uses cells) (he : e ≤ 63) {key : NetworkKey}
    (hpos : 0 < key.width) (hwidth : key.width ≤ 2 ^ e) :
    ∃ body, s.bodyOf key = .ok body ∧ ∀ base, base + key.width ≤ Count.limit →
      Expansion s.routineBody (e + 1) base body (cells.layersOf key base) := by
  obtain ⟨task, width, d⟩ := key
  cases task with
  | sort => exact sortBody_expands hs he hpos hwidth d
  | merge =>
      obtain ⟨body, hbody, hexp⟩ := mergeBody_expands hs he hpos hwidth d
      exact ⟨body, hbody, fun base hbase => (hexp base hbase).mono (fun _ _ h => h) (Nat.le_succ e)⟩

end Synthesis

end Bitonic
