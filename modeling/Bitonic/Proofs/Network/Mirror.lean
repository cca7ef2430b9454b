import Bitonic.Proofs.Plan.Generated
/-!
# Networks in the other direction

The two directions of a network are made independently, by a recursion that sorts the first part
against the direction.  They are mirror images all the same: each step of one is the step of the
other with its directions reversed, `Step.reverse`.  That holds of everything that may fail on the
way too, since no failure of a body depends on a direction.

* `Synthesis.callOrSplice_reverse` — one part of a network, called or spliced in;
* `Synthesis.mergeBody_reverse`, `Synthesis.sortBody_reverse` — the two recursions over the width;
* `Synthesis.bodyOf_reverse`, `Synthesis.invocation_reverse` — the networks of two keys;
* `Synthesis.entryRoutine_reverse` — the two entry points of a width.
-/

namespace Bitonic

def Sentinel.reverse : Sentinel → Sentinel
  | max => min
  | min => max

theorem Direction.sentinel_reverse (d : Direction) : d.reverse.sentinel = d.sentinel.reverse := by
  cases d <;> rfl

def Exchange.reverse (x : Exchange) : Exchange := { x with direction := x.direction.reverse }

def Layer.reverse : Layer → Layer
  | inside register exchange => inside register exchange.reverse
  | between low high d => between low high d.reverse

/-- Of the steps outside the networks only a load depends on a direction. -/
def OuterStep.reverse : OuterStep → OuterStep
  | load vectors residual pad => load vectors residual pad.reverse
  | store vectors residual => store vectors residual
  | byLength table => byLength table
  | byType choices => byType choices

def Step.reverse : Step → Step
  | layer l => layer l.reverse
  | call callee first => call callee.reverse first
  | outer step => outer step.reverse

/-- The same routine in the other direction, under a name of its own. -/
def Routine.mirrored (r : Routine) (name : String) : Routine :=
  { r with
    name
    key := r.key.map NetworkKey.reverse
    direction := r.direction.map Direction.reverse
    body := r.body.map Step.reverse }

/-! ## Single registers -/

namespace IsaProfile

variable (profile : IsaProfile) (ty : ScalarType)

theorem exchangeOf_reverse (p : Pairing) (d : Direction) :
    profile.exchangeOf ty p d.reverse = Exchange.reverse <$> profile.exchangeOf ty p d := by
  simp only [exchangeOf, map_bind]
  congr
  funext lanes
  split
  · rfl
  · split
    · rfl
    · simp only [map_bind, map_pure]
      rfl

theorem cleaningExchanges_reverse (lanes count : Nat) (d : Direction) :
    profile.cleaningExchanges ty lanes count d.reverse =
      List.map Exchange.reverse <$> profile.cleaningExchanges ty lanes count d := by
  apply Outcome.mapM_eq_map
  intro e
  simp only [map_bind, exchangeOf_reverse]

theorem blockExchanges_reverse (lanes e : Nat) (d : Direction) :
    profile.blockExchanges ty lanes e d.reverse =
      List.map Exchange.reverse <$> profile.blockExchanges ty lanes e d := by
  simp only [blockExchanges, exchangeOf_reverse, cleaningExchanges_reverse, map_bind,
    bind_map_left, map_pure, List.map_cons]

theorem registerSorter_reverse (d : Direction) :
    profile.registerSorter ty d.reverse =
      List.map Exchange.reverse <$> profile.registerSorter ty d := by
  simp only [registerSorter, map_bind]
  congr
  funext lanes
  rw [Outcome.mapM_eq_map fun e => profile.blockExchanges_reverse ty lanes e d]
  simp only [bind_map_left, map_pure, List.map_flatten]

theorem registerMerger_reverse (d : Direction) :
    profile.registerMerger ty d.reverse =
      List.map Exchange.reverse <$> profile.registerMerger ty d := by
  simp only [registerMerger, cleaningExchanges_reverse, map_bind]

end IsaProfile

/-! ## Several registers -/

theorem Layer.movedBy_reverse (offset : Nat) (l : Layer) :
    l.reverse.movedBy offset = Layer.reverse <$> l.movedBy offset := by
  cases l <;> simp only [movedBy, reverse, map_bind, map_pure]

theorem Step.movedBy_reverse (offset : Nat) (step : Step) :
    step.reverse.movedBy offset = Step.reverse <$> step.movedBy offset := by
  cases step with
  | layer l => simp only [movedBy, reverse, Layer.movedBy_reverse, bind_map_left, map_bind, map_pure]
  | call callee first => simp only [movedBy, reverse, map_bind, map_pure]
  | outer step => rfl

namespace Synthesis

variable (s : Synthesis)

theorem hasRoutine_reverse (key : NetworkKey) : s.hasRoutine key.reverse = s.hasRoutine key := rfl

theorem moved_reverse (offset : Nat) (steps : List Step) :
    moved offset (steps.map Step.reverse) = List.map Step.reverse <$> moved offset steps := by
  rw [moved, List.mapM_map]
  exact Outcome.mapM_eq_map (Step.movedBy_reverse offset) steps

theorem callOrSplice_reverse (key : NetworkKey) (first : Nat) {body body' : Outcome (List Step)}
    (h : body' = List.map Step.reverse <$> body) :
    s.callOrSplice key.reverse first (fun _ => body') =
      List.map Step.reverse <$> s.callOrSplice key first fun _ => body := by
  rw [callOrSplice, callOrSplice, hasRoutine_reverse]
  split
  · rfl
  · rw [h, bind_map_left, map_bind]
    congr
    funext steps
    rw [moved_reverse]
    cases moved first steps <;> rfl

theorem registerLayers_reverse (xs : List Exchange) :
    registerLayers (xs.map Exchange.reverse) = (registerLayers xs).map Step.reverse := by
  simp only [registerLayers, List.map_map]
  rfl

theorem halfCleaner_reverse (half rest : Nat) (d : Direction) :
    halfCleaner half rest d.reverse = (halfCleaner half rest d).map Step.reverse := by
  simp only [halfCleaner, List.map_map]
  rfl

theorem mergeBody_reverse (d : Direction) (width : Nat) :
    s.mergeBody d.reverse width = List.map Step.reverse <$> s.mergeBody d width := by
  induction width using splitPoint_induction with
  | zero =>
      rw [mergeBody, mergeBody]
      rfl
  | one =>
      rw [mergeBody, mergeBody, IsaProfile.registerMerger_reverse]
      simp only [bind_map_left, map_bind, map_pure, registerLayers_reverse]
  | split width ihLow ihHigh =>
      have hlow := s.callOrSplice_reverse (.merge (splitPoint (width + 2)) d) 0 ihLow
      have hhigh := s.callOrSplice_reverse (.merge (width + 2 - splitPoint (width + 2)) d)
        (splitPoint (width + 2)) ihHigh
      simp only [NetworkKey.merge, NetworkKey.reverse] at hlow hhigh
      rw [mergeBody, mergeBody]
      simp only [NetworkKey.merge, hlow, hhigh, halfCleaner_reverse, bind_map_left, map_bind,
        map_pure, List.map_append]

theorem sortBody_reverse (d : Direction) (width : Nat) :
    s.sortBody d.reverse width = List.map Step.reverse <$> s.sortBody d width := by
  -- for both directions at once: the first part is sorted against the direction
  induction width using splitPoint_induction generalizing d with
  | zero =>
      rw [sortBody, sortBody]
      rfl
  | one =>
      rw [sortBody, sortBody, IsaProfile.registerSorter_reverse]
      simp only [bind_map_left, map_bind, map_pure, registerLayers_reverse]
  | split width ihLow ihHigh =>
      have hagainst := s.callOrSplice_reverse (.sort (splitPoint (width + 2)) d.reverse) 0
        (ihLow d.reverse)
      have halong := s.callOrSplice_reverse (.sort (width + 2 - splitPoint (width + 2)) d)
        (splitPoint (width + 2)) (ihHigh d)
      have hmerged := s.callOrSplice_reverse (.merge (width + 2) d) 0
        (s.mergeBody_reverse d (width + 2))
      simp only [NetworkKey.sort, NetworkKey.merge, NetworkKey.reverse] at hagainst halong hmerged
      rw [sortBody, sortBody]
      simp only [NetworkKey.sort, NetworkKey.merge, hagainst, halong, hmerged, bind_map_left,
        map_bind, map_pure, List.map_append]

theorem bodyOf_reverse (key : NetworkKey) :
    s.bodyOf key.reverse = List.map Step.reverse <$> s.bodyOf key := by
  obtain ⟨task, width, d⟩ := key
  cases task with
  | sort => exact s.sortBody_reverse d width
  | merge => exact s.mergeBody_reverse d width

theorem invocation_reverse (key : NetworkKey) (first : Nat) :
    s.invocation key.reverse first = List.map Step.reverse <$> s.invocation key first :=
  s.callOrSplice_reverse key first (s.bodyOf_reverse key)

/-! ## Routines -/

variable {s}

theorem routineOf_reverse {key : NetworkKey} {r : Routine} (h : s.routineOf key = .ok r) :
    s.routineOf key.reverse = .ok (r.mirrored key.reverse.name) := by
  obtain ⟨⟨⟩, havailable, h⟩ := Outcome.bind_eq_ok_iff.1 h
  obtain ⟨body, hbody, h⟩ := Outcome.bind_eq_ok_iff.1 h
  cases h
  have hrange := requireAvailable_eq_ok_iff.1 havailable
  have havailable' : s.requireAvailable key.reverse = .ok () :=
    requireAvailable_eq_ok_iff.2 hrange
  rw [routineOf, Outcome.bind_of_ok havailable', bodyOf_reverse, hbody]
  rfl

theorem entryRoutine_reverse (s : Synthesis) (width : Nat) (d : Direction) :
    s.entryRoutine width d.reverse =
      (fun r => r.mirrored (entryPointName width d.reverse)) <$> s.entryRoutine width d := by
  have hnetwork := s.invocation_reverse (.sort width d) 0
  simp only [NetworkKey.sort, NetworkKey.reverse] at hnetwork
  simp only [entryRoutine, NetworkKey.sort, hnetwork, bind_map_left, map_bind, map_pure]
  simp [Routine.mirrored, Step.reverse, OuterStep.reverse, Direction.sentinel_reverse]

end Synthesis

end Bitonic
