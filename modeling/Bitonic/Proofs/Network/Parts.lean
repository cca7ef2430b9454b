import Bitonic.Network.Synthesis
import Bitonic.Proofs.Outcome
/-!
# Networks and their parts

A network of several registers is made of networks that are narrower, or as wide and mergers.  Each
of these parts is called or spliced in, so a property of the steps of all networks is proved in one
way: for the layers that a network adds itself, for a call of a part, and for a step of a part that
is moved to its place.

* `NetworkKey.Part` — the parts of a network and their places;
* `Synthesis.Inherited.forall_mem_bodyOf` — what networks inherit from their parts holds of every
  step of a body;
* `Synthesis.offers_of_bodyOf` — all exchanges inside a register are those of the single-register
  networks.
-/

namespace Bitonic

/-- `key.Part part first` says that `key` runs `part` on the registers from `first` on. -/
inductive NetworkKey.Part : NetworkKey → NetworkKey → Nat → Prop where
  | low (width : Nat) (d : Direction) :
      Part (.merge (width + 2) d) (.merge (splitPoint (width + 2)) d) 0
  | high (width : Nat) (d : Direction) :
      Part (.merge (width + 2) d) (.merge (width + 2 - splitPoint (width + 2)) d)
        (splitPoint (width + 2))
  | against (width : Nat) (d : Direction) :
      Part (.sort (width + 2) d) (.sort (splitPoint (width + 2)) d.reverse) 0
  | along (width : Nat) (d : Direction) :
      Part (.sort (width + 2) d) (.sort (width + 2 - splitPoint (width + 2)) d)
        (splitPoint (width + 2))
  | merged (width : Nat) (d : Direction) : Part (.sort (width + 2) d) (.merge (width + 2) d) 0

namespace Synthesis

variable {s : Synthesis} {key part : NetworkKey} {first width : Nat} {d : Direction}
  {out body : List Step}

theorem call_or_moved_of_mem {steps : Unit → Outcome (List Step)} {step : Step}
    (hout : s.callOrSplice key first steps = .ok out) (hstep : step ∈ out) :
    (s.hasRoutine key = true ∧ step = .call key first) ∨
      ∃ body inner, steps () = .ok body ∧ inner ∈ body ∧ inner.movedBy first = .ok step := by
  unfold callOrSplice at hout
  split at hout
  · next hroutine =>
    cases hout
    exact .inl ⟨hroutine, List.mem_singleton.1 hstep⟩
  · obtain ⟨body, hbody, hmoved⟩ := Outcome.bind_eq_ok_iff.1 hout
    obtain ⟨inner, hinner, hmove⟩ := Outcome.exists_of_mem_right
      (Outcome.mapM_eq_ok_iff.1 (Outcome.liftM_eq_ok_iff.1 hmoved)) hstep
    exact .inr ⟨body, inner, hbody, hinner, hmove⟩

/-- A property of the steps of networks that the networks have from their layers and their parts. -/
structure Inherited (s : Synthesis) (P : NetworkKey → Step → Prop) : Prop where
  sorter : ∀ {d xs}, s.profile.registerSorter s.limits.element d = .ok xs →
    ∀ x ∈ xs, P (.sort 1 d) (.layer (.inside 0 x))
  merger : ∀ {d xs}, s.profile.registerMerger s.limits.element d = .ok xs →
    ∀ x ∈ xs, P (.merge 1 d) (.layer (.inside 0 x))
  cleaner : ∀ {width i} (d), i < width + 2 - splitPoint (width + 2) →
    P (.merge (width + 2) d) (.layer (.between i (i + splitPoint (width + 2)) d))
  called : ∀ {key part first}, key.Part part first → s.hasRoutine part = true →
    P key (.call part first)
  spliced : ∀ {key part first step step'}, key.Part part first → P part step →
    step.movedBy first = .ok step' → P key step'

namespace Inherited

variable {P : NetworkKey → Step → Prop}

theorem forall_mem_callOrSplice (h : s.Inherited P) (hpart : key.Part part first)
    {steps : Unit → Outcome (List Step)}
    (hsteps : ∀ body, steps () = .ok body → ∀ step ∈ body, P part step)
    (hout : s.callOrSplice part first steps = .ok out) : ∀ step ∈ out, P key step := by
  intro step hstep
  rcases call_or_moved_of_mem hout hstep with ⟨hroutine, rfl⟩ | ⟨body, inner, hbody, hinner, hmoved⟩
  · exact h.called hpart hroutine
  · exact h.spliced hpart (hsteps body hbody inner hinner) hmoved

theorem forall_mem_mergeBody (h : s.Inherited P) (hbody : s.mergeBody d width = .ok body) :
    ∀ step ∈ body, P (.merge width d) step := by
  induction width using splitPoint_induction generalizing body with
  | zero =>
      rw [mergeBody] at hbody
      cases hbody
  | one =>
      rw [mergeBody] at hbody
      obtain ⟨xs, hxs, hbody⟩ := Outcome.bind_eq_ok_iff.1 hbody
      cases hbody
      exact List.forall_mem_map.2 (h.merger hxs)
  | split width ihLow ihHigh =>
      rw [mergeBody] at hbody
      obtain ⟨_, _, hbody⟩ := Outcome.bind_eq_ok_iff.1 hbody
      obtain ⟨low, hlow, hbody⟩ := Outcome.bind_eq_ok_iff.1 hbody
      obtain ⟨high, hhigh, hbody⟩ := Outcome.bind_eq_ok_iff.1 hbody
      cases hbody
      have hclean : ∀ step ∈ halfCleaner _ _ d, P (.merge (width + 2) d) step :=
        List.forall_mem_map.2 fun _ hi => h.cleaner d (List.mem_range.1 hi)
      have hlowSteps := h.forall_mem_callOrSplice (.low width d) (fun _ => ihLow) hlow
      have hhighSteps := h.forall_mem_callOrSplice (.high width d) (fun _ => ihHigh) hhigh
      exact List.forall_mem_append.2 ⟨List.forall_mem_append.2 ⟨hclean, hlowSteps⟩, hhighSteps⟩

theorem forall_mem_sortBody (h : s.Inherited P) (hbody : s.sortBody d width = .ok body) :
    ∀ step ∈ body, P (.sort width d) step := by
  induction width using splitPoint_induction generalizing body d with
  | zero =>
      rw [sortBody] at hbody
      cases hbody
  | one =>
      rw [sortBody] at hbody
      obtain ⟨xs, hxs, hbody⟩ := Outcome.bind_eq_ok_iff.1 hbody
      cases hbody
      exact List.forall_mem_map.2 (h.sorter hxs)
  | split width ihAgainst ihAlong =>
      rw [sortBody] at hbody
      obtain ⟨_, _, hbody⟩ := Outcome.bind_eq_ok_iff.1 hbody
      obtain ⟨against, hagainst, hbody⟩ := Outcome.bind_eq_ok_iff.1 hbody
      obtain ⟨along, halong, hbody⟩ := Outcome.bind_eq_ok_iff.1 hbody
      obtain ⟨merged, hmerged, hbody⟩ := Outcome.bind_eq_ok_iff.1 hbody
      cases hbody
      have hagainstSteps := h.forall_mem_callOrSplice (.against width d) (fun _ => ihAgainst)
        hagainst
      have halongSteps := h.forall_mem_callOrSplice (.along width d) (fun _ => ihAlong) halong
      have hmergedSteps := h.forall_mem_callOrSplice (.merged width d)
        (fun _ => h.forall_mem_mergeBody) hmerged
      exact List.forall_mem_append.2
        ⟨List.forall_mem_append.2 ⟨hagainstSteps, halongSteps⟩, hmergedSteps⟩

theorem forall_mem_bodyOf (h : s.Inherited P) (hbody : s.bodyOf key = .ok body) :
    ∀ step ∈ body, P key step := by
  obtain ⟨task, width, d⟩ := key
  cases task with
  | sort => exact h.forall_mem_sortBody hbody
  | merge => exact h.forall_mem_mergeBody hbody

end Inherited

/-! ## Exchanges inside registers -/

/-- The exchange is one of the unit's single-register networks. -/
def Offers (s : Synthesis) (x : Exchange) : Prop :=
  ∃ d xs, (s.profile.registerSorter s.limits.element d = .ok xs ∨
    s.profile.registerMerger s.limits.element d = .ok xs) ∧ x ∈ xs

theorem movedBy_eq_inside {step : Step} {register : Nat} {x : Exchange}
    (h : step.movedBy first = .ok (.layer (.inside register x))) :
    ∃ register', step = .layer (.inside register' x) := by
  cases step with
  | layer l =>
      obtain ⟨l', hl', hlayer⟩ := Outcome.bind_eq_ok_iff.1 h
      cases hlayer
      cases l with
      | inside register' x' =>
          obtain ⟨_, _, hinside⟩ := Outcome.bind_eq_ok_iff.1 hl'
          cases hinside
          exact ⟨register', rfl⟩
      | between low high d =>
          obtain ⟨_, _, hl'⟩ := Outcome.bind_eq_ok_iff.1 hl'
          obtain ⟨_, _, hbetween⟩ := Outcome.bind_eq_ok_iff.1 hl'
          cases hbetween
  | call callee place =>
      obtain ⟨_, _, hcall⟩ := Outcome.bind_eq_ok_iff.1 h
      cases hcall
  | outer outer => cases h

theorem offers_of_bodyOf (hbody : s.bodyOf key = .ok body) {register : Nat} {x : Exchange}
    (hx : .layer (.inside register x) ∈ body) : s.Offers x := by
  have hinherited : s.Inherited fun _ step =>
      ∀ register x, step = .layer (.inside register x) → s.Offers x := by
    refine ⟨?_, ?_, ?_, ?_, ?_⟩
    · rintro d xs hxs x hx _ _ ⟨⟩
      exact ⟨d, xs, .inl hxs, hx⟩
    · rintro d xs hxs x hx _ _ ⟨⟩
      exact ⟨d, xs, .inr hxs, hx⟩
    · rintro _ _ _ _ _ _ ⟨⟩
    · rintro _ _ _ _ _ _ _ ⟨⟩
    · rintro _ _ _ step _ _ hstep hmoved register x rfl
      obtain ⟨register', rfl⟩ := movedBy_eq_inside hmoved
      exact hstep register' x rfl
  exact hinherited.forall_mem_bodyOf hbody _ hx register x rfl

theorem offers_of_invocation (hout : s.invocation key first = .ok out) {register : Nat}
    {x : Exchange} (hx : .layer (.inside register x) ∈ out) : s.Offers x := by
  rcases call_or_moved_of_mem hout hx with ⟨_, hcall⟩ | ⟨body, inner, hbody, hinner, hmoved⟩
  · cases hcall
  · obtain ⟨register', rfl⟩ := movedBy_eq_inside hmoved
    exact offers_of_bodyOf hbody hinner

end Synthesis

end Bitonic
