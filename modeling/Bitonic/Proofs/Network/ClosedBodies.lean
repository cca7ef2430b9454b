import Bitonic.Proofs.Network.Parts
/-!
# What the bodies of networks consist of

The body of a network holds layers and calls of networks that are routines, and nothing else: a part
that is no routine is spliced in, at every depth of the recursion.

* `Synthesis.Closed.movedBy` — a step that is moved leaves nothing open either;
* `Synthesis.closed_bodyOf` — the body of a network;
* `Synthesis.closed_invocation` — the steps by which an entry point runs its sorter.
-/

namespace Bitonic

namespace Synthesis

variable {s : Synthesis} {key : NetworkKey} {first offset : Nat} {out body : List Step}

/-- A step that leaves nothing open: a layer, or a call of a network that is a routine. -/
def Closed (s : Synthesis) : Step → Prop
  | .layer _ => True
  | .call callee _ => s.hasRoutine callee = true
  | .outer _ => False

theorem Closed.ne_outer {step : Step} (h : s.Closed step) (outer : OuterStep) :
    step ≠ .outer outer := by
  rintro rfl
  exact h

theorem Closed.movedBy {step step' : Step} (h : s.Closed step)
    (hmoved : step.movedBy offset = .ok step') : s.Closed step' := by
  cases step with
  | layer l =>
      obtain ⟨l', _, hstep⟩ := Outcome.bind_eq_ok_iff.1 hmoved
      cases hstep
      trivial
  | call callee place =>
      obtain ⟨place', _, hstep⟩ := Outcome.bind_eq_ok_iff.1 hmoved
      cases hstep
      exact h
  | outer outer => exact absurd h id

theorem inherited_closed (s : Synthesis) : s.Inherited fun _ step => s.Closed step where
  sorter _ _ _ := trivial
  merger _ _ _ := trivial
  cleaner _ _ := trivial
  called _ hroutine := hroutine
  spliced _ hstep hmoved := hstep.movedBy hmoved

theorem closed_bodyOf (h : s.bodyOf key = .ok body) : ∀ step ∈ body, s.Closed step :=
  s.inherited_closed.forall_mem_bodyOf h

theorem closed_invocation (h : s.invocation key first = .ok out) :
    ∀ step ∈ out, s.Closed step := by
  intro step hstep
  rcases call_or_moved_of_mem h hstep with ⟨hroutine, rfl⟩ | ⟨body, inner, hbody, hinner, hmoved⟩
  · exact hroutine
  · exact (closed_bodyOf hbody inner hinner).movedBy hmoved

end Synthesis

end Bitonic
