import Bitonic.Proofs.Network.Parts
import Bitonic.Proofs.Network.WrittenOut
import Mathlib.Data.Nat.Log
/-!
# How deep networks nest

Going into a part of a network either halves its width, rounded up, or goes over from a sorter to
the merger of the same width, and mergers call no sorters.  So the rounded-up logarithm of the
width, and one more for a sorter, falls with every call, those of bodies that are spliced in
included.

* `NetworkKey.Part.nesting_lt` — the measure falls from a network to its parts;
* `Synthesis.nestsBelow_of_bodyOf` — and so it does along every call of a body.
-/

namespace Bitonic

/-- A sorter goes over to a merger once. -/
def NetworkTask.switches : NetworkTask → Nat
  | .merge => 0
  | .sort => 1

/-- Calls nest at most this deep in the routine of a network. -/
def NetworkKey.nesting (key : NetworkKey) : Nat := Nat.clog 2 key.width + key.task.switches

theorem NetworkKey.nesting_le {key : NetworkKey} {e : Nat} (h : key.width ≤ 2 ^ e) :
    key.nesting ≤ e + 1 := by
  have hhalvings : Nat.clog 2 key.width ≤ e := Nat.clog_le_of_le_pow h
  have hswitches : key.task.switches ≤ 1 := by cases key.task <;> decide
  rw [NetworkKey.nesting]
  omega

theorem clog_splitPoint_lt (width : Nat) :
    Nat.clog 2 (splitPoint (width + 2)) < Nat.clog 2 (width + 2) := by
  obtain ⟨e, hsplit, hlow, _⟩ := exists_splitPoint_eq (show 2 ≤ width + 2 by omega)
  rw [hsplit, Nat.clog_pow 2 e Nat.one_lt_two]
  exact (Nat.lt_clog_iff_pow_lt Nat.one_lt_two).2 hlow

/-- The second part of a split takes no more halvings than the first. -/
theorem clog_sub_splitPoint_lt (width : Nat) :
    Nat.clog 2 (width + 2 - splitPoint (width + 2)) < Nat.clog 2 (width + 2) := by
  have hle := sub_splitPoint_le (show 2 ≤ width + 2 by omega)
  exact (Nat.clog_mono_right 2 hle).trans_lt (clog_splitPoint_lt width)

theorem NetworkKey.Part.nesting_lt {key part : NetworkKey} {first : Nat}
    (h : key.Part part first) : part.nesting < key.nesting := by
  cases h with
  | low width d => exact Nat.add_lt_add_right (clog_splitPoint_lt width) _
  | high width d => exact Nat.add_lt_add_right (clog_sub_splitPoint_lt width) _
  | against width d => exact Nat.add_lt_add_right (clog_splitPoint_lt width) _
  | along width d => exact Nat.add_lt_add_right (clog_sub_splitPoint_lt width) _
  | merged width d => exact Nat.lt_succ_self _

def Step.NestsBelow (bound : Nat) : Step → Prop
  | .call callee _ => callee.nesting < bound
  | _ => True

namespace Step.NestsBelow

variable {bound bound' offset : Nat} {step step' : Step}

theorem mono (h : step.NestsBelow bound) (hle : bound ≤ bound') : step.NestsBelow bound' := by
  cases step with
  | call callee first => exact Nat.lt_of_lt_of_le h hle
  | layer l => trivial
  | outer outer => trivial

theorem movedBy (h : step.NestsBelow bound) (hmoved : step.movedBy offset = .ok step') :
    step'.NestsBelow bound := by
  cases step with
  | layer l =>
      obtain ⟨l', _, hstep⟩ := Outcome.bind_eq_ok_iff.1 hmoved
      cases hstep
      trivial
  | call callee first =>
      obtain ⟨place, _, hstep⟩ := Outcome.bind_eq_ok_iff.1 hmoved
      cases hstep
      exact h
  | outer outer =>
      cases hmoved
      trivial

end Step.NestsBelow

namespace Synthesis

variable {s : Synthesis} {key : NetworkKey} {first : Nat} {out body : List Step}

theorem inherited_nestsBelow (s : Synthesis) :
    s.Inherited fun key step => step.NestsBelow key.nesting where
  sorter _ _ _ := trivial
  merger _ _ _ := trivial
  cleaner _ _ := trivial
  called hpart _ := hpart.nesting_lt
  spliced hpart hstep hmoved := (hstep.movedBy hmoved).mono hpart.nesting_lt.le

theorem nestsBelow_of_bodyOf (h : s.bodyOf key = .ok body) :
    ∀ step ∈ body, step.NestsBelow key.nesting :=
  s.inherited_nestsBelow.forall_mem_bodyOf h

theorem nestsBelow_of_invocation (h : s.invocation key first = .ok out) :
    ∀ step ∈ out, step.NestsBelow (key.nesting + 1) := by
  intro step hstep
  rcases call_or_moved_of_mem h hstep with ⟨_, rfl⟩ | ⟨body, inner, hbody, hinner, hmoved⟩
  · exact Nat.lt_succ_self _
  · exact ((nestsBelow_of_bodyOf hbody inner hinner).movedBy hmoved).mono (Nat.le_succ _)

end Synthesis

end Bitonic
