import Bitonic.Proofs.Network.Expansion
import Bitonic.Proofs.Network.Parts
import Mathlib.Order.Nat
/-!
# Registers of networks

A network of some width works on the registers below that width, and what it calls does too: a part
that is spliced in is moved to its place and stays inside it.

* `Step.Confined.movedBy` — a step that is moved stays inside its moved place;
* `NetworkKey.Part.last_le` — the parts of a network lie inside it;
* `Synthesis.confined_bodyOf` — the body of a network.
-/

namespace Bitonic

/-- The step works on registers below `width` only, and on two different ones in order. -/
def Step.Confined (width : Nat) : Step → Prop
  | .layer (.inside register _) => register < width
  | .layer (.between low high _) => low < high ∧ high < width
  | .call callee first => 0 < callee.width ∧ first + callee.width ≤ width
  | .outer _ => False

namespace Step.Confined

variable {width width' offset : Nat} {step step' : Step}

theorem mono (h : step.Confined width) (hle : width ≤ width') : step.Confined width' := by
  rcases step with (_ | _) | _ | _
  · exact Nat.lt_of_lt_of_le h hle
  · exact ⟨h.1, Nat.lt_of_lt_of_le h.2 hle⟩
  · exact ⟨h.1, Nat.le_trans h.2 hle⟩
  · exact h

theorem topRegister_lt {l : Layer} (h : (Step.layer l).Confined width) :
    l.topRegister < width := by
  cases l with
  | inside register x => exact h
  | between low high d => exact Nat.max_lt.2 ⟨h.1.trans h.2, h.2⟩

theorem movedBy (h : step.Confined width) (hmoved : step.movedBy offset = .ok step') :
    step'.Confined (width + offset) := by
  cases step with
  | layer l =>
      obtain ⟨l', hl', hstep⟩ := Outcome.bind_eq_ok_iff.1 hmoved
      cases hstep
      obtain ⟨_, rfl⟩ := Layer.movedBy_eq_ok_iff.1 hl'
      cases l with
      | inside register x => exact Nat.add_lt_add_right h offset
      | between low high d =>
          exact ⟨Nat.add_lt_add_right h.1 offset, Nat.add_lt_add_right h.2 offset⟩
  | call callee first =>
      obtain ⟨place, hplace, hstep⟩ := Outcome.bind_eq_ok_iff.1 hmoved
      cases hstep
      obtain ⟨_, rfl⟩ := Count.add_eq_ok_iff.1 hplace
      have hlast : first + callee.width ≤ width := h.2
      exact ⟨h.1, by omega⟩
  | outer outer => exact absurd h id

end Step.Confined

theorem NetworkKey.Part.width_pos {key part : NetworkKey} {first : Nat}
    (h : key.Part part first) : 0 < part.width := by
  have hpos : ∀ width, 0 < splitPoint (width + 2) := fun width => splitPoint_pos (by omega)
  have hlt : ∀ width, splitPoint (width + 2) < width + 2 := fun width => splitPoint_lt (by omega)
  cases h with
  | low width d => exact hpos width
  | high width d => exact Nat.sub_pos_of_lt (hlt width)
  | against width d => exact hpos width
  | along width d => exact Nat.sub_pos_of_lt (hlt width)
  | merged width d => exact Nat.succ_pos _

theorem NetworkKey.Part.last_le {key part : NetworkKey} {first : Nat} (h : key.Part part first) :
    first + part.width ≤ key.width := by
  have hle : ∀ width, splitPoint (width + 2) ≤ width + 2 := fun width =>
    Nat.le_of_lt (splitPoint_lt (by omega))
  cases h with
  | low width d => exact (Nat.zero_add _).trans_le (hle width)
  | high width d => exact (Nat.add_sub_cancel' (hle width)).le
  | against width d => exact (Nat.zero_add _).trans_le (hle width)
  | along width d => exact (Nat.add_sub_cancel' (hle width)).le
  | merged width d => exact (Nat.zero_add _).le

namespace Synthesis

variable {s : Synthesis} {key : NetworkKey} {first : Nat} {out body : List Step}

theorem inherited_confined (s : Synthesis) :
    s.Inherited fun key step => step.Confined key.width where
  sorter _ _ _ := Nat.one_pos
  merger _ _ _ := Nat.one_pos
  cleaner {width i} d hi := by
    have hhalf : 0 < splitPoint (width + 2) := splitPoint_pos (by omega)
    have hlast : i + splitPoint (width + 2) < width + 2 := by omega
    exact ⟨Nat.lt_add_of_pos_right hhalf, hlast⟩
  called hpart _ := ⟨hpart.width_pos, hpart.last_le⟩
  spliced hpart hstep hmoved :=
    (hstep.movedBy hmoved).mono ((Nat.add_comm _ _).trans_le hpart.last_le)

theorem confined_bodyOf (h : s.bodyOf key = .ok body) :
    ∀ step ∈ body, step.Confined key.width :=
  s.inherited_confined.forall_mem_bodyOf h

theorem confined_invocation (hpos : 0 < key.width) (h : s.invocation key first = .ok out) :
    ∀ step ∈ out, step.Confined (first + key.width) := by
  intro step hstep
  rcases call_or_moved_of_mem h hstep with ⟨_, rfl⟩ | ⟨body, inner, hbody, hinner, hmoved⟩
  · exact ⟨hpos, Nat.le_refl _⟩
  · rw [Nat.add_comm]
    exact (confined_bodyOf hbody inner hinner).movedBy hmoved

end Synthesis

end Bitonic
