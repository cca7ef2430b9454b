import Bitonic.Network.Synthesis
import Bitonic.Proofs.Outcome
/-!
# Steps with all calls written out

`Expansion bodies levels base steps layers` says that the steps, their register 0 being register
`base`, come to the layers once every call is replaced by the body of the callee, and that calls
nest at most `levels` deep.

* `Expansion.append` — steps one after the other come to layers one after the other;
* `Expansion.spliced` — steps that are moved beforehand come to the same layers;
* `Expansion.mono` — more bodies and more levels change nothing.
-/

namespace Bitonic

/-- The layer `offset` registers further along, with no bound on register numbers. -/
def Layer.shifted (offset : Nat) : Layer → Layer
  | inside r x => inside (r + offset) x
  | between low high d => between (low + offset) (high + offset) d

theorem Layer.movedBy_eq_ok_iff {l l' : Layer} {offset : Nat} :
    l.movedBy offset = .ok l' ↔ l.topRegister + offset < Count.limit ∧ l.shifted offset = l' := by
  cases l with
  | inside r x =>
      simp only [movedBy, Outcome.bind_eq_ok_iff, Count.add_eq_ok_iff, topRegister, shifted]
      constructor
      · rintro ⟨_, ⟨hlt, rfl⟩, h⟩
        exact ⟨hlt, Except.ok.inj h⟩
      · rintro ⟨hlt, rfl⟩
        exact ⟨_, ⟨hlt, rfl⟩, rfl⟩
  | between low high d =>
      simp only [movedBy, Outcome.bind_eq_ok_iff, Count.add_eq_ok_iff, topRegister, shifted]
      constructor
      · rintro ⟨_, ⟨hlow, rfl⟩, _, ⟨hhigh, rfl⟩, h⟩
        exact ⟨by omega, Except.ok.inj h⟩
      · rintro ⟨hlt, rfl⟩
        exact ⟨_, ⟨by omega, rfl⟩, _, ⟨by omega, rfl⟩, rfl⟩

theorem Layer.shifted_shifted (l : Layer) (a b : Nat) :
    (l.shifted a).shifted b = l.shifted (b + a) := by
  cases l <;> simp only [shifted, Nat.add_assoc, Nat.add_comm b a]

theorem Layer.topRegister_shifted (l : Layer) (offset : Nat) :
    (l.shifted offset).topRegister = l.topRegister + offset := by
  cases l with
  | inside r x => rfl
  | between low high d => exact Nat.add_max_add_right low high offset

inductive Expansion (bodies : NetworkKey → Outcome (List Step)) :
    Nat → Nat → List Step → List Layer → Prop where
  | nil {levels base : Nat} : Expansion bodies levels base [] []
  | layer {levels base : Nat} {l l' : Layer} {steps : List Step} {layers : List Layer}
      (moved : l.movedBy base = .ok l') (rest : Expansion bodies levels base steps layers) :
      Expansion bodies levels base (.layer l :: steps) (l' :: layers)
  | call {levels base first : Nat} {callee : NetworkKey} {body steps : List Step}
      {called layers : List Layer} (found : bodies callee = .ok body)
      (fits : base + first < Count.limit)
      (inner : Expansion bodies levels (base + first) body called)
      (rest : Expansion bodies (levels + 1) base steps layers) :
      Expansion bodies (levels + 1) base (.call callee first :: steps) (called ++ layers)

namespace Expansion

variable {bodies bodies' : NetworkKey → Outcome (List Step)} {levels levels' base offset : Nat}
  {steps steps' : List Step} {layers layers' : List Layer}

theorem append (h : Expansion bodies levels base steps layers)
    (h' : Expansion bodies levels base steps' layers') :
    Expansion bodies levels base (steps ++ steps') (layers ++ layers') := by
  induction h with
  | nil => exact h'
  | layer moved rest ih => exact .layer moved (ih h')
  | call found fits inner rest ihInner ih =>
      rw [List.cons_append, List.append_assoc]
      exact .call found fits inner (ih h')

theorem mono (h : Expansion bodies levels base steps layers)
    (hbodies : ∀ key body, bodies key = .ok body → bodies' key = .ok body)
    (hlevels : levels ≤ levels') : Expansion bodies' levels' base steps layers := by
  induction h generalizing levels' with
  | nil => exact .nil
  | layer moved rest ih => exact .layer moved (ih hlevels)
  | call found fits inner rest ihInner ih =>
      obtain ⟨levels', rfl⟩ := Nat.exists_eq_add_of_le' (Nat.le_trans (Nat.le_add_left 1 _) hlevels)
      exact .call (hbodies _ _ found) fits (ihInner (by omega)) (ih hlevels)

theorem spliced (h : Expansion bodies levels (base + offset) steps layers) :
    ∃ steps', Synthesis.moved offset steps = .ok steps' ∧
      Expansion bodies levels base steps' layers := by
  generalize hbase : base + offset = place at h
  induction h with
  | nil => exact ⟨[], rfl, .nil⟩
  | layer moved rest ih =>
      rename_i l l' steps layers
      obtain ⟨steps', hmoved, hrest⟩ := ih hbase
      obtain ⟨hlt, rfl⟩ := Layer.movedBy_eq_ok_iff.1 moved
      have hfirst : (Step.layer l).movedBy offset = .ok (.layer (l.shifted offset)) := by
        rw [Step.movedBy, Outcome.bind_of_ok (Layer.movedBy_eq_ok_iff.2 ⟨by omega, rfl⟩)]
        rfl
      refine ⟨.layer (l.shifted offset) :: steps', ?_, .layer ?_ hrest⟩
      · rw [Synthesis.moved] at hmoved ⊢
        rw [List.mapM_cons, Outcome.bind_of_ok hfirst, Outcome.bind_of_ok hmoved]
        rfl
      · rw [Layer.movedBy_eq_ok_iff, Layer.topRegister_shifted, Layer.shifted_shifted, hbase]
        exact ⟨by omega, rfl⟩
  | call found fits inner rest ihInner ih =>
      rename_i place first callee body steps called layers
      obtain ⟨steps', hmoved, hrest⟩ := ih hbase
      have hfirst : (Step.call callee first).movedBy offset =
          .ok (.call callee (first + offset)) := by
        rw [Step.movedBy, Outcome.bind_of_ok (Count.add_eq_ok (by omega))]
        rfl
      have hplace : base + (first + offset) = place + first := by omega
      refine ⟨.call callee (first + offset) :: steps', ?_, .call found ?_ ?_ hrest⟩
      · rw [Synthesis.moved] at hmoved ⊢
        rw [List.mapM_cons, Outcome.bind_of_ok hfirst, Outcome.bind_of_ok hmoved]
        rfl
      · rw [hplace]
        exact fits
      · rw [hplace]
        exact inner

end Expansion

end Bitonic
