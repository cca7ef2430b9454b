import Bitonic.Proofs.Network.Bodies
/-!
# Networks do not depend on which parts are called

Which parts of a network are called and which are spliced in is a matter of the settings: of the
width from which on networks are routines, and of the widest network and merger.  `writeOut`
replaces every call by the body of the callee, and what is left does not tell the settings.

* `Expansion.writeOut_eq_ok` — writing steps out computes what they come to;
* `Synthesis.writtenOut_eq_ok` — the layers of every network, from the single-register networks;
* `Synthesis.Uses.cells_eq` — which are those of the instruction set and the element type.
-/

namespace Bitonic

namespace Layer

def allMoved (offset : Nat) (layers : List Layer) : Checked (List Layer) :=
  layers.mapM (·.movedBy offset)

theorem allMoved_eq_ok_iff {layers layers' : List Layer} {offset : Nat} :
    allMoved offset layers = .ok layers' ↔
      (∀ l ∈ layers, l.topRegister + offset < Count.limit) ∧
        layers.map (shifted offset) = layers' := by
  rw [allMoved, Outcome.mapM_eq_ok_iff]
  induction layers generalizing layers' with
  | nil =>
      rw [List.forall₂_nil_left_iff]
      exact ⟨fun h => ⟨nofun, h.symm⟩, fun h => h.2.symm⟩
  | cons l layers ih =>
      rw [List.forall₂_cons_left_iff, List.forall_mem_cons]
      constructor
      · rintro ⟨l', rest, hl, hrest, rfl⟩
        obtain ⟨hlt, rfl⟩ := movedBy_eq_ok_iff.1 hl
        obtain ⟨hlts, rfl⟩ := ih.1 hrest
        exact ⟨⟨hlt, hlts⟩, rfl⟩
      · rintro ⟨⟨hlt, hlts⟩, rfl⟩
        exact ⟨_, _, movedBy_eq_ok_iff.2 ⟨hlt, rfl⟩, ih.2 ⟨hlts, rfl⟩, rfl⟩

theorem exists_allMoved_add {layers layers' : List Layer} {base first : Nat}
    (h : allMoved (base + first) layers = .ok layers') :
    ∃ between, allMoved first layers = .ok between ∧ allMoved base between = .ok layers' := by
  obtain ⟨hlt, rfl⟩ := allMoved_eq_ok_iff.1 h
  refine ⟨layers.map (shifted first), allMoved_eq_ok_iff.2 ⟨?_, rfl⟩,
    allMoved_eq_ok_iff.2 ⟨?_, ?_⟩⟩
  · intro l hl
    have := hlt l hl
    omega
  · rw [List.forall_mem_map]
    intro l hl
    have := hlt l hl
    rw [topRegister_shifted]
    omega
  · rw [List.map_map]
    exact List.map_congr_left fun l _ => l.shifted_shifted first base

theorem allMoved_zero {layers layers' : List Layer} (h : allMoved 0 layers = .ok layers') :
    layers = layers' := by
  obtain ⟨_, rfl⟩ := allMoved_eq_ok_iff.1 h
  have hsame : ∀ l : Layer, l.shifted 0 = l := fun l => by cases l <;> rfl
  rw [List.map_congr_left fun l _ => hsame l, List.map_id']

end Layer

/-- The layers of a step, if a call is replaced by the layers of its callee, moved to the registers
that the call is on. -/
def Step.writeOut (called : NetworkKey → Outcome (List Layer)) : Step → Outcome (List Layer)
  | layer l => return [l]
  | call callee first => do Layer.allMoved first (← called callee)
  | outer step => Outcome.defective (.notNetworkStep step)

/-- The layers of steps, if every call is replaced by the layers of the callee's body, with at most
`levels` bodies open at a time. -/
def writeOut (bodies : NetworkKey → Outcome (List Step)) (levels : Nat) (steps : List Step) :
    Outcome (List Layer) :=
  match levels with
  | 0 => Outcome.defective .callTooDeep
  | levels + 1 => do
    let parts ← steps.mapM (Step.writeOut fun callee => do writeOut bodies levels (← bodies callee))
    return parts.flatten

variable {bodies : NetworkKey → Outcome (List Step)} {levels base : Nat} {steps : List Step}
  {layers : List Layer}

theorem writeOut_cons {step : Step} {front : List Layer}
    (hstep : step.writeOut (fun callee => do writeOut bodies levels (← bodies callee)) = .ok front)
    (hsteps : writeOut bodies (levels + 1) steps = .ok layers) :
    writeOut bodies (levels + 1) (step :: steps) = .ok (front ++ layers) := by
  rw [writeOut] at hsteps ⊢
  obtain ⟨parts, hparts, hflat⟩ := Outcome.bind_eq_ok_iff.1 hsteps
  cases hflat
  rw [List.mapM_cons, Outcome.bind_of_ok hstep, Outcome.bind_of_ok hparts]
  rfl

theorem Expansion.exists_writeOut (h : Expansion bodies levels base steps layers) :
    ∃ written, writeOut bodies (levels + 1) steps = .ok written ∧
      Layer.allMoved base written = .ok layers := by
  induction h with
  | nil => exact ⟨[], by rw [writeOut]; rfl, rfl⟩
  | layer moved rest ih =>
      rename_i l l' steps layers
      obtain ⟨written, hwritten, hmoved⟩ := ih
      refine ⟨[l] ++ written, writeOut_cons rfl hwritten, ?_⟩
      rw [Layer.allMoved] at hmoved ⊢
      rw [List.singleton_append, List.mapM_cons, Outcome.bind_of_ok moved,
        Outcome.bind_of_ok hmoved]
      rfl
  | call found fits inner rest ihInner ih =>
      rename_i levels base first callee body steps called layers
      obtain ⟨written, hwritten, hmoved⟩ := ih
      obtain ⟨writtenBody, hwrittenBody, hmovedBody⟩ := ihInner
      obtain ⟨placed, hplaced, hmovedPlaced⟩ := Layer.exists_allMoved_add hmovedBody
      refine ⟨placed ++ written, writeOut_cons ?_ hwritten, ?_⟩
      · rw [Step.writeOut, Outcome.bind_of_ok found, Outcome.bind_of_ok hwrittenBody]
        exact Outcome.liftM_eq_ok_iff.2 hplaced
      · rw [Layer.allMoved] at hmoved hmovedPlaced ⊢
        rw [List.mapM_append, Outcome.bind_of_ok hmovedPlaced, Outcome.bind_of_ok hmoved]
        rfl

theorem Expansion.writeOut_eq_ok (h : Expansion bodies levels 0 steps layers) :
    writeOut bodies (levels + 1) steps = .ok layers := by
  obtain ⟨written, hwritten, hmoved⟩ := h.exists_writeOut
  rw [hwritten, Layer.allMoved_zero hmoved]

namespace Synthesis

variable {size : Nat} {s s' : Synthesis} {cells cells' : RegisterNetworks size} {key : NetworkKey}

/-- The layers of a network, with every call replaced by the body of the callee. -/
def writtenOut (s : Synthesis) (levels : Nat) (key : NetworkKey) : Outcome (List Layer) := do
  writeOut s.bodyOf levels (← s.bodyOf key)

theorem bodyOf_of_routineBody {body : List Step} (h : s.routineBody key = .ok body) :
    s.bodyOf key = .ok body := by
  unfold routineBody at h
  split at h
  · exact h
  · cases h

/-- The single-register networks belong to the instruction set and the element type alone. -/
theorem Uses.cells_eq (h : s.Uses cells) (h' : s'.Uses cells') (hprofile : s'.profile = s.profile)
    (helement : s'.limits.element = s.limits.element) : cells = cells' := by
  have hmerger : cells.merger = cells'.merger := by
    funext d
    have hsame := h'.merger d
    rw [hprofile, helement, h.merger d] at hsame
    exact Except.ok.inj hsame
  have hsorter : cells.sorter = cells'.sorter := by
    funext d
    have hsame := h'.sorter d
    rw [hprofile, helement, h.sorter d] at hsame
    exact Except.ok.inj hsame
  cases cells
  cases cells'
  cases hmerger
  cases hsorter
  rfl

/-- Written out, a network of at most `2 ^ 62` registers is the same whatever is a routine. -/
theorem writtenOut_eq_ok (h : s.Uses cells) (hpos : 0 < key.width) (hwidth : key.width ≤ 2 ^ 62)
    (hlevels : 64 ≤ levels) : s.writtenOut levels key = .ok (cells.layersOf key 0) := by
  obtain ⟨body, hbody, hexp⟩ := bodyOf_expands h (e := 62) (by omega) hpos hwidth
  have hwhole := (hexp 0 (by unfold Count.limit; omega)).mono
    (fun _ _ hfound => bodyOf_of_routineBody hfound) (show 62 + 1 ≤ levels - 1 by omega)
  rw [writtenOut, Outcome.bind_of_ok hbody, ← Nat.sub_add_cancel (show 1 ≤ levels by omega)]
  exact hwhole.writeOut_eq_ok

end Synthesis

end Bitonic
