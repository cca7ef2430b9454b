import Bitonic.Proofs.Machine.Networks
/-!
# Padded registers

An entry point fills the last register with sentinels, sorts the registers, and stores back as many
values as there were.

* `Scalar.Arranged.take_iff` — what is stored is the data in order unless a sentinel was loaded and
  some value comes after the sentinel;
* `Machine.Follows.entrySteps_eq` — what the steps of an entry point do.
-/

namespace Bitonic

section Truncation

variable {d : Direction} {ranks whole : List Int} {pad : Int} {count : Nat}

/-- If nothing comes after the padding, the padding comes last. -/
theorem perm_take_of_before (hsorted : whole.Pairwise d.Before)
    (hperm : whole.Perm (ranks ++ List.replicate count pad))
    (hlast : ∀ r ∈ ranks, d.Before r pad) : (whole.take ranks.length).Perm ranks := by
  have hranks : (ranks.mergeSort fun a b => decide (d.Before a b)).Perm ranks :=
    List.mergeSort_perm _ _
  have hpadded : ((ranks.mergeSort fun a b => decide (d.Before a b)) ++
      List.replicate count pad).Pairwise d.Before := by
    apply List.pairwise_append.2 ⟨d.pairwise_mergeSort ranks, ?_, ?_⟩
    · exact List.pairwise_replicate.2 (Or.inr (d.before_refl pad))
    · intro a ha b hb
      rw [List.eq_of_mem_replicate hb]
      exact hlast a (hranks.mem_iff.1 ha)
  -- a list that follows a direction is determined by what occurs in it
  have hwhole := List.Perm.eq_of_pairwise (fun a b _ _ => Direction.before_antisymm) hsorted hpadded
    (hperm.trans (hranks.symm.append_right _))
  rw [hwhole, List.take_left' (List.length_mergeSort ranks)]
  exact hranks

theorem perm_take_iff (hsorted : whole.Pairwise d.Before)
    (hperm : whole.Perm (ranks ++ List.replicate count pad)) :
    (whole.take ranks.length).Perm ranks ↔ count = 0 ∨ ∀ r ∈ ranks, d.Before r pad := by
  constructor
  · intro htake
    by_cases hcount : count = 0
    · exact Or.inl hcount
    · refine Or.inr fun r hr => ?_
      -- what is cut off is all padding, and stands behind everything else
      have hsplit := List.take_append_drop ranks.length whole
      have hdrop : (whole.drop ranks.length).Perm (List.replicate count pad) := by
        apply (List.perm_append_left_iff ranks).1
        refine (htake.symm.append_right _).trans ?_
        rw [hsplit]
        exact hperm
      have hpad : pad ∈ whole.drop ranks.length :=
        hdrop.mem_iff.2 (List.mem_replicate.2 ⟨hcount, rfl⟩)
      rw [← hsplit] at hsorted
      exact (List.pairwise_append.1 hsorted).2.2 r (htake.mem_iff.2 hr) pad hpad
  · rintro (rfl | hlast)
    · rw [List.replicate_zero, List.append_nil] at hperm
      rwa [← hperm.length_eq, List.take_length]
    · exact perm_take_of_before hsorted hperm hlast

end Truncation

namespace Scalar

open Ranked (rank)

variable {α : Type} [Scalar α] [Ranked α] {d : Direction}

omit [Ranked α] in
theorem isNumber_padded {data : List α} {pad : α} (hdata : ∀ a ∈ data, IsNumber a)
    (hpad : IsNumber pad) (count : Nat) : ∀ a ∈ data ++ List.replicate count pad, IsNumber a := by
  intro a ha
  rcases List.mem_append.1 ha with ha | ha
  · exact hdata a ha
  · rw [List.eq_of_mem_replicate ha]
    exact hpad

theorem Arranged.take_iff {data out : List α} {pad : α} {count : Nat}
    (hdata : ∀ a ∈ data, IsNumber a) (hpad : IsNumber pad) (hout : ∀ a ∈ out, IsNumber a)
    (h : Arranged d (data ++ List.replicate count pad) out) :
    Arranged d data (out.take data.length) ↔
      count = 0 ∨ ∀ a ∈ data, noLater d a pad = true := by
  obtain ⟨hsorted, hperm⟩ := (arranged_iff_ranks (isNumber_padded hdata hpad count) hout).1 h
  rw [List.map_append, List.map_replicate] at hperm
  have htake : ∀ a ∈ out.take data.length, IsNumber a := fun a ha => hout a (List.mem_of_mem_take ha)
  have hbefore : (∀ a ∈ data, noLater d a pad = true) ↔ ∀ r ∈ data.map rank, d.Before r (rank pad) := by
    rw [List.forall_mem_map]
    exact forall₂_congr fun a ha => noLater_iff_before (hdata a ha) hpad
  have hiff := perm_take_iff hsorted hperm
  rw [List.length_map, ← List.map_take] at hiff
  rw [arranged_iff_ranks hdata htake, hbefore, ← hiff]
  refine ⟨fun h => h.2, fun h => ⟨?_, h⟩⟩
  rw [List.map_take]
  exact hsorted.sublist (List.take_sublist _ _)

end Scalar

namespace Machine

variable {size : Nat} {α : Type} [Scalar α] {machine : Machine} {s : Synthesis}
  {cells : RegisterNetworks size} {width : Nat} {d : Direction} {r : Routine} {data : List α}

theorem load_eq_ok (name : String) (pad : Sentinel)
    (hcount : width * machine.lanes < Count.limit) (hdata : data.length ≤ width * machine.lanes) :
    machine.load name width pad data = .ok (RegisterFile.ofValues machine.lanes
      (data ++ List.replicate (width * machine.lanes - data.length) (Scalar.sentinel pad))) := by
  rw [load, Outcome.bind_of_ok (Outcome.liftM_eq_ok_iff.2 (Count.mul_eq_ok hcount)),
    if_neg (by omega)]
  rfl

namespace Follows

theorem entryRoutine_expands (h : machine.Follows s cells) (hpos : 0 < width)
    (hwidth : width ≤ 2 ^ 62) (hentry : s.entryRoutine width d = .ok r) :
    ∃ residual network, r.body = .outer (.load width residual d.sentinel) :: network ++
        [.outer (.store width residual)] ∧
      Expansion machine.bodyFor callLimit 0 network (cells.sortLayers d 0 width) := by
  obtain ⟨residual, network, _, _, hnetwork, _, _, _, _, hbody, _⟩ :=
    Synthesis.entryRoutine_eq_ok hentry
  obtain ⟨body, hsort, hexp⟩ := Synthesis.bodyOf_expands h.uses (e := 62) (by omega)
    (show 0 < (NetworkKey.sort width d).width from hpos) hwidth
  obtain ⟨network', hnetwork', hexp'⟩ := Synthesis.callOrSplice_expands (s := s) 0
    (.sort width d) hsort hsort hpos (by unfold Count.limit; omega) hexp
  rw [Synthesis.invocation, hnetwork'] at hnetwork
  cases hnetwork
  exact ⟨residual, network, hbody, h.expansion (hexp' 0 (by unfold Count.limit; omega))⟩

/-- An entry point loads the data, runs the layers of the sorter, and stores as many values as there
were. -/
theorem entrySteps_eq_layers (h : machine.Follows s cells) (hpos : 0 < width)
    (hwidth : width ≤ 2 ^ 62) (hentry : s.entryRoutine width d = .ok r) (name : String)
    (data : List α) :
    machine.entrySteps name r.body ⟨data, none⟩ =
      match machine.load name width d.sentinel data >>=
        Layer.runAll (cells.sortLayers d 0 width) with
      | .ok file => (file.flatten.take data.length, .ok ())
      | .error failure => (data, .error failure) := by
  obtain ⟨residual, network, hbody, hexp⟩ := h.entryRoutine_expands hpos hwidth hentry
  rw [hbody, List.cons_append, entrySteps]
  cases hload : machine.load name width d.sentinel data with
  | error failure =>
      have hstep : machine.entryStep name (.outer (.load width residual d.sentinel))
          (⟨data, none⟩ : EntryRun α) = .error failure := by
        rw [entryStep, hload]
        rfl
      rw [hstep]
      rfl
  | ok file =>
      have hstep : machine.entryStep name (.outer (.load width residual d.sentinel))
          (⟨data, none⟩ : EntryRun α) = .ok ⟨data, some file⟩ := by
        rw [entryStep, hload]
        rfl
      rw [hstep]
      dsimp only
      rw [entrySteps_of_expansion h.lanes_ne_zero (Nat.le_refl callLimit) hexp]
      rfl

variable [Ranked α]

/-- An entry point sorts the padded data and gives as many values back as it was given. -/
theorem entrySteps_eq (h : machine.Follows s cells) (hpos : 0 < width) (hwidth : width ≤ 2 ^ 62)
    (hcount : width * 2 ^ size < Count.limit) (hentry : s.entryRoutine width d = .ok r)
    (hdata : data.length ≤ width * 2 ^ size) (hnum : ∀ a ∈ data, Scalar.IsNumber a)
    (name : String) :
    ∃ out, machine.entrySteps name r.body ⟨data, none⟩ = (out.take data.length, .ok ()) ∧
      (∀ a ∈ out, Scalar.IsNumber a) ∧
      Scalar.Arranged d (data ++ List.replicate (width * 2 ^ size - data.length)
        (Scalar.sentinel d.sentinel)) out := by
  have hload : machine.load name width d.sentinel data = .ok (RegisterFile.ofValues (2 ^ size)
      (data ++ List.replicate (width * 2 ^ size - data.length) (Scalar.sentinel d.sentinel))) := by
    rw [load_eq_ok name d.sentinel (by rwa [h.lanes]) (by rwa [h.lanes]), h.lanes]
  have hnumber := Scalar.isNumber_padded hnum (Scalar.isNumber_sentinel d.sentinel)
    (width * 2 ^ size - data.length)
  generalize hpadded : data ++ List.replicate (width * 2 ^ size - data.length)
    (Scalar.sentinel d.sentinel) = padded at hload hnumber ⊢
  have hlength : padded.length = width * 2 ^ size := by
    rw [← hpadded, List.length_append, List.length_replicate]
    omega
  have hordered := cells.ordered_sortLayers d 0 width (Scalar.wires padded)
  rw [Nat.zero_mul] at hordered
  obtain ⟨file, hrun, hnum', harranged⟩ := (cells.allWithin_sortLayers d 0 width).runAll_arranged
    (Nat.two_pow_pos size) (by unfold Count.limit; omega) hlength hnumber hordered
  refine ⟨file.flatten, ?_, hnum', harranged⟩
  rw [h.entrySteps_eq_layers hpos hwidth hentry, Outcome.bind_of_ok hload, hrun]

end Follows

end Machine

end Bitonic
