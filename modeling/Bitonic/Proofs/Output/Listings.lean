import Bitonic.Output.Files
import Bitonic.Proofs.Network.Confined
import Bitonic.Proofs.Plan.Unambiguous
/-!
# Generated plans have listings

The listing of a plan has a line for every step, and a line is a fault only where the number of a
register leaves 64 bits.  The networks of a generated plan stay on registers below their width,
which has been counted, so

* `Listing.writable_of_confined` — every step of a body has its lines;
* `Plan.exists_listing_of_writable` — a plan whose steps have their lines has a listing, and an
  emitter of listings writes nothing else;
* `Plan.Generated.exists_listing`, `GenerationRun.exists_listing` — every plan that can be
  generated does, and so every plan of a run.
-/

namespace Bitonic

namespace Listing

def Writable (step : Step) : Prop := ∀ line ∈ stepLines step, ∃ text, line = .ok text

theorem registerName_eq_ok {index : Nat} (h : index + 1 < Count.limit) :
    registerName index = .ok ("d" ++ Numeral.twoDigit (index + 1)) := by
  rw [registerName, Outcome.bind_of_ok (Count.add_eq_ok h)]
  rfl

theorem writable_layer {layer : Layer} (h : layer.topRegister + 1 < Count.limit) :
    Writable (.layer layer) := by
  intro line hline
  rw [List.mem_singleton.1 hline]
  cases layer with
  | inside register exchange =>
      have hregister : register + 1 < Count.limit := h
      rw [layerLine, Outcome.bind_of_ok (registerName_eq_ok hregister)]
      exact ⟨_, rfl⟩
  | between low high d =>
      have hboth : max low high + 1 < Count.limit := h
      rw [layerLine, Outcome.bind_of_ok (registerName_eq_ok (by omega)),
        Outcome.bind_of_ok (registerName_eq_ok (by omega))]
      exact ⟨_, rfl⟩

theorem writable_call {callee : NetworkKey} {first : Nat} (hpos : 0 < callee.width)
    (h : first + callee.width < Count.limit) : Writable (.call callee first) := by
  intro line hline
  rw [List.mem_singleton.1 hline]
  have hlast : lastRegister first callee.width = .ok (first + callee.width - 1) := by
    rw [lastRegister, Outcome.bind_of_ok (Count.add_eq_ok h)]
    exact Count.sub_eq_ok (by omega)
  rw [callLine, Outcome.bind_of_ok (registerName_eq_ok (by omega)), Outcome.bind_of_ok hlast,
    Outcome.bind_of_ok (registerName_eq_ok (by omega))]
  exact ⟨_, rfl⟩

theorem writable_outer (step : OuterStep) : Writable (.outer step) := by
  intro line hline
  rcases List.mem_map.1 hline with ⟨text, _, rfl⟩
  exact ⟨text, rfl⟩

theorem writable_of_confined {width : Nat} (hwidth : width < Count.limit) {step : Step}
    (h : step.Confined width) : Writable step := by
  cases step with
  | layer l => exact writable_layer (Nat.lt_of_le_of_lt h.topRegister_lt hwidth)
  | call callee first =>
      obtain ⟨hpos, hlast⟩ := h
      exact writable_call hpos (by omega)
  | outer outer => exact absurd h id

theorem exists_text_of_routineLines {r : Routine} (h : ∀ step ∈ r.body, Writable step) :
    ∀ line ∈ routineLines r, ∃ text, line = .ok text := by
  intro line hline
  rcases List.mem_append.1 hline with hline | hline
  · rcases List.mem_cons.1 hline with rfl | hline
    · exact ⟨_, rfl⟩
    · rcases List.mem_flatMap.1 hline with ⟨step, hstep, hline⟩
      exact h step hstep line hline
  · rw [List.mem_singleton.1 hline]
    exact ⟨_, rfl⟩

theorem exists_text_of_lines {plan : Plan}
    (h : ∀ r ∈ plan.routines, ∀ step ∈ r.body, Writable step) :
    ∀ line ∈ lines plan, ∃ text, line = .ok text := by
  intro line hline
  unfold lines at hline
  simp only [List.cons_append, List.mem_cons, List.mem_append, List.mem_map, List.mem_flatMap,
    List.not_mem_nil, or_false] at hline
  rcases hline with rfl | rfl | (⟨text, _, rfl⟩ | ⟨r, hr, hline⟩) | rfl
  · exact ⟨_, rfl⟩
  · exact ⟨_, rfl⟩
  · exact ⟨_, rfl⟩
  · exact exists_text_of_routineLines (h r hr) line hline
  · exact ⟨_, rfl⟩

theorem exists_map_ok {lines : List (Checked String)}
    (h : ∀ line ∈ lines, ∃ text, line = .ok text) :
    ∃ texts : List String, lines = texts.map .ok := by
  induction lines with
  | nil => exact ⟨[], rfl⟩
  | cons line lines ih =>
      rcases h line List.mem_cons_self with ⟨text, rfl⟩
      rcases ih fun line hline => h line (List.mem_cons_of_mem _ hline) with ⟨texts, rfl⟩
      exact ⟨text :: texts, rfl⟩

theorem appendTo_map_ok (text : String) (texts : List String) :
    appendTo text (texts.map .ok) = (texts.foldl (· ++ ·) text, .ok ()) := by
  induction texts generalizing text with
  | nil => rfl
  | cons line texts ih => exact ih (text ++ line)

end Listing

namespace Synthesis

variable {s : Synthesis} {key : NetworkKey} {r : Routine}

open Listing (Writable writable_of_confined writable_outer)

theorem writable_of_routineOf (hwidest : s.limits.widest < Count.limit)
    (h : s.routineOf key = .ok r) : ∀ step ∈ r.body, Writable step := by
  obtain ⟨_, hbody, _⟩ := routineOf_eq_ok h
  have hwidth := (width_of_routineOf h).2
  exact fun step hstep =>
    writable_of_confined (Nat.lt_of_le_of_lt hwidth hwidest) (confined_bodyOf hbody step hstep)

theorem writable_of_entryRoutine (hwidest : s.limits.widest < Count.limit) {width : Nat}
    {d : Direction} (hpos : 0 < width) (hle : width ≤ s.limits.widest)
    (h : s.entryRoutine width d = .ok r) : ∀ step ∈ r.body, Writable step := by
  obtain ⟨residual, network, _, _, hnetwork, _, _, _, _, hbody, _⟩ := entryRoutine_eq_ok h
  have hconfined : ∀ step ∈ network, step.Confined width := by
    have hinvoked := confined_invocation (show 0 < (NetworkKey.sort width d).width from hpos)
      hnetwork
    rwa [Nat.zero_add] at hinvoked
  rw [hbody]
  refine List.forall_mem_append.2 ⟨List.forall_mem_cons.2 ⟨writable_outer _, ?_⟩, ?_⟩
  · exact fun step hstep =>
      writable_of_confined (Nat.lt_of_le_of_lt hle hwidest) (hconfined step hstep)
  · exact List.forall_mem_singleton.2 (writable_outer _)

end Synthesis

namespace Plan

variable {plan : Plan}

theorem listing_of_lines {lines : List String} (h : Listing.lines plan = lines.map .ok) :
    plan.listing = .ok (String.join lines) := by
  have hall : (Listing.lines plan).mapM id = .ok lines := by
    rw [h]
    apply Outcome.mapM_eq_ok_iff.2
    exact List.forall₂_map_left_iff.2 (List.forall₂_same.2 fun _ _ => rfl)
  rw [listing, Outcome.bind_of_ok hall]
  rfl

/-- A plan whose steps have their lines has a listing, which is what an emitter of listings
writes. -/
theorem exists_listing_of_writable
    (h : ∀ r ∈ plan.routines, ∀ step ∈ r.body, Listing.Writable step) :
    ∃ text, plan.listing = .ok text ∧ PlanEmitter.listing plan = (text.toUTF8, .ok ()) := by
  obtain ⟨lines, hlines⟩ := Listing.exists_map_ok (Listing.exists_text_of_lines h)
  refine ⟨String.join lines, listing_of_lines hlines, ?_⟩
  rw [PlanEmitter.listing, hlines, Listing.appendTo_map_ok]
  rfl

/-- No register of a generated plan leaves 64 bits, whatever the profile and the settings. -/
theorem Generated.writable (h : plan.Generated) :
    ∀ r ∈ plan.routines, ∀ step ∈ r.body, Listing.Writable step := by
  intro r hr
  cases h.made r hr with
  | network hlimits hcount hroutine => exact Synthesis.writable_of_routineOf hcount hroutine
  | entryPoint hlimits hcount hpos hle hroutine =>
      exact Synthesis.writable_of_entryRoutine hcount hpos hle hroutine
  | lengthDispatch hlimits hroutine =>
      obtain ⟨table, _, _, _, _, hbody⟩ := Synthesis.lengthDispatch_eq_ok hroutine
      rw [hbody]
      exact List.forall_mem_singleton.2 (Listing.writable_outer _)
  | typeDispatch hchoices => exact List.forall_mem_singleton.2 (Listing.writable_outer _)

theorem Generated.exists_listing (h : plan.Generated) :
    ∃ text, plan.listing = .ok text ∧ PlanEmitter.listing plan = (text.toUTF8, .ok ()) :=
  exists_listing_of_writable h.writable

end Plan

namespace GenerationRun

variable {run : GenerationRun} {unit : GenerationUnit} {plan : Plan}

theorem generated_of_planFor (h : run.planFor unit = .ok plan) : plan.Generated := by
  unfold planFor at h
  split at h
  · exact .forType h
  · exact .forIsa h

theorem exists_listing (h : run.planFor unit = .ok plan) :
    ∃ text, plan.listing = .ok text ∧ PlanEmitter.listing plan = (text.toUTF8, .ok ()) :=
  (generated_of_planFor h).exists_listing

end GenerationRun

end Bitonic
