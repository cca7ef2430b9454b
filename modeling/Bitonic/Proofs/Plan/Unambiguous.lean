import Bitonic.Proofs.Network.ClosedBodies
import Bitonic.Proofs.Plan.Generated
import Mathlib.Data.List.Nodup
/-!
# Generated plans are closed and unambiguous

Within a generated plan no two routines share a name, and no two networks a key, so that a routine
is found by its name and a network by its key.  Every call in the body of a routine, network or
entry point, names a network that is a routine of the plan.

* `Plan.Parts.nodup_names`, `Plan.Parts.nodup_keys` — names and keys are distinct;
* `Plan.Parts.filter_name`, `Plan.Parts.filter_key` — the routines of a name or key are one routine;
* `Plan.Parts.hasRoutine_of_call` — what is called is a routine of the plan;
* `Plan.Parts.unambiguous` — all of this about a plan.
-/

namespace Bitonic

theorem filter_eq_singleton {α : Type} {p : α → Bool} {as : List α} {a : α} (ha : a ∈ as)
    (hp : p a = true) (h : as.Pairwise fun x y => p x = true → p y = true → False) :
    as.filter p = [a] := by
  induction as with
  | nil => cases ha
  | cons x as ih =>
      obtain ⟨hx, hrest⟩ := List.pairwise_cons.1 h
      by_cases hpx : p x = true
      · have hnone : as.filter p = [] := List.filter_eq_nil_iff.2 fun y hy hpy => hx y hy hpx hpy
        have hhead : a = x := by
          rcases List.mem_cons.1 ha with rfl | hmem
          · rfl
          · exact absurd hp (List.filter_eq_nil_iff.1 hnone a hmem)
        rw [List.filter_cons_of_pos hpx, hnone, hhead]
      · have hmem : a ∈ as := by
          rcases List.mem_cons.1 ha with rfl | hmem
          · exact absurd hp hpx
          · exact hmem
        rw [List.filter_cons_of_neg hpx, ih hmem hrest]

namespace Synthesis

variable {s : Synthesis}

theorem map_name_entryRoutines {entries : List Routine}
    (h : s.entryRoutines .unlimited = .ok entries) :
    entries.map Routine.name = (List.range' 1 s.limits.widest).flatMap fun width =>
      Direction.both.map (entryPointName width) := by
  have hnames := Outcome.map_eq_of_mapM (g := Routine.name)
    (k := fun entry => entryPointName entry.1 entry.2) (entryRoutines_eq_mapM h) (by
      intro entry r hr
      obtain ⟨_, _, _, _, _, _, hname, _⟩ := entryRoutine_eq_ok hr
      exact hname)
  rw [hnames, UnitLimits.entryOrder, List.map_flatMap]
  simp only [List.map_map]
  rfl

theorem nodup_entryPointNames (widest : Nat) :
    ((List.range' 1 widest).flatMap fun width =>
      Direction.both.map (entryPointName width)).Nodup := by
  apply List.nodup_flatMap.2
  constructor
  · intro width _
    exact List.Nodup.map (fun _ _ h => (entryPointName_inj h).2) (by decide)
  · refine List.Pairwise.imp ?_ List.nodup_range'
    intro width width' hne name hname hname'
    obtain ⟨d, _, rfl⟩ := List.mem_map.1 hname
    obtain ⟨d', _, hsame⟩ := List.mem_map.1 hname'
    exact hne (entryPointName_inj hsame).1.symm

end Synthesis

/-- The routine is the one that a synthesis makes for a network. -/
structure Routine.Implements (r : Routine) (s : Synthesis) (key : NetworkKey) : Prop where
  keyed : r.key = some key
  name : r.name = key.name
  role : r.role = Synthesis.roleOf key
  width : r.width = key.width
  direction : r.direction = some key.direction
  body : s.bodyOf key = .ok r.body

theorem Synthesis.implements_of_routineOf {s : Synthesis} {key : NetworkKey} {r : Routine}
    (h : s.routineOf key = .ok r) : r.Implements s key := by
  obtain ⟨_, hbody, hkey, hname, hwidth, hrole, hdirection⟩ := routineOf_eq_ok h
  exact ⟨hkey, hname, hrole, hwidth, hdirection, hbody⟩

/-- A plan whose names and keys tell its routines apart, whose networks are the ones that a
synthesis makes, and in which every call reaches the one routine that it names. -/
structure Plan.Unambiguous (plan : Plan) (s : Synthesis) : Prop where
  names : (plan.routines.map Routine.name).Nodup
  keys : (plan.routines.filterMap Routine.key).Nodup
  findNamed? : ∀ r ∈ plan.routines, plan.findNamed? r.name = some r
  find? : ∀ r ∈ plan.routines, ∀ key, r.key = some key → plan.find? key = some r
  implements : ∀ r ∈ plan.routines, ∀ key, r.key = some key → r.Implements s key
  calls : ∀ r ∈ plan.routines, ∀ callee first, .call callee first ∈ r.body →
    ∃ r', plan.routines.filter (·.key == some callee) = [r'] ∧ r'.Implements s callee

namespace Plan.Parts

variable {plan : Plan} {s : Synthesis} {networks entries : List Routine} {dispatch r : Routine}
  {key : NetworkKey}

theorem networks_eq (h : plan.Parts s networks entries dispatch) :
    s.routineKeys.mapM s.routineOf = .ok networks :=
  Synthesis.mapM_routineKeys_of_sortersAndMergers h.networks

theorem key_of_mem_entries (h : plan.Parts s networks entries dispatch) (hr : r ∈ entries) :
    r.key = none := by
  obtain ⟨width, d, hroutine⟩ := (Synthesis.entryRoutines_eq_ok h.entries).1 r hr
  obtain ⟨_, _, _, _, _, _, _, hkey, _⟩ := Synthesis.entryRoutine_eq_ok hroutine
  exact hkey

theorem key_dispatch (h : plan.Parts s networks entries dispatch) : dispatch.key = none := by
  obtain ⟨_, _, _, hkey, _⟩ := Synthesis.lengthDispatch_eq_ok h.dispatch
  exact hkey

theorem name_dispatch (h : plan.Parts s networks entries dispatch) :
    dispatch.name = lengthDispatchName s.limits.element := by
  obtain ⟨_, _, hname, _⟩ := Synthesis.lengthDispatch_eq_ok h.dispatch
  exact hname

theorem filterMap_key (h : plan.Parts s networks entries dispatch) :
    plan.routines.filterMap Routine.key = s.routineKeys := by
  have hkeys := Outcome.map_eq_of_mapM (g := Routine.key) (k := some) h.networks_eq
    fun _ _ hroutine => (Synthesis.implements_of_routineOf hroutine).keyed
  have hentries : entries.filterMap Routine.key = [] :=
    List.filterMap_eq_nil_iff.2 fun r hr => h.key_of_mem_entries hr
  have hnetworks : networks.filterMap Routine.key = s.routineKeys := by
    rw [← Function.id_comp Routine.key, ← List.filterMap_map, hkeys, List.filterMap_map]
    exact List.filterMap_some
  rw [h.routines, List.filterMap_append, List.filterMap_append, hnetworks, hentries,
    List.filterMap_cons_none h.key_dispatch]
  simp

theorem length_keyedRoutines_le (h : plan.Parts s networks entries dispatch) :
    plan.keyedRoutines.length ≤ 4 * s.limits.widest := by
  have hlength : plan.keyedRoutines.length = (plan.routines.filterMap Routine.key).length := by
    rw [List.length_filterMap_eq_countP, keyedRoutines, ← List.countP_eq_length_filter]
  rw [hlength, h.filterMap_key]
  exact s.length_routineKeys_le

theorem map_name (h : plan.Parts s networks entries dispatch) :
    plan.routines.map Routine.name = s.routineKeys.map NetworkKey.name ++
      ((List.range' 1 s.limits.widest).flatMap fun width =>
        Direction.both.map (entryPointName width)) ++ [lengthDispatchName s.limits.element] := by
  have hnetworks := Outcome.map_eq_of_mapM (g := Routine.name) (k := NetworkKey.name) h.networks_eq
    fun _ _ hroutine => (Synthesis.implements_of_routineOf hroutine).name
  rw [h.routines, List.map_append, List.map_append, hnetworks,
    Synthesis.map_name_entryRoutines h.entries, List.map_singleton, h.name_dispatch]

theorem nodup_keys (h : plan.Parts s networks entries dispatch) :
    (plan.routines.filterMap Routine.key).Nodup := by
  rw [h.filterMap_key]
  exact s.nodup_routineKeys

theorem nodup_names (h : plan.Parts s networks entries dispatch) :
    (plan.routines.map Routine.name).Nodup := by
  have hkeys := s.nodup_routineKeys.map fun _ _ hsame => NetworkKey.name_inj hsame
  have hentries := Synthesis.nodup_entryPointNames s.limits.widest
  rw [h.map_name]
  apply List.nodup_append'.2 ⟨List.nodup_append'.2 ⟨hkeys, hentries, ?_⟩, List.nodup_singleton _, ?_⟩
  · intro name hname hname'
    obtain ⟨key, _, rfl⟩ := List.mem_map.1 hname
    obtain ⟨width, _, hname'⟩ := List.mem_flatMap.1 hname'
    obtain ⟨d, _, hsame⟩ := List.mem_map.1 hname'
    exact name_ne_entryPointName key width d hsame.symm
  · intro name hname hname'
    rw [List.mem_singleton] at hname'
    subst hname'
    rcases List.mem_append.1 hname with hname | hname
    · obtain ⟨key, _, hsame⟩ := List.mem_map.1 hname
      exact name_ne_lengthDispatchName key _ hsame
    · obtain ⟨width, _, hname⟩ := List.mem_flatMap.1 hname
      obtain ⟨d, _, hsame⟩ := List.mem_map.1 hname
      exact entryPointName_ne_lengthDispatchName width d _ hsame

theorem filter_name (h : plan.Parts s networks entries dispatch) (hr : r ∈ plan.routines) :
    plan.routines.filter (·.name == r.name) = [r] := by
  refine filter_eq_singleton hr (beq_self_eq_true _) ?_
  refine (List.pairwise_map.1 h.nodup_names).imp fun hne hx hy => hne ?_
  rw [beq_iff_eq.1 hx, beq_iff_eq.1 hy]

theorem filter_key (h : plan.Parts s networks entries dispatch) (hr : r ∈ plan.routines)
    (hkey : r.key = some key) : plan.routines.filter (·.key == some key) = [r] := by
  refine filter_eq_singleton hr (by rw [hkey, beq_self_eq_true]) ?_
  refine (List.pairwise_filterMap.1 h.nodup_keys).imp fun hne hx hy => ?_
  exact hne key (beq_iff_eq.1 hx) key (beq_iff_eq.1 hy) rfl

theorem findNamed?_of_mem (h : plan.Parts s networks entries dispatch) (hr : r ∈ plan.routines) :
    plan.findNamed? r.name = some r := by
  rw [Plan.findNamed?, ← List.head?_filter, h.filter_name hr]
  rfl

theorem find?_of_mem (h : plan.Parts s networks entries dispatch) (hr : r ∈ plan.routines)
    (hkey : r.key = some key) : plan.find? key = some r := by
  rw [Plan.find?, ← List.head?_filter, h.filter_key hr hkey]
  rfl

theorem exists_implements_iff (h : plan.Parts s networks entries dispatch) :
    (∃ r ∈ plan.routines, r.Implements s key) ↔ s.hasRoutine key = true := by
  rw [← Synthesis.mem_routineKeys]
  constructor
  · rintro ⟨r, hr, himplements⟩
    rw [← h.filterMap_key]
    exact List.mem_filterMap.2 ⟨r, hr, himplements.keyed⟩
  · intro hkey
    obtain ⟨r, hr, hroutine⟩ :=
      Outcome.exists_of_mem_left (Outcome.mapM_eq_ok_iff.1 h.networks_eq) hkey
    exact ⟨r, h.mem_routines.2 (Or.inl hr), Synthesis.implements_of_routineOf hroutine⟩

theorem hasRoutine_of_call (h : plan.Parts s networks entries dispatch) (hr : r ∈ plan.routines)
    {callee : NetworkKey} {first : Nat} (hcall : .call callee first ∈ r.body) :
    s.hasRoutine callee = true := by
  rcases h.mem_routines.1 hr with hr | hr | rfl
  · obtain ⟨key, _, hroutine⟩ := h.routineOf_of_mem hr
    exact Synthesis.closed_bodyOf (Synthesis.implements_of_routineOf hroutine).body _ hcall
  · obtain ⟨width, d, hroutine⟩ := (Synthesis.entryRoutines_eq_ok h.entries).1 r hr
    obtain ⟨_, _, _, _, hnetwork, _, _, _, _, hbody, _⟩ := Synthesis.entryRoutine_eq_ok hroutine
    rw [hbody] at hcall
    simp only [List.cons_append, List.mem_cons, List.mem_append, List.not_mem_nil, or_false,
      reduceCtorEq, false_or] at hcall
    exact Synthesis.closed_invocation hnetwork _ hcall
  · obtain ⟨_, _, _, _, _, hbody⟩ := Synthesis.lengthDispatch_eq_ok h.dispatch
    rw [hbody, List.mem_singleton] at hcall
    cases hcall

/-- Only networks have keys, and each is the one for its key. -/
theorem implements_of_key (h : plan.Parts s networks entries dispatch) (hr : r ∈ plan.routines)
    (hkey : r.key = some key) : r.Implements s key := by
  rcases h.mem_routines.1 hr with hr | hr | rfl
  · obtain ⟨key', _, hroutine⟩ := h.routineOf_of_mem hr
    have himplements := Synthesis.implements_of_routineOf hroutine
    rw [himplements.keyed] at hkey
    cases hkey
    exact himplements
  · rw [h.key_of_mem_entries hr] at hkey
    cases hkey
  · rw [h.key_dispatch] at hkey
    cases hkey

theorem routineOf_of_key (h : plan.Parts s networks entries dispatch) (hr : r ∈ plan.routines)
    (hkey : r.key = some key) : s.hasRoutine key = true ∧ s.routineOf key = .ok r := by
  have hhas := h.exists_implements_iff.1 ⟨r, hr, h.implements_of_key hr hkey⟩
  obtain ⟨found, hfind, hroutine⟩ := h.find?_eq hhas
  rw [h.find?_of_mem hr hkey] at hfind
  cases hfind
  exact ⟨hhas, hroutine⟩

theorem routineOf_of_find? (h : plan.Parts s networks entries dispatch)
    (hfound : plan.find? key = some r) : s.routineOf key = .ok r := by
  have hkey := List.find?_some hfound
  exact (h.routineOf_of_key (List.mem_of_find?_eq_some hfound) (beq_iff_eq.1 hkey)).2

theorem implements_of_find? (h : plan.Parts s networks entries dispatch)
    (hfound : plan.find? key = some r) : r.Implements s key :=
  Synthesis.implements_of_routineOf (h.routineOf_of_find? hfound)

theorem unambiguous (h : plan.Parts s networks entries dispatch) : plan.Unambiguous s where
  names := h.nodup_names
  keys := h.nodup_keys
  findNamed? := fun _ hr => h.findNamed?_of_mem hr
  find? := fun _ hr _ hkey => h.find?_of_mem hr hkey
  implements := fun _ hr _ hkey => h.implements_of_key hr hkey
  calls := by
    intro r hr callee first hcall
    obtain ⟨r', hr', himplements⟩ := h.exists_implements_iff.2 (h.hasRoutine_of_call hr hcall)
    exact ⟨r', h.filter_key hr' himplements.keyed, himplements⟩

end Plan.Parts

end Bitonic
