import Bitonic.Plan.Generate
import Bitonic.Proofs.Network.EmissionLoops
import Bitonic.Proofs.Plan.Names
/-!
# Generated plans

What a plan that has been generated holds, as far as a machine looks at it:

* `Plan.forType_eq_ok` — networks, entry points and the length dispatch, in this order;
* `Plan.Parts.find?_eq` — a key that has a routine finds the routine for it;
* `Plan.Parts.findNamed?_eq` — the name of an entry point finds it;
* `Plan.Parts.filter_lengthDispatch`, `Plan.Parts.lengthTable?_eq` — one routine dispatches by
  length, and the length table is its table;
* `Plan.Generated.made` — every routine of a generated plan is one of four kinds.
-/

namespace Bitonic

namespace UnitLimits

def entryOrder (limits : UnitLimits) : List (Nat × Direction) :=
  (List.range' 1 limits.widest).flatMap fun width => Direction.both.map (Prod.mk width)

theorem mem_entryOrder {limits : UnitLimits} {width : Nat} {d : Direction} :
    (width, d) ∈ limits.entryOrder ↔ 0 < width ∧ width ≤ limits.widest := by
  have hboth : d ∈ Direction.both := by cases d <;> decide
  simp [entryOrder, hboth]
  omega

theorem length_entryOrder (limits : UnitLimits) :
    limits.entryOrder.length = 2 * limits.widest := by
  simp [entryOrder, Direction.both, List.length_flatMap, Nat.mul_comm]

end UnitLimits

namespace Synthesis

variable {s : Synthesis} {key : NetworkKey} {r : Routine} {width : Nat} {d : Direction}

structure Resolved (s : Synthesis) (profile : IsaProfile) (ty : ScalarType) : Prop where
  ofProfile : s.profile = profile
  ofType : s.limits.element = ty
  lanes : IsaProfile.lanes profile ty = .ok s.limits.lanes
  widest_pos : 0 < s.limits.widest
  widestMerger_le : s.limits.widestMerger ≤ s.limits.widest

theorem splitPoint_le (width : Nat) : splitPoint width ≤ width := by
  by_cases h : width < 2
  · rw [splitPoint, if_pos h]
    exact Nat.zero_le width
  · exact Nat.le_of_lt (splitPoint_lt (Nat.le_of_not_lt h))

theorem checkedSplitPoint_eq_ok {width half : Nat} (h : checkedSplitPoint width = .ok half) :
    half = splitPoint width := by
  unfold checkedSplitPoint at h
  split at h
  · cases h
    rfl
  · cases h

theorem widest_of_resolveWidest {settings : Settings} {profile : IsaProfile} {ty : ScalarType}
    (h : settings.resolveWidest profile ty = .ok width) : 0 < width := by
  obtain ⟨ceiling, _, h⟩ := Outcome.bind_eq_ok_iff.1 h
  dsimp only at h
  split at h
  · cases h
  · next hpos =>
    split at h
    · cases h
    · cases h
      exact Nat.pos_of_ne_zero hpos

theorem widestMerger_of_resolveWidestMerger {settings : Settings} {profile : IsaProfile}
    {ty : ScalarType} {merger : Nat}
    (h : settings.resolveWidestMerger profile ty width = .ok merger) : merger ≤ width := by
  obtain ⟨ceiling, _, h⟩ := Outcome.bind_eq_ok_iff.1 h
  split at h
  · split at h
    · cases h
    · split at h
      · cases h
      · cases h
        omega
  · obtain ⟨half, hhalf, h⟩ := Outcome.bind_eq_ok_iff.1 h
    cases h
    have hle := splitPoint_le width
    rw [← checkedSplitPoint_eq_ok (Outcome.liftM_eq_ok_iff.1 hhalf)] at hle
    exact Nat.le_trans (Nat.min_le_left half ceiling) hle

theorem limits_of_ofSettings {profile : IsaProfile} {ty : ScalarType} {settings : Settings}
    (h : ofSettings profile ty settings = .ok s) :
    ∃ lanes widest merger, profile.lanes ty = .ok lanes ∧
      settings.resolveWidest profile ty = .ok widest ∧
      settings.resolveWidestMerger profile ty widest = .ok merger ∧
      s = ⟨profile, ⟨profile.isa, ty, lanes, widest, merger, settings.unroll,
        settings.inlineBreak⟩⟩ := by
  obtain ⟨limits, hlimits, h⟩ := Outcome.bind_eq_ok_iff.1 h
  cases h
  unfold Settings.limitsFor at hlimits
  split at hlimits
  · cases hlimits
  · obtain ⟨lanes, hlanes, hlimits⟩ := Outcome.bind_eq_ok_iff.1 hlimits
    obtain ⟨widest, hwidest, hlimits⟩ := Outcome.bind_eq_ok_iff.1 hlimits
    obtain ⟨merger, hmerger, hlimits⟩ := Outcome.bind_eq_ok_iff.1 hlimits
    cases hlimits
    exact ⟨lanes, widest, merger, hlanes, hwidest, hmerger, rfl⟩

theorem resolved_of_ofSettings {profile : IsaProfile} {ty : ScalarType} {settings : Settings}
    (h : ofSettings profile ty settings = .ok s) : s.Resolved profile ty := by
  obtain ⟨lanes, widest, merger, hlanes, hwidest, hmerger, rfl⟩ := limits_of_ofSettings h
  exact ⟨rfl, rfl, hlanes, widest_of_resolveWidest hwidest,
    widestMerger_of_resolveWidestMerger hmerger⟩

theorem entryRoutine_eq_ok (h : s.entryRoutine width d = .ok r) :
    ∃ residual network minLength maxLength, s.invocation (.sort width d) 0 = .ok network ∧
      lengthRange width s.limits.lanes = .ok (minLength, maxLength) ∧
      r.name = entryPointName width d ∧ r.key = none ∧ r.role = .entryPoint minLength maxLength ∧
      r.body = .outer (.load width residual d.sentinel) :: network ++
        [.outer (.store width residual)] ∧
      r.width = width ∧ r.direction = some d := by
  obtain ⟨residual, _, h⟩ := Outcome.bind_eq_ok_iff.1 h
  obtain ⟨network, hnetwork, h⟩ := Outcome.bind_eq_ok_iff.1 h
  obtain ⟨⟨minLength, maxLength⟩, hrange, h⟩ := Outcome.bind_eq_ok_iff.1 h
  cases h
  exact ⟨residual, network, minLength, maxLength, hnetwork, Outcome.liftM_eq_ok_iff.1 hrange, rfl,
    rfl, rfl, rfl, rfl, rfl⟩

theorem mapM_entryOrder (s : Synthesis) (widths : List Nat) :
    (widths.flatMap fun width => Direction.both.map (Prod.mk width)).mapM
        (fun entry => s.entryRoutine entry.1 entry.2) =
      List.flatten <$> widths.mapM fun width => Direction.both.mapM (s.entryRoutine width) := by
  rw [Outcome.mapM_flatMap]
  simp only [List.mapM_map]
  rfl

/-- The entry points are counted before they are made. -/
theorem widest_lt_of_entryRoutines {entries : List Routine}
    (h : s.entryRoutines .unlimited = .ok entries) : s.limits.widest * 2 < Count.limit := by
  obtain ⟨_, hcount, _⟩ := Outcome.bind_eq_ok_iff.1 h
  exact (Count.mul_eq_ok_iff.1 (Outcome.liftM_eq_ok_iff.1 hcount)).1

theorem entryRoutines_eq_mapM {entries : List Routine}
    (h : s.entryRoutines .unlimited = .ok entries) :
    s.limits.entryOrder.mapM (fun entry => s.entryRoutine entry.1 entry.2) = .ok entries := by
  obtain ⟨_, _, h⟩ := Outcome.bind_eq_ok_iff.1 h
  obtain ⟨_, _, h⟩ := Outcome.bind_eq_ok_iff.1 h
  obtain ⟨perWidth, hperWidth, h⟩ := Outcome.bind_eq_ok_iff.1 h
  cases h
  rw [Count.mapFrom_eq_mapM] at hperWidth
  rw [UnitLimits.entryOrder, mapM_entryOrder, hperWidth]
  rfl

theorem entryRoutines_eq_ok {entries : List Routine}
    (h : s.entryRoutines .unlimited = .ok entries) :
    (∀ r ∈ entries, ∃ width d, s.entryRoutine width d = .ok r) ∧
      ∀ width d, 0 < width → width ≤ s.limits.widest →
        ∃ r ∈ entries, s.entryRoutine width d = .ok r := by
  have hentries := Outcome.mapM_eq_ok_iff.1 (entryRoutines_eq_mapM h)
  constructor
  · intro r hr
    obtain ⟨entry, _, hentry⟩ := Outcome.exists_of_mem_right hentries hr
    exact ⟨entry.1, entry.2, hentry⟩
  · intro width d hpos hle
    exact Outcome.exists_of_mem_left hentries
      (UnitLimits.mem_entryOrder.2 ⟨hpos, hle⟩ : (width, d) ∈ _)

theorem exists_entryRoutine_of_mem {entries : List Routine}
    (h : s.entryRoutines .unlimited = .ok entries) (hr : r ∈ entries) :
    ∃ width d, 0 < width ∧ width ≤ s.limits.widest ∧ s.entryRoutine width d = .ok r := by
  have hentries := Outcome.mapM_eq_ok_iff.1 (entryRoutines_eq_mapM h)
  rcases Outcome.exists_of_mem_right hentries hr with ⟨⟨width, d⟩, hmem, hentry⟩
  rcases UnitLimits.mem_entryOrder.1 hmem with ⟨hpos, hle⟩
  exact ⟨width, d, hpos, hle, hentry⟩

theorem lengthDispatch_eq_ok (h : s.lengthDispatch .unlimited = .ok r) :
    ∃ table, s.lengthTable .unlimited = .ok table ∧ r.name = lengthDispatchName s.limits.element ∧
      r.key = none ∧ r.role = .lengthDispatch ∧ r.body = [.outer (.byLength table)] := by
  obtain ⟨table, htable, h⟩ := Outcome.bind_eq_ok_iff.1 h
  cases h
  exact ⟨table, Outcome.liftM_eq_ok_iff.1 htable, rfl, rfl, rfl, rfl⟩

end Synthesis

namespace Plan

structure Parts (plan : Plan) (s : Synthesis) (networks entries : List Routine)
    (dispatch : Routine) : Prop where
  limits : plan.limits? = some s.limits
  routines : plan.routines = networks ++ entries ++ [dispatch]
  networks : s.sortersAndMergers = .ok networks
  entries : s.entryRoutines .unlimited = .ok entries
  dispatch : s.lengthDispatch .unlimited = .ok dispatch

theorem forType_eq_ok {ty : ScalarType} {profile : IsaProfile} {settings : Settings} {plan : Plan}
    (h : forType ty profile settings = .ok plan) :
    ∃ s networks entries dispatch, Synthesis.ofSettings profile ty settings = .ok s ∧
      plan.Parts s networks entries dispatch := by
  obtain ⟨s, hs, h⟩ := Outcome.bind_eq_ok_iff.1 h
  obtain ⟨networks, hnetworks, h⟩ := Outcome.bind_eq_ok_iff.1 h
  obtain ⟨entries, hentries, h⟩ := Outcome.bind_eq_ok_iff.1 h
  obtain ⟨dispatch, hdispatch, h⟩ := Outcome.bind_eq_ok_iff.1 h
  obtain ⟨residual, _, h⟩ := Outcome.bind_eq_ok_iff.1 h
  obtain ⟨hasMinMax, _, h⟩ := Outcome.bind_eq_ok_iff.1 h
  obtain ⟨longest, _, h⟩ := Outcome.bind_eq_ok_iff.1 h
  cases h
  exact ⟨s, networks, entries, dispatch, hs, rfl, rfl, hnetworks, hentries, hdispatch⟩

theorem exists_parts {ty : ScalarType} {profile : IsaProfile} {settings : Settings} {s : Synthesis}
    {plan : Plan} (hs : Synthesis.ofSettings profile ty settings = .ok s)
    (h : forType ty profile settings = .ok plan) :
    ∃ networks entries dispatch, plan.Parts s networks entries dispatch := by
  obtain ⟨s', networks, entries, dispatch, hs', hparts⟩ := forType_eq_ok h
  rw [hs] at hs'
  cases hs'
  exact ⟨networks, entries, dispatch, hparts⟩

theorem typeChoice_eq_ok_iff {profile : IsaProfile} {settings : Settings} {ty : ScalarType}
    {choice : Nat × TypeChoice} :
    typeChoice profile settings ty = .ok choice ↔
      ∃ s, Synthesis.ofSettings profile ty settings = .ok s ∧
        choice = (s.limits.widest, ⟨ty, lengthDispatchName ty⟩) := by
  rw [typeChoice, Outcome.bind_eq_ok_iff]
  constructor
  · rintro ⟨s, hs, h⟩
    cases h
    exact ⟨s, hs, rfl⟩
  · rintro ⟨s, hs, rfl⟩
    exact ⟨s, hs, rfl⟩

theorem forIsa_eq_ok {profile : IsaProfile} {settings : Settings} {plan : Plan}
    (h : forIsa profile settings = .ok plan) :
    plan.heading = .isa profile.isa profile.scalarTypes ∧ profile.scalarTypes ≠ [] ∧
      ∃ r choices, profile.scalarTypes.mapM (typeChoice profile settings) = .ok choices ∧
        plan.routines = [r] ∧ r.role = .typeDispatch ∧
        r.width = (choices.map Prod.fst).foldl max 0 ∧
        r.body = [.outer (.byType (choices.map Prod.snd))] := by
  obtain ⟨choices, hchoices, h⟩ := Outcome.bind_eq_ok_iff.1 h
  split at h
  · cases h
  · next hsome =>
    cases h
    refine ⟨rfl, fun hnone => hsome ?_, _, choices, hchoices, rfl, rfl, rfl, rfl⟩
    rw [hnone] at hchoices
    cases hchoices
    rfl

/-- The plans that can be generated, for any profile and any settings. -/
inductive Generated : Plan → Prop
  | forType {ty : ScalarType} {profile : IsaProfile} {settings : Settings} {plan : Plan}
      (h : Plan.forType ty profile settings = .ok plan) : Generated plan
  | forIsa {profile : IsaProfile} {settings : Settings} {plan : Plan}
      (h : Plan.forIsa profile settings = .ok plan) : Generated plan

theorem exists_forIsa {profile : IsaProfile} {settings : Settings} {choices : List (Nat × TypeChoice)}
    (hsome : profile.scalarTypes ≠ [])
    (h : profile.scalarTypes.mapM (typeChoice profile settings) = .ok choices) :
    ∃ plan, forIsa profile settings = .ok plan := by
  have hlength := (Outcome.mapM_eq_ok_iff.1 h).length_eq
  have hchoices : ¬ choices.isEmpty = true := by
    rw [List.isEmpty_iff]
    rintro rfl
    exact hsome (List.length_eq_zero_iff.1 hlength)
  rw [forIsa, Outcome.bind_of_ok h, if_neg hchoices]
  exact ⟨_, rfl⟩

namespace Parts

variable {plan : Plan} {s : Synthesis} {networks entries : List Routine} {dispatch : Routine}

theorem mem_routines (h : plan.Parts s networks entries dispatch) {r : Routine} :
    r ∈ plan.routines ↔ r ∈ networks ∨ r ∈ entries ∨ r = dispatch := by
  rw [h.routines, List.mem_append, List.mem_append, List.mem_singleton, or_assoc]

theorem routineOf_of_mem (h : plan.Parts s networks entries dispatch) {r : Routine}
    (hr : r ∈ networks) : ∃ key, s.hasRoutine key = true ∧ s.routineOf key = .ok r := by
  have hnetworks := Synthesis.mapM_routineKeys_of_sortersAndMergers h.networks
  obtain ⟨key, hkey, hroutine⟩ :=
    Outcome.exists_of_mem_right (Outcome.mapM_eq_ok_iff.1 hnetworks) hr
  exact ⟨key, Synthesis.mem_routineKeys.1 hkey, hroutine⟩

theorem find?_eq (h : plan.Parts s networks entries dispatch) {key : NetworkKey}
    (hkey : s.hasRoutine key = true) :
    ∃ r, plan.find? key = some r ∧ s.routineOf key = .ok r := by
  have hnetworks := Synthesis.mapM_routineKeys_of_sortersAndMergers h.networks
  obtain ⟨r, hr, hroutine⟩ := Outcome.exists_of_mem_left (Outcome.mapM_eq_ok_iff.1 hnetworks)
    (Synthesis.mem_routineKeys.2 hkey)
  obtain ⟨_, _, hrkey, _⟩ := Synthesis.routineOf_eq_ok hroutine
  have hsome : (networks.find? fun r => r.key == some key).isSome = true :=
    List.find?_isSome.2 ⟨r, hr, by rw [hrkey, beq_self_eq_true]⟩
  obtain ⟨found, hfound⟩ := Option.isSome_iff_exists.1 hsome
  refine ⟨found, ?_, ?_⟩
  · rw [Plan.find?, h.routines, List.append_assoc, List.find?_append, hfound]
    rfl
  · -- the routine that is found is the one for its key, and that is the key looked for
    obtain ⟨key', _, hroutine'⟩ := h.routineOf_of_mem (List.mem_of_find?_eq_some hfound)
    obtain ⟨_, _, hfoundKey, _⟩ := Synthesis.routineOf_eq_ok hroutine'
    have hsame := List.find?_some hfound
    rw [hfoundKey, beq_iff_eq] at hsame
    rwa [← Option.some.inj hsame]

theorem findNamed?_eq (h : plan.Parts s networks entries dispatch) {width : Nat}
    (hpos : 0 < width) (hle : width ≤ s.limits.widest) (d : Direction) :
    ∃ r, plan.findNamed? (entryPointName width d) = some r ∧ s.entryRoutine width d = .ok r := by
  obtain ⟨hmade, hhas⟩ := Synthesis.entryRoutines_eq_ok h.entries
  obtain ⟨r, hr, hroutine⟩ := hhas width d hpos hle
  obtain ⟨_, _, _, _, _, _, hname, _⟩ := Synthesis.entryRoutine_eq_ok hroutine
  have hsome : (entries.find? fun r => r.name == entryPointName width d).isSome = true :=
    List.find?_isSome.2 ⟨r, hr, by rw [hname, beq_self_eq_true]⟩
  obtain ⟨found, hfound⟩ := Option.isSome_iff_exists.1 hsome
  have hnone : (networks.find? fun r => r.name == entryPointName width d) = none := by
    apply List.find?_eq_none.2
    intro r' hr'
    obtain ⟨key, _, hroutine'⟩ := h.routineOf_of_mem hr'
    obtain ⟨_, _, _, hname', _⟩ := Synthesis.routineOf_eq_ok hroutine'
    rw [hname', beq_iff_eq]
    exact name_ne_entryPointName key width d
  refine ⟨found, ?_, ?_⟩
  · rw [Plan.findNamed?, h.routines, List.append_assoc, List.find?_append, hnone,
      List.find?_append, hfound]
    rfl
  · obtain ⟨width', d', hroutine'⟩ := hmade found (List.mem_of_find?_eq_some hfound)
    obtain ⟨_, _, _, _, _, _, hname', _⟩ := Synthesis.entryRoutine_eq_ok hroutine'
    have hsame := List.find?_some hfound
    rw [hname', beq_iff_eq] at hsame
    obtain ⟨rfl, rfl⟩ := entryPointName_inj hsame
    exact hroutine'

theorem filter_lengthDispatch (h : plan.Parts s networks entries dispatch) :
    plan.routines.filter (·.role == .lengthDispatch) = [dispatch] := by
  obtain ⟨_, _, _, _, hrole, _⟩ := Synthesis.lengthDispatch_eq_ok h.dispatch
  have hnetworks : networks.filter (·.role == .lengthDispatch) = [] := by
    apply List.filter_eq_nil_iff.2
    intro r hr
    obtain ⟨key, _, hroutine⟩ := h.routineOf_of_mem hr
    obtain ⟨_, _, _, _, _, hrole', _⟩ := Synthesis.routineOf_eq_ok hroutine
    rw [hrole', beq_iff_eq, Synthesis.roleOf]
    split
    · exact RoutineRole.noConfusion
    · split
      · exact RoutineRole.noConfusion
      · exact RoutineRole.noConfusion
  have hentries : entries.filter (·.role == .lengthDispatch) = [] := by
    apply List.filter_eq_nil_iff.2
    intro r hr
    obtain ⟨width, d, hroutine⟩ := (Synthesis.entryRoutines_eq_ok h.entries).1 r hr
    obtain ⟨_, _, _, _, _, _, _, _, hrole', _⟩ := Synthesis.entryRoutine_eq_ok hroutine
    rw [hrole', beq_iff_eq]
    exact RoutineRole.noConfusion
  rw [h.routines, List.filter_append, List.filter_append, hnetworks, hentries,
    List.filter_cons_of_pos (by rw [hrole]; decide)]
  rfl

theorem lengthTable?_eq (h : plan.Parts s networks entries dispatch) :
    ∃ table, plan.lengthTable? = some table ∧ s.lengthTable .unlimited = .ok table := by
  obtain ⟨table, htable, _, _, _, hbody⟩ := Synthesis.lengthDispatch_eq_ok h.dispatch
  refine ⟨table, ?_, htable⟩
  rw [Plan.lengthTable?, h.filter_lengthDispatch]
  simp only [List.flatMap_cons, List.flatMap_nil, hbody]
  rfl

end Parts

/-- The routines of generated plans, by what makes them. -/
inductive Made (plan : Plan) : Routine → Prop
  | network {s : Synthesis} {key : NetworkKey} {r : Routine}
      (hlimits : plan.limits? = some s.limits) (hcount : s.limits.widest < Count.limit)
      (h : s.routineOf key = .ok r) : Made plan r
  | entryPoint {s : Synthesis} {width : Nat} {d : Direction} {r : Routine}
      (hlimits : plan.limits? = some s.limits) (hcount : s.limits.widest < Count.limit)
      (hpos : 0 < width) (hle : width ≤ s.limits.widest)
      (h : s.entryRoutine width d = .ok r) : Made plan r
  | lengthDispatch {s : Synthesis} {r : Routine} (hlimits : plan.limits? = some s.limits)
      (h : s.lengthDispatch .unlimited = .ok r) : Made plan r
  | typeDispatch {profile : IsaProfile} {settings : Settings} {choices : List (Nat × TypeChoice)}
      (h : profile.scalarTypes.mapM (typeChoice profile settings) = .ok choices) :
      Made plan ⟨"sort_" ++ profile.isa.lowerName, .typeDispatch, none,
        (choices.map Prod.fst).foldl max 0, none, false,
        [.outer (.byType (choices.map Prod.snd))]⟩

theorem Generated.made {plan : Plan} (h : plan.Generated) : ∀ r ∈ plan.routines, plan.Made r := by
  cases h with
  | forType h =>
      obtain ⟨s, networks, entries, dispatch, _, hparts⟩ := forType_eq_ok h
      have hcount : s.limits.widest < Count.limit := by
        have hdouble := Synthesis.widest_lt_of_entryRoutines hparts.entries
        omega
      intro r hr
      rcases hparts.mem_routines.1 hr with hr | hr | rfl
      · obtain ⟨key, _, hroutine⟩ := hparts.routineOf_of_mem hr
        exact .network hparts.limits hcount hroutine
      · obtain ⟨width, d, hpos, hle, hroutine⟩ :=
          Synthesis.exists_entryRoutine_of_mem hparts.entries hr
        exact .entryPoint hparts.limits hcount hpos hle hroutine
      · exact .lengthDispatch hparts.limits hparts.dispatch
  | forIsa h =>
      obtain ⟨choices, hchoices, h⟩ := Outcome.bind_eq_ok_iff.1 h
      split at h
      · cases h
      · cases h
        exact List.forall_mem_singleton.2 (.typeDispatch hchoices)

end Plan

end Bitonic
