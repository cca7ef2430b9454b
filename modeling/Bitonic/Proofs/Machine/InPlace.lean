import Bitonic.Proofs.Length.Lookup
import Bitonic.Proofs.Machine.LayersInPlace
/-!
# Runs in place

A machine that works in place reads and writes the caller's row as the machine that makes new
register files would have it.

* `Machine.onCopy_runStepsInPlace` — steps on a row of lanes;
* `Machine.run_runOnInPlace` — a routine, of which the caller sees all or nothing;
* `Machine.run_sortInPlace` — sorting, with the row as it is at a failure.
-/

namespace Bitonic

open OnRow RegisterFile

variable {α β : Type}

namespace OnRow

def result (row : List α) : Outcome β → EStateM.Result Failure (List α) β
  | .ok b => .ok b row
  | .error failure => .error failure row

/-- The row after an outcome that replaces it: all of it is new, or nothing. -/
def allOrNothing (row : List α) : Outcome (List α) → EStateM.Result Failure (List α) Unit
  | .ok row' => .ok () row'
  | .error failure => .error failure row

theorem eq_error_of_result {data row : List α} {outcome : Outcome β} {failure : Failure}
    (h : result data outcome = .error failure row) : outcome = .error failure ∧ row = data := by
  cases outcome with
  | ok b => cases h
  | error failure' =>
      cases h
      exact ⟨rfl, rfl⟩

theorem eq_error_of_allOrNothing {data row : List α} {outcome : Outcome (List α)}
    {failure : Failure} (h : allOrNothing data outcome = .error failure row) :
    outcome = .error failure ∧ row = data := by
  cases outcome with
  | ok values => cases h
  | error failure' =>
      cases h
      exact ⟨rfl, rfl⟩

theorem exists_eq_error (run : EStateM.Result Failure (List α) β)
    (h : (match run with | .ok _ _ => false | .error _ _ => true) = true) :
    ∃ failure row, run = .error failure row := by
  cases run with
  | ok b row => cases h
  | error failure row => exact ⟨failure, row, rfl⟩

theorem run_replace {values row : List α} (h : values.length = row.length) :
    (replace values).run row = .ok () values := by
  rw [replace, run_bind_of_ok (EStateM.run_get _), if_pos h]
  rfl

end OnRow

variable [Scalar α] {file file' : RegisterFile α} {lanes : Nat}

theorem Exchange.length_of_run {x : Exchange} {register register' : List α}
    (h : x.run register = .ok register') : register'.length = register.length := by
  by_cases hfit : register.length = x.pairing.length
  · obtain ⟨_, hrun, hlength, _⟩ := x.run_values hfit
    cases hrun.symm.trans h
    exact hlength.trans hfit.symm
  · rw [Exchange.run, dif_neg hfit] at h
    cases h

theorem Layer.shaped_of_run {layer : Layer} {base : Nat} (hfile : file.Shaped lanes)
    (h : layer.run base file = .ok file') : file'.Shaped lanes ∧ file'.length = file.length := by
  rw [Layer.run.eq_def, Outcome.bind_eq_ok_iff] at h
  obtain ⟨top, htop, h⟩ := h
  obtain ⟨_, rfl⟩ := Count.add_eq_ok_iff.1 (Outcome.liftM_eq_ok_iff.1 htop)
  split at h
  · cases h
  · next hrange =>
    cases layer with
    | inside r x =>
        obtain ⟨register, hrun, h⟩ := Outcome.bind_eq_ok_iff.1 h
        cases h
        have hr : base + r < file.length := Nat.lt_of_not_le hrange
        have hlength := (Exchange.length_of_run hrun).trans (hfile.length_getD hr)
        exact ⟨hfile.set hlength _, List.length_set⟩
    | between low high d =>
        cases h
        have hmax : base + max low high < file.length := Nat.lt_of_not_le hrange
        have hlow := hfile.length_getD (show base + low < file.length by omega)
        have hhigh := hfile.length_getD (show base + high < file.length by omega)
        have hzip : ∀ f : α → α → α, ((file.getD (base + low) []).zipWith f
            (file.getD (base + high) [])).length = lanes := by
          intro f
          rw [List.length_zipWith, hlow, hhigh, Nat.min_self]
        exact ⟨(hfile.set (hzip _) _).set (hzip _) _, List.length_set.trans List.length_set⟩

namespace Machine

variable {machine : Machine}

theorem shaped_of_runSteps {levels base : Nat} {steps : List Step} (hfile : file.Shaped lanes)
    (h : machine.runSteps levels base steps file = .ok file') :
    file'.Shaped lanes ∧ file'.length = file.length := by
  induction levels generalizing base steps file file' with
  | zero => cases h
  | succ levels ih =>
      rw [runSteps] at h
      split at h
      · cases h
      · apply Outcome.foldlM_preserves (P := fun f => f.Shaped lanes ∧ f.length = file.length) ?_ h
          ⟨hfile, rfl⟩
        intro step _ f f' hf hstep
        cases step with
        | layer layer =>
            obtain ⟨hshaped, hlength⟩ := layer.shaped_of_run hf.1 hstep
            exact ⟨hshaped, hlength.trans hf.2⟩
        | call callee first =>
            obtain ⟨routine, _, hstep⟩ := Outcome.bind_eq_ok_iff.1 hstep
            obtain ⟨place, _, hstep⟩ := Outcome.bind_eq_ok_iff.1 hstep
            obtain ⟨hshaped, hlength⟩ := ih hf.1 hstep
            exact ⟨hshaped, hlength.trans hf.2⟩
        | outer step => cases hstep

theorem onCopy_runStepsInPlace (levels base : Nat) (steps : List Step)
    (hfile : file.Shaped machine.lanes) (hcount : file.flatten.length < Count.limit) :
    onCopy (machine.runStepsInPlace levels base steps) file.flatten =
      List.flatten <$> machine.runSteps levels base steps file := by
  -- on the bodies that may still be opened; along the steps of one body, the registers keep their
  -- number and their lanes, so that the row stays in step with them
  induction levels generalizing base steps file with
  | zero => rfl
  | succ levels ih =>
      rw [runStepsInPlace, runSteps]
      by_cases hzero : machine.lanes = 0
      · rw [if_pos hzero, if_pos hzero]
        rfl
      · have hlanes := Nat.pos_of_ne_zero hzero
        rw [if_neg hzero, if_neg hzero, onCopy_get_bind, hfile.length_flatten,
          Nat.mul_div_cancel _ hlanes, onCopy_forM]
        apply Outcome.foldlM_map_of
          (P := fun f => f.Shaped machine.lanes ∧ f.length = file.length) ?_ ?_ ⟨hfile, rfl⟩
        · intro step _ f f' hf hstep
          have hrun : machine.runSteps (levels + 1) base [step] f = .ok f' := by
            rw [runSteps, if_neg hzero, List.foldlM_cons, Outcome.bind_of_ok hstep]
            rfl
          obtain ⟨hshaped, hlength⟩ := shaped_of_runSteps hf.1 hrun
          exact ⟨hshaped, hlength.trans hf.2⟩
        · intro step _ f hf
          have hsize : f.flatten.length < Count.limit := by
            rwa [hf.1.length_flatten, hf.2, ← hfile.length_flatten]
          cases step with
          | layer layer =>
              rw [← hf.2]
              exact layer.onCopy_runAt hf.1 hlanes hsize base
          | call callee first =>
              rw [onCopy_liftM_bind, map_bind]
              apply congrArg
              funext routine
              rw [onCopy_checked_bind, map_bind]
              apply congrArg
              funext place
              exact ih place routine.body hf.1 hsize
          | outer step => rfl

theorem onCopy_runBodyInPlace (steps : List Step) (hfile : file.Shaped machine.lanes)
    (hcount : file.flatten.length < Count.limit) :
    onCopy (machine.runBodyInPlace steps) file.flatten =
      List.flatten <$> machine.runBody steps file :=
  machine.onCopy_runStepsInPlace _ _ steps hfile hcount

/-- A routine in place either does all of its work on the row or leaves it as it is. -/
theorem run_runOnInPlace (machine : Machine) (routine : Routine) (values : List α) :
    (machine.runOnInPlace routine).run values =
      allOrNothing values (machine.runOn routine values) := by
  rw [runOnInPlace, runOn]
  cases machine.requireType (Scalar.element α) with
  | error failure => rfl
  | ok type =>
      cases hexpected : Count.mul routine.width machine.lanes with
      | error fault => rfl
      | ok expected =>
          obtain ⟨hlimit, rfl⟩ := Count.mul_eq_ok_iff.1 hexpected
          change (if _ then _ else _ : OnRow α Unit).run values =
            allOrNothing values (if _ then _ else _)
          by_cases hlength : values.length = routine.width * machine.lanes
          · obtain ⟨hfile, hflat⟩ := ofValues_spec hlength
            have hbody := machine.onCopy_runBodyInPlace routine.body hfile (by rwa [hflat, hlength])
            rw [hflat] at hbody
            rw [if_neg (not_not.2 hlength), if_neg (not_not.2 hlength), hbody]
            cases hrun : machine.runBody routine.body (ofValues machine.lanes values) with
            | error failure => rfl
            | ok file =>
                obtain ⟨hshaped, hcount⟩ := shaped_of_runSteps hfile hrun
                have hsame : file.flatten.length = values.length := by
                  rw [hshaped.length_flatten, hcount, ← hfile.length_flatten, hflat]
                exact run_replace hsame
          · rw [if_pos hlength, if_pos hlength]
            rfl

theorem run_runByKeyInPlace (machine : Machine) (key : NetworkKey) (values : List α) :
    (machine.runByKeyInPlace key).run values =
      allOrNothing values (machine.runByKey key values) := by
  rw [runByKeyInPlace, runByKey]
  cases machine.routineFor key with
  | error failure => rfl
  | ok routine => exact machine.run_runOnInPlace routine values

/-! ## Entry points -/

/-- The registers of an entry point on its way have room for the data. -/
def Holds (machine : Machine) (run : EntryRun α) : Prop :=
  ∀ file, run.file = some file → file.Shaped machine.lanes ∧
    file.flatten.length < Count.limit ∧ run.data.length ≤ file.flatten.length

section Load

variable {name : String} {vectors : Nat} {pad : Sentinel} {data : List α}

theorem load_eq (machine : Machine) (name : String) (vectors : Nat) (pad : Sentinel)
    (data : List α) : machine.load name vectors pad data =
      ofValues machine.lanes <$> machine.loadLanes name vectors pad data := by
  rw [load, loadLanes, map_bind]
  apply congrArg
  funext total
  split
  · rfl
  · rfl

theorem length_loadLanes {values : List α}
    (h : machine.loadLanes name vectors pad data = .ok values) :
    values.length = vectors * machine.lanes ∧ values.length < Count.limit ∧
      data.length ≤ values.length := by
  rw [loadLanes, Outcome.bind_eq_ok_iff] at h
  obtain ⟨total, htotal, h⟩ := h
  obtain ⟨hlimit, rfl⟩ := Count.mul_eq_ok_iff.1 (Outcome.liftM_eq_ok_iff.1 htotal)
  split at h
  · cases h
  · cases h
    rw [List.length_append, List.length_replicate]
    omega

theorem loadLanes_eq (machine : Machine) (name : String) (vectors : Nat) (pad : Sentinel)
    (data : List α) : machine.loadLanes name vectors pad data =
      List.flatten <$> machine.load name vectors pad data := by
  rw [load_eq]
  cases h : machine.loadLanes name vectors pad data with
  | error failure => rfl
  | ok values => exact congrArg Except.ok (ofValues_spec (length_loadLanes h).1).2.symm

theorem holds_of_load {file : RegisterFile α}
    (h : machine.load name vectors pad data = .ok file) :
    machine.Holds ⟨data, some file⟩ := by
  rw [load_eq, ← bind_pure_comp, Outcome.bind_eq_ok_iff] at h
  obtain ⟨values, hvalues, h⟩ := h
  cases h
  rintro _ ⟨⟩
  obtain ⟨hlength, hlimit, hroom⟩ := length_loadLanes hvalues
  obtain ⟨hshaped, hflat⟩ := ofValues_spec hlength
  exact ⟨hshaped, by rwa [hflat], by rwa [hflat]⟩

end Load

/-- What a step of an entry point makes of the row and of the lanes, as a run in place returns it. -/
def stepResult (row : List α) :
    Outcome (EntryRun α) → EStateM.Result Failure (List α) (Option (List α))
  | .ok run => .ok (run.file.map List.flatten) run.data
  | .error failure => .error failure row

theorem holds_of_entryStep {name : String} {step : Step} {run run' : EntryRun α}
    (hrun : machine.Holds run) (h : machine.entryStep name step run = .ok run') :
    machine.Holds run' ∧ run'.data.length = run.data.length := by
  unfold entryStep at h
  split at h
  · obtain ⟨file, hload, h⟩ := Outcome.bind_eq_ok_iff.1 h
    cases h
    exact ⟨holds_of_load hload, rfl⟩
  · next file hfile =>
    cases h
    obtain ⟨hshaped, hlimit, hroom⟩ := hrun file hfile
    have hlength : (file.flatten.take run.data.length).length = run.data.length := by
      rw [List.length_take, Nat.min_eq_left hroom]
    refine ⟨fun file' hfile' => ?_, hlength⟩
    obtain ⟨hshaped', hlimit', hroom'⟩ := hrun file' hfile'
    exact ⟨hshaped', hlimit', hlength.trans_le hroom'⟩
  · cases h
  · next file _ _ hfile =>
    obtain ⟨file', hbody, h⟩ := Outcome.bind_eq_ok_iff.1 h
    cases h
    obtain ⟨hshaped, hlimit, hroom⟩ := hrun file hfile
    obtain ⟨hshaped', hcount⟩ := shaped_of_runSteps hshaped hbody
    have hsame : file'.flatten.length = file.flatten.length := by
      rw [hshaped'.length_flatten, hcount, hshaped.length_flatten]
    refine ⟨?_, rfl⟩
    rintro _ ⟨⟩
    exact ⟨hshaped', hsame ▸ hlimit, hsame ▸ hroom⟩
  · cases h

theorem run_networkStepInPlace (data : List α) (steps : List Step) (hfile : file.Shaped machine.lanes)
    (hlimit : file.flatten.length < Count.limit) :
    (liftM (onCopy (machine.runBodyInPlace steps) file.flatten) >>= fun lanes =>
        (pure (some lanes) : OnRow α (Option (List α)))).run data =
      stepResult data (machine.runBody steps file >>= fun file => pure ⟨data, some file⟩) := by
  rw [machine.onCopy_runBodyInPlace steps hfile hlimit]
  cases machine.runBody steps file with
  | error failure => rfl
  | ok file => rfl

theorem run_entryStepInPlace (name : String) (step : Step) {run : EntryRun α}
    (hrun : machine.Holds run) :
    (machine.entryStepInPlace name (run.file.map List.flatten) step).run run.data =
      stepResult run.data (machine.entryStep name step run) := by
  obtain ⟨data, registers⟩ := run
  have hload : ∀ vectors pad,
      ((liftM (machine.loadLanes name vectors pad data) : OnRow α (List α)) >>= fun lanes =>
        (pure (some lanes) : OnRow α (Option (List α)))).run data =
        stepResult data (machine.load name vectors pad data >>= fun file =>
          pure ⟨data, some file⟩) := by
    intro vectors pad
    rw [loadLanes_eq]
    cases machine.load name vectors pad data with
    | error failure => rfl
    | ok file => rfl
  cases registers with
  | none =>
      cases step with
      | layer layer => rfl
      | call callee first => rfl
      | outer outer =>
          cases outer with
          | load vectors residual pad => exact hload vectors pad
          | store vectors residual => rfl
          | byLength table => rfl
          | byType choices => rfl
  | some file =>
      obtain ⟨hshaped, hlimit, hroom⟩ := hrun file rfl
      cases step with
      | layer layer => exact run_networkStepInPlace data _ hshaped hlimit
      | call callee first => exact run_networkStepInPlace data _ hshaped hlimit
      | outer outer =>
          cases outer with
          | load vectors residual pad => exact hload vectors pad
          | store vectors residual =>
              have hslice : slice file.flatten 0 data.length =
                  .ok (file.flatten.take data.length) := by
                rw [slice, Nat.zero_add, if_pos hroom]
                rfl
              have hlength : (file.flatten.take data.length).length = data.length := by
                rw [List.length_take, Nat.min_eq_left hroom]
              change (get >>= fun row : List α => liftM (slice file.flatten 0 row.length) >>=
                fun values => replace values >>= fun _ => pure (some file.flatten)).run data = _
              rw [run_bind_of_ok (EStateM.run_get _), run_bind_of_ok (run_checked_of_ok hslice _),
                run_bind_of_ok (run_replace hlength)]
              rfl
          | byLength table => exact run_networkStepInPlace data _ hshaped hlimit
          | byType choices => exact run_networkStepInPlace data _ hshaped hlimit

/-- The steps of an entry point in place leave the row as it is at the first failure. -/
theorem run_foldlM_entryStepInPlace (name : String) (steps : List Step) (run : EntryRun α)
    (hrun : machine.Holds run) (route : SortRoute) :
    (steps.foldlM (machine.entryStepInPlace name) (run.file.map List.flatten) >>=
      fun _ => pure route).run run.data =
      result (machine.entrySteps name steps run).1
        ((machine.entrySteps name steps run).2.map fun _ => route) := by
  induction steps generalizing run with
  | nil => rfl
  | cons step steps ih =>
      have hstep := run_entryStepInPlace name step hrun
      rw [List.foldlM_cons, bind_assoc, entrySteps]
      cases hentry : machine.entryStep name step run with
      | error failure =>
          rw [hentry] at hstep
          rw [EStateM.run_bind, hstep]
          rfl
      | ok run' =>
          rw [hentry] at hstep
          rw [run_bind_of_ok hstep]
          exact ih run' (holds_of_entryStep hrun hentry).1

end Machine

/-- Counting down from at least one register does not fail. -/
theorem LengthTable.select_eq_lookup (table : LengthTable) (length : Nat) :
    table.select length = table.lookup length := by
  have hpos := registersFor_pos table.lanes length
  rw [select, lookup, Count.sub_eq_ok hpos, Outcome.bind_of_ok rfl]
  split
  · rfl
  · split
    · rfl
    · cases table.rows[registersFor table.lanes length - 1]? with
      | none => rfl
      | some row => rfl

/-- Sorting in place goes as sorting does, with the data in the end as the row. -/
theorem Machine.run_sortInPlace (machine : Machine) (d : Direction) (data : List α) :
    (machine.sortInPlace d).run data = result (machine.sort d data).1 (machine.sort d data).2 := by
  rw [sortInPlace, sort, route]
  cases machine.requireType (Scalar.element α) with
  | error failure => rfl
  | ok type =>
      rw [entryFor]
      cases machine.plan.lengthTable? with
      | none => rfl
      | some table =>
          rw [run_bind_of_ok (run_outcome_ok type data), Outcome.bind_of_ok (a := type) rfl]
          dsimp only
          rw [run_bind_of_ok (EStateM.run_get _), table.select_eq_lookup]
          cases table.lookup data.length with
          | error fault => rfl
          | ok found =>
              rw [run_bind_of_ok (run_checked_of_ok rfl data),
                Outcome.bind_of_ok (Outcome.liftM_ok found)]
              cases found with
              | fallback =>
                  have hlength : (Scalar.sorted d data).length = data.length :=
                    List.length_mergeSort data
                  dsimp only
                  rw [run_bind_of_ok (EStateM.run_get _), run_bind_of_ok (run_replace hlength)]
                  rfl
              | row row =>
                  dsimp only
                  cases machine.plan.findNamed? (row.entryPoint d) with
                  | none => rfl
                  | some routine =>
                      exact run_foldlM_entryStepInPlace (row.entryPoint d) routine.body
                        ⟨data, none⟩ nofun _

end Bitonic
