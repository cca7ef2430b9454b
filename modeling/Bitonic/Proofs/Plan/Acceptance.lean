import Bitonic.Proofs.Length.Lookup
import Bitonic.Proofs.Machine.Networks
/-!
# Which settings come to a plan

Settings are looked at once, where they are resolved into the limits of a unit.  After that nothing
can fail any more.

* `Settings.limitsFor_eq_ok`, `Settings.limitsFor_refused`, `Settings.limitsFor_eq_fault` — the
  three ways in which settings are resolved;
* `Synthesis.Complete` — every network and every entry point within the limits can be made;
* `Plan.exists_forType` — whatever has all its networks and entry points comes to a plan;
* `Plan.forType_outcomes` — which settings are accepted, and how the others fail.
-/

namespace Bitonic

/-- The computation ends in an error that comes before any output. -/
def Outcome.Refused {α : Type} (x : Outcome α) : Prop :=
  ∃ e : GenerationError, x = .error (.error e) ∧ e.precedesOutput = true

namespace IsaProfile

variable {profile : IsaProfile} {ty : ScalarType}

def mergerLimit (profile : IsaProfile) (ty : ScalarType) : Nat :=
  (profile.mergerCeiling ty).getD (splitPoint (profile.vectorCeiling ty))

/-- Where the profile does not name its widest merger, the split of its widest network is a
count. -/
def HasMergerLimit (profile : IsaProfile) (ty : ScalarType) : Prop :=
  profile.mergerCeiling ty = none → profile.vectorCeiling ty ≤ 2 ^ 63

theorem requireType_eq_ok (h : profile.offers ty = true) : profile.requireType ty = .ok () :=
  if_pos h

theorem lanes_eq_ok (h : profile.offers ty = true) :
    profile.lanes ty = .ok (profile.registerBytes / ty.byteSize) :=
  lanes_eq_ok_iff.2 ⟨h, rfl⟩

theorem widest_eq_ok (h : profile.offers ty = true) :
    profile.widest ty = .ok (profile.vectorCeiling ty) := by
  rw [widest, Outcome.bind_of_ok (requireType_eq_ok h)]
  rfl

theorem widestMerger_eq_ok (h : profile.offers ty = true) (hlimit : profile.HasMergerLimit ty) :
    profile.widestMerger ty = .ok (profile.mergerLimit ty) := by
  rw [widestMerger, Outcome.bind_of_ok (widest_eq_ok h), mergerLimit]
  cases hceiling : profile.mergerCeiling ty with
  | some width => rfl
  | none => exact Outcome.liftM_eq_ok_iff.2 (if_pos (hlimit hceiling))

theorem widestMerger_eq_fault (h : profile.offers ty = true)
    (hlimit : ¬ profile.HasMergerLimit ty) :
    profile.widestMerger ty = .error (.fault .overflow) := by
  rw [HasMergerLimit, Classical.not_imp] at hlimit
  have hsplit : checkedSplitPoint (profile.vectorCeiling ty) = .error .overflow :=
    if_neg hlimit.2
  rw [widestMerger, Outcome.bind_of_ok (widest_eq_ok h), hlimit.1]
  simp only [hsplit]
  rfl

end IsaProfile

namespace InstructionSet

theorem exists_hasRegister (isa : InstructionSet) {ty : ScalarType}
    (h : isa.profile.offers ty = true) : ∃ size, isa.profile.HasRegister ty size := by
  cases isa with
  | avx2 =>
      cases ty with
      | int32 | uint32 | float => exact ⟨3, by decide, rfl⟩
      | int64 | uint64 | double => exact ⟨2, by decide, rfl⟩
  | avx512 =>
      cases ty with
      | int32 | uint32 | float => exact ⟨4, by decide, rfl⟩
      | int64 | uint64 | double => exact ⟨3, by decide, rfl⟩
  | neon =>
      cases ty with
      | int32 | uint32 | float => exact ⟨2, by decide, rfl⟩
      | int64 | uint64 => cases h
      | double => exact ⟨1, by decide, rfl⟩

theorem vectorCeiling_profile (isa : InstructionSet) (ty : ScalarType) :
    isa.profile.vectorCeiling ty = 16 := by
  cases isa <;> rfl

end InstructionSet

namespace Settings

variable {settings : Settings} {profile : IsaProfile} {ty : ScalarType}

def vectorsFor (settings : Settings) (profile : IsaProfile) (ty : ScalarType) : Nat :=
  settings.widest.getD (profile.vectorCeiling ty)

def InRange (settings : Settings) (profile : IsaProfile) (ty : ScalarType) : Prop :=
  1 ≤ settings.vectorsFor profile ty ∧ settings.vectorsFor profile ty ≤ profile.vectorCeiling ty

structure Accepted (settings : Settings) (profile : IsaProfile) (ty : ScalarType) : Prop where
  offered : profile.offers ty = true
  range : settings.InRange profile ty
  merger : ∀ width, settings.widestMerger profile.isa = some width →
    width ≤ profile.mergerLimit ty ∧ width ≤ settings.vectorsFor profile ty

def unitLimits (settings : Settings) (profile : IsaProfile) (ty : ScalarType) : UnitLimits where
  isa := profile.isa
  element := ty
  lanes := profile.registerBytes / ty.byteSize
  widest := settings.vectorsFor profile ty
  widestMerger := (settings.widestMerger profile.isa).getD
    (min (splitPoint (settings.vectorsFor profile ty)) (profile.mergerLimit ty))
  unroll := settings.unroll
  inlineBreak := settings.inlineBreak

theorem Accepted.widestMerger_le (h : settings.Accepted profile ty) :
    (settings.unitLimits profile ty).widestMerger ≤
      min (settings.vectorsFor profile ty) (profile.mergerLimit ty) := by
  unfold unitLimits
  cases hset : settings.widestMerger profile.isa with
  | some width =>
      have hwidth := h.merger width hset
      exact Nat.le_min.2 ⟨hwidth.2, hwidth.1⟩
  | none =>
      have hsplit := Synthesis.splitPoint_le (settings.vectorsFor profile ty)
      simp only [Option.getD_none]
      omega

theorem resolveWidest_eq_ok (h : profile.offers ty = true) (hrange : settings.InRange profile ty) :
    settings.resolveWidest profile ty = .ok (settings.vectorsFor profile ty) := by
  have hpos : settings.vectorsFor profile ty ≠ 0 := Nat.ne_of_gt hrange.1
  rw [resolveWidest, Outcome.bind_of_ok (IsaProfile.widest_eq_ok h)]
  exact (if_neg hpos).trans (if_neg (Nat.not_lt.2 hrange.2))

theorem resolveWidest_refused (h : profile.offers ty = true)
    (hrange : ¬ settings.InRange profile ty) :
    (settings.resolveWidest profile ty).Refused := by
  rw [resolveWidest, Outcome.bind_of_ok (IsaProfile.widest_eq_ok h)]
  by_cases hpos : settings.vectorsFor profile ty = 0
  · exact ⟨_, if_pos hpos, rfl⟩
  · have hwide : profile.vectorCeiling ty < settings.vectorsFor profile ty := by
      by_contra hle
      exact hrange ⟨Nat.pos_of_ne_zero hpos, Nat.not_lt.1 hle⟩
    exact ⟨_, (if_neg hpos).trans (if_pos hwide), rfl⟩

theorem resolveWidestMerger_eq_ok (h : settings.Accepted profile ty)
    (hlimit : profile.HasMergerLimit ty) (hsmall : settings.vectorsFor profile ty ≤ 2 ^ 63) :
    settings.resolveWidestMerger profile ty (settings.vectorsFor profile ty) =
      .ok (settings.unitLimits profile ty).widestMerger := by
  rw [resolveWidestMerger,
    Outcome.bind_of_ok (IsaProfile.widestMerger_eq_ok h.offered hlimit), unitLimits]
  cases hset : settings.widestMerger profile.isa with
  | some width =>
      have hwidth := h.merger width hset
      simp only [if_neg (Nat.not_lt.2 hwidth.1), if_neg (Nat.not_lt.2 hwidth.2)]
      rfl
  | none =>
      have hsplit : checkedSplitPoint (settings.vectorsFor profile ty) =
          .ok (splitPoint (settings.vectorsFor profile ty)) := if_pos hsmall
      simp only [hsplit]
      rfl

theorem resolveWidestMerger_refused (h : profile.offers ty = true)
    (hlimit : profile.HasMergerLimit ty) {width vectors : Nat}
    (hset : settings.widestMerger profile.isa = some width)
    (hwide : ¬ (width ≤ profile.mergerLimit ty ∧ width ≤ vectors)) :
    (settings.resolveWidestMerger profile ty vectors).Refused := by
  rw [resolveWidestMerger, Outcome.bind_of_ok (IsaProfile.widestMerger_eq_ok h hlimit), hset]
  dsimp only
  split
  · exact ⟨_, rfl, rfl⟩
  · rw [if_pos (by omega)]
    exact ⟨_, rfl, rfl⟩

theorem limitsFor_of_offers (h : profile.offers ty = true) :
    settings.limitsFor profile ty = (do
      let widest ← settings.resolveWidest profile ty
      let widestMerger ← settings.resolveWidestMerger profile ty widest
      return { settings.unitLimits profile ty with widest, widestMerger }) := by
  have hsome : ¬ profile.scalarTypes.isEmpty = true := by
    rw [List.isEmpty_iff]
    intro hnil
    simp [IsaProfile.offers, hnil] at h
  rw [limitsFor, if_neg hsome, Outcome.bind_of_ok (IsaProfile.lanes_eq_ok h)]
  rfl

theorem limitsFor_eq_ok (h : settings.Accepted profile ty) (hlimit : profile.HasMergerLimit ty)
    (hsmall : settings.vectorsFor profile ty ≤ 2 ^ 63) :
    settings.limitsFor profile ty = .ok (settings.unitLimits profile ty) := by
  rw [limitsFor_of_offers h.offered, Outcome.bind_of_ok (resolveWidest_eq_ok h.offered h.range),
    Outcome.bind_of_ok (resolveWidestMerger_eq_ok h hlimit hsmall)]
  rfl

theorem limitsFor_eq_fault (h : profile.offers ty = true) (hrange : settings.InRange profile ty)
    (hlimit : ¬ profile.HasMergerLimit ty) :
    settings.limitsFor profile ty = .error (.fault .overflow) := by
  rw [limitsFor_of_offers h, Outcome.bind_of_ok (resolveWidest_eq_ok h hrange),
    resolveWidestMerger, IsaProfile.widestMerger_eq_fault h hlimit]
  rfl

theorem limitsFor_refused (h : ¬ settings.Accepted profile ty)
    (hlimit : profile.offers ty = true → settings.InRange profile ty → profile.HasMergerLimit ty) :
    (settings.limitsFor profile ty).Refused := by
  by_cases hoffers : profile.offers ty = true
  · rw [limitsFor_of_offers hoffers]
    by_cases hrange : settings.InRange profile ty
    · have hwide : ∃ width, settings.widestMerger profile.isa = some width ∧
          ¬ (width ≤ profile.mergerLimit ty ∧ width ≤ settings.vectorsFor profile ty) := by
        by_contra hnone
        refine h ⟨hoffers, hrange, fun width hset => ?_⟩
        by_contra hwide
        exact hnone ⟨width, hset, hwide⟩
      rcases hwide with ⟨width, hset, hwide⟩
      rcases resolveWidestMerger_refused hoffers (hlimit hoffers hrange) hset hwide with
        ⟨e, he, hprecedes⟩
      rw [Outcome.bind_of_ok (resolveWidest_eq_ok hoffers hrange), he]
      exact ⟨e, rfl, hprecedes⟩
    · rcases resolveWidest_refused hoffers hrange with ⟨e, he, hprecedes⟩
      rw [he]
      exact ⟨e, rfl, hprecedes⟩
  · have hrequire : profile.requireType ty =
        .error (.error (.unsupportedType profile.isa ty)) := if_neg hoffers
    unfold limitsFor
    split
    · exact ⟨_, rfl, rfl⟩
    · rw [IsaProfile.lanes, hrequire]
      exact ⟨_, rfl, rfl⟩

end Settings

/-- The instruction sets that there are hold few vectors, and few lanes in each. -/
theorem Settings.Accepted.coverage_le {settings : Settings} {isa : InstructionSet} {ty : ScalarType}
    (h : settings.Accepted isa.profile ty) :
    settings.vectorsFor isa.profile ty * (isa.profile.registerBytes / ty.byteSize) ≤ 256 := by
  have hvectors := h.range.2
  rw [InstructionSet.vectorCeiling_profile] at hvectors
  have hlanes : isa.profile.registerBytes / ty.byteSize ≤ 16 := by
    cases isa <;> cases ty <;> decide
  exact Nat.mul_le_mul hvectors hlanes

namespace Synthesis

variable {size : Nat} {s : Synthesis} {cells : RegisterNetworks size}

/-- Whatever is requested within the limits can be made. -/
structure Complete (s : Synthesis) : Prop where
  bodies : ∀ key : NetworkKey, 0 < key.width → key.width ≤ s.limits.widest →
    ∃ body, s.bodyOf key = .ok body
  routines : ∀ key, s.hasRoutine key = true → ∃ r, s.routineOf key = .ok r
  entries : ∀ width d, 0 < width → width ≤ s.limits.widest → ∃ r, s.entryRoutine width d = .ok r

theorem requireAvailable_of_hasRoutine {key : NetworkKey} (h : s.hasRoutine key = true) :
    s.requireAvailable key = .ok () := by
  unfold hasRoutine at h
  apply requireAvailable_eq_ok_iff.2
  split at h
  · cases h
  · next hwidth =>
    simp only [Bool.or_eq_true, decide_eq_true_eq, not_or, Nat.not_lt] at hwidth
    refine ⟨⟨by omega, hwidth.2⟩, fun htask hwide => ?_⟩
    rw [if_neg (by omega)] at h
    split at h
    · cases h
    · rw [htask] at h
      exact of_decide_eq_true h

theorem lengthRange_eq {width lanes : Nat} (hpos : 0 < width) (hlanes : 0 < lanes)
    (hcount : width * lanes < Count.limit) :
    lengthRange width lanes = .ok
      ((LengthRow.ofWidth lanes width).minLength, (LengthRow.ofWidth lanes width).maxLength) := by
  have hlongest := Count.mul_eq_ok hcount
  unfold lengthRange LengthRow.ofWidth
  split
  · exact Outcome.bind_of_ok hlongest _
  · have hbefore : (width - 1) * lanes + lanes = width * lanes := by
      rw [← Nat.succ_mul, Nat.succ_eq_add_one, Nat.sub_add_cancel hpos]
    have hshorter := Count.mul_eq_ok (show (width - 1) * lanes < Count.limit by omega)
    have hshortest := Count.add_eq_ok (show (width - 1) * lanes + 1 < Count.limit by omega)
    dsimp only
    rw [Outcome.bind_of_ok (Count.sub_eq_ok (show 1 ≤ width from hpos)),
      Outcome.bind_of_ok hshorter, Outcome.bind_of_ok hshortest, Outcome.bind_of_ok hlongest]
    rfl

theorem exists_lengthRow {width lanes : Nat} (hpos : 0 < width) (hlanes : 0 < lanes)
    (hcount : width * lanes < Count.limit) : ∃ row, lengthRow lanes width = .ok row := by
  rw [lengthRow, Outcome.bind_of_ok (lengthRange_eq hpos hlanes hcount)]
  exact ⟨_, rfl⟩

theorem exists_lengthTable (hlanes : 0 < s.limits.lanes)
    (hcount : s.limits.widest * s.limits.lanes < Count.limit) :
    ∃ table, s.lengthTable .unlimited = .ok table := by
  have hrows : ∃ rows, Count.mapFrom (lengthRow s.limits.lanes) 1 s.limits.widest = .ok rows := by
    rw [Count.mapFrom_eq_mapM]
    apply Outcome.exists_mapM_eq_ok
    intro width hwidth
    rw [List.mem_range'_1] at hwidth
    apply exists_lengthRow hwidth.1 hlanes
    exact (Nat.mul_le_mul_right _ (by omega)).trans_lt hcount
  rcases hrows with ⟨rows, hrows⟩
  rw [lengthTable, Outcome.bind_of_ok (Memory.reserve_unlimited _ _), Outcome.bind_of_ok hrows,
    Outcome.bind_of_ok (show s.limits.capacity = .ok _ from Count.mul_eq_ok hcount)]
  exact ⟨_, rfl⟩

theorem exists_entryRoutine {width : Nat} {d : Direction} {network : List Step}
    (hoffers : s.profile.offers s.limits.element = true)
    (hnetwork : s.invocation (.sort width d) 0 = .ok network) (hpos : 0 < width)
    (hlanes : 0 < s.limits.lanes) (hcount : width * s.limits.lanes < Count.limit) :
    ∃ r, s.entryRoutine width d = .ok r := by
  have hresidual : s.profile.residualModeFor s.limits.element = .ok _ :=
    Outcome.bind_of_ok (IsaProfile.requireType_eq_ok hoffers) _
  have hrange := Outcome.liftM_eq_ok_iff.2 (lengthRange_eq hpos hlanes hcount)
  rw [entryRoutine, Outcome.bind_of_ok hresidual, Outcome.bind_of_ok hnetwork,
    Outcome.bind_of_ok hrange]
  exact ⟨_, rfl⟩

theorem complete_of_uses (hs : s.Uses cells) (hoffers : s.profile.offers s.limits.element = true)
    (hlanes : 0 < s.limits.lanes) (hcoverage : s.limits.widest * s.limits.lanes < 2 ^ 62) :
    s.Complete := by
  have hwidest : s.limits.widest < 2 ^ 62 := (Nat.le_mul_of_pos_right _ hlanes).trans_lt hcoverage
  have hbody : ∀ key : NetworkKey, 0 < key.width → key.width ≤ s.limits.widest →
      ∃ body, s.bodyOf key = .ok body ∧ ∀ base, base + key.width ≤ Count.limit →
        Expansion s.routineBody 63 base body (cells.layersOf key base) :=
    fun key hpos hle => bodyOf_expands hs (e := 62) (by omega) hpos (by omega)
  refine ⟨fun key hpos hle => ?_, fun key hkey => ?_, fun width d hpos hle => ?_⟩
  · rcases hbody key hpos hle with ⟨body, hmade, _⟩
    exact ⟨body, hmade⟩
  · have havailable := requireAvailable_of_hasRoutine hkey
    have hrange := (requireAvailable_eq_ok_iff.1 havailable).1
    rcases hbody key hrange.1 hrange.2 with ⟨body, hmade, _⟩
    exact exists_routineOf havailable hmade
  · rcases hbody (.sort width d) hpos hle with ⟨body, hmade, hexp⟩
    have hinvocation := callOrSplice_expands (s := s) 0 (.sort width d) hmade hmade hpos
      (by unfold Count.limit; omega) hexp
    rcases hinvocation with ⟨network, hnetwork, _⟩
    apply exists_entryRoutine hoffers hnetwork hpos hlanes
    have hle' := Nat.mul_le_mul_right s.limits.lanes hle
    unfold Count.limit
    omega

namespace Complete

theorem exists_sortersAndMergers (h : s.Complete) (hwidest : 0 < s.limits.widest) :
    ∃ networks, s.sortersAndMergers = .ok networks := by
  rw [sortersAndMergers_eq_mapM fun _ => hwidest]
  exact Outcome.exists_mapM_eq_ok fun key hkey => h.routines key (mem_routineKeys.1 hkey)

theorem exists_entryRoutines (h : s.Complete) (hwidest : s.limits.widest < 2 ^ 62) :
    ∃ entries, s.entryRoutines .unlimited = .ok entries := by
  have hperWidth : ∃ perWidth, Count.mapFrom (fun width =>
      Direction.both.mapM (s.entryRoutine width)) 1 s.limits.widest = .ok perWidth := by
    rw [Count.mapFrom_eq_mapM]
    apply Outcome.exists_mapM_eq_ok
    intro width hwidth
    rw [List.mem_range'_1] at hwidth
    exact Outcome.exists_mapM_eq_ok fun d _ => h.entries width d hwidth.1 (by omega)
  have hcount : s.limits.widest * 2 < Count.limit := by
    unfold Count.limit
    omega
  rcases hperWidth with ⟨perWidth, hperWidth⟩
  rw [entryRoutines, Outcome.bind_of_ok (Outcome.liftM_eq_ok_iff.2 (Count.mul_eq_ok hcount)),
    Outcome.bind_of_ok (Outcome.liftM_eq_ok_iff.2 (Memory.reserve_unlimited _ _)),
    Outcome.bind_of_ok hperWidth]
  exact ⟨_, rfl⟩

end Complete

end Synthesis

namespace Plan

variable {settings : Settings} {profile : IsaProfile} {ty : ScalarType} {s : Synthesis}

theorem exists_forType (hs : Synthesis.ofSettings profile ty settings = .ok s)
    (hcomplete : s.Complete) (hoffers : profile.offers ty = true) (hlanes : 0 < s.limits.lanes)
    (hcoverage : s.limits.widest * s.limits.lanes < 2 ^ 62) :
    ∃ plan, forType ty profile settings = .ok plan := by
  have hwidest : s.limits.widest < 2 ^ 62 := (Nat.le_mul_of_pos_right _ hlanes).trans_lt hcoverage
  have hcount : s.limits.widest * s.limits.lanes < Count.limit := by
    unfold Count.limit
    omega
  have hpos := (Synthesis.resolved_of_ofSettings hs).widest_pos
  rcases hcomplete.exists_sortersAndMergers hpos with ⟨networks, hnetworks⟩
  rcases hcomplete.exists_entryRoutines hwidest with ⟨entries, hentries⟩
  rcases Synthesis.exists_lengthTable hlanes hcount with ⟨table, htable⟩
  have hdispatch : s.lengthDispatch .unlimited = .ok _ :=
    Outcome.bind_of_ok (Outcome.liftM_eq_ok_iff.2 htable) _
  have hresidual : profile.residualModeFor ty = .ok _ :=
    Outcome.bind_of_ok (IsaProfile.requireType_eq_ok hoffers) _
  have hasMinMax : profile.hasMinMaxFor ty = .ok _ :=
    Outcome.bind_of_ok (IsaProfile.requireType_eq_ok hoffers) _
  have hlongest : s.limits.capacity = .ok _ := Count.mul_eq_ok hcount
  rw [forType, Outcome.bind_of_ok hs, Outcome.bind_of_ok hnetworks, Outcome.bind_of_ok hentries,
    Outcome.bind_of_ok hdispatch, Outcome.bind_of_ok hresidual, Outcome.bind_of_ok hasMinMax,
    Outcome.bind_of_ok (Outcome.liftM_eq_ok_iff.2 hlongest)]
  exact ⟨_, rfl⟩

/-- The limits of accepted settings leave nothing that cannot be made. -/
theorem forType_of_accepted {size : Nat} (hregister : profile.HasRegister ty size)
    (haccepted : settings.Accepted profile ty) (hlimit : profile.HasMergerLimit ty)
    (hcoverage : settings.vectorsFor profile ty * (profile.registerBytes / ty.byteSize) < 2 ^ 62) :
    Synthesis.ofSettings profile ty settings = .ok ⟨profile, settings.unitLimits profile ty⟩ ∧
      Synthesis.Complete ⟨profile, settings.unitLimits profile ty⟩ ∧
      ∃ plan, forType ty profile settings = .ok plan := by
  have hoffers := haccepted.offered
  have hlanes : 0 < profile.registerBytes / ty.byteSize := by
    have hsame := hregister.2
    rw [IsaProfile.lanes_eq_ok hoffers] at hsame
    rw [Except.ok.inj hsame]
    exact Nat.two_pow_pos size
  have hsmall : settings.vectorsFor profile ty < 2 ^ 62 :=
    (Nat.le_mul_of_pos_right _ hlanes).trans_lt hcoverage
  have hs : Synthesis.ofSettings profile ty settings =
      .ok ⟨profile, settings.unitLimits profile ty⟩ :=
    Outcome.bind_of_ok (Settings.limitsFor_eq_ok haccepted hlimit (by omega)) _
  rcases Machine.exists_uses_of_ofSettings hregister hs with ⟨cells, huses⟩
  have hcomplete := Synthesis.complete_of_uses huses hoffers hlanes hcoverage
  exact ⟨hs, hcomplete, exists_forType hs hcomplete hoffers hlanes hcoverage⟩

theorem forType_eq_error {failure : Failure}
    (hs : Synthesis.ofSettings profile ty settings = .error failure) :
    forType ty profile settings = .error failure := by
  rw [forType, hs]
  rfl

/-- Settings that are not accepted are refused where they are resolved.  Those that are run into a
fault there if the profile leaves a split to be made that is no count. -/
theorem forType_of_not_accepted
    (h : ¬ (settings.Accepted profile ty ∧ profile.HasMergerLimit ty)) :
    ∃ failure, forType ty profile settings = .error failure ∧
      Synthesis.ofSettings profile ty settings = .error failure ∧
      ((∃ e, failure = .error e ∧ e.precedesOutput = true ∧ ¬ settings.Accepted profile ty) ∨
        failure = .fault .overflow ∧ profile.offers ty = true ∧ settings.InRange profile ty ∧
          ¬ profile.HasMergerLimit ty) := by
  by_cases hfault : profile.offers ty = true ∧ settings.InRange profile ty ∧
      ¬ profile.HasMergerLimit ty
  · have hlimits := Settings.limitsFor_eq_fault hfault.1 hfault.2.1 hfault.2.2
    have hs : Synthesis.ofSettings profile ty settings = .error (.fault .overflow) := by
      rw [Synthesis.ofSettings, hlimits]
      rfl
    exact ⟨_, forType_eq_error hs, hs, Or.inr ⟨rfl, hfault⟩⟩
  · have hlimit : profile.offers ty = true → settings.InRange profile ty →
        profile.HasMergerLimit ty := by
      intro hoffers hrange
      by_contra hlimit
      exact hfault ⟨hoffers, hrange, hlimit⟩
    have haccepted : ¬ settings.Accepted profile ty := fun haccepted =>
      h ⟨haccepted, hlimit haccepted.offered haccepted.range⟩
    rcases Settings.limitsFor_refused haccepted hlimit with ⟨e, hlimits, hprecedes⟩
    have hs : Synthesis.ofSettings profile ty settings = .error (.error e) := by
      rw [Synthesis.ofSettings, hlimits]
      rfl
    exact ⟨_, forType_eq_error hs, hs, Or.inl ⟨e, rfl, hprecedes, haccepted⟩⟩

theorem accepted_of_forType {plan : Plan} (h : forType ty profile settings = .ok plan) :
    settings.Accepted profile ty ∧ profile.HasMergerLimit ty := by
  by_contra hnot
  rcases forType_of_not_accepted hnot with ⟨failure, hfails, _⟩
  rw [h] at hfails
  cases hfails

theorem forType_outcomes
    (hregisters : ∀ ty ∈ profile.scalarTypes, ∃ size, profile.HasRegister ty size)
    (hcoverage : profile.offers ty = true →
      settings.vectorsFor profile ty * (profile.registerBytes / ty.byteSize) < 2 ^ 62) :
    ((∃ plan, forType ty profile settings = .ok plan) ↔
        settings.Accepted profile ty ∧ profile.HasMergerLimit ty) ∧
      (∀ plan, forType ty profile settings = .ok plan →
        ∃ s, Synthesis.ofSettings profile ty settings = .ok s ∧ plan.limits? = some s.limits ∧
          s.limits.widest = settings.vectorsFor profile ty ∧
          s.limits.widestMerger ≤
            min (settings.vectorsFor profile ty) (profile.mergerLimit ty) ∧
          s.Complete) ∧
      ∀ failure, forType ty profile settings = .error failure →
        Synthesis.ofSettings profile ty settings = .error failure ∧
          ((∃ e, failure = .error e ∧ e.precedesOutput = true ∧ ¬ settings.Accepted profile ty) ∨
            failure = .fault .overflow ∧ profile.offers ty = true ∧
              settings.InRange profile ty ∧ ¬ profile.HasMergerLimit ty) := by
  by_cases h : settings.Accepted profile ty ∧ profile.HasMergerLimit ty
  · have hoffers := h.1.offered
    rcases hregisters ty (List.contains_iff_mem.1 hoffers) with ⟨size, hregister⟩
    rcases forType_of_accepted hregister h.1 h.2 (hcoverage hoffers) with
      ⟨hs, hcomplete, plan, hplan⟩
    refine ⟨⟨fun _ => h, fun _ => ⟨plan, hplan⟩⟩, fun plan' hplan' => ?_, fun failure hfail => ?_⟩
    · rcases forType_eq_ok hplan' with ⟨s, _, _, _, hs', hparts⟩
      rw [hs] at hs'
      cases hs'
      exact ⟨_, hs, hparts.limits, rfl, h.1.widestMerger_le, hcomplete⟩
    · rw [hplan] at hfail
      cases hfail
  · rcases forType_of_not_accepted h with ⟨failure, hplan, hs, hwhy⟩
    have hnone : ∀ plan, forType ty profile settings ≠ .ok plan :=
      fun plan hok => h (accepted_of_forType hok)
    refine ⟨⟨fun hok => accepted_of_forType hok.choose_spec, fun haccepted => absurd haccepted h⟩,
      fun plan hok => absurd hok (hnone plan), fun failure' hfail => ?_⟩
    rw [hplan] at hfail
    cases hfail
    exact ⟨hs, hwhy⟩

/-- Three registers of four lanes, with mergers of three where those of two would do. -/
theorem forType_outcomes_neon :
    let settings := Settings.withWidestMerger { widest := some 3 } .neon 3
    ∃ plan s, forType .int32 InstructionSet.neonProfile settings = .ok plan ∧
      Synthesis.ofSettings InstructionSet.neonProfile .int32 settings = .ok s ∧
      plan.limits? = some s.limits ∧ s.limits.widest = 3 ∧ s.limits.widestMerger ≤ min 3 8 ∧
      s.Complete := by
  intro settings
  have hregisters : ∀ ty ∈ InstructionSet.neonProfile.scalarTypes,
      ∃ size, InstructionSet.neonProfile.HasRegister ty size := by
    intro ty hty
    cases ty with
    | int32 | uint32 | float => exact ⟨2, by decide, rfl⟩
    | double => exact ⟨1, by decide, rfl⟩
    | int64 | uint64 => exact absurd hty (by decide)
  have haccepted : settings.Accepted InstructionSet.neonProfile .int32 := by
    refine ⟨rfl, ⟨by decide, by decide⟩, fun width hwidth => ?_⟩
    cases hwidth
    exact ⟨by decide, by decide⟩
  have houtcomes := @forType_outcomes settings InstructionSet.neonProfile .int32 hregisters
    fun _ => by decide
  rcases houtcomes.1.2 ⟨haccepted, fun _ => by decide⟩ with ⟨plan, hplan⟩
  rcases houtcomes.2.1 plan hplan with ⟨s, hs, hlimits, hwidest, hmerger, hcomplete⟩
  exact ⟨plan, s, hplan, hs, hlimits, hwidest, hmerger, hcomplete⟩

/-- Four registers are well within what a profile allows that names no widest merger, but the split
of the widest network that it allows is no count. -/
theorem forType_overflows :
    let profile : IsaProfile :=
      { InstructionSet.avx2Profile with
        scalarTypes := [.int64]
        registerBytes := 16
        registers := 4
        vectorCeiling := fun _ => 2 ^ 64 - 1 }
    let settings : Settings := { widest := some 4 }
    (∀ ty ∈ profile.scalarTypes, ∃ size, profile.HasRegister ty size) ∧
      settings.vectorsFor profile .int64 * (profile.registerBytes / ScalarType.int64.byteSize) <
        2 ^ 62 ∧
      settings.Accepted profile .int64 ∧
      forType .int64 profile settings = .error (.fault .overflow) := by
  intro profile settings
  refine ⟨fun ty hty => ?_, by decide, ⟨rfl, ⟨by decide, by decide⟩, nofun⟩, rfl⟩
  rw [List.mem_singleton.1 hty]
  refine ⟨1, by decide, ?_⟩
  dsimp only [profile]
  rfl

end Plan

end Bitonic
