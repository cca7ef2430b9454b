import Bitonic.Output.Files
import Bitonic.Proofs.FileSystem.Locate
import Bitonic.Proofs.Plan.Generated
import Mathlib.Data.List.Nodup
/-!
# Names of output files

Every unit has a title of its own, so every plan of a run goes to a file of its own.  The staging
files share the directory with the output files, and no title is another one with as many letters
more as the staging suffix has, so whatever the extension no staging file gets in the way of another
unit's output.

* `GenerationRun.nodup_titles` — the titles of a run's plans are distinct;
* `Plan.fileNames_disjoint` — plans of different titles share no file name;
* `Plan.isStep_of_mem_fileNames` — the names stay in the output directory.
-/

namespace Bitonic

theorem InstructionSet.mem_all (isa : InstructionSet) : isa ∈ all := by cases isa <;> decide

theorem ScalarType.mem_none_all (ty? : Option ScalarType) : ty? ∈ none :: all.map some := by
  rcases ty? with _ | ty
  · decide
  · cases ty <;> decide

namespace Plan

/-- The titles of all units there are, letter by letter. -/
def titles : List (List Char) :=
  InstructionSet.all.flatMap fun isa =>
    (none :: ScalarType.all.map some).map fun ty? => (titleOf isa ty?).toList

theorem toList_titleOf_mem (isa : InstructionSet) (ty? : Option ScalarType) :
    (titleOf isa ty?).toList ∈ titles :=
  List.mem_flatMap.2 ⟨isa, isa.mem_all, List.mem_map.2 ⟨ty?, ScalarType.mem_none_all ty?, rfl⟩⟩

theorem toList_title_mem (plan : Plan) : plan.title.toList ∈ titles :=
  toList_titleOf_mem plan.isa plan.element?

theorem not_mem_of_mem_titles : ∀ title ∈ titles, '/' ∉ title := by decide +kernel

theorem ne_append_of_mem_titles : ∀ title ∈ titles, ∀ title' ∈ titles,
    title.length = title'.length + 4 → title.take title'.length ≠ title' := by
  decide +kernel

theorem titleOf_inj {isa isa' : InstructionSet} {ty? ty?' : Option ScalarType}
    (h : titleOf isa ty? = titleOf isa' ty?') : isa = isa' ∧ ty? = ty?' := by
  have hpairs : ∀ isa ∈ InstructionSet.all, ∀ isa' ∈ InstructionSet.all,
      ∀ ty? ∈ none :: ScalarType.all.map some, ∀ ty?' ∈ none :: ScalarType.all.map some,
        titleOf isa ty? = titleOf isa' ty?' → isa = isa' ∧ ty? = ty?' := by
    decide +kernel
  exact hpairs isa isa.mem_all isa' isa'.mem_all ty? (ScalarType.mem_none_all ty?) ty?'
    (ScalarType.mem_none_all ty?') h

/-- The names of the files that a plan is written to: its own one, and that of the staging file. -/
def fileNames (plan : Plan) (extension : String) : List String :=
  [plan.fileName extension, plan.fileName extension ++ ".tmp"]

variable {plan plan' : Plan} {extension name : String}

theorem toList_fileName (plan : Plan) (extension : String) :
    (plan.fileName extension).toList = "BitonicSort.".toList ++
      (plan.title.toList ++ (".generated.".toList ++ extension.toList)) := by
  simp only [fileName, toString, String.toList_append, List.append_assoc]

theorem fileName_inj (h : plan.fileName extension = plan'.fileName extension) :
    plan.title = plan'.title := by
  have hlist := congrArg String.toList h
  rw [toList_fileName, toList_fileName, List.append_cancel_left_eq,
    List.append_cancel_right_eq] at hlist
  exact String.toList_inj.1 hlist

theorem fileName_ne_append (plan plan' : Plan) (extension : String) :
    plan.fileName extension ≠ plan'.fileName extension ++ ".tmp" := by
  intro h
  have hlist := congrArg String.toList h
  rw [String.toList_append, toList_fileName, toList_fileName, List.append_assoc,
    List.append_cancel_left_eq, List.append_assoc] at hlist
  have hlength := congrArg List.length hlist
  simp only [List.length_append] at hlength
  have hmore : plan.title.toList.length = plan'.title.toList.length + 4 := by
    have hsuffix : ".tmp".toList.length = 4 := by decide
    omega
  apply ne_append_of_mem_titles _ plan.toList_title_mem _ plan'.toList_title_mem hmore
  have hfront := congrArg (List.take plan'.title.toList.length) hlist
  rwa [List.take_append_of_le_length (by omega), List.take_left'] at hfront
  rfl

theorem fileNames_disjoint (h : plan.title ≠ plan'.title)
    (hname : name ∈ plan.fileNames extension) : name ∉ plan'.fileNames extension := by
  intro hname'
  simp only [fileNames, List.mem_cons, List.not_mem_nil, or_false] at hname hname'
  rcases hname with rfl | rfl <;> rcases hname' with hname' | hname'
  · exact h (fileName_inj hname')
  · exact fileName_ne_append plan plan' extension hname'
  · exact fileName_ne_append plan' plan extension hname'.symm
  · exact h (fileName_inj (String.append_left_inj _ |>.1 hname'))

theorem isStep_of_mem_fileNames (hextension : '/' ∉ extension.toList)
    (hname : name ∈ plan.fileNames extension) : FilePath.IsStep name := by
  have htitle := not_mem_of_mem_titles _ plan.toList_title_mem
  have hletters : ∃ suffix, '/' ∉ suffix ∧
      name.toList = "BitonicSort.".toList ++ (plan.title.toList ++ suffix) := by
    simp only [fileNames, List.mem_cons, List.not_mem_nil, or_false] at hname
    rcases hname with rfl | rfl
    · exact ⟨_, by simp [hextension], toList_fileName plan extension⟩
    · refine ⟨".generated.".toList ++ (extension.toList ++ ".tmp".toList), by simp [hextension], ?_⟩
      rw [String.toList_append, toList_fileName]
      simp only [List.append_assoc]
  rcases hletters with ⟨suffix, hsuffix, hlist⟩
  refine ⟨?_, ?_, ?_, ?_⟩
  · rw [hlist]
    simp [htitle, hsuffix]
  all_goals
    intro hsame
    rw [hsame] at hlist
    simp at hlist

theorem fits_of_mem_fileNames (hname : name ∈ plan.fileNames listingSuffix) :
    '\x00' ∉ name.toList ∧ name.utf8ByteSize ≤ maxNameBytes := by
  have hall : ∀ isa ∈ InstructionSet.all, ∀ ty? ∈ none :: ScalarType.all.map some,
      '\x00' ∉ (titleOf isa ty?).toList ∧ (titleOf isa ty?).utf8ByteSize ≤ 100 := by
    decide +kernel
  have htitle : '\x00' ∉ plan.title.toList ∧ plan.title.utf8ByteSize ≤ 100 :=
    hall _ plan.isa.mem_all _ (ScalarType.mem_none_all plan.element?)
  have hletters : '\x00' ∉ (plan.fileName listingSuffix).toList := by
    simp only [toList_fileName, List.mem_append, not_or]
    exact ⟨by decide, htitle.1, by decide, by decide⟩
  have hbytes : (plan.fileName listingSuffix).utf8ByteSize =
      12 + plan.title.utf8ByteSize + 11 + 3 := by
    simp only [fileName, toString, String.utf8ByteSize_append]
    rfl
  rw [maxNameBytes]
  rcases List.mem_pair.1 hname with rfl | rfl
  · exact ⟨hletters, by omega⟩
  · have hsuffix : ".tmp".utf8ByteSize = 4 := rfl
    rw [String.toList_append, List.mem_append, not_or, String.utf8ByteSize_append]
    exact ⟨⟨hletters, by decide⟩, by omega⟩

end Plan

/-! ## The units of a run -/

theorem Synthesis.isa_of_ofSettings {profile : IsaProfile} {ty : ScalarType} {settings : Settings}
    {s : Synthesis} (h : ofSettings profile ty settings = .ok s) : s.limits.isa = profile.isa := by
  rcases limits_of_ofSettings h with ⟨_, _, _, _, _, _, rfl⟩
  rfl

namespace GenerationRun

variable {run : GenerationRun} {unit : GenerationUnit} {plan : Plan} {settings : Settings}

theorem title_of_planFor (h : run.planFor unit = .ok plan) : plan.title = unit.name := by
  rcases unit with ⟨isa, _ | ty⟩
  · have hheading := (Plan.forIsa_eq_ok h).1
    rw [Plan.title, Plan.isa, Plan.element?, Plan.limits?, hheading]
    exact congrArg (Plan.titleOf · none) isa.isa_profile
  · rcases Plan.forType_eq_ok h with ⟨s, _, _, _, hs, hparts⟩
    have hisa := Synthesis.isa_of_ofSettings hs
    have helement := (Synthesis.resolved_of_ofSettings hs).ofType
    have hplan : plan.isa = s.limits.isa := by
      have hlimits := hparts.limits
      unfold Plan.limits? at hlimits
      unfold Plan.isa
      split at hlimits
      · cases hlimits
        rfl
      · cases hlimits
    rw [Plan.title, hplan, hisa, InstructionSet.isa_profile, Plan.element?, hparts.limits,
      ← helement]
    rfl

theorem nodup_of_firstRepeated? {seen isas : List InstructionSet}
    (h : Settings.firstRepeated? seen isas = none) :
    isas.Nodup ∧ ∀ isa ∈ isas, isa ∉ seen := by
  induction isas generalizing seen with
  | nil => exact ⟨List.nodup_nil, nofun⟩
  | cons isa isas ih =>
      unfold Settings.firstRepeated? at h
      split at h
      · cases h
      · next hnew =>
        have hrest := ih h
        constructor
        · exact List.nodup_cons.2 ⟨fun hmem => hrest.2 isa hmem List.mem_cons_self, hrest.1⟩
        · exact List.forall_mem_cons.2 ⟨hnew, fun i hi hseen =>
            hrest.2 i hi (List.mem_cons_of_mem _ hseen)⟩

theorem nodup_chosenIsas (h : ofSettings settings = .ok run) :
    run.settings.chosenIsas.Nodup := by
  rcases Outcome.bind_eq_ok_iff.1 h with ⟨_, hcheck, h⟩
  cases h
  unfold Settings.chosenIsas
  unfold Settings.check at hcheck
  split at hcheck
  · cases hcheck
  · split at hcheck
    · next heach =>
      rw [if_pos heach]
      decide
    · next hsome =>
      rw [if_neg hsome]
      split at hcheck
      · cases hcheck
      · split at hcheck
        · cases hcheck
        · next hnone => exact (nodup_of_firstRepeated? hnone).1

theorem isa_of_mem_unitsOf {isa : InstructionSet} (h : unit ∈ unitsOf isa) : unit.isa = isa := by
  rcases List.mem_append.1 h with h | h
  · rcases List.mem_map.1 h with ⟨ty, _, rfl⟩
    rfl
  · rw [List.mem_singleton.1 h]

theorem nodup_units (h : ofSettings settings = .ok run) : run.units.Nodup := by
  apply List.nodup_flatMap.2
  constructor
  · intro isa _
    cases isa <;> decide
  · refine (nodup_chosenIsas h).imp ?_
    intro isa isa' hne unit hunit hunit'
    exact hne ((isa_of_mem_unitsOf hunit).symm.trans (isa_of_mem_unitsOf hunit'))

/-- No two units of a run are written to the same file. -/
theorem nodup_titles {plans : List Plan} (h : ofSettings settings = .ok run)
    (hplans : run.planInTurn = .ok plans) : (plans.map Plan.title).Nodup := by
  rw [Outcome.map_eq_of_mapM hplans fun _ _ => title_of_planFor]
  apply (nodup_units h).map
  rintro ⟨isa, ty?⟩ ⟨isa', ty?'⟩ hname
  rw [GenerationUnit.mk.injEq]
  exact Plan.titleOf_inj hname

end GenerationRun

end Bitonic
