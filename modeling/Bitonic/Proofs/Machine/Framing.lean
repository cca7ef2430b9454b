import Bitonic.Proofs.Machine.InPlace
import Bitonic.Proofs.Machine.Inlining
import Bitonic.Proofs.Machine.KnownRoutines
import Bitonic.Proofs.Network.Confined
/-!
# Networks inside larger register files

A body that keeps to the registers below its width does the same whatever registers stand before and
after its own: running it from some register on is running it alone on its registers and putting
them back between the others, with the same failure where it fails.

* `Layer.run_framed` — one layer;
* `Machine.runSteps_framed` — the steps of a body, calls included;
* `Machine.calls_confined` — bodies of networks keep to their registers, and a call of a routine
  does to them what the routine does alone.
-/

namespace Bitonic

variable {α : Type}

namespace RegisterFile

/-- Registers with others before and after them. -/
def framed (before after inner : RegisterFile α) : RegisterFile α := before ++ inner ++ after

variable {before after inner : RegisterFile α} {r first width : Nat} {register : List α}

theorem length_framed (before after inner : RegisterFile α) :
    (framed before after inner).length = before.length + inner.length + after.length := by
  rw [framed, List.length_append, List.length_append]

theorem getD_framed (hr : r < inner.length) :
    (framed before after inner).getD (before.length + r) [] = inner.getD r [] := by
  rw [framed, List.append_assoc, List.getD_append_right _ _ _ _ (Nat.le_add_right _ _),
    Nat.add_sub_cancel_left, List.getD_append _ _ _ _ hr]

theorem set_framed (hr : r < inner.length) :
    (framed before after inner).set (before.length + r) register =
      framed before after (inner.set r register) := by
  rw [framed, framed, List.append_assoc, List.append_assoc,
    List.set_append_right _ _ (Nat.le_add_right _ _), Nat.add_sub_cancel_left,
    List.set_append_left _ _ hr]

theorem framed_framed (before after front back inner : RegisterFile α) :
    framed before after (framed front back inner) =
      framed (before ++ front) (back ++ after) inner := by
  simp only [framed, List.append_assoc]

def segment (file : RegisterFile α) (first width : Nat) : RegisterFile α :=
  List.take width (List.drop first file)

/-- The file with other registers in place of the `width` ones from the first on. -/
def around (file : RegisterFile α) (first width : Nat) : RegisterFile α → RegisterFile α :=
  framed (List.take first file) (List.drop (first + width) file)

variable {file : RegisterFile α} {lanes : Nat}

theorem around_segment (file : RegisterFile α) (first width : Nat) :
    file.around first width (file.segment first width) = file := by
  rw [around, segment, framed, List.append_assoc, ← List.drop_drop, List.take_append_drop,
    List.take_append_drop]

theorem length_segment (h : first + width ≤ file.length) :
    (file.segment first width).length = width := by
  rw [segment, List.length_take, List.length_drop]
  omega

theorem Shaped.segment (h : file.Shaped lanes) (first width : Nat) :
    Shaped lanes (file.segment first width) :=
  fun register hmem => h register (List.mem_of_mem_drop (List.mem_of_mem_take hmem))

theorem Shaped.of_framed (h : Shaped lanes (framed before after inner)) : inner.Shaped lanes :=
  fun register hmem => h register (List.mem_append_left _ (List.mem_append_right _ hmem))

theorem exists_framed (h : first + width ≤ file.length) : ∃ before after inner,
    file = framed before after inner ∧ before.length = first ∧ inner.length = width := by
  refine ⟨List.take first file, List.drop (first + width) file, file.segment first width,
    (around_segment file first width).symm, ?_, length_segment h⟩
  rw [List.length_take]
  omega

end RegisterFile

open RegisterFile

variable [Scalar α]

theorem Layer.run_framed {l : Layer} {before after inner : RegisterFile α}
    (htop : l.topRegister < inner.length)
    (hroom : (framed before after inner).length ≤ Count.limit) :
    l.run before.length (framed before after inner) =
      framed before after <$> l.run 0 inner := by
  have hlength := length_framed before after inner
  rw [run_of_lt (by omega) hroom, run_of_lt (by omega) (by omega)]
  cases l with
  | inside r x =>
      have hr : r < inner.length := htop
      simp only [Nat.zero_add, getD_framed hr]
      cases x.run (inner.getD r []) with
      | error failure => rfl
      | ok register => exact congrArg Except.ok (set_framed hr)
  | between low high d =>
      have hmax : max low high < inner.length := htop
      have hlow : low < inner.length := by omega
      have hhigh : high < inner.length := by omega
      simp only [Nat.zero_add, getD_framed hlow, getD_framed hhigh]
      refine congrArg Except.ok ?_
      rw [set_framed hlow, set_framed (by rwa [List.length_set])]

theorem Synthesis.Offers.sound {size : Nat} {s : Synthesis} {cells : RegisterNetworks size}
    {x : Exchange} (hx : s.Offers x) (hs : s.Uses cells) : x.Sound (2 ^ size) := by
  obtain ⟨d, xs, hxs, hmem⟩ := hx
  rcases hxs with hxs | hxs
  · rw [hs.sorter d] at hxs
    cases hxs
    exact (cells.sorting d).sound x hmem
  · rw [hs.merger d] at hxs
    cases hxs
    exact (cells.cleaning d).sound x hmem

/-! ## Layers on any values -/

namespace Layer

variable {lanes count : Nat} {file : RegisterFile α}

theorem exists_run {l : Layer} (hl : l.Sound lanes) (hwithin : l.Within 0 count)
    (hcount : count ≤ Count.limit) (hfile : file.Shaped lanes) (hlength : file.length = count) :
    ∃ file', l.run 0 file = .ok file' := by
  have htop : 0 + l.topRegister < file.length := by
    have hlt := hwithin.topRegister_lt
    omega
  rw [run_of_lt htop (by omega)]
  cases l with
  | inside r x =>
      have hfit := (hfile.length_getD htop).trans hl.length.symm
      obtain ⟨register, hrun, _⟩ := x.run_values hfit
      exact ⟨_, Outcome.bind_of_ok hrun _⟩
  | between low high d => exact ⟨_, rfl⟩

theorem AllWithin.exists_runAll {ls : List Layer} (h : AllWithin lanes 0 count ls)
    (hcount : count ≤ Count.limit) (hfile : file.Shaped lanes) (hlength : file.length = count) :
    ∃ file' : RegisterFile α, runAll ls file = .ok file' ∧ file'.Shaped lanes ∧
      file'.length = count := by
  induction ls generalizing file with
  | nil => exact ⟨file, rfl, hfile, hlength⟩
  | cons l ls ih =>
      obtain ⟨⟨hsound, hwithin⟩, hrest⟩ := List.forall_mem_cons.1 h
      obtain ⟨next, hrun⟩ := exists_run hsound hwithin hcount hfile hlength
      obtain ⟨hnext, hsame⟩ := shaped_of_run hfile hrun
      obtain ⟨last, hrunRest, hlast⟩ := ih hrest hnext (hsame.trans hlength)
      exact ⟨last, (Outcome.bind_of_ok hrun _).trans hrunRest, hlast⟩

end Layer

/-! ## Bodies among other registers -/

namespace Machine

variable {machine : Machine} {lanes width : Nat} {steps : List Step}

/-- The bodies that calls find keep to the registers of the callee. -/
def Confines (machine : Machine) : Prop :=
  ∀ key r, machine.routineFor key = .ok r → ∀ step ∈ r.body, step.Confined key.width

/-- Confined steps, with so many levels left, do the same among other registers. -/
def RunsFramed (machine : Machine) (α : Type) [Scalar α] (lanes levels : Nat) : Prop :=
  ∀ {width : Nat} {steps : List Step}, (∀ step ∈ steps, step.Confined width) →
    ∀ {before after inner : RegisterFile α}, inner.Shaped lanes → inner.length = width →
      (framed before after inner).length ≤ Count.limit →
        machine.runSteps levels before.length steps (framed before after inner) =
          framed before after <$> machine.runSteps levels 0 steps inner

variable {levels first : Nat} {before after inner : RegisterFile α}

/-- A body on some of the registers of its caller, which stand among others. -/
theorem RunsFramed.nested (h : machine.RunsFramed α lanes levels)
    (hsteps : ∀ step ∈ steps, step.Confined width) (hshaped : inner.Shaped lanes)
    (hlast : first + width ≤ inner.length)
    (hroom : (framed before after inner).length ≤ Count.limit) :
    machine.runSteps levels (before.length + first) steps (framed before after inner) =
      framed before after <$> machine.runSteps levels first steps inner := by
  obtain ⟨front, back, middle, rfl, rfl, hmiddle⟩ := exists_framed hlast
  have hinside : (framed front back middle).length ≤ Count.limit := by
    rw [length_framed] at hroom
    omega
  have halone := h hsteps hshaped.of_framed hmiddle hinside
  rw [framed_framed] at hroom
  have hwhole := h hsteps hshaped.of_framed hmiddle hroom
  rw [halone, framed_framed, ← List.length_append, hwhole]
  cases machine.runSteps levels 0 steps middle with
  | error failure => rfl
  | ok file => exact congrArg Except.ok (framed_framed ..).symm

theorem RunsFramed.singleton (h : machine.RunsFramed α lanes levels)
    (hconfines : machine.Confines) (hlanes : machine.lanes ≠ 0) {step : Step}
    (hstep : step.Confined width) (hshaped : inner.Shaped lanes) (hinner : inner.length = width)
    (hroom : (framed before after inner).length ≤ Count.limit) :
    machine.runSteps (levels + 1) before.length [step] (framed before after inner) =
      framed before after <$> machine.runSteps (levels + 1) 0 [step] inner := by
  have hlength := length_framed before after inner
  cases step with
  | layer l =>
      have htop : l.topRegister < inner.length := hinner ▸ hstep.topRegister_lt
      rw [runSteps_layer hlanes, runSteps_layer hlanes, Layer.run_framed htop hroom]
  | call callee first =>
      obtain ⟨hpos, hlast⟩ := hstep
      rw [runSteps_call hlanes, runSteps_call hlanes]
      cases hroutine : machine.routineFor callee with
      | error failure => rfl
      | ok r =>
          have houter : Count.add before.length first = .ok (before.length + first) :=
            Count.add_eq_ok (by omega)
          have halone : Count.add 0 first = .ok first := by
            rw [Count.add_eq_ok (by omega), Nat.zero_add]
          rw [Outcome.bind_of_ok rfl, Outcome.bind_of_ok (Outcome.liftM_eq_ok_iff.2 houter),
            Outcome.bind_of_ok rfl, Outcome.bind_of_ok (Outcome.liftM_eq_ok_iff.2 halone)]
          exact h.nested (hconfines callee r hroutine) hshaped (hinner ▸ hlast) hroom
  | outer outer => exact absurd hstep id

theorem runSteps_framed (hconfines : machine.Confines) (hlanes : machine.lanes ≠ 0) (levels : Nat) :
    machine.RunsFramed α lanes levels := by
  -- levels first, since a call runs a body a level below; then the steps of the body
  induction levels with
  | zero =>
      intro width steps _ before after inner _ _ _
      rw [runSteps, runSteps]
      rfl
  | succ levels ih =>
      intro width steps hsteps before after inner hshaped hinner hroom
      induction steps generalizing inner with
      | nil =>
          rw [runSteps_nil hlanes, runSteps_nil hlanes]
          rfl
      | cons step steps ihSteps =>
          obtain ⟨hstep, hrest⟩ := List.forall_mem_cons.1 hsteps
          rw [runSteps_cons, runSteps_cons machine levels 0,
            ih.singleton hconfines hlanes hstep hshaped hinner hroom]
          cases hrun : machine.runSteps (levels + 1) 0 [step] inner with
          | error failure => rfl
          | ok inner' =>
              obtain ⟨hshaped', hlength⟩ := shaped_of_runSteps hshaped hrun
              refine ihSteps hrest hshaped' (hlength.trans hinner) ?_
              rw [length_framed] at hroom ⊢
              rwa [hlength]

/-- A call runs the body of its routine alone and puts the registers back. -/
theorem runSteps_call_framed (hconfines : machine.Confines) (hlanes : machine.lanes ≠ 0)
    {key : NetworkKey} {r : Routine} (hfound : machine.routineFor key = .ok r)
    (hpos : 0 < key.width) {base first : Nat} {file : RegisterFile α} (hfile : file.Shaped lanes)
    (hlast : base + first + key.width ≤ file.length) (hroom : file.length ≤ Count.limit)
    (levels : Nat) :
    machine.runSteps (levels + 1) base [.call key first] file =
      file.around (base + first) key.width <$>
        machine.runSteps levels 0 r.body (file.segment (base + first) key.width) := by
  have hplace : Count.add base first = .ok (base + first) := Count.add_eq_ok (by omega)
  have hbefore : (List.take (base + first) file).length = base + first := by
    rw [List.length_take]
    omega
  have hwhole := around_segment file (base + first) key.width
  rw [around] at hwhole
  have hrun := runSteps_framed hconfines hlanes levels (hconfines key r hfound)
    (hfile.segment (base + first) key.width) (length_segment hlast) (hwhole ▸ hroom)
  rw [hwhole, hbefore] at hrun
  rw [runSteps_call hlanes, Outcome.bind_of_ok hfound,
    Outcome.bind_of_ok (Outcome.liftM_eq_ok_iff.2 hplace)]
  exact hrun

/-! ## Machines of generated plans -/

theorem confines_of_parts {plan : Plan} {s : Synthesis} {networks entries : List Routine}
    {dispatch : Routine} (h : plan.Parts s networks entries dispatch) {machine : Machine}
    (hmachine : machine.plan = plan) : machine.Confines := by
  subst hmachine
  intro key r hr
  exact Synthesis.confined_bodyOf (h.implements_of_find? (find?_of_routineFor hr)).body

section Follows

variable {size : Nat} {s : Synthesis} {cells : RegisterNetworks size} {key : NetworkKey}
  {r : Routine} {file : RegisterFile α}

theorem Follows.exists_runSteps (h : machine.Follows s cells) (hbody : s.bodyOf key = .ok r.body)
    (hfile : file.Shaped (2 ^ size)) (hlength : file.length = key.width) :
    ∃ out : RegisterFile α, out.Shaped (2 ^ size) ∧ out.length = key.width ∧
      ∀ levels, Nat.clog 2 key.width + 1 < levels →
        machine.runSteps levels 0 r.body file = .ok out := by
  obtain ⟨hpos, hsmall⟩ := Synthesis.width_of_bodyOf hbody
  have hnesting : Nat.clog 2 key.width ≤ 63 := Nat.clog_le_of_le_pow hsmall
  have hcount : key.width ≤ Count.limit := by
    unfold Count.limit
    omega
  obtain ⟨body, hbody', hexp⟩ := Synthesis.bodyOf_expands h.uses hnesting hpos
    (Nat.le_pow_clog Nat.one_lt_two key.width)
  rw [hbody] at hbody'
  cases hbody'
  obtain ⟨out, hrun, hout⟩ :=
    (cells.allWithin_layersOf key 0).exists_runAll hcount hfile hlength
  refine ⟨out, hout.1, hout.2, fun levels hlevels => ?_⟩
  obtain ⟨levels, rfl⟩ := Nat.exists_eq_add_of_le' (Nat.lt_of_le_of_lt (Nat.zero_le _) hlevels)
  have hexp' := h.expansion ((hexp 0 (by omega)).mono (fun _ _ h => h)
    (Nat.lt_succ_iff.1 hlevels))
  rw [runSteps_of_expansion h.lanes_ne_zero hexp', hrun]

theorem Follows.runOn_flatten (h : machine.Follows s cells)
    (htype : Scalar.element α = s.limits.element) (hroutine : s.routineOf key = .ok r)
    (hroom : key.width * 2 ^ size < Count.limit) (hfile : file.Shaped (2 ^ size))
    (hlength : file.length = key.width) :
    machine.runOn r file.flatten = (machine.runBody r.body file).map List.flatten := by
  obtain ⟨_, _, _, _, hwidth, _⟩ := Synthesis.routineOf_eq_ok hroutine
  have hvalues : file.flatten.length = key.width * 2 ^ size := by
    rw [hfile.length_flatten, hlength]
  have hcut : RegisterFile.ofValues (2 ^ size) file.flatten = file := by
    rw [ofValues_eq_take (Nat.two_pow_pos size) hfile.length_flatten, take_flatten hfile]
  rw [runOn_of_length (htype.trans h.element.symm) (by rw [hvalues, hwidth, h.lanes])
    (hvalues ▸ hroom), h.lanes, hcut]

end Follows

section Unit

variable {size : Nat} {ty : ScalarType} {profile : IsaProfile} {settings : Settings}

/-- A network of any width up to `2 ^ 62` can be made and keeps to the registers below its width,
where its exchanges pair all lanes of one.  So a call of a routine of the plan, anywhere in a larger
file, puts what the routine alone does to its registers back between the others.  It fails where the
body alone does, which is not where enough levels are left. -/
theorem calls_confined {s : Synthesis} (hregister : profile.HasRegister ty size)
    (hs : Synthesis.ofSettings profile ty settings = .ok s) :
    (∀ key : NetworkKey, 0 < key.width → key.width ≤ 2 ^ 62 →
      ∃ body, s.bodyOf key = .ok body ∧ (∀ step ∈ body, step.Confined key.width) ∧
        ∀ register x, .layer (.inside register x) ∈ body → x.pairing.length = 2 ^ size) ∧
    ∀ plan, Plan.forType ty profile settings = .ok plan →
      ∃ machine, Machine.ofPlan plan = .ok machine ∧
        ∀ key r, plan.find? key = some r →
          ∀ (base first : Nat) (file : RegisterFile ty.Value), file.Shaped (2 ^ size) →
            file.length ≤ Count.limit → base + first + key.width ≤ file.length →
            (∀ levels, machine.runSteps (levels + 1) base [.call key first] file =
              file.around (base + first) key.width <$>
                machine.runSteps levels 0 r.body (file.segment (base + first) key.width)) ∧
            ∃ inner : RegisterFile ty.Value, inner.Shaped (2 ^ size) ∧ inner.length = key.width ∧
              machine.runOn r (file.segment (base + first) key.width).flatten =
                .ok inner.flatten ∧
              ∀ levels, Nat.clog 2 key.width + 1 < levels →
                machine.runSteps (levels + 1) base [.call key first] file =
                  .ok (file.around (base + first) key.width inner) := by
  constructor
  · intro key hpos hwidth
    obtain ⟨cells, huses⟩ := exists_uses_of_ofSettings hregister hs
    obtain ⟨body, hbody, _⟩ := Synthesis.bodyOf_expands huses (e := 62) (by omega) hpos hwidth
    exact ⟨body, hbody, Synthesis.confined_bodyOf hbody,
      fun _ _ hx => ((Synthesis.offers_of_bodyOf hbody hx).sound huses).length⟩
  · intro plan hplan
    obtain ⟨helement, hlanes, cells, networks, entries, dispatch, hparts, hfollows⟩ :=
      exists_follows hregister hs hplan
    have htype : Scalar.element ty.Value = s.limits.element :=
      (ScalarType.element_value ty).trans helement.symm
    obtain ⟨table, _, htable⟩ := hparts.lengthTable?_eq
    have hcoverage := Synthesis.coverage_lt_limit htable
    refine ⟨_, ofPlan_eq_ok hparts.limits, fun key r hfind base first file hfile hroom hlast => ?_⟩
    have hroutine := hparts.routineOf_of_find? hfind
    obtain ⟨_, hbody, _⟩ := Synthesis.routineOf_eq_ok hroutine
    obtain ⟨hpos, hwidth⟩ := Synthesis.width_of_routineOf hroutine
    have hlanesRoom : key.width * 2 ^ size < Count.limit :=
      hlanes ▸ (Nat.mul_le_mul_right _ hwidth).trans_lt hcoverage
    have hcall := fun levels => runSteps_call_framed (confines_of_parts hparts rfl)
      hfollows.lanes_ne_zero (routineFor_eq_ok hfind) hpos hfile hlast hroom levels
    have hnesting : Nat.clog 2 key.width ≤ 63 :=
      Nat.clog_le_of_le_pow (Synthesis.width_of_bodyOf hbody).2
    obtain ⟨inner, hshaped, hinner, hrun⟩ :=
      hfollows.exists_runSteps hbody (hfile.segment _ _) (length_segment hlast)
    refine ⟨hcall, inner, hshaped, hinner, ?_, fun levels hlevels => ?_⟩
    · rw [hfollows.runOn_flatten htype hroutine hlanesRoom (hfile.segment _ _)
        (length_segment hlast), runBody, hrun _ (by unfold callLimit; omega)]
      rfl
    · rw [hcall, hrun levels hlevels]
      rfl

/-- A sorter of two registers, called on the two in the middle of four. -/
theorem calls_confined_three :
    let file : RegisterFile ScalarType.int32.Value :=
      [[9, 9, 9, 9], [4, -7, 0, 3], [8, 2, -1, 5], [6, 6, 6, 6]]
    ∃ s body plan machine r inner,
      Synthesis.ofSettings InstructionSet.neonProfile .int32 { widest := some 3 } = .ok s ∧
      s.bodyOf (.merge 100 .ascending) = .ok body ∧ (∀ step ∈ body, step.Confined 100) ∧
      Plan.forType .int32 InstructionSet.neonProfile { widest := some 3 } = .ok plan ∧
      Machine.ofPlan plan = .ok machine ∧ plan.find? (.sort 2 .ascending) = some r ∧
      machine.runOn r [4, -7, 0, 3, 8, 2, -1, 5] = .ok inner.flatten ∧
      machine.runSteps 4 0 [.call (.sort 2 .ascending) 1] file =
        .ok ([[9, 9, 9, 9]] ++ inner ++ [[6, 6, 6, 6]]) := by
  intro file
  have hregister : InstructionSet.neonProfile.HasRegister .int32 2 := ⟨by decide, rfl⟩
  obtain ⟨plan, hplan⟩ := Outcome.exists_eq_ok_of_isOk (x := Plan.forType .int32
    InstructionSet.neonProfile { widest := some 3 }) (by decide +kernel)
  have hs : Synthesis.ofSettings InstructionSet.neonProfile .int32 { widest := some 3 } =
      .ok ⟨InstructionSet.neonProfile, ⟨.neon, .int32, 4, 3, 2, 0, 0⟩⟩ := rfl
  obtain ⟨hbodies, hcalls⟩ := calls_confined hregister hs
  obtain ⟨body, hbody, hconfined, _⟩ := hbodies (.merge 100 .ascending) (by decide) (by decide)
  obtain ⟨machine, hmachine, hcall⟩ := hcalls plan hplan
  obtain ⟨_, _, _, hparts⟩ := Plan.exists_parts hs hplan
  have hkey : Synthesis.hasRoutine ⟨InstructionSet.neonProfile, ⟨.neon, .int32, 4, 3, 2, 0, 0⟩⟩
      (.sort 2 .ascending) = true := by decide
  obtain ⟨r, hfind, _⟩ := hparts.find?_eq hkey
  obtain ⟨_, inner, _, _, halone, hrun⟩ := hcall _ r hfind 0 1 file
    (List.forall_iff_forall_mem.1 (by decide)) (by decide) (by decide)
  have hlevels : Nat.clog 2 2 + 1 < 3 := by decide
  exact ⟨_, body, plan, machine, r, inner, hs, hbody, hconfined, hplan, hmachine, hfind, halone,
    hrun 3 hlevels⟩

end Unit

end Machine

end Bitonic
