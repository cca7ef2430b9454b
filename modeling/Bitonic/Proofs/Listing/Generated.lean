import Bitonic.Proofs.Listing.Reading
import Bitonic.Proofs.Output.FileNames
/-!
# Listings of generated plans

Generated plans are told apart by their listings, up to the numbers that shaped the networks and are
said nowhere: their effect on the routines is.

* `Listing.isLine_words` — the lines of routines that are legible are made of words;
* `Plan.Generated.legible` — the routines of a generated plan are;
* `Plan.listing_eq_iff` — generated plans with the same listing.
-/

namespace Bitonic

open Listing

/-! ## Names are words -/

section Names

@[simp] theorem isWord_direction (d : Direction) : IsWord d.name := by cases d <;> decide

@[simp] theorem isWord_sentinel (s : Sentinel) : IsWord s.name := by cases s <;> decide

@[simp] theorem isWord_reach (r : Reach) : IsWord r.name := by cases r <;> decide

@[simp] theorem isWord_residual (r : ResidualMode) : IsWord r.name := by cases r <;> decide

@[simp] theorem isWord_scalarType (ty : ScalarType) : IsWord ty.name := by cases ty <;> decide

@[simp] theorem isWord_role (role : RoutineRole) : IsWord role.name := by
  cases role with
  | entryPoint minLength maxLength => exact (by decide : IsWord "entry-point")
  | _ => decide

@[simp] theorem isWord_title (plan : Plan) : IsWord plan.title := by
  have hall : ∀ isa ∈ InstructionSet.all, ∀ ty? ∈ none :: ScalarType.all.map some,
      IsWord (Plan.titleOf isa ty?) := by
    decide +kernel
  exact hall plan.isa plan.isa.mem_all plan.element? (ScalarType.mem_none_all _)

@[simp] theorem isWord_key (key : NetworkKey) : IsWord key.name := by
  unfold NetworkKey.name
  split <;> simp +decide

@[simp] theorem isWord_entryPointName (width : Nat) (d : Direction) :
    IsWord (entryPointName width d) := by
  simp +decide [entryPointName]

@[simp] theorem isWord_lengthDispatchName (ty : ScalarType) : IsWord (lengthDispatchName ty) := by
  simp +decide [lengthDispatchName]

@[simp] theorem isWord_pairing (p : Pairing) : IsWord p.text := by
  have hpartners : IsWord (",".intercalate (p.partners.map Nat.repr)) :=
    isWord_intercalate (List.forall_mem_map.2 fun q _ => isWord_repr q)
  simp +decide [Pairing.text, hpartners]

@[simp] theorem isWord_laneSet (s : LaneSet) : IsWord s.text := by
  simp +decide [LaneSet.text]

@[simp] theorem isWord_register (index : Nat) : IsWord (registerWord index) := by
  simp +decide [registerWord]

end Names

namespace Listing

theorem isLine_layerWords (l : Layer) : IsLine (layerWords l) := by
  cases l with
  | inside r x => exact ⟨List.cons_ne_nil _ _, by simp +decide [layerWords]⟩
  | between low high d => exact ⟨List.cons_ne_nil _ _, by simp +decide [layerWords]⟩

theorem isLine_stepWords {step : Step} (h : step.OneLine) :
    ∀ words ∈ stepWords step, IsLine words := by
  rcases step with l | ⟨callee, first⟩ | ⟨vectors, residual, pad⟩ | ⟨vectors, residual⟩ | _ | _
  · exact List.forall_mem_singleton.2 (isLine_layerWords l)
  · exact List.forall_mem_singleton.2 ⟨List.cons_ne_nil _ _, by simp +decide [callWords]⟩
  · exact List.forall_mem_singleton.2 ⟨List.cons_ne_nil _ _, by simp +decide⟩
  · exact List.forall_mem_singleton.2 ⟨List.cons_ne_nil _ _, by simp +decide⟩
  · exact absurd h id
  · exact absurd h id

theorem isLine_tableWords (table : LengthTable) : IsLine (tableWords table) :=
  ⟨List.cons_ne_nil _ _, by simp +decide [tableWords]⟩

theorem isLine_rowWords {lanes : Nat} {row : LengthRow} (h : row.IsMade lanes) :
    IsLine (rowWords row) := by
  obtain ⟨width, rfl⟩ := h
  exact ⟨List.cons_ne_nil _ _, by simp +decide [rowWords, LengthRow.ofWidth]⟩

theorem isLine_choiceWords {choice : TypeChoice}
    (h : choice.routine = lengthDispatchName choice.element) : IsLine (choiceWords choice) := by
  refine ⟨List.cons_ne_nil _ _, ?_⟩
  rw [choiceWords, h]
  simp +decide

theorem isLine_headWords {r : Routine} (h : IsWord r.name) : IsLine (headWords r) := by
  have hinline : IsWord (inliningWord r.inline) := by cases r.inline <;> decide
  have hdirection : ∀ word ∈ directionWords r.direction, IsWord word := by
    cases r.direction with
    | none => exact List.forall_mem_nil _
    | some d => exact List.forall_mem_singleton.2 (isWord_direction d)
  have hwidth : IsWord ("width=" ++ Nat.repr r.width) := by simp +decide
  have hend := List.forall_mem_append.2 ⟨hdirection, List.forall_mem_singleton.2 hinline⟩
  refine ⟨List.cons_ne_nil _ _, ?_⟩
  rw [headWords, List.forall_mem_cons, List.forall_mem_cons, List.forall_mem_cons,
    List.forall_mem_cons]
  exact ⟨by decide, h, isWord_role r.role, hwidth, hend⟩

theorem isLine_headingWords (heading : PlanHeading) :
    ∀ words ∈ headingWords heading, IsLine words := by
  cases heading with
  | unit limits residual hasMinMax longest =>
      have hminMax : IsWord (if hasMinMax then "native" else "emulated") := by
        cases hasMinMax <;> decide
      have hnumber : ∀ name n, IsWord name → IsLine ["", "", name, Nat.repr n] :=
        fun name n hname => ⟨List.cons_ne_nil _ _, by simp +decide [hname]⟩
      simp only [headingWords, List.forall_mem_cons]
      refine ⟨hnumber _ _ (by decide), hnumber _ _ (by decide), hnumber _ _ (by decide),
        hnumber _ _ (by decide), ⟨List.cons_ne_nil _ _, by simp +decide⟩,
        ⟨List.cons_ne_nil _ _, ?_⟩, List.forall_mem_nil _⟩
      simp +decide [hminMax]
  | isa isa elements =>
      have helements : IsWord (",".intercalate (elements.map ScalarType.name)) :=
        isWord_intercalate (List.forall_mem_map.2 fun ty _ => isWord_scalarType ty)
      exact List.forall_mem_singleton.2 ⟨List.cons_ne_nil _ _, by simp +decide [helements]⟩

theorem isLine_routineWords {lanes : Nat} {r : Routine} (h : r.Legible lanes) :
    ∀ words ∈ routineWords r, IsLine words := by
  have hsingle : ∀ body : List Step, (∀ step ∈ body, step.OneLine) →
      ∀ words ∈ body.flatMap stepWords, IsLine words := by
    intro body hbody words hwords
    obtain ⟨step, hstep, hwords⟩ := List.mem_flatMap.1 hwords
    exact isLine_stepWords (hbody step hstep) words hwords
  cases h with
  | network key inline body hbody =>
      exact List.forall_mem_cons.2 ⟨isLine_headWords (isWord_key key), hsingle body hbody⟩
  | entryPoint width d hrange inline body hbody =>
      exact List.forall_mem_cons.2
        ⟨isLine_headWords (isWord_entryPointName width d), hsingle body hbody⟩
  | lengthDispatch ty width table hrows =>
      rw [routineWords, List.flatMap_cons, List.flatMap_nil, List.append_nil, stepWords]
      exact List.forall_mem_cons.2 ⟨isLine_headWords (isWord_lengthDispatchName ty),
        List.forall_mem_cons.2 ⟨isLine_tableWords table,
          List.forall_mem_map.2 fun row hrow => isLine_rowWords (hrows row hrow)⟩⟩
  | typeDispatch isa width choices hchoices =>
      have hname : IsWord ("sort_" ++ isa.lowerName) := by cases isa <;> decide
      rw [routineWords, List.flatMap_cons, List.flatMap_nil, List.append_nil, stepWords]
      exact List.forall_mem_cons.2 ⟨isLine_headWords hname,
        List.forall_mem_map.2 fun choice hchoice => isLine_choiceWords (hchoices choice hchoice)⟩

theorem head_of_mem_stepWords {step : Step} {words : List String} (h : words ∈ stepWords step) :
    words.head? = some "" := by
  rcases step with (_ | _) | _ | (_ | _ | table | choices)
  case outer.byLength =>
    rcases List.mem_cons.1 h with rfl | h
    · rfl
    · obtain ⟨row, _, rfl⟩ := List.mem_map.1 h
      rfl
  case outer.byType =>
    obtain ⟨choice, _, rfl⟩ := List.mem_map.1 h
    rfl
  all_goals
    rw [List.mem_singleton.1 h]
    rfl

/-- No line of a routine is the one that ends it: its first line begins otherwise, and the others
are indented. -/
theorem endWords_not_mem (r : Routine) : endWords ∉ routineWords r := by
  intro hmem
  rcases List.mem_cons.1 hmem with hhead | hmem
  · simp [endWords, headWords] at hhead
  · obtain ⟨step, _, hwords⟩ := List.mem_flatMap.1 hmem
    have hindented := head_of_mem_stepWords hwords
    simp [endWords] at hindented

theorem isLine_words {lanes : Nat} {plan : Plan} (h : ∀ r ∈ plan.routines, r.Legible lanes) :
    ∀ words ∈ plan.words, IsLine words := by
  have hroutines : ∀ words ∈ (plan.routines.map routineWords).flatMap (· ++ [endWords]),
      IsLine words := by
    intro words hwords
    obtain ⟨lines, hlines, hwords⟩ := List.mem_flatMap.1 hwords
    obtain ⟨r, hr, rfl⟩ := List.mem_map.1 hlines
    rcases List.mem_append.1 hwords with hwords | hwords
    · exact isLine_routineWords (h r hr) words hwords
    · rw [List.mem_singleton.1 hwords]
      exact ⟨List.cons_ne_nil _ _, by decide⟩
  have hbanner : IsLine bannerWords := ⟨List.cons_ne_nil _ _, by decide +kernel⟩
  have hunit : IsLine ["unit", plan.title] := ⟨List.cons_ne_nil _ _, by simp +decide⟩
  have hend : IsLine ["end", "unit", plan.title] := ⟨List.cons_ne_nil _ _, by simp +decide⟩
  rw [Plan.words, List.forall_mem_cons, List.forall_mem_cons, List.forall_mem_append,
    List.forall_mem_append, List.forall_mem_singleton]
  exact ⟨hbanner, hunit, ⟨isLine_headingWords plan.heading, hroutines⟩, hend⟩

end Listing

/-- The lanes that a plan's registers have; none for a plan without registers. -/
def PlanHeading.lanes : PlanHeading → Nat
  | .unit limits _ _ _ => limits.lanes
  | .isa _ _ => 0

/-- The heading without the numbers that are not listed. -/
def PlanHeading.listed : PlanHeading → PlanHeading
  | .unit limits residual hasMinMax longest =>
      .unit { limits with unroll := 0, inlineBreak := 0 } residual hasMinMax longest
  | .isa target elements => .isa target elements

theorem Synthesis.Closed.oneLine {s : Synthesis} {step : Step} (h : s.Closed step) :
    step.OneLine := by
  cases step with
  | layer l => trivial
  | call callee first => trivial
  | outer outer => exact absurd h id

namespace Plan

variable {plan plan' : Plan}

theorem legible_of_routineOf {s : Synthesis} {key : NetworkKey} {r : Routine} (lanes : Nat)
    (h : s.routineOf key = .ok r) : r.Legible lanes := by
  obtain ⟨_, hbody, hkey, hname, hwidth, hrole, hdirection⟩ := Synthesis.routineOf_eq_ok h
  obtain ⟨name, role, key', width, direction, inline, body⟩ := r
  dsimp only at hkey hname hwidth hrole hdirection
  subst hkey hname hwidth hrole hdirection
  exact .network key inline body fun step hstep => (Synthesis.closed_bodyOf hbody step hstep).oneLine

theorem legible_of_entryRoutine {s : Synthesis} {width : Nat} {d : Direction} {r : Routine}
    (h : s.entryRoutine width d = .ok r) : r.Legible s.limits.lanes := by
  obtain ⟨residual, network, minLength, maxLength, hnetwork, hrange, hname, hkey, hrole, hbody,
    hwidth, hdirection⟩ := Synthesis.entryRoutine_eq_ok h
  obtain ⟨name, role, key, width', direction, inline, body⟩ := r
  dsimp only at hname hkey hrole hbody hwidth hdirection
  subst hname hkey hrole hbody hwidth hdirection
  refine .entryPoint width' d hrange inline _ ?_
  rw [List.forall_mem_append, List.forall_mem_cons, List.forall_mem_singleton]
  exact ⟨⟨trivial, fun step hstep => (Synthesis.closed_invocation hnetwork step hstep).oneLine⟩,
    trivial⟩

theorem legible_of_lengthDispatch {s : Synthesis} {r : Routine}
    (h : s.lengthDispatch .unlimited = .ok r) : r.Legible s.limits.lanes := by
  obtain ⟨table, htable, h⟩ := Outcome.bind_eq_ok_iff.1 h
  cases h
  refine .lengthDispatch s.limits.element s.limits.widest table ?_
  rw [(Synthesis.lengthTable_eq_ok (Outcome.liftM_eq_ok_iff.1 htable)).2.2]
  exact List.forall_mem_map.2 fun width _ => ⟨width, rfl⟩

theorem lanes_of_limits? {limits : UnitLimits} (h : plan.limits? = some limits) :
    plan.heading.lanes = limits.lanes := by
  obtain ⟨heading, routines⟩ := plan
  cases heading with
  | unit limits' residual hasMinMax longest =>
      cases h
      rfl
  | isa target elements => cases h

theorem Generated.legible (h : plan.Generated) :
    ∀ r ∈ plan.routines, r.Legible plan.heading.lanes := by
  intro r hr
  cases h.made r hr with
  | network hlimits hcount hroutine => exact legible_of_routineOf _ hroutine
  | entryPoint hlimits hcount hpos hle hroutine =>
      rw [lanes_of_limits? hlimits]
      exact legible_of_entryRoutine hroutine
  | lengthDispatch hlimits hroutine =>
      rw [lanes_of_limits? hlimits]
      exact legible_of_lengthDispatch hroutine
  | typeDispatch hchoices =>
      refine .typeDispatch _ _ _ (List.forall_mem_map.2 fun choice hchoice => ?_)
      obtain ⟨ty, _, hty⟩ := Outcome.exists_of_mem_right (Outcome.mapM_eq_ok_iff.1 hchoices) hchoice
      obtain ⟨_, _, rfl⟩ := typeChoice_eq_ok_iff.1 hty
      rfl

theorem headingWords_listed (heading : PlanHeading) :
    headingWords heading.listed = headingWords heading := by
  cases heading with
  | unit limits residual hasMinMax longest => rfl
  | isa target elements => rfl

theorem lanes_listed (heading : PlanHeading) : heading.listed.lanes = heading.lanes := by
  cases heading with
  | unit limits residual hasMinMax longest => rfl
  | isa target elements => rfl

theorem elementNames_inj {elements elements' : List ScalarType}
    (h : ",".intercalate (elements.map ScalarType.name) =
      ",".intercalate (elements'.map ScalarType.name)) : elements = elements' := by
  have hlist := congrArg String.toList h
  rw [String.toList_intercalate, String.toList_intercalate, List.map_map, List.map_map] at hlist
  have hletters : ∀ elements : List ScalarType,
      ∀ letters ∈ elements.map (String.toList ∘ ScalarType.name), ',' ∉ letters ∧ letters ≠ [] :=
    fun elements => List.forall_mem_map.2 fun ty _ => by cases ty <;> decide
  have hnames := intercalate_inj_of_ne_nil (hletters elements) (hletters elements') hlist
  exact eq_of_map_eq (fun ty _ ty' _ hsame => ScalarType.name_inj (String.toList_inj.1 hsame)) hnames

theorem listed_of_unitWords {limits limits' : UnitLimits} {residual residual' : ResidualMode}
    {hasMinMax hasMinMax' : Bool} {longest longest' : Nat} (hisa : limits.isa = limits'.isa)
    (helement : limits.element = limits'.element)
    (h : headingWords (.unit limits residual hasMinMax longest) =
      headingWords (.unit limits' residual' hasMinMax' longest')) :
    (PlanHeading.unit limits residual hasMinMax longest).listed =
      (PlanHeading.unit limits' residual' hasMinMax' longest').listed := by
  obtain ⟨isa, element, lanes, widest, widestMerger, unroll, inlineBreak⟩ := limits
  obtain ⟨isa', element', lanes', widest', widestMerger', unroll', inlineBreak'⟩ := limits'
  simp only [headingWords, List.cons.injEq, true_and, and_true] at h
  obtain ⟨hlanes, hwidest, hmerger, hlongest, hresidual, hminMax⟩ := h
  cases hisa
  cases helement
  cases Numeral.repr_inj hlanes
  cases Numeral.repr_inj hwidest
  cases Numeral.repr_inj hmerger
  cases Numeral.repr_inj hlongest
  cases ResidualMode.name_inj hresidual
  obtain rfl : hasMinMax = hasMinMax' := by
    cases hasMinMax <;> cases hasMinMax' <;> first | rfl | exact absurd hminMax (by decide)
  rfl

theorem words_inj_heading (h : plan.words = plan'.words) : plan.isa = plan'.isa ∧
    plan.element? = plan'.element? ∧ plan.heading.listed = plan'.heading.listed ∧
    (plan.routines.map routineWords).flatMap (· ++ [endWords]) =
      (plan'.routines.map routineWords).flatMap (· ++ [endWords]) := by
  obtain ⟨_, h⟩ := List.cons.inj h
  obtain ⟨htitle, h⟩ := List.cons.inj h
  obtain ⟨h, _⟩ := List.append_inj' h rfl
  simp only [List.cons.injEq, true_and, and_true] at htitle
  obtain ⟨hisa, helement⟩ := titleOf_inj htitle
  refine ⟨hisa, helement, ?_⟩
  obtain ⟨heading, routines⟩ := plan
  obtain ⟨heading', routines'⟩ := plan'
  -- only plans for one element type have a title that says one
  cases heading with
  | unit limits residual hasMinMax longest =>
      cases heading' with
      | unit limits' residual' hasMinMax' longest' =>
          obtain ⟨hwords, hroutines⟩ := List.append_inj h rfl
          exact ⟨listed_of_unitWords hisa (Option.some.inj helement) hwords, hroutines⟩
      | isa target' elements' => cases helement
  | isa target elements =>
      cases heading' with
      | unit limits' residual' hasMinMax' longest' => cases helement
      | isa target' elements' =>
          obtain ⟨hwords, hroutines⟩ := List.append_inj h rfl
          cases hisa
          simp only [headingWords, List.cons.injEq, true_and, and_true] at hwords
          rw [elementNames_inj hwords]
          exact ⟨rfl, hroutines⟩

theorem routines_eq_of_words {lanes : Nat} (h : ∀ r ∈ plan.routines, r.Legible lanes)
    (h' : ∀ r ∈ plan'.routines, r.Legible lanes)
    (heq : (plan.routines.map routineWords).flatMap (· ++ [endWords]) =
      (plan'.routines.map routineWords).flatMap (· ++ [endWords])) :
    plan.routines = plan'.routines := by
  have hlines := eq_of_flatMap_marked
    (List.forall_mem_map.2 fun r _ => endWords_not_mem r)
    (List.forall_mem_map.2 fun r _ => endWords_not_mem r) heq
  exact eq_of_map_eq (fun r hr r' hr' => (h r hr).eq_of_words (h' r' hr')) hlines

/-- Every generated plan has a listing, and two of them have the same one exactly if they are for the
same unit, have the same routines and the same heading but for the numbers that shaped the
networks. -/
theorem listing_eq_iff (h : plan.Generated) (h' : plan'.Generated) :
    plan.listing = plan'.listing ↔ plan.isa = plan'.isa ∧ plan.element? = plan'.element? ∧
      plan.routines = plan'.routines ∧ plan.heading.listed = plan'.heading.listed := by
  rw [listing_eq_words h.writable, listing_eq_words h'.writable]
  constructor
  · intro heq
    have hwords := join_lineOf_inj (isLine_words h.legible) (isLine_words h'.legible)
      (Except.ok.inj heq)
    obtain ⟨hisa, helement, hheading, hroutines⟩ := words_inj_heading hwords
    have hlanes : plan.heading.lanes = plan'.heading.lanes := by
      rw [← lanes_listed, hheading, lanes_listed]
    exact ⟨hisa, helement, routines_eq_of_words h.legible (hlanes ▸ h'.legible) hroutines, hheading⟩
  · rintro ⟨hisa, helement, hroutines, hheading⟩
    have htitle : plan.title = plan'.title := by rw [title, title, hisa, helement]
    rw [words, words, htitle, hroutines, ← headingWords_listed, hheading, headingWords_listed]

/-- The width of the routines that are not inlined is not listed: it does not matter beyond the
widest network. -/
theorem listing_eq_iff_inlining : ∃ plan plan',
    Plan.forType .int32 InstructionSet.neonProfile { widest := some 2 } = .ok plan ∧
      Plan.forType .int32 InstructionSet.neonProfile
        { widest := some 2, inlineBreak := 8 } = .ok plan' ∧
      plan ≠ plan' ∧ plan.listing = plan'.listing := by
  have hsame : (Plan.forType .int32 InstructionSet.neonProfile { widest := some 2 }).toOption.map
      (fun plan => (plan.routines, plan.heading.listed, plan.isa, plan.element?)) =
      (Plan.forType .int32 InstructionSet.neonProfile
        { widest := some 2, inlineBreak := 8 }).toOption.map
      fun plan => (plan.routines, plan.heading.listed, plan.isa, plan.element?) := by
    decide +kernel
  have hne : (Plan.forType .int32 InstructionSet.neonProfile { widest := some 2 }).toOption ≠
      (Plan.forType .int32 InstructionSet.neonProfile
        { widest := some 2, inlineBreak := 8 }).toOption := by
    decide +kernel
  obtain ⟨plan, hplan⟩ := Outcome.exists_eq_ok_of_isOk (x := Plan.forType .int32
    InstructionSet.neonProfile { widest := some 2 }) (by decide +kernel)
  obtain ⟨plan', hplan'⟩ := Outcome.exists_eq_ok_of_isOk (x := Plan.forType .int32
    InstructionSet.neonProfile { widest := some 2, inlineBreak := 8 }) (by decide +kernel)
  rw [hplan, hplan'] at hsame hne
  obtain ⟨hroutines, hheading, hisa, helement⟩ := by simpa only [Except.toOption, Option.map_some,
    Option.some.injEq, Prod.mk.injEq] using hsame
  refine ⟨plan, plan', hplan, hplan', fun h => hne (h ▸ rfl), ?_⟩
  exact (listing_eq_iff (.forType hplan) (.forType hplan')).2 ⟨hisa, helement, hroutines, hheading⟩

end Plan

end Bitonic
