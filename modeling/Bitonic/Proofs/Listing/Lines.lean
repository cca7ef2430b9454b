import Bitonic.Proofs.Listing.Words
import Bitonic.Proofs.Output.Listings
/-!
# The lines of a plan

A listing that can be put together has a line of words for each of its texts: `Plan.words`.  A plan
that has a listing has the one with these lines, `Plan.listing_eq_words`.
-/

namespace Bitonic

namespace Listing

/-! ## The words of each line -/

def registerWord (index : Nat) : String := "d" ++ Numeral.twoDigit (index + 1)

def layerWords : Layer → List String
  | .inside register x => ["", "", "exchange", registerWord register, x.pairing.text,
      "low=" ++ x.lowerLanes.text, x.direction.name, x.reach.name]
  | .between low high d => ["", "", "minmax", registerWord low, registerWord high, d.name]

def callWords (callee : NetworkKey) (first : Nat) : List String :=
  ["", "", "call", callee.name,
    registerWord first ++ (".." ++ registerWord (first + callee.width - 1))]

def rowWords (row : LengthRow) : List String :=
  ["", "", "", "", Nat.repr row.minLength ++ ("..=" ++ Nat.repr row.maxLength), row.ascending,
    row.descending]

def tableWords (table : LengthTable) : List String :=
  ["", "", "dispatch", "lanes=" ++ Nat.repr table.lanes,
    "fallback-above=" ++ Nat.repr table.longest]

def choiceWords (choice : TypeChoice) : List String :=
  ["", "", "select", choice.element.name, choice.routine]

def stepWords : Step → List (List String)
  | .layer l => [layerWords l]
  | .call callee first => [callWords callee first]
  | .outer (.load vectors residual pad) =>
      [["", "", "load", Nat.repr vectors, residual.name, "pad=" ++ pad.name]]
  | .outer (.store vectors residual) => [["", "", "store", Nat.repr vectors, residual.name]]
  | .outer (.byLength table) => tableWords table :: table.rows.map rowWords
  | .outer (.byType choices) => choices.map choiceWords

def directionWords : Option Direction → List String
  | some d => [d.name]
  | none => []

def inliningWord (inline : Bool) : String := if inline then "inline" else "noinline"

def headWords (r : Routine) : List String :=
  "routine" :: r.name :: r.role.name :: ("width=" ++ Nat.repr r.width) ::
    (directionWords r.direction ++ [inliningWord r.inline])

/-- The lines of a routine without the one that ends it. -/
def routineWords (r : Routine) : List (List String) := headWords r :: r.body.flatMap stepWords

def headingWords : PlanHeading → List (List String)
  | .unit limits residual hasMinMax longest => [
      ["", "", "lanes", Nat.repr limits.lanes],
      ["", "", "max-vectors", Nat.repr limits.widest],
      ["", "", "merge-ceiling", Nat.repr limits.widestMerger],
      ["", "", "fallback-above", Nat.repr longest],
      ["", "", "partial-vector", residual.name],
      ["", "", "min-max", if hasMinMax then "native" else "emulated"]]
  | .isa _ elements => [["", "", "elements", ",".intercalate (elements.map ScalarType.name)]]

/-- The line that ends a routine. -/
def endWords : List String := ["end"]

def bannerWords : List String :=
  ["//", "Generated", "by", "bitonic-gen", toolVersion ++ ".", "Do", "not", "edit."]

end Listing

open Listing

def Plan.words (plan : Plan) : List (List String) :=
  bannerWords :: ["unit", plan.title] :: (headingWords plan.heading ++
    (plan.routines.map routineWords).flatMap (· ++ [endWords]) ++ [["end", "unit", plan.title]])

namespace Listing

/-! ## The words make up the lines -/

theorem eq_registerWord {index : Nat} {name : String} (h : registerName index = .ok name) :
    name = registerWord index := by
  obtain ⟨number, hnumber, h⟩ := Outcome.bind_eq_ok_iff.1 h
  obtain ⟨_, rfl⟩ := Count.add_eq_ok_iff.1 hnumber
  cases h
  rfl

theorem text_of_layerLine {l : Layer} {text : String} (h : layerLine l = .ok text) :
    text = lineOf (layerWords l) := by
  apply String.toList_inj.1
  cases l with
  | inside r x =>
      obtain ⟨name, hname, h⟩ := Outcome.bind_eq_ok_iff.1 h
      cases h
      obtain rfl := eq_registerWord hname
      simp [layerWords, lineOf, toString]
  | between low high d =>
      obtain ⟨lowName, hlow, h⟩ := Outcome.bind_eq_ok_iff.1 h
      obtain ⟨highName, hhigh, h⟩ := Outcome.bind_eq_ok_iff.1 h
      cases h
      obtain rfl := eq_registerWord hlow
      obtain rfl := eq_registerWord hhigh
      simp [layerWords, lineOf, toString]

theorem text_of_callLine {callee : NetworkKey} {first : Nat} {text : String}
    (h : callLine callee first = .ok text) : text = lineOf (callWords callee first) := by
  apply String.toList_inj.1
  obtain ⟨firstName, hfirst, h⟩ := Outcome.bind_eq_ok_iff.1 h
  obtain ⟨last, hlast, h⟩ := Outcome.bind_eq_ok_iff.1 h
  obtain ⟨lastName, hlastName, h⟩ := Outcome.bind_eq_ok_iff.1 h
  cases h
  obtain ⟨sum, hsum, hlast⟩ := Outcome.bind_eq_ok_iff.1 hlast
  obtain ⟨_, rfl⟩ := Count.add_eq_ok_iff.1 hsum
  obtain ⟨_, rfl⟩ := Count.sub_eq_ok_iff.1 hlast
  obtain rfl := eq_registerWord hfirst
  obtain rfl := eq_registerWord hlastName
  simp [callWords, lineOf, toString]

theorem rowLine_eq (row : LengthRow) : rowLine row = lineOf (rowWords row) := by
  apply String.toList_inj.1
  simp [rowLine, rowWords, lineOf, toString]

theorem outerLines_eq (step : OuterStep) :
    outerLines step = (stepWords (.outer step)).map lineOf := by
  cases step with
  | load vectors residual pad =>
      apply congrArg (· :: [])
      apply String.toList_inj.1
      simp [lineOf, toString]
  | store vectors residual =>
      apply congrArg (· :: [])
      apply String.toList_inj.1
      simp [lineOf, toString]
  | byLength table =>
      have hhead : s!"  dispatch lanes={table.lanes} fallback-above={table.longest}\n" =
          lineOf (tableWords table) := by
        apply String.toList_inj.1
        simp [tableWords, lineOf, toString]
      rw [outerLines, hhead, stepWords, List.map_cons, List.map_map]
      exact congrArg _ (List.map_congr_left fun row _ => rowLine_eq row)
  | byType choices =>
      rw [outerLines, stepWords, List.map_map]
      refine List.map_congr_left fun choice _ => ?_
      apply String.toList_inj.1
      simp [choiceWords, lineOf, toString]

theorem stepLines_eq {step : Step} (h : Writable step) :
    stepLines step = (stepWords step).map fun words => .ok (lineOf words) := by
  cases step with
  | layer l =>
      obtain ⟨text, htext⟩ := h (layerLine l) List.mem_cons_self
      rw [stepLines, htext, text_of_layerLine htext]
      rfl
  | call callee first =>
      obtain ⟨text, htext⟩ := h (callLine callee first) List.mem_cons_self
      rw [stepLines, htext, text_of_callLine htext]
      rfl
  | outer step =>
      rw [stepLines, outerLines_eq, List.map_map]
      rfl

theorem routineHead_eq (r : Routine) : routineHead r = lineOf (headWords r) := by
  apply String.toList_inj.1
  unfold routineHead headWords inliningWord
  cases r.direction with
  | none => simp [directionWords, lineOf, toString]
  | some d => simp [directionWords, lineOf, toString]

theorem headingLines_eq (heading : PlanHeading) :
    headingLines heading = (headingWords heading).map lineOf := by
  cases heading with
  | unit limits residual hasMinMax longest =>
      simp only [headingLines, headingWords, List.map_cons, List.map_nil, List.cons.injEq, and_true]
      refine ⟨?_, ?_, ?_, ?_, ?_, ?_⟩
      all_goals
        apply String.toList_inj.1
        simp [lineOf, toString]
  | isa isa elements =>
      apply congrArg (· :: [])
      apply String.toList_inj.1
      simp [lineOf, toString]

theorem routineLines_eq {r : Routine} (h : ∀ step ∈ r.body, Writable step) :
    routineLines r = (routineWords r ++ [endWords]).map fun words => .ok (lineOf words) := by
  have hbody : r.body.flatMap stepLines =
      (r.body.flatMap stepWords).map fun words => .ok (lineOf words) := by
    rw [List.map_flatMap]
    exact List.flatMap_congr fun step hstep => stepLines_eq (h step hstep)
  rw [routineLines, hbody, routineHead_eq, List.map_append, routineWords, List.map_cons]
  rfl

theorem lines_eq {plan : Plan} (h : ∀ r ∈ plan.routines, ∀ step ∈ r.body, Writable step) :
    lines plan = plan.words.map fun words => .ok (lineOf words) := by
  have hbanner : s!"// Generated by bitonic-gen {toolVersion}. Do not edit.\n" =
      lineOf bannerWords := by decide +kernel
  have hunit : s!"unit {plan.title}\n" = lineOf ["unit", plan.title] := by
    apply String.toList_inj.1
    simp [lineOf, toString]
  have hend : s!"end unit {plan.title}\n" = lineOf ["end", "unit", plan.title] := by
    apply String.toList_inj.1
    simp [lineOf, toString]
  have hroutines : plan.routines.flatMap routineLines =
      ((plan.routines.map routineWords).flatMap (· ++ [endWords])).map
        fun words => .ok (lineOf words) := by
    rw [List.flatMap_map, List.map_flatMap]
    exact List.flatMap_congr fun r hr => routineLines_eq (h r hr)
  rw [lines, hbanner, hunit, hend, hroutines, headingLines_eq, List.map_map, Plan.words]
  simp only [List.map_cons, List.map_append, List.map_nil, List.cons_append]
  rfl

end Listing

theorem Plan.listing_eq_words {plan : Plan}
    (h : ∀ r ∈ plan.routines, ∀ step ∈ r.body, Listing.Writable step) :
    plan.listing = .ok (String.join (plan.words.map lineOf)) := by
  apply Plan.listing_of_lines
  rw [lines_eq h, List.map_map]
  rfl

end Bitonic
