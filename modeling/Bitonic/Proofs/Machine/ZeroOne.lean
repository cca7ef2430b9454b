import Bitonic.Machine
import Bitonic.Proofs.Lane.ExchangeRun
import Bitonic.Proofs.Machine.RegisterFiles
import Bitonic.Proofs.Outcome
import Bitonic.Proofs.Scalar.NonDecreasing
/-!
# The zero-one principle

All that a machine does with values is to compare two of them and to keep one.  Where comparisons
tell all values apart, a map that keeps the order of values can therefore be applied before a
routine runs or after it, whatever the routine is:

* `Layer.run_map` — a layer;
* `Machine.runSteps_map` — steps, with their calls;
* `Machine.zero_one` — a routine, and what it does with two values settles what it does with all.
-/

namespace Bitonic

namespace Pairing

variable {α : Type} {f : α → α} {p : Pairing}

theorem gather_map {register : List α} (h : register.length = p.length)
    (h' : (register.map f).length = p.length) :
    p.gather (register.map f) h' = (p.gather register h).map f := by
  apply List.ext_getElem?
  intro lane
  by_cases hlane : lane < p.length
  · rw [getElem?_gather h' hlane, List.getElem?_map, List.getElem?_map, getElem?_gather h hlane]
  · rw [List.getElem?_eq_none (by rw [length_gather]; omega),
      List.getElem?_eq_none (by rw [List.length_map, length_gather]; omega)]

end Pairing

namespace RegisterFile

variable {α : Type}

def mapValues (f : α → α) (file : RegisterFile α) : RegisterFile α := file.map (List.map f)

variable {f : α → α}

theorem length_mapValues (file : RegisterFile α) : (mapValues f file).length = file.length :=
  List.length_map _

theorem getD_mapValues (file : RegisterFile α) (r : Nat) :
    (mapValues f file).getD r [] = (file.getD r []).map f := by
  rw [List.getD_eq_getElem?_getD, List.getD_eq_getElem?_getD, mapValues, List.getElem?_map]
  cases file[r]? with
  | none => rfl
  | some register => rfl

theorem mapValues_set (file : RegisterFile α) (r : Nat) (register : List α) :
    mapValues f (file.set r register) = (mapValues f file).set r (register.map f) :=
  List.map_set

theorem take_map (lanes count : Nat) (values : List α) :
    take lanes count (values.map f) = mapValues f (take lanes count values) := by
  induction count generalizing values with
  | zero => rfl
  | succ count ih =>
      rw [take, take, ← List.map_take, ← List.map_drop, ih]
      rfl

theorem ofValues_map (lanes : Nat) (values : List α) :
    ofValues lanes (values.map f) = mapValues f (ofValues lanes values) := by
  rw [ofValues, List.length_map, take_map]
  rfl

theorem flatten_mapValues (file : RegisterFile α) :
    (mapValues f file).flatten = file.flatten.map f :=
  List.map_flatten.symm

end RegisterFile

section Maps

variable {α : Type} [Scalar α] [Ranked α] (hα : Scalar.Exact α) {f : α → α}
  (hf : Scalar.NonDecreasing f)

include hα hf

theorem Layer.map_lowValue (d : Direction) (a b : α) :
    f (lowValue d a b) = lowValue d (f a) (f b) := by
  by_cases h : Scalar.noLater d a b = true
  · rw [lowValue, lowValue, if_pos h, if_pos (hf.noLater h)]
  · have hba := (hα.noLater_total d a b).resolve_left h
    rw [lowValue, lowValue, if_neg h]
    split
    · next hab => exact hα.antisymm (hf.noLater hba) hab
    · rfl

theorem Layer.map_highValue (d : Direction) (a b : α) :
    f (highValue d a b) = highValue d (f a) (f b) := by
  by_cases h : Scalar.noLater d a b = true
  · rw [highValue, highValue, if_pos h, if_pos (hf.noLater h)]
  · have hba := (hα.noLater_total d a b).resolve_left h
    rw [highValue, highValue, if_neg h]
    split
    · next hab => exact hα.antisymm hab (hf.noLater hba)
    · rfl

namespace Exchange

omit hα hf [Ranked α] in
theorem newValue_eq (x : Exchange) (lane partner : Nat) (own other : α) :
    x.newValue lane partner own other =
      if x.lowerLanes.contains lane || partner == lane then Layer.lowValue x.direction own other
      else Layer.highValue x.direction own other := by
  rw [newValue, Layer.lowValue, Layer.highValue]
  cases Scalar.noLater x.direction own other <;>
    cases x.lowerLanes.contains lane || partner == lane <;> rfl

theorem map_newValue (x : Exchange) (lane partner : Nat) (own other : α) :
    f (x.newValue lane partner own other) = x.newValue lane partner (f own) (f other) := by
  rw [newValue_eq, newValue_eq]
  split
  · exact Layer.map_lowValue hα hf _ own other
  · exact Layer.map_highValue hα hf _ own other

theorem newValues_map (x : Exchange) (lane : Nat) (partners : List Nat) (owns others : List α) :
    x.newValues lane partners (owns.map f) (others.map f) =
      (x.newValues lane partners owns others).map f := by
  induction partners generalizing lane owns others with
  | nil => rfl
  | cons partner partners ih =>
      cases owns with
      | nil => rfl
      | cons own owns =>
          cases others with
          | nil => rfl
          | cons other others =>
              simp only [List.map_cons, newValues]
              rw [ih, map_newValue hα hf]

theorem run_map (x : Exchange) (register : List α) :
    x.run (register.map f) = List.map f <$> x.run register := by
  by_cases h : register.length = x.pairing.length
  · have h' : (register.map f).length = x.pairing.length := (List.length_map f).trans h
    rw [run, run, dif_pos h, dif_pos h', Pairing.gather_map h h', newValues_map hα hf]
    rfl
  · have h' : ¬ (register.map f).length = x.pairing.length := by rwa [List.length_map]
    rw [run, run, dif_neg h, dif_neg h', List.length_map]
    rfl

end Exchange

open RegisterFile

theorem Layer.run_map (base : Nat) (l : Layer) (file : RegisterFile α) :
    l.run base (mapValues f file) = mapValues f <$> l.run base file := by
  rw [Layer.run.eq_def, Layer.run.eq_def, map_bind]
  apply congrArg
  funext top
  rw [length_mapValues]
  split
  · rfl
  · cases l with
    | inside register exchange =>
        simp only [getD_mapValues, Exchange.run_map hα hf, bind_map_left, map_bind, map_pure,
          mapValues_set]
    | between low high d =>
        simp only [getD_mapValues, List.zipWith_map, map_pure, mapValues_set, List.map_zipWith,
          Layer.map_lowValue hα hf, Layer.map_highValue hα hf]

namespace Machine

variable (machine : Machine)

theorem runSteps_map (levels base : Nat) (steps : List Step) (file : RegisterFile α) :
    machine.runSteps levels base steps (mapValues f file) =
      mapValues f <$> machine.runSteps levels base steps file := by
  induction levels generalizing base steps file with
  | zero =>
      rw [runSteps, runSteps]
      rfl
  | succ levels ih =>
      rw [runSteps, runSteps]
      split
      · rfl
      · refine Outcome.foldlM_map (fun file step => ?_) steps file
        cases step with
        | layer l => exact Layer.run_map hα hf base l file
        | call callee first => simp only [ih, map_bind]
        | outer step => rfl

theorem runOn_map (routine : Routine) (values : List α) :
    machine.runOn routine (values.map f) = List.map f <$> machine.runOn routine values := by
  rw [runOn, runOn, map_bind]
  apply congrArg
  funext _
  rw [map_bind]
  apply congrArg
  funext expected
  rw [List.length_map]
  split
  · rfl
  · simp only [runBody, ofValues_map, runSteps_map hα hf, bind_map_left, map_bind, map_pure,
      flatten_mapValues]

end Machine

end Maps

namespace Machine

/-- On every input of its length that is one of `inputs`, the routine comes to a result that goes
with the input. -/
def Meets {α : Type} [Scalar α] (machine : Machine) (routine : Routine) (inputs : List α → Prop)
    (goesWith : List α → List α → Prop) : Prop :=
  ∀ values, values.length = routine.width * machine.lanes → inputs values →
    ∃ out, machine.runOn routine values = .ok out ∧ goesWith values out

/-- What holds of input and result after every cut of both is settled by the inputs of two
values. -/
theorem meets_of_cuts {α : Type} [Scalar α] [Ranked α] (hα : Scalar.Exact α) {x y : α}
    (hxy : Scalar.lt x y = true) {machine : Machine} {routine : Routine}
    {goesWith : List α → List α → Prop}
    (hcuts : ∀ input out, (∀ p : α → Bool, Scalar.Upward p →
      goesWith (input.map (Scalar.cut x y p)) (out.map (Scalar.cut x y p))) → goesWith input out)
    (h : machine.Meets routine (fun values => ∀ a ∈ values, a = x ∨ a = y) goesWith) :
    machine.Meets routine (fun _ => True) goesWith := by
  intro values hlength _
  have hcut : ∀ p : α → Bool, Scalar.Upward p → ∃ out,
      List.map (Scalar.cut x y p) <$> machine.runOn routine values = .ok out ∧
        goesWith (values.map (Scalar.cut x y p)) out := by
    intro p hp
    rw [← runOn_map hα (hα.nonDecreasing_cut hxy hp)]
    refine h _ (by rwa [List.length_map]) fun a ha => ?_
    rcases List.mem_map.1 ha with ⟨b, _, rfl⟩
    exact Scalar.cut_mem x y p b
  cases hrun : machine.runOn routine values with
  | error failure =>
      rcases hcut (fun _ => true) fun _ _ _ _ => rfl with ⟨_, hout, _⟩
      rw [hrun] at hout
      cases hout
  | ok out =>
      refine ⟨out, rfl, hcuts values out fun p hp => ?_⟩
      rcases hcut p hp with ⟨_, hout, hgoes⟩
      rw [hrun] at hout
      cases hout
      exact hgoes

/-- On whole numbers, a map that keeps their order can be applied before any routine runs or after
it: errors stay the same and values are mapped.  So a routine that puts all inputs of two values in
order puts all inputs in order, be it that the result is arranged or only that it follows the
direction. -/
theorem zero_one {ty : ScalarType} (hty : ty.isInteger = true) (machine : Machine)
    (routine : Routine) :
    (∀ f : ty.Value → ty.Value, Scalar.NonDecreasing f → ∀ values,
      machine.runOn routine (values.map f) =
        (machine.runOn routine values).map (List.map f)) ∧
    ∀ (d : Direction) (x y : ty.Value), Scalar.lt x y = true →
      (machine.Meets routine (fun values => ∀ a ∈ values, a = x ∨ a = y) (Scalar.Arranged d) →
        machine.Meets routine (fun _ => True) (Scalar.Arranged (α := ty.Value) d)) ∧
      (machine.Meets routine (fun values => ∀ a ∈ values, a = x ∨ a = y)
          (fun _ out => out.Pairwise fun a b => Scalar.noLater d a b = true) →
        machine.Meets routine (fun _ => True) fun _ (out : List ty.Value) =>
          out.Pairwise fun a b => Scalar.noLater d a b = true) := by
  have hexact := Scalar.exact_of_isInteger hty
  refine ⟨fun f hf values => runOn_map hexact hf machine routine values, fun d x y hxy => ⟨?_, ?_⟩⟩
  · exact meets_of_cuts hexact hxy fun _ _ h => hexact.arranged_of_cuts hxy h
  · exact meets_of_cuts hexact hxy fun _ _ h => hexact.pairwise_of_cuts hxy h

/-- Four inputs settle that an exchange sorts its two lanes. -/
theorem zero_one_two :
    let exchange : Exchange := ⟨⟨[1, 0], by decide⟩, ⟨1⟩, .ascending, .insideGroup⟩
    let routine : Routine := ⟨"two", .registerNetwork, none, 1, none, false,
      [.layer (.inside 0 exchange)]⟩
    let machine : Machine := ⟨⟨.unit ⟨.neon, .int32, 2, 1, 1, 1, 1⟩ .scratchCopy true 2,
      [routine]⟩, .int32, 2⟩
    let atLeastFive : Int32 → Int32 := fun a => if a < 5 then 5 else a
    (∀ values : List Int32, machine.runOn routine (values.map atLeastFive) =
      (machine.runOn routine values).map (List.map atLeastFive)) ∧
    machine.Meets routine (fun _ => True) (Scalar.Arranged (α := Int32) .ascending) := by
  intro exchange routine machine atLeastFive
  have hinteger : ScalarType.int32.isInteger = true := rfl
  have hmain := zero_one hinteger machine routine
  refine ⟨fun values => hmain.1 atLeastFive ?_ values, (hmain.2 .ascending 0 1 rfl).1 ?_⟩
  · intro a b hab
    simp only [Scalar.noLater, Scalar.lt, Bool.not_eq_true', decide_eq_false_iff_not,
      Int32.lt_iff_toInt_lt, atLeastFive, apply_ite Int32.toInt,
      show (5 : Int32).toInt = 5 from rfl] at hab ⊢
    omega
  · have hnumber : ∀ values : List Int32, ∀ c ∈ values, Scalar.IsNumber c :=
      fun _ c _ => (Scalar.exact_of_isInteger hinteger).isNumber c
    have hpair : ∀ a b : Int32, machine.runOn routine [a, b] = .ok [min a b, max a b] →
        ([min a b, max a b].map Ranked.rank).Pairwise Direction.ascending.Before ∧
          ([min a b, max a b].map Ranked.rank).Perm ([a, b].map Ranked.rank) →
        ∃ out, machine.runOn routine [a, b] = .ok out ∧ Scalar.Arranged .ascending [a, b] out :=
      fun a b hrun hranks => ⟨_, hrun,
        (Scalar.arranged_iff_ranks (hnumber _) (hnumber _)).2 hranks⟩
    intro values hlength hvalues
    rcases List.length_eq_two.1 hlength with ⟨a, b, rfl⟩
    have ha : a = 0 ∨ a = 1 := hvalues a List.mem_cons_self
    have hb : b = 0 ∨ b = 1 := hvalues b (List.mem_cons_of_mem _ List.mem_cons_self)
    rcases ha with rfl | rfl <;> rcases hb with rfl | rfl
    · exact hpair 0 0 (by decide +kernel) (by decide)
    · exact hpair 0 1 (by decide +kernel) (by decide)
    · exact hpair 1 0 (by decide +kernel) (by decide)
    · exact hpair 1 1 (by decide +kernel) (by decide)

end Machine

end Bitonic
