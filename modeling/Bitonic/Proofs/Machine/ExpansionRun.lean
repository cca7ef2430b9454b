import Bitonic.Proofs.Machine.LayerRun
import Bitonic.Proofs.Network.Expansion
/-!
# Running steps that have been written out

Where steps come to layers, with calls that nest no deeper than the machine goes along with, running
the steps is running the layers one after the other.

* `Machine.runSteps_of_expansion` — in the body of a network;
* `Machine.entrySteps_of_expansion` — in an entry point, where every step is run on its own.
-/

namespace Bitonic

namespace Machine

variable {α : Type} [Scalar α] {machine : Machine} {levels base : Nat} {steps : List Step}
  {layers : List Layer}

/-- The body of the routine that a call finds. -/
def bodyFor (machine : Machine) (key : NetworkKey) : Outcome (List Step) := do
  return (← machine.routineFor key).body

theorem runSteps_nil (hlanes : machine.lanes ≠ 0) (levels base : Nat) (file : RegisterFile α) :
    machine.runSteps (levels + 1) base [] file = .ok file := by
  rw [runSteps, if_neg hlanes]
  rfl

theorem runSteps_layer_cons (hlanes : machine.lanes ≠ 0) (levels base : Nat) (l : Layer)
    (steps : List Step) (file : RegisterFile α) :
    machine.runSteps (levels + 1) base (.layer l :: steps) file =
      l.run base file >>= machine.runSteps (levels + 1) base steps := by
  rw [runSteps, if_neg hlanes, List.foldlM_cons]
  apply congrArg
  funext file'
  rw [runSteps, if_neg hlanes]

theorem runSteps_call_cons (hlanes : machine.lanes ≠ 0) {callee : NetworkKey} {first : Nat}
    {body : List Step} (hfound : machine.bodyFor callee = .ok body)
    (hfits : base + first < Count.limit) (steps : List Step) (file : RegisterFile α) :
    machine.runSteps (levels + 1) base (.call callee first :: steps) file =
      machine.runSteps levels (base + first) body file >>=
        machine.runSteps (levels + 1) base steps := by
  obtain ⟨routine, hroutine, hbody⟩ := Outcome.bind_eq_ok_iff.1 hfound
  cases hbody
  rw [runSteps, if_neg hlanes, List.foldlM_cons]
  simp only
  rw [Outcome.bind_of_ok hroutine,
    Outcome.bind_of_ok (Outcome.liftM_eq_ok_iff.2 (Count.add_eq_ok hfits))]
  apply congrArg
  funext file'
  rw [runSteps, if_neg hlanes]

theorem runSteps_of_expansion (hlanes : machine.lanes ≠ 0)
    (h : Expansion machine.bodyFor levels base steps layers) (file : RegisterFile α) :
    machine.runSteps (levels + 1) base steps file = Layer.runAll layers file := by
  induction h generalizing file with
  | nil => exact runSteps_nil hlanes _ _ file
  | layer moved rest ih =>
      rw [runSteps_layer_cons hlanes, Layer.run_eq_movedBy,
        Outcome.bind_of_ok (Outcome.liftM_eq_ok_iff.2 moved), Layer.runAll, List.foldlM_cons]
      apply congrArg
      funext file'
      exact ih file'
  | call found fits inner rest ihInner ih =>
      rw [runSteps_call_cons hlanes found fits, ihInner, Layer.runAll_append]
      apply congrArg
      funext file'
      exact ih file'

theorem entrySteps_cons {step : Step} (hstep : ∀ outer, step ≠ .outer outer) (name : String)
    (rest : List Step) (data : List α) (file : RegisterFile α) :
    machine.entrySteps name (step :: rest) ⟨data, some file⟩ =
      match machine.runBody [step] file with
      | .ok file' => machine.entrySteps name rest ⟨data, some file'⟩
      | .error failure => (data, .error failure) := by
  have hentry : machine.entryStep name step ⟨data, some file⟩ =
      machine.runBody [step] file >>= fun file => .ok ⟨data, some file⟩ := by
    cases step with
    | layer l => rfl
    | call callee first => rfl
    | outer outer => exact absurd rfl (hstep outer)
  rw [entrySteps, hentry]
  cases machine.runBody [step] file with
  | ok file' => rfl
  | error failure => rfl

theorem entrySteps_of_expansion (hlanes : machine.lanes ≠ 0) (hlevels : levels ≤ callLimit)
    (h : Expansion machine.bodyFor levels 0 steps layers) (name : String) (rest : List Step)
    (data : List α) (file : RegisterFile α) :
    machine.entrySteps name (steps ++ rest) ⟨data, some file⟩ =
      match Layer.runAll layers file with
      | .ok file' => machine.entrySteps name rest ⟨data, some file'⟩
      | .error failure => (data, .error failure) := by
  have hone : ∀ (step : Step) (front : List Layer) (file : RegisterFile α),
      Expansion machine.bodyFor levels 0 [step] front →
        machine.runBody [step] file = Layer.runAll front file := by
    intro step front file hstep
    rw [runBody, runSteps_of_expansion hlanes (hstep.mono (fun _ _ h => h) hlevels)]
  generalize hbase : 0 = base at h hone
  induction h generalizing file with
  | nil => rfl
  | layer moved more ih =>
      rename_i l l' steps layers
      have hsplit := Layer.runAll_append [l'] layers file
      rw [List.singleton_append] at hsplit
      rw [List.cons_append, entrySteps_cons (fun _ => Step.noConfusion),
        hone _ _ file (.layer moved .nil), hsplit]
      cases Layer.runAll [l'] file with
      | ok between => exact ih hlevels between hbase hone
      | error failure => rfl
  | call found fits inner more ihInner ih =>
      rename_i called layers
      have hcall := Expansion.call found fits inner .nil
      rw [List.append_nil] at hcall
      rw [List.cons_append, entrySteps_cons (fun _ => Step.noConfusion), hone _ _ file hcall,
        Layer.runAll_append]
      cases Layer.runAll called file with
      | ok between => exact ih hlevels between hbase hone
      | error failure => rfl

end Machine

end Bitonic
