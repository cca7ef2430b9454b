import Bitonic.Proofs.Scalar.OnWires
/-!
# What a merger accepts

Two kinds of lists that are merger inputs without a look at any filling: lists that are bitonic and
need none, `mergerInput_of_isBitonic`, and a run against the direction with a run along it behind,
`mergerInput_of_runs`.
-/

namespace Bitonic

namespace Scalar

variable {α : Type} [Scalar α] [Ranked α] {d : Direction}

theorem noLater_refl {a : α} (ha : IsNumber a) : noLater d a a = true :=
  (noLater_iff_before ha ha).2 (d.before_refl _)

theorem noLater_trans {a b c : α} (ha : IsNumber a) (hb : IsNumber b) (hc : IsNumber c)
    (hab : noLater d a b = true) (hbc : noLater d b c = true) : noLater d a c = true :=
  (noLater_iff_before ha hc).2
    (Direction.before_trans ((noLater_iff_before ha hb).1 hab) ((noLater_iff_before hb hc).1 hbc))

theorem exists_noLater (d : Direction) {values : List α} (hnum : ∀ a ∈ values, IsNumber a) :
    ∃ pad, IsNumber pad ∧ ∀ a ∈ values, noLater d a pad = true := by
  induction values with
  | nil => exact ⟨sentinel .max, isNumber_sentinel .max, by simp⟩
  | cons b values ih =>
      have hb : IsNumber b := hnum b List.mem_cons_self
      have hvalues : ∀ a ∈ values, IsNumber a := fun a ha => hnum a (List.mem_cons_of_mem b ha)
      obtain ⟨pad, hpad, hlast⟩ := ih hvalues
      rcases d.before_total (Ranked.rank b) (Ranked.rank pad) with h | h
      · exact ⟨pad, hpad, List.forall_mem_cons.2 ⟨(noLater_iff_before hb hpad).2 h, hlast⟩⟩
      · have hpb := (noLater_iff_before hpad hb).2 h
        exact ⟨b, hb, List.forall_mem_cons.2 ⟨noLater_refl hb, fun a ha =>
          noLater_trans (hvalues a ha) hpad hb (hlast a ha) hpb⟩⟩

theorem mergerInput_of_isBitonic (d : Direction) {values : List α}
    (hnum : ∀ a ∈ values, IsNumber a) (h : IsBitonic values) :
    MergerInput d values values.length := by
  obtain ⟨pad, hpad, hlast⟩ := exists_noLater d hnum
  refine ⟨pad, hpad, hlast, ?_⟩
  rwa [Nat.sub_self, List.replicate_zero, List.append_nil]

theorem pairwise_append_replicate {values : List α} {pad : α} (count : Nat) (hpad : IsNumber pad)
    (hvalues : values.Pairwise fun a b => noLater d a b = true)
    (hlast : ∀ a ∈ values, noLater d a pad = true) :
    (values ++ List.replicate count pad).Pairwise fun a b => noLater d a b = true := by
  apply List.pairwise_append.2 ⟨hvalues, ?_, ?_⟩
  · exact List.pairwise_replicate.2 (Or.inr (noLater_refl hpad))
  · intro a ha b hb
    rw [List.eq_of_mem_replicate hb]
    exact hlast a ha

theorem mergerInput_of_runs {against along : List α} (room : Nat)
    (hnum : ∀ a ∈ against ++ along, IsNumber a)
    (hagainst : against.Pairwise fun a b => noLater d.reverse a b = true)
    (halong : along.Pairwise fun a b => noLater d a b = true) :
    MergerInput d (against ++ along) room := by
  obtain ⟨pad, hpad, hlast⟩ := exists_noLater d hnum
  have halong' := pairwise_append_replicate (room - (against ++ along).length) hpad halong
    fun a ha => hlast a (List.mem_append_right _ ha)
  refine ⟨pad, hpad, hlast, ?_⟩
  rw [List.append_assoc]
  generalize along ++ List.replicate _ pad = filled at halong'
  cases d with
  | ascending =>
      refine ⟨against.length, filled.length, ?_, ?_⟩
      · rw [List.rotate_append_length_eq, List.take_left']
        · exact halong'
        · rfl
      · rw [List.rotate_append_length_eq, List.drop_left']
        · exact hagainst
        · rfl
  | descending =>
      refine ⟨0, against.length, ?_, ?_⟩
      · rw [List.rotate_zero, List.take_left']
        · exact hagainst
        · rfl
      · rw [List.rotate_zero, List.drop_left']
        · exact halong'
        · rfl

end Scalar

end Bitonic
