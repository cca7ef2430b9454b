import Bitonic.Proofs.Lane.ExchangeRun
import Bitonic.Proofs.Outcome
/-!
# The shape of the single-register networks

The exchanges of a register are described by two predicates that follow the order in which they are
made.  `Cleaning d e` are the exchanges at distances `2 ^ (e - 1)`, …, 2, 1, and `Sorting d e` are,
for blocks of 2, 4, …, `2 ^ e` lanes, a fold of each block onto itself and the cleaning of its
halves.  In a register of a power of two of lanes, at most 64, the merger is the cleaning and the
sorter the sorting of the whole register: `IsaProfile.registerMerger_eq_ok` and
`IsaProfile.registerSorter_eq_ok`.
-/

namespace Bitonic

/-- Pairs of lanes in every block of `2 ^ e` lanes, by an exclusive or with a mask. -/
structure Exchange.Follows (x : Exchange) (lanes : Nat) (d : Direction) (mask : Nat) : Prop where
  sound : x.Sound lanes
  direction : x.direction = d
  partner : ∀ lane < lanes, x.pairing.partner lane = lane ^^^ mask

inductive Cleaning (lanes : Nat) (d : Direction) : Nat → List Exchange → Prop where
  | nil : Cleaning lanes d 0 []
  | cons {e : Nat} {x : Exchange} {xs : List Exchange} (first : x.Follows lanes d (2 ^ e))
      (rest : Cleaning lanes d e xs) : Cleaning lanes d (e + 1) (x :: xs)

inductive Sorting (lanes : Nat) (d : Direction) : Nat → List Exchange → Prop where
  | nil : Sorting lanes d 0 []
  | snoc {e : Nat} {x : Exchange} {xs ys : List Exchange} (blocks : Sorting lanes d e xs)
      (fold : x.Follows lanes d (2 ^ (e + 1) - 1)) (cleaning : Cleaning lanes d e ys) :
      Sorting lanes d (e + 1) (xs ++ x :: ys)

section Members

variable {lanes e : Nat} {d : Direction} {xs : List Exchange}

theorem Cleaning.along (h : Cleaning lanes d e xs) :
    ∀ x ∈ xs, x.Sound lanes ∧ x.direction = d := by
  induction h with
  | nil => simp
  | cons first rest ih => exact List.forall_mem_cons.2 ⟨⟨first.sound, first.direction⟩, ih⟩

theorem Sorting.along (h : Sorting lanes d e xs) : ∀ x ∈ xs, x.Sound lanes ∧ x.direction = d := by
  induction h with
  | nil => simp
  | snoc blocks fold cleaning ih =>
      apply List.forall_mem_append.2 ⟨ih, ?_⟩
      exact List.forall_mem_cons.2 ⟨⟨fold.sound, fold.direction⟩, cleaning.along⟩

theorem Cleaning.sound (h : Cleaning lanes d e xs) : ∀ x ∈ xs, x.Sound lanes :=
  fun x hx => (h.along x hx).1

theorem Sorting.sound (h : Sorting lanes d e xs) : ∀ x ∈ xs, x.Sound lanes :=
  fun x hx => (h.along x hx).1

theorem Cleaning.length (h : Cleaning lanes d e xs) : xs.length = e := by
  induction h with
  | nil => rfl
  | cons first rest ih => rw [List.length_cons, ih]

theorem Sorting.length (h : Sorting lanes d e xs) : xs.length = e * (e + 1) / 2 := by
  induction h with
  | nil => rfl
  | snoc blocks fold cleaning ih =>
      rename_i e x xs ys
      have hnext : (e + 1) * (e + 1 + 1) = e * (e + 1) + (e + 1) * 2 := by
        rw [Nat.mul_comm e, ← Nat.mul_add]
      rw [List.length_append, List.length_cons, ih, cleaning.length, hnext,
        Nat.add_mul_div_right _ _ Nat.two_pos]

end Members

namespace IsaProfile

variable {profile : IsaProfile} {ty : ScalarType} {size e : Nat}

theorem lanes_eq_ok_iff {lanes : Nat} : profile.lanes ty = .ok lanes ↔
    profile.offers ty = true ∧ lanes = profile.registerBytes / ty.byteSize := by
  unfold IsaProfile.lanes requireType
  split
  · next h => simpa [h] using eq_comm
  · next h => exact iff_of_false (fun hok => nomatch hok) fun hok => h hok.1

/-- A register of the type holds a power of two of lanes, and at most 64. -/
def HasRegister (profile : IsaProfile) (ty : ScalarType) (size : Nat) : Prop :=
  size ≤ 6 ∧ profile.lanes ty = .ok (2 ^ size)

theorem exchangeOf_follows {p : Pairing} {mask : Nat} (h : profile.HasRegister ty size)
    (d : Direction) (hlength : p.length = 2 ^ size) (hmask : mask < 2 ^ size)
    (hpartner : ∀ lane < 2 ^ size, p.partner lane = lane ^^^ mask) :
    ∃ x, profile.exchangeOf ty p d = .ok x ∧ x.Follows (2 ^ size) d mask := by
  have htwice := Pairing.partner_partner_of_xor hlength hmask hpartner
  obtain ⟨x, hx, hsound, hdirection, rfl⟩ :=
    exchangeOf_eq_ok d h.2 (Pairing.two_pow_le_of_le_six h.1) hlength htwice
  exact ⟨x, hx, hsound, hdirection, hpartner⟩

theorem cleaningExchanges_eq_ok (h : profile.HasRegister ty size) (d : Direction) {count : Nat}
    (hcount : count ≤ size) :
    ∃ xs, profile.cleaningExchanges ty (2 ^ size) count d = .ok xs ∧
      Cleaning (2 ^ size) d count xs := by
  induction count with
  | zero => exact ⟨[], rfl, .nil⟩
  | succ e ih =>
      obtain ⟨xs, hxs, hclean⟩ := ih (by omega)
      obtain ⟨p, hp, hlength, hpartner⟩ := Pairing.atDistance_eq_ok (h.1.trans (by decide))
        (show e < size by omega)
      have hlt : 2 ^ e < 2 ^ size := Nat.pow_lt_pow_right (by omega) (by omega)
      obtain ⟨x, hx, hfollows⟩ := exchangeOf_follows h d hlength hlt hpartner
      refine ⟨x :: xs, ?_, .cons hfollows hclean⟩
      have hstep : (liftM (Pairing.atDistance (2 ^ size) (Nat.pow 2 e)) >>= fun p =>
          profile.exchangeOf ty p d) = .ok x := by
        rw [Outcome.bind_of_ok (Outcome.liftM_eq_ok_iff.2 hp), hx]
      rw [cleaningExchanges] at hxs ⊢
      rw [List.range_succ, List.reverse_append, List.reverse_singleton, List.singleton_append,
        List.mapM_cons, Outcome.bind_of_ok hstep, Outcome.bind_of_ok hxs]
      rfl

theorem registerMerger_eq_ok (h : profile.HasRegister ty size) (d : Direction) :
    ∃ xs, profile.registerMerger ty d = .ok xs ∧ Cleaning (2 ^ size) d size xs := by
  obtain ⟨xs, hxs, hclean⟩ := cleaningExchanges_eq_ok h d (Nat.le_refl size)
  refine ⟨xs, ?_, hclean⟩
  rw [registerMerger, Outcome.bind_of_ok h.2, Nat.log2_two_pow, hxs]

/-- Reversing a register is folding its one block. -/
theorem blockPairing_eq (h : profile.lanes ty = .ok (2 ^ size)) (e : Nat) :
    profile.blockPairing ty (2 ^ size) e = Pairing.folded (2 ^ size) (2 ^ (e + 1)) := by
  rw [blockPairing]
  split
  · next hwhole =>
    rw [reversal, Outcome.bind_of_ok h, Pairing.reversal]
    exact congrArg (fun block => liftM (Pairing.folded (2 ^ size) block)) hwhole.symm
  · rfl

theorem blockExchanges_eq_ok (h : profile.HasRegister ty size) (d : Direction) (he : e < size) :
    ∃ x ys, profile.blockExchanges ty (2 ^ size) e d = .ok (x :: ys) ∧
      x.Follows (2 ^ size) d (2 ^ (e + 1) - 1) ∧ Cleaning (2 ^ size) d e ys := by
  obtain ⟨ys, hys, hclean⟩ := cleaningExchanges_eq_ok h d (Nat.le_of_lt he)
  obtain ⟨p, hp, hlength, hpartner⟩ := Pairing.folded_eq_ok (h.1.trans (by decide)) he
  have hle : 2 ^ (e + 1) ≤ 2 ^ size := Nat.pow_le_pow_right (by omega) he
  have hpos := Nat.two_pow_pos (e + 1)
  obtain ⟨x, hx, hfollows⟩ := exchangeOf_follows h d hlength (by omega) hpartner
  refine ⟨x, ys, ?_, hfollows, hclean⟩
  have hfold := (blockPairing_eq h.2 e).trans (Outcome.liftM_eq_ok_iff.2 hp)
  rw [blockExchanges, Outcome.bind_of_ok hfold, Outcome.bind_of_ok hx, Outcome.bind_of_ok hys]
  rfl

theorem registerSorter_eq_ok (h : profile.HasRegister ty size) (d : Direction) :
    ∃ xs, profile.registerSorter ty d = .ok xs ∧ Sorting (2 ^ size) d size xs := by
  have hblocks : ∀ count, count ≤ size → ∃ blocks,
      (List.range count).mapM (fun e => profile.blockExchanges ty (2 ^ size) e d) = .ok blocks ∧
        Sorting (2 ^ size) d count blocks.flatten := by
    intro count hcount
    induction count with
    | zero => exact ⟨[], rfl, .nil⟩
    | succ e ih =>
        obtain ⟨blocks, hmap, hsorting⟩ := ih (by omega)
        obtain ⟨x, ys, hblock, hfold, hclean⟩ := blockExchanges_eq_ok h d (show e < size by omega)
        refine ⟨blocks ++ [x :: ys], ?_, ?_⟩
        · rw [List.range_succ, List.mapM_append, Outcome.bind_of_ok hmap, List.mapM_cons,
            Outcome.bind_of_ok hblock]
          rfl
        · rw [List.flatten_append, List.flatten_singleton]
          exact .snoc hsorting hfold hclean
  obtain ⟨blocks, hmap, hsorting⟩ := hblocks size (Nat.le_refl size)
  refine ⟨blocks.flatten, ?_, hsorting⟩
  rw [registerSorter, Outcome.bind_of_ok h.2, Nat.log2_two_pow, Outcome.bind_of_ok hmap]
  rfl

end IsaProfile

end Bitonic
