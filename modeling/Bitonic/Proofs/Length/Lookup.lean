import Bitonic.Length.EntryPoint
import Bitonic.Proofs.Outcome
import Mathlib.Algebra.Order.Floor.Div
/-!
# Looking lengths up

The table of a unit has one row for every width up to the widest network, `LengthRow.ofWidth`.  A
row includes the lengths that take its registers, so the rows share no length and leave none out up
to the longest, `Synthesis.filter_includes`, and a length finds the one row that includes it,
`Synthesis.lookup_eq_row`.
-/

namespace Bitonic

namespace LengthTable

variable {lanes length length' : Nat}

theorem registersFor_pos (lanes length : Nat) : 0 < registersFor lanes length :=
  Nat.le_max_right _ 1

theorem registersFor_eq (lanes length : Nat) :
    registersFor lanes length = max 1 (length ⌈/⌉ lanes) := Nat.max_comm _ _

theorem registersFor_mono (lanes : Nat) (h : length ≤ length') :
    registersFor lanes length ≤ registersFor lanes length' :=
  max_le_max_right 1 (Nat.div_le_div_right (by omega))

theorem le_registersFor_mul (hlanes : 0 < lanes) (length : Nat) :
    length ≤ registersFor lanes length * lanes := by
  have hdiv := Nat.div_add_mod (length + lanes - 1) lanes
  have hmod := Nat.mod_lt (length + lanes - 1) hlanes
  have hceil : length ≤ (length + lanes - 1) / lanes * lanes := by
    rw [Nat.mul_comm]
    omega
  exact hceil.trans (Nat.mul_le_mul_right lanes (Nat.le_max_left _ 1))

theorem registersFor_mul_le (lanes length : Nat) :
    registersFor lanes length * lanes ≤ length + lanes := by
  have hceil := Nat.div_mul_le_self (length + lanes - 1) lanes
  rw [registersFor]
  rcases Nat.le_total 1 ((length + lanes - 1) / lanes) with h | h
  · rw [Nat.max_eq_left h]
    omega
  · rw [Nat.max_eq_right h, Nat.one_mul]
    exact Nat.le_add_left lanes length

theorem registersFor_le {widest : Nat} (hlanes : 0 < lanes) (hwidest : 0 < widest)
    (hlength : length ≤ widest * lanes) : registersFor lanes length ≤ widest := by
  apply Nat.max_le.2 ⟨?_, hwidest⟩
  apply Nat.le_of_lt_succ
  rw [Nat.div_lt_iff_lt_mul hlanes, Nat.succ_mul]
  omega

theorem registersFor_le_iff {width : Nat} (hlanes : 0 < lanes) (hwidth : 0 < width) :
    registersFor lanes length ≤ width ↔ length ≤ width * lanes :=
  ⟨fun h => (le_registersFor_mul hlanes length).trans (Nat.mul_le_mul_right lanes h),
    registersFor_le hlanes hwidth⟩

/-- No lane is left over exactly if the values fill their registers. -/
theorem registersFor_mul_sub_eq_zero_iff (hlanes : 0 < lanes) (hlength : 0 < length) :
    registersFor lanes length * lanes - length = 0 ↔ length % lanes = 0 := by
  have hholds := le_registersFor_mul hlanes length
  constructor
  · intro h
    rw [show length = registersFor lanes length * lanes by omega, Nat.mul_mod_left]
  · intro h
    obtain ⟨count, rfl⟩ := Nat.dvd_of_mod_eq_zero h
    have hcount : 0 < count := Nat.pos_of_mul_pos_left hlength
    have hceil : (lanes * count + lanes - 1) / lanes = count := by
      rw [Nat.add_sub_assoc hlanes, Nat.mul_add_div hlanes,
        Nat.div_eq_of_lt (Nat.sub_lt hlanes Nat.one_pos), Nat.add_zero]
    rw [registersFor, hceil, Nat.max_eq_left hcount, Nat.mul_comm, Nat.sub_self]

theorem mem_of_lookup {table : LengthTable} {row : LengthRow}
    (h : table.lookup length = .ok (.row row)) : row ∈ table.rows := by
  unfold lookup at h
  split at h
  · cases h
  · split at h
    · cases h
    · split at h
      · next found hfound =>
        cases h
        exact List.mem_of_getElem? hfound
      · cases h

end LengthTable

namespace LengthRow

open LengthTable (registersFor registersFor_pos registersFor_le_iff)

variable {lanes width length : Nat}

def ofWidth (lanes width : Nat) : LengthRow where
  width
  minLength := if width = 1 then 0 else (width - 1) * lanes + 1
  maxLength := width * lanes
  ascending := entryPointName width .ascending
  descending := entryPointName width .descending

theorem entryPoint_ofWidth (lanes width : Nat) (d : Direction) :
    (ofWidth lanes width).entryPoint d = entryPointName width d := by
  cases d <;> rfl

theorem includes_iff {row : LengthRow} :
    row.includes length = true ↔ row.minLength ≤ length ∧ length ≤ row.maxLength := by
  simp [includes]

/-- A row includes the lengths that take its registers, neither more nor fewer. -/
theorem includes_ofWidth (hlanes : 0 < lanes) (hwidth : 0 < width) :
    (ofWidth lanes width).includes length = true ↔ width = registersFor lanes length := by
  have hpos := registersFor_pos lanes length
  rw [includes_iff, show (ofWidth lanes width).maxLength = width * lanes from rfl,
    ← registersFor_le_iff hlanes hwidth]
  by_cases hone : width = 1
  · rw [show (ofWidth lanes width).minLength = 0 from if_pos hone]
    omega
  · have hfewer : registersFor lanes length ≤ width - 1 ↔ length ≤ (width - 1) * lanes :=
      registersFor_le_iff hlanes (by omega)
    rw [show (ofWidth lanes width).minLength = (width - 1) * lanes + 1 from if_neg hone]
    omega

end LengthRow

namespace Synthesis

open LengthTable (registersFor registersFor_pos registersFor_le registersFor_le_iff)

variable {s : Synthesis} {table : LengthTable} {length : Nat}

theorem lengthRange_eq_ok {width lanes minLength maxLength : Nat}
    (h : lengthRange width lanes = .ok (minLength, maxLength)) :
    minLength = (LengthRow.ofWidth lanes width).minLength ∧
      maxLength = (LengthRow.ofWidth lanes width).maxLength := by
  have hlongest : ∀ {shortest : Nat},
      (Count.mul width lanes >>= fun longest => pure (shortest, longest)) =
        .ok (minLength, maxLength) → minLength = shortest ∧ maxLength = width * lanes := by
    intro shortest h
    obtain ⟨longest, hmul, h⟩ := Outcome.bind_eq_ok_iff.1 h
    cases h
    exact ⟨rfl, (Count.mul_eq_ok_iff.1 hmul).2.symm⟩
  simp only [lengthRange] at h
  split at h
  · next hone =>
    obtain ⟨hmin, hmax⟩ := hlongest h
    exact ⟨hmin.trans (if_pos hone).symm, hmax⟩
  · next hmany =>
    obtain ⟨before, hbefore, h⟩ := Outcome.bind_eq_ok_iff.1 h
    obtain ⟨lower, hlower, h⟩ := Outcome.bind_eq_ok_iff.1 h
    obtain ⟨shortest, hshortest, h⟩ := Outcome.bind_eq_ok_iff.1 h
    obtain ⟨rfl, hmax⟩ := hlongest h
    refine ⟨?_, hmax⟩
    rw [← (Count.add_eq_ok_iff.1 hshortest).2, ← (Count.mul_eq_ok_iff.1 hlower).2,
      ← (Count.sub_eq_ok_iff.1 hbefore).2]
    exact (if_neg hmany).symm

theorem lengthRow_eq_ok {lanes width : Nat} {row : LengthRow}
    (h : lengthRow lanes width = .ok row) : LengthRow.ofWidth lanes width = row := by
  obtain ⟨⟨minLength, maxLength⟩, hrange, h⟩ := Outcome.bind_eq_ok_iff.1 h
  cases h
  obtain ⟨rfl, rfl⟩ := lengthRange_eq_ok hrange
  rfl

theorem capacity_eq_ok {longest : Nat} (h : s.limits.capacity = .ok longest) :
    longest = s.limits.widest * s.limits.lanes :=
  (Count.mul_eq_ok_iff.1 h).2.symm

theorem lengthTable_eq_ok (h : s.lengthTable .unlimited = .ok table) :
    table.lanes = s.limits.lanes ∧ table.longest = s.limits.widest * s.limits.lanes ∧
      table.rows = (List.range' 1 s.limits.widest).map (LengthRow.ofWidth s.limits.lanes) := by
  obtain ⟨_, _, h⟩ := Outcome.bind_eq_ok_iff.1 h
  obtain ⟨rows, hrows, h⟩ := Outcome.bind_eq_ok_iff.1 h
  obtain ⟨longest, hlongest, h⟩ := Outcome.bind_eq_ok_iff.1 h
  cases h
  rw [Count.mapFrom_eq_mapM] at hrows
  refine ⟨rfl, capacity_eq_ok hlongest, ?_⟩
  rw [← Outcome.map_eq_of_mapM (g := id) hrows fun _ _ hrow => (lengthRow_eq_ok hrow).symm,
    List.map_id]

theorem coverage_lt_limit (h : s.lengthTable .unlimited = .ok table) :
    s.limits.widest * s.limits.lanes < Count.limit := by
  obtain ⟨_, _, h⟩ := Outcome.bind_eq_ok_iff.1 h
  obtain ⟨_, _, h⟩ := Outcome.bind_eq_ok_iff.1 h
  obtain ⟨_, hlongest, _⟩ := Outcome.bind_eq_ok_iff.1 h
  exact (Count.mul_eq_ok_iff.1 hlongest).1

theorem lookup_eq_fallback (h : s.lengthTable .unlimited = .ok table)
    (hlength : s.limits.widest * s.limits.lanes < length) : table.lookup length = .ok .fallback := by
  obtain ⟨_, hlongest, _⟩ := lengthTable_eq_ok h
  exact if_pos (by rwa [hlongest])

theorem lookup_eq_row (h : s.lengthTable .unlimited = .ok table) (hlanes : 0 < s.limits.lanes)
    (hwidest : 0 < s.limits.widest) (hlength : length ≤ s.limits.widest * s.limits.lanes) :
    table.lookup length =
      .ok (.row (.ofWidth s.limits.lanes (registersFor s.limits.lanes length))) := by
  obtain ⟨htable, hlongest, hrows⟩ := lengthTable_eq_ok h
  have hpos := registersFor_pos s.limits.lanes length
  have hle := registersFor_le hlanes hwidest hlength
  have hget : table.rows[registersFor s.limits.lanes length - 1]? =
      some (.ofWidth s.limits.lanes (registersFor s.limits.lanes length)) := by
    rw [hrows, List.getElem?_map, List.getElem?_range' (by omega), Nat.one_mul,
      Nat.add_sub_cancel' hpos]
    rfl
  rw [LengthTable.lookup, hlongest, htable, if_neg (by omega), if_neg (by omega), hget]

theorem filter_includes (h : s.lengthTable .unlimited = .ok table) (hlanes : 0 < s.limits.lanes)
    (hwidest : 0 < s.limits.widest) (length : Nat) :
    table.rows.filter (·.includes length) =
      if length ≤ s.limits.widest * s.limits.lanes then
        [.ofWidth s.limits.lanes (registersFor s.limits.lanes length)]
      else [] := by
  obtain ⟨_, _, hrows⟩ := lengthTable_eq_ok h
  have hpos := registersFor_pos s.limits.lanes length
  have hsame : ∀ width ∈ List.range' 1 s.limits.widest,
      (LengthRow.ofWidth s.limits.lanes width).includes length =
        decide (width = registersFor s.limits.lanes length) := by
    intro width hwidth
    rw [Bool.eq_iff_iff, decide_eq_true_iff]
    exact LengthRow.includes_ofWidth hlanes (List.mem_range'_1.1 hwidth).1
  have hmem : registersFor s.limits.lanes length ∈ List.range' 1 s.limits.widest ↔
      length ≤ s.limits.widest * s.limits.lanes := by
    rw [← registersFor_le_iff hlanes hwidest, List.mem_range'_1]
    omega
  rw [hrows, List.filter_map, List.filter_congr (p := _ ∘ _) hsame, List.filter_eq]
  split
  · next hlength =>
    rw [List.count_eq_one_of_mem List.nodup_range' (hmem.2 hlength)]
    rfl
  · next hlength =>
    rw [List.count_eq_zero.2 (mt hmem.1 hlength)]
    rfl

end Synthesis

end Bitonic
