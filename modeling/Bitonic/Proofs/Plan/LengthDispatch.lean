import Bitonic.Proofs.Length.Lookup
import Bitonic.Proofs.Network.ClosedBodies
import Bitonic.Proofs.Plan.Generated
/-!
# The length dispatch of a generated plan

The length table, the entry points and the heading of a plan are made separately and linked by
names and numbers alone.  They agree: `Plan.lookup_partitions`.

* `Plan.Parts.exists_serves` — the name in a row finds the entry point for the row;
* `Plan.heading_of_forType` — the heading holds the longest array that the entry points sort.
-/

namespace Bitonic

open LengthTable (registersFor registersFor_pos registersFor_mono registersFor_le
  registersFor_le_iff le_registersFor_mul)

/-- The routine is the entry point of a row in a direction: it takes the lengths of the row, and
loads and stores the registers of the row around its network. -/
structure Routine.Serves (r : Routine) (row : LengthRow) (d : Direction) : Prop where
  role : r.role = .entryPoint row.minLength row.maxLength
  direction : r.direction = some d
  width : r.width = row.width
  body : ∃ residual network, r.body = .outer (.load row.width residual d.sentinel) :: network ++
      [.outer (.store row.width residual)] ∧ ∀ step ∈ network, ∀ outer, step ≠ .outer outer

namespace Synthesis

variable {s : Synthesis} {table : LengthTable} {width : Nat} {d : Direction}

theorem serves_of_entryRoutine {r : Routine} (h : s.entryRoutine width d = .ok r) :
    r.Serves (.ofWidth s.limits.lanes width) d := by
  obtain ⟨residual, network, minLength, maxLength, hnetwork, hrange, _, _, hrole, hbody, hwidth,
    hdirection⟩ := entryRoutine_eq_ok h
  obtain ⟨rfl, rfl⟩ := lengthRange_eq_ok hrange
  exact ⟨hrole, hdirection, hwidth, residual, network, hbody,
    fun step hstep => (closed_invocation hnetwork step hstep).ne_outer⟩

/-- No row before the one that is found reaches the length. -/
theorem width_le_of_reaches (h : s.lengthTable .unlimited = .ok table)
    (hlanes : 0 < s.limits.lanes) {length : Nat} {row : LengthRow} (hrow : row ∈ table.rows)
    (hlength : length ≤ row.maxLength) : registersFor s.limits.lanes length ≤ row.width := by
  obtain ⟨_, _, hrows⟩ := lengthTable_eq_ok h
  rw [hrows] at hrow
  obtain ⟨width, hwidth, rfl⟩ := List.mem_map.1 hrow
  exact (registersFor_le_iff hlanes (List.mem_range'_1.1 hwidth).1).2 hlength

theorem getLast?_rows (h : s.lengthTable .unlimited = .ok table) (hwidest : 0 < s.limits.widest) :
    table.rows.getLast? = some (.ofWidth s.limits.lanes s.limits.widest) := by
  obtain ⟨_, _, hrows⟩ := lengthTable_eq_ok h
  obtain ⟨before, hbefore⟩ := Nat.exists_eq_add_of_le' hwidest
  rw [hrows, List.getLast?_map, hbefore, List.range'_concat, List.getLast?_concat, Nat.one_mul,
    Nat.add_comm 1 before]
  rfl

theorem width_of_lookup (h : s.lengthTable .unlimited = .ok table) (hlanes : 0 < s.limits.lanes)
    (hwidest : 0 < s.limits.widest) {length : Nat} {row : LengthRow}
    (hrow : table.lookup length = .ok (.row row)) :
    row.width = registersFor s.limits.lanes length := by
  rcases Nat.lt_or_ge (s.limits.widest * s.limits.lanes) length with hlength | hlength
  · rw [lookup_eq_fallback h hlength] at hrow
    cases hrow
  · rw [lookup_eq_row h hlanes hwidest hlength] at hrow
    cases hrow
    rfl

end Synthesis

namespace Plan

variable {ty : ScalarType} {profile : IsaProfile} {settings : Settings} {plan : Plan}

theorem heading_of_forType {s : Synthesis} (hs : Synthesis.ofSettings profile ty settings = .ok s)
    (h : forType ty profile settings = .ok plan) :
    ∃ residual hasMinMax, plan.heading =
      .unit s.limits residual hasMinMax (s.limits.widest * s.limits.lanes) := by
  obtain ⟨s', hs', h⟩ := Outcome.bind_eq_ok_iff.1 h
  rw [hs] at hs'
  cases hs'
  obtain ⟨networks, _, h⟩ := Outcome.bind_eq_ok_iff.1 h
  obtain ⟨entries, _, h⟩ := Outcome.bind_eq_ok_iff.1 h
  obtain ⟨dispatch, _, h⟩ := Outcome.bind_eq_ok_iff.1 h
  obtain ⟨residual, _, h⟩ := Outcome.bind_eq_ok_iff.1 h
  obtain ⟨hasMinMax, _, h⟩ := Outcome.bind_eq_ok_iff.1 h
  obtain ⟨longest, hlongest, h⟩ := Outcome.bind_eq_ok_iff.1 h
  cases h
  have hcapacity := Synthesis.capacity_eq_ok (Outcome.liftM_eq_ok_iff.1 hlongest)
  exact ⟨residual, hasMinMax, hcapacity ▸ rfl⟩

theorem Parts.exists_serves {s : Synthesis} {networks entries : List Routine} {dispatch : Routine}
    (h : plan.Parts s networks entries dispatch) {width : Nat} (hpos : 0 < width)
    (hle : width ≤ s.limits.widest) (d : Direction) :
    ∃ r, plan.findNamed? ((LengthRow.ofWidth s.limits.lanes width).entryPoint d) = some r ∧
      r.Serves (.ofWidth s.limits.lanes width) d := by
  obtain ⟨r, hnamed, hentry⟩ := h.findNamed?_eq hpos hle d
  rw [LengthRow.entryPoint_ofWidth]
  exact ⟨r, hnamed, Synthesis.serves_of_entryRoutine hentry⟩

/-- The rows share the lengths up to the longest among them.  Looking a length up finds the row that
includes it, the narrowest that reaches it, and the row names entry points made for it; longer
arrays are in no row and go to the fallback. -/
theorem lookup_partitions {limits : UnitLimits} {residual : ResidualMode} {hasMinMax : Bool}
    {longest : Nat} (hplan : forType ty profile settings = .ok plan)
    (hheading : plan.heading = .unit limits residual hasMinMax longest)
    (hlanes : 0 < limits.lanes) :
    ∃ table, plan.lengthTable? = some table ∧ longest = limits.widest * limits.lanes ∧
      table.longest = longest ∧ table.rows.getLast?.map LengthRow.maxLength = some longest ∧
      (∀ length, length ≤ limits.widest * limits.lanes →
        ∃ row, table.rows.filter (·.includes length) = [row] ∧
          table.lookup length = .ok (.row row) ∧ length ≤ row.maxLength ∧
          (∀ other ∈ table.rows, length ≤ other.maxLength → row.width ≤ other.width) ∧
          ∀ d, ∃ r, plan.findNamed? (row.entryPoint d) = some r ∧ r.Serves row d) ∧
      (∀ length, limits.widest * limits.lanes < length →
        table.rows.filter (·.includes length) = [] ∧ table.lookup length = .ok .fallback) ∧
      ∀ length length' row row', length ≤ length' → table.lookup length = .ok (.row row) →
        table.lookup length' = .ok (.row row') → row.width ≤ row'.width := by
  obtain ⟨s, networks, entries, dispatch, hs, hparts⟩ := forType_eq_ok hplan
  obtain ⟨_, _, hmade⟩ := heading_of_forType hs hplan
  rw [hmade] at hheading
  cases hheading
  obtain ⟨table, hfind, htable⟩ := hparts.lengthTable?_eq
  have hwidest := (Synthesis.resolved_of_ofSettings hs).widest_pos
  have hlongest := (Synthesis.lengthTable_eq_ok htable).2.1
  refine ⟨table, hfind, rfl, hlongest, ?_, ?_, ?_, ?_⟩
  · rw [Synthesis.getLast?_rows htable hwidest]
    rfl
  · intro length hlength
    have hpos := registersFor_pos s.limits.lanes length
    have hle := registersFor_le hlanes hwidest hlength
    have hincludes := Synthesis.filter_includes htable hlanes hwidest length
    rw [if_pos hlength] at hincludes
    exact ⟨_, hincludes, Synthesis.lookup_eq_row htable hlanes hwidest hlength,
      le_registersFor_mul hlanes length,
      fun _ hother hreach => Synthesis.width_le_of_reaches htable hlanes hother hreach,
      hparts.exists_serves hpos hle⟩
  · intro length hlength
    have hincludes := Synthesis.filter_includes htable hlanes hwidest length
    rw [if_neg (Nat.not_le.2 hlength)] at hincludes
    exact ⟨hincludes, Synthesis.lookup_eq_fallback htable hlength⟩
  · intro length length' row row' hle hrow hrow'
    rw [Synthesis.width_of_lookup htable hlanes hwidest hrow,
      Synthesis.width_of_lookup htable hlanes hwidest hrow']
    exact registersFor_mono s.limits.lanes hle

/-- Three rows of four lanes: nine values go to the third. -/
theorem lookup_partitions_nine :
    ∃ plan residual hasMinMax table row,
      forType .int32 InstructionSet.neonProfile { widest := some 3 } = .ok plan ∧
      plan.heading = .unit ⟨.neon, .int32, 4, 3, 2, 0, 0⟩ residual hasMinMax 12 ∧
      plan.lengthTable? = some table ∧ table.rows.filter (·.includes 9) = [row] ∧
      table.lookup 9 = .ok (.row row) ∧ table.lookup 13 = .ok .fallback := by
  obtain ⟨plan, hplan⟩ := Outcome.exists_eq_ok_of_isOk (x := forType .int32
    InstructionSet.neonProfile { widest := some 3 }) (by decide +kernel)
  obtain ⟨residual, hasMinMax, hheading⟩ := heading_of_forType
    (s := ⟨InstructionSet.neonProfile, ⟨.neon, .int32, 4, 3, 2, 0, 0⟩⟩) rfl hplan
  obtain ⟨table, hfind, _, _, _, hrow, hfallback, _⟩ :=
    lookup_partitions hplan hheading (by decide)
  obtain ⟨row, hincludes, hlookup, _⟩ := hrow 9 (by decide)
  exact ⟨plan, residual, hasMinMax, table, row, hplan, hheading, hfind, hincludes, hlookup,
    (hfallback 13 (by decide)).2⟩

end Plan

end Bitonic
