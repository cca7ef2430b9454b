import Bitonic.Proofs.Length.Lookup
import Bitonic.Proofs.Listing.Lines
/-!
# Reading a listing

Some of what a plan consists of is not in its listing: the network that a routine implements, the
lengths that an entry point sorts, the widths in the length table.  In the routines that generation
makes all of it follows from what is there, so such a routine can be read back from its lines.

* `Listing.stepWords_inj` — a step of one line;
* `Routine.Legible` — the routines of which the listing says enough;
* `Routine.Legible.eq_of_words` — a routine.
-/

namespace Bitonic

section Names

theorem Direction.name_inj {d d' : Direction} (h : d.name = d'.name) : d = d' := by
  cases d <;> cases d' <;> first | rfl | exact absurd h (by decide)

theorem Sentinel.name_inj {s s' : Sentinel} (h : s.name = s'.name) : s = s' := by
  cases s <;> cases s' <;> first | rfl | exact absurd h (by decide)

theorem Reach.name_inj {r r' : Reach} (h : r.name = r'.name) : r = r' := by
  cases r <;> cases r' <;> first | rfl | exact absurd h (by decide)

theorem ResidualMode.name_inj {r r' : ResidualMode} (h : r.name = r'.name) : r = r' := by
  cases r <;> cases r' <;> first | rfl | exact absurd h (by decide)

theorem ScalarType.name_inj {ty ty' : ScalarType} (h : ty.name = ty'.name) : ty = ty' := by
  cases ty <;> cases ty' <;> first | rfl | exact absurd h (by decide)

end Names

def Step.OneLine : Step → Prop
  | .outer (.byLength _) => False
  | .outer (.byType _) => False
  | _ => True

namespace Listing

theorem registerWord_inj {index index' : Nat} (h : registerWord index = registerWord index') :
    index = index' :=
  Nat.succ_inj.1 (Numeral.twoDigit_inj ((String.append_right_inj _).1 h))

/-- The first register of a call ends at a point. -/
theorem registerWord_append_inj {index index' : Nat} {rest rest' : String}
    (h : registerWord index ++ (".." ++ rest) = registerWord index' ++ (".." ++ rest')) :
    index = index' := by
  have hlist := congrArg String.toList h
  simp only [registerWord, String.toList_append, List.append_assoc,
    List.append_cancel_left_eq] at hlist
  exact Nat.succ_inj.1 (Numeral.twoDigit_append_inj (show ('.' : Char).isDigit = false from rfl) hlist).1

theorem layerWords_inj {l l' : Layer} (h : layerWords l = layerWords l') : l = l' := by
  cases l with
  | inside r x =>
      cases l' with
      | inside r' x' =>
          obtain ⟨pairing, lower, d, reach⟩ := x
          obtain ⟨pairing', lower', d', reach'⟩ := x'
          simp only [layerWords, List.cons.injEq, true_and, and_true] at h
          obtain ⟨hregister, hpairing, hlower, hd, hreach⟩ := h
          rw [registerWord_inj hregister, Pairing.text_inj hpairing,
            LaneSet.text_inj ((String.append_right_inj _).1 hlower), Direction.name_inj hd,
            Reach.name_inj hreach]
      | between low' high' d' => simp [layerWords] at h
  | between low high d =>
      cases l' with
      | inside r' x' => simp [layerWords] at h
      | between low' high' d' =>
          simp only [layerWords, List.cons.injEq, true_and, and_true] at h
          obtain ⟨hlow, hhigh, hd⟩ := h
          rw [registerWord_inj hlow, registerWord_inj hhigh, Direction.name_inj hd]

theorem callWords_inj {callee callee' : NetworkKey} {first first' : Nat}
    (h : callWords callee first = callWords callee' first') :
    callee = callee' ∧ first = first' := by
  simp only [callWords, List.cons.injEq, true_and, and_true] at h
  exact ⟨NetworkKey.name_inj h.1, registerWord_append_inj h.2⟩

/-- What a step of one line does. -/
def keyword : Step → String
  | .layer (.inside _ _) => "exchange"
  | .layer (.between _ _ _) => "minmax"
  | .call _ _ => "call"
  | .outer (.load _ _ _) => "load"
  | .outer (.store _ _) => "store"
  | .outer (.byLength _) => "dispatch"
  | .outer (.byType _) => "select"

theorem exists_stepWords_eq {step : Step} (h : step.OneLine) :
    ∃ words, stepWords step = ["" :: "" :: keyword step :: words] := by
  rcases step with (_ | _) | _ | (_ | _ | _ | _)
  · exact ⟨_, rfl⟩
  · exact ⟨_, rfl⟩
  · exact ⟨_, rfl⟩
  · exact ⟨_, rfl⟩
  · exact ⟨_, rfl⟩
  · exact absurd h id
  · exact absurd h id

theorem stepWords_inj {step step' : Step} (h : step.OneLine) (h' : step'.OneLine)
    (heq : stepWords step = stepWords step') : step = step' := by
  have hkeyword : keyword step = keyword step' := by
    obtain ⟨words, hwords⟩ := exists_stepWords_eq h
    obtain ⟨words', hwords'⟩ := exists_stepWords_eq h'
    rw [hwords, hwords'] at heq
    simp only [List.cons.injEq, true_and] at heq
    exact heq.1.1
  -- steps of different keywords are apart, and those of one keyword hold what their line says
  rcases step with l | ⟨callee, first⟩ | ⟨vectors, residual, pad⟩ | ⟨vectors, residual⟩ | _ | _
  · rcases step' with l' | _ | (_ | _ | _ | _)
    · exact congrArg Step.layer (layerWords_inj (List.singleton_inj.1 heq))
    all_goals cases l <;> simp [keyword] at hkeyword
  · rcases step' with (_ | _) | ⟨callee', first'⟩ | (_ | _ | _ | _)
    case call =>
      obtain ⟨rfl, rfl⟩ := callWords_inj (List.singleton_inj.1 heq)
      rfl
    all_goals simp [keyword] at hkeyword
  · rcases step' with (_ | _) | _ | (⟨vectors', residual', pad'⟩ | _ | _ | _)
    case outer.load =>
      simp only [stepWords, List.cons.injEq, true_and, and_true] at heq
      obtain ⟨hvectors, hresidual, hpad⟩ := heq
      rw [Numeral.repr_inj hvectors, ResidualMode.name_inj hresidual,
        Sentinel.name_inj ((String.append_right_inj _).1 hpad)]
    all_goals simp [keyword] at hkeyword
  · rcases step' with (_ | _) | _ | (_ | ⟨vectors', residual'⟩ | _ | _)
    case outer.store =>
      simp only [stepWords, List.cons.injEq, true_and, and_true] at heq
      obtain ⟨hvectors, hresidual⟩ := heq
      rw [Numeral.repr_inj hvectors, ResidualMode.name_inj hresidual]
    all_goals simp [keyword] at hkeyword
  · exact absurd h id
  · exact absurd h id

theorem body_inj {body body' : List Step} (h : ∀ step ∈ body, step.OneLine)
    (h' : ∀ step ∈ body', step.OneLine) (heq : body.flatMap stepWords = body'.flatMap stepWords) :
    body = body' := by
  induction body generalizing body' with
  | nil =>
      cases body' with
      | nil => rfl
      | cons step' body' =>
          obtain ⟨words', hwords'⟩ := exists_stepWords_eq (h' step' List.mem_cons_self)
          rw [List.flatMap_cons, hwords'] at heq
          cases heq
  | cons step body ih =>
      obtain ⟨words, hwords⟩ := exists_stepWords_eq (h step List.mem_cons_self)
      cases body' with
      | nil =>
          rw [List.flatMap_cons, hwords] at heq
          cases heq
      | cons step' body' =>
          obtain ⟨words', hwords'⟩ := exists_stepWords_eq (h' step' List.mem_cons_self)
          have hlength : (stepWords step).length = (stepWords step').length := by
            rw [hwords, hwords']
            rfl
          rw [List.flatMap_cons, List.flatMap_cons] at heq
          obtain ⟨hfirst, hrest⟩ := List.append_inj heq hlength
          rw [stepWords_inj (h step List.mem_cons_self) (h' step' List.mem_cons_self) hfirst,
            ih (fun s hs => h s (List.mem_cons_of_mem step hs))
              (fun s hs => h' s (List.mem_cons_of_mem step' hs)) hrest]

theorem inliningWord_inj {inline inline' : Bool} (h : inliningWord inline = inliningWord inline') :
    inline = inline' := by
  cases inline <;> cases inline' <;> first | rfl | exact absurd h (by decide)

/-- The first line of a routine has a word more if there is a direction. -/
theorem headWords_inj {r r' : Routine} (h : headWords r = headWords r') :
    r.name = r'.name ∧ r.role.name = r'.role.name ∧ r.width = r'.width ∧
      r.direction = r'.direction ∧ r.inline = r'.inline := by
  simp only [headWords, List.cons.injEq, true_and] at h
  obtain ⟨hname, hrole, hwidth, hend⟩ := h
  obtain ⟨hdirections, hinline⟩ := List.append_inj' hend rfl
  have hdirection : r.direction = r'.direction := by
    cases hd : r.direction with
    | none =>
        cases hd' : r'.direction with
        | none => rfl
        | some d' =>
            rw [hd, hd'] at hdirections
            cases hdirections
    | some d =>
        cases hd' : r'.direction with
        | none =>
            rw [hd, hd'] at hdirections
            cases hdirections
        | some d' =>
            rw [hd, hd'] at hdirections
            rw [Direction.name_inj (List.singleton_inj.1 hdirections)]
  exact ⟨hname, hrole, Numeral.repr_inj ((String.append_right_inj _).1 hwidth), hdirection,
    inliningWord_inj (List.singleton_inj.1 hinline)⟩

end Listing

/-- A row of a generated length table for registers of `lanes` lanes. -/
def LengthRow.IsMade (lanes : Nat) (row : LengthRow) : Prop :=
  ∃ width, row = LengthRow.ofWidth lanes width

/-- Routines of which a listing says enough, in a plan for registers of `lanes` lanes. -/
inductive Routine.Legible (lanes : Nat) : Routine → Prop
  | network (key : NetworkKey) (inline : Bool) (body : List Step)
      (hbody : ∀ step ∈ body, step.OneLine) :
      Legible lanes ⟨key.name, Synthesis.roleOf key, some key, key.width, some key.direction,
        inline, body⟩
  | entryPoint (width : Nat) (d : Direction) {minLength maxLength : Nat}
      (hrange : lengthRange width lanes = .ok (minLength, maxLength)) (inline : Bool)
      (body : List Step) (hbody : ∀ step ∈ body, step.OneLine) :
      Legible lanes ⟨entryPointName width d, .entryPoint minLength maxLength, none, width, some d,
        inline, body⟩
  | lengthDispatch (ty : ScalarType) (width : Nat) (table : LengthTable)
      (hrows : ∀ row ∈ table.rows, row.IsMade lanes) :
      Legible lanes ⟨lengthDispatchName ty, .lengthDispatch, none, width, none, false,
        [.outer (.byLength table)]⟩
  | typeDispatch (isa : InstructionSet) (width : Nat) (choices : List TypeChoice)
      (hchoices : ∀ choice ∈ choices, choice.routine = lengthDispatchName choice.element) :
      Legible lanes ⟨"sort_" ++ isa.lowerName, .typeDispatch, none, width, none, false,
        [.outer (.byType choices)]⟩

namespace Listing

/-- A row of a generated table says its width in the names of its entry points. -/
theorem rowWords_inj {lanes : Nat} {row row' : LengthRow} (h : row.IsMade lanes)
    (h' : row'.IsMade lanes) (heq : rowWords row = rowWords row') : row = row' := by
  obtain ⟨width, rfl⟩ := h
  obtain ⟨width', rfl⟩ := h'
  simp only [rowWords, List.cons.injEq, true_and, and_true] at heq
  have hname : entryPointName width .ascending = entryPointName width' .ascending := heq.2.1
  rw [(entryPointName_inj hname).1]

theorem tableWords_inj {table table' : LengthTable} (h : tableWords table = tableWords table') :
    table.lanes = table'.lanes ∧ table.longest = table'.longest := by
  simp only [tableWords, List.cons.injEq, true_and, and_true] at h
  exact ⟨Numeral.repr_inj ((String.append_right_inj _).1 h.1),
    Numeral.repr_inj ((String.append_right_inj _).1 h.2)⟩

theorem choiceWords_inj {choice choice' : TypeChoice}
    (h : choiceWords choice = choiceWords choice') : choice = choice' := by
  obtain ⟨ty, name⟩ := choice
  obtain ⟨ty', name'⟩ := choice'
  simp only [choiceWords, List.cons.injEq, true_and, and_true] at h
  rw [ScalarType.name_inj h.1, h.2]

theorem byLength_inj {lanes : Nat} {table table' : LengthTable}
    (h : ∀ row ∈ table.rows, row.IsMade lanes) (h' : ∀ row ∈ table'.rows, row.IsMade lanes)
    (heq : stepWords (.outer (.byLength table)) = stepWords (.outer (.byLength table'))) :
    table = table' := by
  obtain ⟨htable, hrows⟩ := List.cons.inj heq
  obtain ⟨hlanes, hlongest⟩ := tableWords_inj htable
  have hsame : table.rows = table'.rows :=
    eq_of_map_eq (fun row hrow row' hrow' => rowWords_inj (h row hrow) (h' row' hrow')) hrows
  cases table
  cases table'
  cases hlanes
  cases hlongest
  cases hsame
  rfl

theorem byType_inj {choices choices' : List TypeChoice}
    (heq : stepWords (.outer (.byType choices)) = stepWords (.outer (.byType choices'))) :
    choices = choices' :=
  eq_of_map_eq (fun _ _ _ _ => choiceWords_inj) heq

end Listing

open Listing

theorem Synthesis.roleOf_name_ne (key : NetworkKey) : (roleOf key).name ≠ "entry-point" ∧
    (roleOf key).name ≠ "master-dispatch" ∧ (roleOf key).name ≠ "isa-dispatch" := by
  unfold roleOf
  split
  · decide
  · split
    · decide
    · decide

namespace Routine

theorem Legible.eq_of_words {lanes : Nat} {r r' : Routine} (h : r.Legible lanes)
    (h' : r'.Legible lanes) (heq : routineWords r = routineWords r') : r = r' := by
  obtain ⟨hhead, hbody⟩ := List.cons.inj heq
  obtain ⟨hname, hrole, hwidth, hdirection, hinline⟩ := headWords_inj hhead
  cases h with
  | network key inline body hlines =>
      obtain ⟨hentry, hlength, htype⟩ := Synthesis.roleOf_name_ne key
      cases h' with
      | network key' inline' body' hlines' =>
          cases hinline
          obtain rfl := NetworkKey.name_inj hname
          obtain rfl := body_inj hlines hlines' hbody
          rfl
      | entryPoint => exact absurd hrole hentry
      | lengthDispatch => exact absurd hrole hlength
      | typeDispatch => exact absurd hrole htype
  | entryPoint width d hrange inline body hlines =>
      cases h' with
      | network key' => exact absurd hrole.symm (Synthesis.roleOf_name_ne key').1
      | entryPoint width' d' hrange' inline' body' hlines' =>
          cases hinline
          cases hwidth
          cases hdirection
          cases hrange.symm.trans hrange'
          obtain rfl := body_inj hlines hlines' hbody
          rfl
      | lengthDispatch => simp [RoutineRole.name] at hrole
      | typeDispatch => simp [RoutineRole.name] at hrole
  | lengthDispatch ty width table hrows =>
      cases h' with
      | network key' => exact absurd hrole.symm (Synthesis.roleOf_name_ne key').2.1
      | entryPoint => simp [RoutineRole.name] at hrole
      | lengthDispatch ty' width' table' hrows' =>
          cases hwidth
          change lengthDispatchName ty = lengthDispatchName ty' at hname
          rw [List.flatMap_singleton, List.flatMap_singleton] at hbody
          rw [hname, byLength_inj hrows hrows' hbody]
      | typeDispatch => simp [RoutineRole.name] at hrole
  | typeDispatch isa width choices hchoices =>
      cases h' with
      | network key' => exact absurd hrole.symm (Synthesis.roleOf_name_ne key').2.2
      | entryPoint => simp [RoutineRole.name] at hrole
      | lengthDispatch => simp [RoutineRole.name] at hrole
      | typeDispatch isa' width' choices' hchoices' =>
          cases hwidth
          change "sort_" ++ isa.lowerName = "sort_" ++ isa'.lowerName at hname
          rw [List.flatMap_singleton, List.flatMap_singleton] at hbody
          rw [hname, byType_inj hbody]

end Routine

end Bitonic
