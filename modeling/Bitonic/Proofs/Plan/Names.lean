import Bitonic.Length.EntryPoint
import Mathlib.Data.List.Basic
/-!
# Names of routines

The width in a name ends at the first letter behind it, so it can be read back, and so can the
direction and the texts around the width, `numberedName_inj`.

* `NetworkKey.name_inj`, `entryPointName_inj` — networks have different names, and so do entry
  points of different widths or directions;
* `name_ne_entryPointName`, `name_ne_lengthDispatchName`, `entryPointName_ne_lengthDispatchName` —
  a network, an entry point and a length dispatch never share one.
-/

namespace Bitonic

namespace Numeral

theorem toList_twoDigit (n : Nat) :
    (twoDigit n).toList = if n < 10 then '0' :: Nat.toDigits 10 n else Nat.toDigits 10 n := by
  unfold twoDigit
  split
  · rw [String.toList_append, Nat.toList_repr]
    rfl
  · exact Nat.toList_repr

theorem ofDigitChars_twoDigit (n : Nat) : Nat.ofDigitChars 10 (twoDigit n).toList 0 = n := by
  rw [toList_twoDigit]
  split
  · rw [Nat.ofDigitChars_cons]
    exact Nat.ofDigitChars_ten_toDigits
  · exact Nat.ofDigitChars_ten_toDigits

theorem isDigit_of_mem_twoDigit {n : Nat} {c : Char} (h : c ∈ (twoDigit n).toList) :
    c.isDigit = true := by
  have hdigits : c ∈ Nat.toDigits 10 n → c.isDigit = true :=
    Nat.isDigit_of_mem_toDigits (by decide) (by decide)
  rw [toList_twoDigit] at h
  split at h
  · rcases List.mem_cons.1 h with rfl | h
    · rfl
    · exact hdigits h
  · exact hdigits h

theorem exists_twoDigit_eq_cons (n : Nat) :
    ∃ digit rest, (twoDigit n).toList = digit :: rest ∧ digit.isDigit = true := by
  have hdigits : ∀ c ∈ (twoDigit n).toList, c.isDigit = true := fun _ => isDigit_of_mem_twoDigit
  cases hlist : (twoDigit n).toList with
  | nil =>
      rw [toList_twoDigit] at hlist
      split at hlist
      · cases hlist
      · exact absurd hlist Nat.toDigits_ne_nil
  | cons digit rest =>
      rw [hlist] at hdigits
      exact ⟨digit, rest, rfl, hdigits digit List.mem_cons_self⟩

/-- A numeral with a letter behind it can be read back. -/
theorem twoDigit_append_inj {n n' : Nat} {letter : Char} (hletter : letter.isDigit = false)
    {rest rest' : List Char}
    (h : (twoDigit n).toList ++ letter :: rest = (twoDigit n').toList ++ letter :: rest') :
    n = n' ∧ rest = rest' := by
  have hback : ∀ k (tail : List Char),
      ((twoDigit k).toList ++ letter :: tail).takeWhile Char.isDigit = (twoDigit k).toList := by
    intro k tail
    rw [List.takeWhile_append_of_pos fun _ hc => isDigit_of_mem_twoDigit hc,
      List.takeWhile_cons_of_neg (by rw [hletter]; decide), List.append_nil]
  have hdigits : (twoDigit n).toList = (twoDigit n').toList := by
    rw [← hback n rest, h, hback]
  rw [hdigits, List.append_cancel_left_eq] at h
  refine ⟨?_, (List.cons.inj h).2⟩
  rw [← ofDigitChars_twoDigit n, hdigits, ofDigitChars_twoDigit]

end Numeral

/-- The letters of a name that is made of a text, a width, another text and a direction. -/
def numberedName (front : String) (width : Nat) (middle : String) (d : Direction) : List Char :=
  front.toList ++ ((Numeral.twoDigit width).toList ++ 'v' :: (middle.toList ++ d.name.toList))

/-- What stands before the width in the names of networks and entry points. -/
def nameFronts : List String := ["sort_", "merge_"]

def nameMiddles : List String := ["_", "_merge_", "_alt_"]

theorem numberedName_inj {front front' middle middle' : String} {width width' : Nat}
    {d d' : Direction} (hfront : front ∈ nameFronts) (hfront' : front' ∈ nameFronts)
    (hmiddle : middle ∈ nameMiddles) (hmiddle' : middle' ∈ nameMiddles)
    (h : numberedName front width middle d = numberedName front' width' middle' d') :
    front = front' ∧ width = width' ∧ middle = middle' ∧ d = d' := by
  unfold numberedName at h
  have hsame : front = front' := by
    simp only [nameFronts, List.mem_cons, List.not_mem_nil, or_false] at hfront hfront'
    rcases hfront with rfl | rfl <;> rcases hfront' with rfl | rfl
    · rfl
    · exact absurd (List.cons.inj h).1 (by decide)
    · exact absurd (List.cons.inj h).1 (by decide)
    · rfl
  rw [hsame, List.append_cancel_left_eq] at h
  obtain ⟨hwidth, hrest⟩ := Numeral.twoDigit_append_inj (by rfl) h
  -- three texts and two directions come to six different endings
  have hendings : ∀ m ∈ nameMiddles, ∀ m' ∈ nameMiddles, ∀ e e' : Direction,
      m.toList ++ e.name.toList = m'.toList ++ e'.name.toList → m = m' ∧ e = e' := by
    intro m hm m' hm' e e'
    revert m m'
    cases e <;> cases e' <;> decide
  exact ⟨hsame, hwidth, hendings middle hmiddle middle' hmiddle' d d' hrest⟩

theorem toList_entryPointName (width : Nat) (d : Direction) :
    (entryPointName width d).toList = numberedName "sort_" width "_alt_" d := by
  simp only [entryPointName, String.toList_append, List.append_assoc]
  rfl

theorem entryPointName_inj {width width' : Nat} {d d' : Direction}
    (h : entryPointName width d = entryPointName width' d') : width = width' ∧ d = d' := by
  have hlist := congrArg String.toList h
  rw [toList_entryPointName, toList_entryPointName] at hlist
  obtain ⟨_, hwidth, _, hd⟩ :=
    numberedName_inj (by decide) (by decide) (by decide) (by decide) hlist
  exact ⟨hwidth, hd⟩

/-- The texts in the name of a network tell its task. -/
theorem toList_name (key : NetworkKey) :
    ∃ front ∈ nameFronts, ∃ middle ∈ nameMiddles, middle ≠ "_alt_" ∧
      key.name.toList = numberedName front key.width middle key.direction ∧
      key.task = if front = "sort_" ∧ middle = "_" then .sort else .merge := by
  unfold NetworkKey.name
  split
  · next task width htask hwidth =>
    refine ⟨"sort_", by decide, "_merge_", by decide, by decide, ?_, htask⟩
    rw [String.toList_append, hwidth]
    rfl
  · next task width htask =>
    refine ⟨"sort_", by decide, "_", by decide, by decide, ?_, htask⟩
    simp only [String.toList_append, List.append_assoc]
    rfl
  · next task width htask _ =>
    refine ⟨"merge_", by decide, "_", by decide, by decide, ?_, htask⟩
    simp only [String.toList_append, List.append_assoc]
    rfl

theorem NetworkKey.name_inj {key key' : NetworkKey} (h : key.name = key'.name) : key = key' := by
  obtain ⟨front, hfront, middle, hmiddle, _, hname, htask⟩ := toList_name key
  obtain ⟨front', hfront', middle', hmiddle', _, hname', htask'⟩ := toList_name key'
  rw [h, hname'] at hname
  obtain ⟨rfl, hwidth, rfl, hd⟩ := numberedName_inj hfront' hfront hmiddle' hmiddle hname
  rw [← htask] at htask'
  obtain ⟨task, width, d⟩ := key
  obtain ⟨task', width', d'⟩ := key'
  cases hwidth
  cases hd
  cases htask'
  rfl

theorem name_ne_entryPointName (key : NetworkKey) (width : Nat) (d : Direction) :
    key.name ≠ entryPointName width d := by
  intro h
  obtain ⟨front, hfront, middle, hmiddle, hne, hname, _⟩ := toList_name key
  rw [h, toList_entryPointName] at hname
  obtain ⟨_, _, hsame, _⟩ := numberedName_inj (by decide) hfront (by decide) hmiddle hname
  exact hne hsame.symm

/-- A type's name begins with a letter, where the other names have a digit. -/
theorem toList_lengthDispatchName_ne {front middle : String} {width : Nat} {d : Direction}
    (hfront : front ∈ nameFronts) (ty : ScalarType) :
    (lengthDispatchName ty).toList ≠ numberedName front width middle d := by
  intro h
  obtain ⟨digit, rest, hdigits, hdigit⟩ := Numeral.exists_twoDigit_eq_cons width
  obtain ⟨letter, tail, hname, hletter⟩ :
      ∃ letter tail, ty.name.toList = letter :: tail ∧ letter.isDigit = false := by
    cases ty <;> exact ⟨_, _, rfl, rfl⟩
  rw [lengthDispatchName, String.toList_append, hname, numberedName, hdigits] at h
  simp only [nameFronts, List.mem_cons, List.not_mem_nil, or_false] at hfront
  rcases hfront with rfl | rfl
  · rw [List.append_cancel_left_eq, List.cons_append] at h
    rw [(List.cons.inj h).1, hdigit] at hletter
    cases hletter
  · exact absurd (List.cons.inj h).1 (by decide)

theorem name_ne_lengthDispatchName (key : NetworkKey) (ty : ScalarType) :
    key.name ≠ lengthDispatchName ty := by
  intro h
  obtain ⟨front, hfront, middle, _, _, hname, _⟩ := toList_name key
  rw [h] at hname
  exact toList_lengthDispatchName_ne hfront ty hname

theorem entryPointName_ne_lengthDispatchName (width : Nat) (d : Direction) (ty : ScalarType) :
    entryPointName width d ≠ lengthDispatchName ty := by
  intro h
  have hname := toList_entryPointName width d
  rw [h] at hname
  exact toList_lengthDispatchName_ne (by decide) ty hname

end Bitonic
