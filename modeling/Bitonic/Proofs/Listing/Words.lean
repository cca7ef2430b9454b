import Bitonic.Listing
import Bitonic.Proofs.Plan.Names
import Mathlib.Data.List.Basic
/-!
# Words of a listing

A line of a listing is a list of words with a blank between each two, an indentation being empty
words at the start, and a listing is a list of lines with a line end behind each.  No word holds a
blank or a line end, so

* `Listing.IsLine.eq_of_intercalate` — the words of a line can be read back;
* `Listing.join_lineOf_inj` — and so can the lines of a text.

The words of the numbers, pairings and lane sets can be read back as well: `Numeral.twoDigit_inj`,
`Numeral.hex_inj`, `Pairing.text_inj`, `LaneSet.text_inj`.
-/

namespace Bitonic

/-- Lists are the same if their members are told apart by what is the same. -/
theorem eq_of_map_eq {α β : Type} {f : α → β} {as bs : List α}
    (h : ∀ a ∈ as, ∀ b ∈ bs, f a = f b → a = b) (heq : as.map f = bs.map f) : as = bs := by
  induction as generalizing bs with
  | nil => exact (List.map_eq_nil_iff.1 heq.symm).symm
  | cons a as ih =>
      cases bs with
      | nil => cases heq
      | cons b bs =>
          obtain ⟨hhead, htail⟩ := List.cons.inj heq
          obtain rfl := h a List.mem_cons_self b List.mem_cons_self hhead
          rw [ih (fun a' ha' b' hb' => h a' (List.mem_cons_of_mem a ha') b'
            (List.mem_cons_of_mem a hb')) htail]

/-! ## Pieces between marks -/

section Marks

variable {α : Type} {mark : α} {pieces pieces' : List (List α)}

theorem eq_of_append_mark {xs ys rest rest' : List α} (h : mark ∉ xs) (h' : mark ∉ ys)
    (heq : xs ++ mark :: rest = ys ++ mark :: rest') : xs = ys ∧ rest = rest' := by
  induction xs generalizing ys with
  | nil =>
      cases ys with
      | nil => exact ⟨rfl, (List.cons.inj heq).2⟩
      | cons y ys => exact absurd ((List.cons.inj heq).1 ▸ List.mem_cons_self) h'
  | cons x xs ih =>
      cases ys with
      | nil => exact absurd ((List.cons.inj heq).1 ▸ List.mem_cons_self) h
      | cons y ys =>
          obtain ⟨rfl, htail⟩ := List.cons.inj heq
          obtain ⟨rfl, hrest⟩ := ih (fun hmem => h (List.mem_cons_of_mem x hmem))
            (fun hmem => h' (List.mem_cons_of_mem x hmem)) htail
          exact ⟨rfl, hrest⟩

/-- Pieces that end at a mark can be read back if the mark is not inside any of them. -/
theorem eq_of_flatMap_marked (h : ∀ piece ∈ pieces, mark ∉ piece)
    (h' : ∀ piece ∈ pieces', mark ∉ piece)
    (heq : pieces.flatMap (· ++ [mark]) = pieces'.flatMap (· ++ [mark])) : pieces = pieces' := by
  induction pieces generalizing pieces' with
  | nil =>
      cases pieces' with
      | nil => rfl
      | cons piece' rest' => simp at heq
  | cons piece rest ih =>
      cases pieces' with
      | nil => simp at heq
      | cons piece' rest' =>
          rw [List.flatMap_cons, List.flatMap_cons, List.append_assoc, List.append_assoc] at heq
          obtain ⟨rfl, hflat⟩ :=
            eq_of_append_mark (h piece List.mem_cons_self) (h' piece' List.mem_cons_self) heq
          rw [ih (fun p hp => h p (List.mem_cons_of_mem piece hp))
            (fun p hp => h' p (List.mem_cons_of_mem piece hp)) hflat]

theorem mem_of_mem_intercalate {x : α} (h : x ∈ [mark].intercalate pieces) :
    x = mark ∨ ∃ piece ∈ pieces, x ∈ piece := by
  induction pieces with
  | nil => cases h
  | cons piece rest ih =>
      by_cases hrest : rest = []
      · rw [hrest, List.intercalate_singleton] at h
        exact Or.inr ⟨piece, List.mem_cons_self, h⟩
      · rw [List.intercalate_cons_of_ne_nil hrest, List.mem_append, List.mem_append,
          List.mem_singleton] at h
        rcases h with (h | h) | h
        · exact Or.inr ⟨piece, List.mem_cons_self, h⟩
        · exact Or.inl h
        · rcases ih h with h | ⟨piece', hmem, h⟩
          · exact Or.inl h
          · exact Or.inr ⟨piece', List.mem_cons_of_mem piece hmem, h⟩

variable [BEq α] [LawfulBEq α]

theorem intercalate_inj (h : ∀ piece ∈ pieces, mark ∉ piece) (h' : ∀ piece ∈ pieces', mark ∉ piece)
    (hne : pieces ≠ []) (hne' : pieces' ≠ [])
    (heq : [mark].intercalate pieces = [mark].intercalate pieces') : pieces = pieces' := by
  rw [← List.splitOn_intercalate mark h hne, heq, List.splitOn_intercalate mark h' hne']

omit [BEq α] [LawfulBEq α] in
theorem intercalate_eq_nil_iff (mark : α) (h : ∀ piece ∈ pieces, piece ≠ []) :
    [mark].intercalate pieces = [] ↔ pieces = [] := by
  cases pieces with
  | nil => exact iff_of_true rfl rfl
  | cons piece rest =>
      have hpiece := h piece List.mem_cons_self
      refine iff_of_false ?_ (List.cons_ne_nil piece rest)
      by_cases hrest : rest = []
      · rwa [hrest, List.intercalate_singleton]
      · rw [List.intercalate_cons_of_ne_nil hrest]
        simp

/-- Pieces that are not empty can be read back even if there is none. -/
theorem intercalate_inj_of_ne_nil (h : ∀ piece ∈ pieces, mark ∉ piece ∧ piece ≠ [])
    (h' : ∀ piece ∈ pieces', mark ∉ piece ∧ piece ≠ [])
    (heq : [mark].intercalate pieces = [mark].intercalate pieces') : pieces = pieces' := by
  have hnil := intercalate_eq_nil_iff mark fun piece hp => (h piece hp).2
  have hnil' := intercalate_eq_nil_iff mark fun piece hp => (h' piece hp).2
  rw [heq, hnil'] at hnil
  by_cases hempty : pieces = []
  · rw [hempty, hnil.2 hempty]
  · exact intercalate_inj (fun piece hp => (h piece hp).1) (fun piece hp => (h' piece hp).1)
      hempty (fun h => hempty (hnil.1 h)) heq

end Marks

namespace Listing

/-- A text without blanks and line ends. -/
def IsWord (text : String) : Prop := ∀ c ∈ text.toList, c ≠ ' ' ∧ c ≠ '\n'

instance (text : String) : Decidable (IsWord text) :=
  List.decidableBAll (fun c => c ≠ ' ' ∧ c ≠ '\n') text.toList

@[simp] theorem isWord_append {a b : String} : IsWord (a ++ b) ↔ IsWord a ∧ IsWord b := by
  simp only [IsWord, String.toList_append, List.forall_mem_append]

theorem isWord_of_isDigit {text : String} (h : ∀ c ∈ text.toList, c.isDigit = true) :
    IsWord text := by
  intro c hc
  have hdigit := h c hc
  constructor
  · rintro rfl
    cases hdigit
  · rintro rfl
    cases hdigit

@[simp] theorem isWord_repr (n : Nat) : IsWord (Nat.repr n) := by
  apply isWord_of_isDigit
  rw [Nat.toList_repr]
  exact fun c hc => Nat.isDigit_of_mem_toDigits (by decide) (by decide) hc

@[simp] theorem isWord_twoDigit (n : Nat) : IsWord (Numeral.twoDigit n) :=
  isWord_of_isDigit fun _ => Numeral.isDigit_of_mem_twoDigit

@[simp] theorem isWord_hex (n : Nat) : IsWord (Numeral.hex n) := by
  have hdigit : ∀ d < 16, Nat.digitChar d ≠ ' ' ∧ Nat.digitChar d ≠ '\n' := by decide
  rw [Numeral.hex, IsWord, String.toList_ofList]
  induction n using Nat.strongRecOn with
  | ind n ih =>
      rcases Nat.lt_or_ge n 16 with hn | hn
      · rw [Nat.toDigits_of_lt_base hn]
        exact List.forall_mem_singleton.2 (hdigit n hn)
      · rw [Nat.toDigits_of_base_le (by decide) hn]
        exact List.forall_mem_append.2 ⟨ih (n / 16) (by omega),
          List.forall_mem_singleton.2 (hdigit _ (Nat.mod_lt n (by decide)))⟩

theorem isWord_intercalate {texts : List String} (h : ∀ text ∈ texts, IsWord text) :
    IsWord (",".intercalate texts) := by
  intro c hc
  rw [String.toList_intercalate] at hc
  rcases mem_of_mem_intercalate hc with rfl | ⟨letters, hletters, hc⟩
  · decide
  · obtain ⟨text, htext, rfl⟩ := List.mem_map.1 hletters
    exact h text htext c hc

def lineOf (words : List String) : String := " ".intercalate words ++ "\n"

structure IsLine (words : List String) : Prop where
  ne_nil : words ≠ []
  isWord : ∀ word ∈ words, IsWord word

theorem toList_lineOf (words : List String) :
    (lineOf words).toList = [' '].intercalate (words.map String.toList) ++ ['\n'] := by
  rw [lineOf, String.toList_append, String.toList_intercalate]
  rfl

variable {words words' : List String} {lines lines' : List (List String)}

theorem IsLine.eq_of_intercalate (h : IsLine words) (h' : IsLine words')
    (heq : [' '].intercalate (words.map String.toList) =
      [' '].intercalate (words'.map String.toList)) : words = words' := by
  have hblank : ∀ {words}, IsLine words → ∀ letters ∈ words.map String.toList, ' ' ∉ letters := by
    intro words h
    exact List.forall_mem_map.2 fun word hword hmem => (h.isWord word hword _ hmem).1 rfl
  have hletters := intercalate_inj (hblank h) (hblank h')
    (fun hnil => h.ne_nil (List.map_eq_nil_iff.1 hnil))
    (fun hnil => h'.ne_nil (List.map_eq_nil_iff.1 hnil)) heq
  exact List.map_injective_iff.2 (fun _ _ => String.toList_inj.1) hletters

theorem IsLine.not_mem (h : IsLine words) :
    '\n' ∉ [' '].intercalate (words.map String.toList) := by
  intro hmem
  rcases mem_of_mem_intercalate hmem with hblank | ⟨letters, hletters, hmem⟩
  · exact absurd hblank (by decide)
  · obtain ⟨word, hword, rfl⟩ := List.mem_map.1 hletters
    exact (h.isWord word hword _ hmem).2 rfl

theorem join_lineOf_inj (h : ∀ words ∈ lines, IsLine words) (h' : ∀ words ∈ lines', IsLine words)
    (heq : String.join (lines.map lineOf) = String.join (lines'.map lineOf)) : lines = lines' := by
  have hletters : ∀ lines : List (List String), (String.join (lines.map lineOf)).toList =
      (lines.map fun words => [' '].intercalate (words.map String.toList)).flatMap
        (· ++ ['\n']) := by
    intro lines
    rw [String.toList_join, List.flatMap_map, List.flatMap_map]
    simp only [toList_lineOf]
  have hlist := congrArg String.toList heq
  rw [hletters, hletters] at hlist
  have hbodies := eq_of_flatMap_marked
    (List.forall_mem_map.2 fun words hwords => (h words hwords).not_mem)
    (List.forall_mem_map.2 fun words hwords => (h' words hwords).not_mem) hlist
  exact eq_of_map_eq (fun words hwords words' hwords' =>
    (h words hwords).eq_of_intercalate (h' words' hwords')) hbodies

end Listing

/-! ## Numbers, pairings and lane sets -/

namespace Numeral

theorem repr_inj {n n' : Nat} (h : Nat.repr n = Nat.repr n') : n = n' := by
  have hdigits := congrArg String.toList h
  rw [Nat.toList_repr, Nat.toList_repr] at hdigits
  rw [← Nat.ofDigitChars_ten_toDigits (n := n), hdigits, Nat.ofDigitChars_ten_toDigits]

theorem twoDigit_inj {n n' : Nat} (h : twoDigit n = twoDigit n') : n = n' := by
  rw [← ofDigitChars_twoDigit n, h, ofDigitChars_twoDigit]

theorem digitChar_inj : ∀ a < 16, ∀ b < 16, Nat.digitChar a = Nat.digitChar b → a = b := by
  decide

theorem toDigits_sixteen_ne {n : Nat} (h : 16 ≤ n) (c : Char) : Nat.toDigits 16 n ≠ [c] := by
  rw [Nat.toDigits_of_base_le (by decide) h]
  intro hsingle
  have hlength := congrArg List.length hsingle
  rw [List.length_append, List.length_singleton, List.length_singleton, Nat.add_eq_right,
    List.length_eq_zero_iff] at hlength
  exact Nat.toDigits_ne_nil hlength

theorem toDigits_sixteen_inj {n n' : Nat} (h : Nat.toDigits 16 n = Nat.toDigits 16 n') :
    n = n' := by
  induction n using Nat.strongRecOn generalizing n' with
  | ind n ih =>
      rcases Nat.lt_or_ge n 16 with hn | hn
      · rw [Nat.toDigits_of_lt_base hn] at h
        rcases Nat.lt_or_ge n' 16 with hn' | hn'
        · rw [Nat.toDigits_of_lt_base hn'] at h
          exact digitChar_inj n hn n' hn' (List.cons.inj h).1
        · exact absurd h.symm (toDigits_sixteen_ne hn' _)
      · rcases Nat.lt_or_ge n' 16 with hn' | hn'
        · rw [Nat.toDigits_of_lt_base hn'] at h
          exact absurd h (toDigits_sixteen_ne hn _)
        · rw [Nat.toDigits_of_base_le (by decide) hn, Nat.toDigits_of_base_le (by decide) hn'] at h
          obtain ⟨hfront, hlast⟩ := List.append_inj' h rfl
          have hquotient := ih (n / 16) (by omega) hfront
          have hremainder := digitChar_inj _ (Nat.mod_lt n (by decide)) _
            (Nat.mod_lt n' (by decide)) (List.cons.inj hlast).1
          rw [← Nat.div_add_mod n 16, hquotient, hremainder, Nat.div_add_mod]

theorem hex_inj {n n' : Nat} (h : hex n = hex n') : n = n' :=
  toDigits_sixteen_inj (String.ofList_inj.1 h)

end Numeral

theorem LaneSet.text_inj {s s' : LaneSet} (h : s.text = s'.text) : s = s' := by
  have hbits := Numeral.hex_inj ((String.append_right_inj _).1 h)
  cases s
  cases s'
  exact congrArg LaneSet.mk hbits

namespace Pairing

theorem letters_repr (partners : List Nat) :
    ∀ letters ∈ partners.map fun q => (Nat.repr q).toList, ',' ∉ letters ∧ letters ≠ [] := by
  refine List.forall_mem_map.2 fun q _ => ?_
  rw [Nat.toList_repr]
  refine ⟨fun hcomma => ?_, Nat.toDigits_ne_nil⟩
  exact absurd (Nat.isDigit_of_mem_toDigits (by decide) (by decide) hcomma) (by decide)

theorem text_inj {p p' : Pairing} (h : p.text = p'.text) : p = p' := by
  have hlist := congrArg String.toList h
  simp only [text, String.toList_append, String.toList_intercalate, List.append_cancel_left_eq,
    List.append_cancel_right_eq, List.map_map] at hlist
  have hletters := intercalate_inj_of_ne_nil (letters_repr p.partners) (letters_repr p'.partners)
    hlist
  have hpartners : p.partners = p'.partners :=
    eq_of_map_eq (fun _ _ _ _ hq => Numeral.repr_inj (String.toList_inj.1 hq)) hletters
  cases p
  cases p'
  cases hpartners
  rfl

end Pairing

end Bitonic
