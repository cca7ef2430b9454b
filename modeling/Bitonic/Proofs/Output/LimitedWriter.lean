import Bitonic.Output.Writer
import Bitonic.Proofs.Output.Listings
/-!
# Listings through writers that fill up

However a writer cuts what it is offered into pieces, it has in the end taken the front of it, up to
its limit; so a listing may be offered line by line or in any other parts.

* `Writer.offer_eq` — what a writer takes of an offer, and how the offer ends;
* `Writer.offer_append` — an offer may be made in parts;
* `Listing.writeLines_eq_offer` — the lines of a listing come to an offer of its text;
* `Plan.writeListing_delivers` — a writer is delivered the front of the listing, and all of it
  exactly if the writing succeeds up to the flush.
-/

namespace Bitonic

namespace Text

theorem toList_loop_eq (bytes : ByteArray) (i : Nat) (front : List UInt8) :
    ByteArray.toList.loop bytes i front = front.reverse ++ bytes.data.toList.drop i := by
  induction hrest : bytes.size - i generalizing i front with
  | zero =>
      rw [ByteArray.toList.loop, if_neg (by omega), List.drop_eq_nil_of_le, List.append_nil]
      rw [Array.length_toList, ByteArray.size_data]
      omega
  | succ rest ih =>
      have hi : i < bytes.data.size := by
        rw [ByteArray.size_data]
        omega
      have hget : bytes.get! i = bytes.data[i] := getElem!_pos bytes.data i hi
      rw [ByteArray.toList.loop, if_pos (by omega), ih (i + 1) _ (by omega), hget,
        List.reverse_cons, List.append_assoc, List.singleton_append]
      congr 1
      exact (List.drop_eq_getElem_cons (by rwa [Array.length_toList])).symm

theorem toList_eq_data (bytes : ByteArray) : bytes.toList = bytes.data.toList := by
  rw [ByteArray.toList, toList_loop_eq]
  rfl

def bytes (text : String) : List UInt8 := text.toUTF8.toList

theorem bytes_empty : bytes "" = [] := by
  rw [bytes, toList_eq_data]
  rfl

theorem bytes_append (front back : String) : bytes (front ++ back) = bytes front ++ bytes back := by
  simp only [bytes, toList_eq_data, String.toUTF8_eq_toByteArray, String.toByteArray_append,
    ByteArray.data_append, Array.toList_append]

theorem bytes_join_cons (line : String) (lines : List String) :
    bytes (String.join (line :: lines)) = bytes line ++ bytes (String.join lines) := by
  have hjoin : ∀ front : String, lines.foldl (· ++ ·) front = front ++ String.join lines := by
    induction lines with
    | nil => exact fun front => String.append_empty.symm
    | cons line lines ih =>
        intro front
        rw [String.join, List.foldl_cons, List.foldl_cons, ih, ih, String.append_assoc,
          String.empty_append]
  rw [String.join, List.foldl_cons, hjoin, String.empty_append, bytes_append]

end Text

namespace Writer

variable {w : Writer}

def Holds (w : Writer) (count : Nat) : Prop := ∀ limit ∈ w.limit, count ≤ limit

/-- How many of `offered` bytes the writer takes after `taken`, in however many pieces. -/
def room (w : Writer) (taken offered : Nat) : Nat :=
  match w.limit with
  | some limit => min (limit - taken) offered
  | none => offered

theorem room_le (w : Writer) (taken offered : Nat) : w.room taken offered ≤ offered := by
  unfold room
  split
  · exact Nat.min_le_right _ offered
  · exact Nat.le_refl offered

theorem room_eq_iff {n : Nat} : w.room 0 n = n ↔ w.Holds n := by
  unfold room Holds
  cases w.limit with
  | none => simp
  | some limit =>
      have hmin : min (limit - 0) n = n ↔ n ≤ limit := by omega
      exact hmin.trans ⟨fun h _ hlimit => Option.some.inj hlimit ▸ h, fun h => h limit rfl⟩

theorem room_of_le {taken m n : Nat} (h : n ≤ w.room taken m) : w.room taken n = n := by
  unfold room at h ⊢
  cases hlimit : w.limit with
  | none => rfl
  | some limit =>
      rw [hlimit] at h
      dsimp only at h ⊢
      omega

theorem room_add (w : Writer) (taken m n : Nat) :
    w.room taken (m + n) =
      if w.room taken m = m then m + w.room (taken + m) n else w.room taken m := by
  unfold room
  cases w.limit with
  | none => rw [if_pos rfl]
  | some limit =>
      dsimp only
      split
      · omega
      · omega

/-- What a writer takes at once is no more than it has room for, and something if it has any. -/
theorem accepts_le_room (w : Writer) (taken offered : Nat) :
    w.accepts taken offered ≤ w.room taken offered ∧
      (w.accepts taken offered = 0 ↔ w.room taken offered = 0) := by
  unfold accepts room
  cases w.limit with
  | none =>
      dsimp only
      omega
  | some limit =>
      dsimp only
      omega

theorem append_append (taken : Array UInt8) (front back : List UInt8) :
    taken ++ front ++ back = taken ++ (front ++ back) := by
  apply Array.ext'
  simp only [Array.toList_appendList, List.append_assoc]

theorem size_append (taken : Array UInt8) (bytes : List UInt8) :
    (taken ++ bytes).size = taken.size + bytes.length := by
  rw [← Array.length_toList, Array.toList_appendList, List.length_append, Array.length_toList]

/-- What a writer has taken of an offer in the end, and whether that is all of it. -/
theorem offer_eq (w : Writer) (taken : Array UInt8) (bytes : List UInt8) :
    w.offer taken bytes = (taken ++ bytes.take (w.room taken.size bytes.length),
      if w.room taken.size bytes.length = bytes.length then .ok () else .error w.refusal) := by
  -- on the bytes that are left: a piece of them is taken until there are none or there is no room
  fun_induction w.offer taken bytes with
  | case1 taken =>
      have hroom : w.room taken.size 0 = 0 := Nat.le_zero.1 (w.room_le _ 0)
      simp [hroom]
  | case2 taken bytes hsome n hfull =>
      have hroom := (w.accepts_le_room taken.size bytes.length).2.1 hfull
      have hlength := List.length_pos_iff.2 hsome
      rw [hroom, if_neg (by omega)]
      simp
  | case3 taken bytes hsome n htaken ih =>
      have hle : n ≤ w.room taken.size bytes.length :=
        (w.accepts_le_room taken.size bytes.length).1
      have hlength := w.room_le taken.size bytes.length
      have htake : (bytes.take n).length = n := List.length_take_of_le (by omega)
      have hsplit : w.room taken.size bytes.length =
          n + w.room (taken.size + n) (bytes.length - n) := by
        have hadd := w.room_add taken.size n (bytes.length - n)
        rwa [if_pos (room_of_le hle), Nat.add_sub_cancel' (by omega)] at hadd
      have hsize : (taken ++ bytes.take n).size = taken.size + n := by
        rw [size_append, htake]
      rw [ih, hsize, List.length_drop, hsplit, List.take_add, append_append]
      have hall : w.room (taken.size + n) (bytes.length - n) = bytes.length - n ↔
          n + w.room (taken.size + n) (bytes.length - n) = bytes.length := by omega
      simp only [hall]

/-- An offer may be made in parts, of which none is looked at once the writer is full. -/
theorem offer_append (w : Writer) (taken : Array UInt8) (front back : List UInt8) :
    w.offer taken (front ++ back) =
      match w.offer taken front with
      | (taken, .ok ()) => w.offer taken back
      | (taken, .error cause) => (taken, .error cause) := by
  have hadd := w.room_add taken.size front.length back.length
  have hle := w.room_le taken.size front.length
  rw [offer_eq, offer_eq w taken front, List.length_append, hadd]
  by_cases hall : w.room taken.size front.length = front.length
  · simp only [hall, if_true, List.take_length, offer_eq, size_append,
      List.take_length_add_append, append_append, Nat.add_left_cancel_iff]
  · have hless : w.room taken.size front.length < front.length := by omega
    simp only [hall, if_false, List.take_append_of_le_length hle]
    rw [if_neg (by omega)]

end Writer

namespace Listing

/-- Lines that are written one by one come to an offer of the whole text. -/
theorem writeLines_eq_offer (unit : String) (w : Writer) (taken : Array UInt8)
    (lines : List String) :
    writeLines unit w taken (lines.map .ok) =
      match w.offer taken (Text.bytes (String.join lines)) with
      | (taken, .ok ()) => (taken, w.flush.mapError fun cause => .error (.emission unit cause))
      | (taken, .error cause) => (taken, Outcome.fail (.emission unit cause)) := by
  induction lines generalizing taken with
  | nil =>
      have hnone : Text.bytes (String.join []) = [] := Text.bytes_empty
      rw [hnone, Writer.offer, if_pos rfl]
      rfl
  | cons line lines ih =>
      rw [List.map_cons, writeLines, Text.bytes_join_cons, Writer.offer_append]
      rw [Text.bytes]
      cases w.offer taken line.toUTF8.toList with
      | mk taken result =>
        cases result with
        | error cause => rfl
        | ok _ => exact ih taken

end Listing

namespace Plan

variable {plan : Plan}

theorem writeListing_eq {lines : List String} (h : Listing.lines plan = lines.map .ok)
    {bytes : List UInt8} (hbytes : Text.bytes (String.join lines) = bytes) (w : Writer) :
    plan.writeListing w =
      ((#[] : Array UInt8) ++ bytes.take (w.room 0 bytes.length),
        if w.room 0 bytes.length = bytes.length then
          w.flush.mapError fun cause => .error (.emission plan.title cause)
        else Outcome.fail (.emission plan.title w.refusal)) := by
  rw [writeListing, h, Listing.writeLines_eq_offer, hbytes, Writer.offer_eq]
  simp only [List.size_toArray, List.length_nil]
  by_cases hroom : w.room 0 bytes.length = bytes.length
  · simp only [hroom, if_true]
  · simp only [hroom, if_false]

/-- A writer is delivered the front of a plan's listing, as much of it as it takes in all, and
nothing else.  The writing succeeds if that is the whole listing and the flush does; otherwise the
failure names the unit. -/
theorem writeListing_delivers (hplan : plan.Generated) (w : Writer) :
    ∃ text, plan.listing = .ok text ∧
      (plan.writeListing w).1.toList = (Text.bytes text).take (match w.limit with
        | some limit => min limit (Text.bytes text).length
        | none => (Text.bytes text).length) ∧
      ((plan.writeListing w).2 = .ok () ↔
        w.Holds (Text.bytes text).length ∧ w.flushFailure = none) ∧
      ((plan.writeListing w).2 ≠ .ok () → ∃ cause,
        (plan.writeListing w).2 = Outcome.fail (.emission plan.title cause) ∧
          (cause = w.refusal ∨ w.flushFailure = some cause)) := by
  obtain ⟨lines, hlines⟩ := Listing.exists_map_ok (Listing.exists_text_of_lines hplan.writable)
  refine ⟨String.join lines, listing_of_lines hlines, ?_⟩
  generalize hbytes : Text.bytes (String.join lines) = bytes
  rw [writeListing_eq hlines hbytes]
  refine ⟨by rw [Array.toList_appendList]; rfl, ?_⟩
  have hall := w.room_eq_iff (n := bytes.length)
  by_cases hholds : w.Holds bytes.length
  · rw [if_pos (hall.2 hholds)]
    cases hfailure : w.flushFailure with
    | none =>
        have hflush : w.flush = .ok () := by rw [Writer.flush, hfailure]
        simp [hflush, hholds, Except.mapError]
    | some cause =>
        have hflush : w.flush = .error cause := by rw [Writer.flush, hfailure]
        simp [hflush, Except.mapError, Outcome.fail]
  · rw [if_neg (mt hall.1 hholds)]
    simp [hholds, Outcome.fail]

/-- A writer that takes 40 bytes, 3 at a time, is delivered the first 40 of a listing. -/
theorem writeListing_delivers_forty :
    ∃ plan text, Plan.forType .int32 InstructionSet.neonProfile { widest := some 1 } = .ok plan ∧
      plan.listing = .ok text ∧
      (plan.writeListing ⟨some 40, fun _ _ => 3, .other "closed", none⟩).1.toList =
        (Text.bytes text).take (min 40 (Text.bytes text).length) := by
  obtain ⟨plan, hplan⟩ := Outcome.exists_eq_ok_of_isOk (x := Plan.forType .int32
    InstructionSet.neonProfile { widest := some 1 }) (by decide +kernel)
  obtain ⟨text, hlisting, hfront, _⟩ :=
    writeListing_delivers (.forType hplan) ⟨some 40, fun _ _ => 3, .other "closed", none⟩
  exact ⟨plan, text, hplan, hlisting, hfront⟩

end Plan

end Bitonic
