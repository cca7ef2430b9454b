import Bitonic.Lane.Set
import Bitonic.Memory
/-!
# Pairings

A pairing names, for every lane of a register, the lane that it is compared with.  A partner is
stored in 8 bits, so pairings of more than 256 lanes reach only their first 256.  That every partner
is a lane of the register is part of the type, so a register of the right length is always gathered.
-/

namespace Bitonic

structure Pairing where
  partners : List Nat
  partner_lt : ∀ p ∈ partners, p < partners.length
  deriving DecidableEq

namespace Pairing

/-- Partners are stored modulo this number. -/
def cellSize : Nat := 256

def length (p : Pairing) : Nat := p.partners.length

def isEmpty (p : Pairing) : Bool := p.partners.isEmpty

/-- Pairs lane `i` with the stored form of `f i`. -/
def ofFn (lanes : Nat) (f : Nat → Nat) (h : ∀ i < lanes, f i % cellSize < lanes) :
    Pairing where
  partners := (List.range lanes).map fun i => f i % cellSize
  partner_lt := by simpa using h

theorem length_ofFn {lanes : Nat} {f : Nat → Nat} {h : ∀ i < lanes, f i % cellSize < lanes} :
    (ofFn lanes f h).length = lanes := by simp [ofFn, length]

/-- The pairing of lane `i` with the stored form of `f i`, one byte for each lane. -/
def build (lanes : Nat) (f : Nat → Nat) (h : ∀ i < lanes, f i % cellSize < lanes) :
    Checked Pairing := do
  Memory.addressable.reserve lanes 1
  return ofFn lanes f h

def identity (lanes : Nat) : Checked Pairing :=
  build lanes id fun _ hi => Nat.lt_of_le_of_lt (Nat.mod_le _ _) hi

theorem xor_lt {lanes i j : Nat} (h : lanes.isPowerOfTwo) (hi : i < lanes) (hj : j < lanes) :
    i ^^^ j < lanes := by
  obtain ⟨k, rfl⟩ := h
  exact Nat.xor_lt_two_pow hi hj

theorem xor_mod_lt {lanes i j : Nat} (h : lanes.isPowerOfTwo) (hi : i < lanes) (hj : j < lanes) :
    (i ^^^ j) % cellSize < lanes :=
  Nat.lt_of_le_of_lt (Nat.mod_le _ _) (xor_lt h hi hj)

def atDistance (lanes distance : Nat) : Checked Pairing :=
  if hl : lanes.isPowerOfTwo then
    if hd : distance.isPowerOfTwo ∧ distance < lanes then
      build lanes (· ^^^ distance) fun _ hi => xor_mod_lt hl hi hd.2
    else .error (.xorDistanceOutOfRange distance lanes)
  else .error .laneCountNotPowerOfTwo

/-- Pairs every lane with its mirror image in its block of `block` lanes. -/
def folded (lanes block : Nat) : Checked Pairing :=
  if hl : lanes.isPowerOfTwo then
    if hb : block.isPowerOfTwo ∧ 2 ≤ block ∧ block ≤ lanes then
      build lanes (· ^^^ (block - 1)) fun _ hi => xor_mod_lt hl hi (by omega)
    else .error (.mirrorBlockOutOfRange block lanes)
  else .error .laneCountNotPowerOfTwo

def reversal (lanes : Nat) : Checked Pairing := folded lanes lanes

/-- Whether every partner is a lane without a mark.  A lane is marked before the next partner is
looked at, so none passes twice. -/
def allUnmarked : (marks : List Bool) → (partners : List Nat) → Bool
  | _, [] => true
  | marks, p :: partners => marks[p]? == some false && allUnmarked (marks.set p true) partners

theorem getElem?_set_true {marks : List Bool} {p q : Nat} :
    (marks.set p true)[q]? = some false ↔ p ≠ q ∧ marks[q]? = some false := by
  rw [List.getElem?_set]
  split
  · next h => split <;> simp [h]
  · next h => simp [h]

theorem allUnmarked_iff {marks : List Bool} {partners : List Nat} :
    allUnmarked marks partners = true ↔
      (∀ p ∈ partners, marks[p]? = some false) ∧ partners.Nodup := by
  -- every partner adds a mark, so the induction is for all marks
  induction partners generalizing marks with
  | nil => simp [allUnmarked]
  | cons p partners ih =>
    rw [allUnmarked, Bool.and_eq_true, beq_iff_eq, ih, List.forall_mem_cons, List.nodup_cons]
    simp only [getElem?_set_true]
    constructor
    · rintro ⟨hfirst, hrest, hnodup⟩
      exact ⟨⟨hfirst, fun q hq => (hrest q hq).2⟩, fun hp => (hrest p hp).1 rfl, hnodup⟩
    · rintro ⟨⟨hfirst, hrest⟩, hp, hnodup⟩
      exact ⟨hfirst, fun q hq => ⟨fun heq => hp (heq ▸ hq), hrest q hq⟩, hnodup⟩

theorem allUnmarked_replicate_iff {lanes : Nat} {partners : List Nat} :
    allUnmarked (List.replicate lanes false) partners = true ↔
      (∀ p ∈ partners, p < lanes) ∧ partners.Nodup := by
  simp [allUnmarked_iff, List.getElem?_replicate]

/-- The pairing with the given partners, if they are a permutation of the lanes and there are
between 1 and 255 of them. -/
def ofPartners? (partners : List Nat) : Option Pairing :=
  if partners.length = 0 ∨ cellSize ≤ partners.length then none
  else if h : allUnmarked (List.replicate partners.length false) partners = true then
    some {
      partners := partners.map (· % cellSize)
      partner_lt := by
        simp only [List.forall_mem_map, List.length_map]
        exact fun p hp =>
          Nat.lt_of_le_of_lt (Nat.mod_le _ _) ((allUnmarked_replicate_iff.1 h).1 p hp) }
  else none

def partnerOf (p : Pairing) (lane : Nat) : Checked Nat :=
  match p.partners[lane]? with
  | some q => .ok q
  | none => .error .indexOutOfRange

def pairs (p : Pairing) : List (Nat × Nat) := p.partners.zipIdx

def isSelfInverse (p : Pairing) : Bool :=
  p.pairs.all fun (q, lane) => p.partners[q]? == some lane

/-- The same test with every look-up at a lane that has to exist. -/
def checkedSelfInverse (p : Pairing) : Checked Bool :=
  p.pairs.allM fun (q, lane) => do return (← p.partnerOf q) == lane

/-- The lanes that receive the first value of their pair: the lower one of each pair. -/
def lowerLanes (p : Pairing) : Checked LaneSet :=
  (p.pairs.filter fun (q, lane) => lane < q).foldlM (fun lanes (_, lane) => lanes.insert lane)
    LaneSet.empty

/-- Whether some lane's partner lies in another group of `size` consecutive lanes. -/
def spansGroups (p : Pairing) (size : Nat) : Bool :=
  p.pairs.any fun (q, lane) => lane / max size 1 != q / max size 1

variable {α : Type}

def gatherCells (cells : Array α) : (places : List Nat) → (∀ p ∈ places, p < cells.size) → List α
  | [], _ => []
  | p :: places, h =>
    have : p < cells.size := h p List.mem_cons_self
    cells[p] :: gatherCells cells places fun q hq => h q (List.mem_cons_of_mem p hq)

def gather (p : Pairing) (register : List α) (h : register.length = p.length) : List α :=
  gatherCells register.toArray p.partners (by simpa [h, length] using p.partner_lt)

/-- Gathers a register of the pairing's length and refuses any other. -/
def permute (p : Pairing) (register : List α) : Checked (List α) :=
  if h : register.length = p.length then .ok (p.gather register h) else .error .lengthMismatch

@[simp] theorem length_gatherCells {cells : Array α} {places : List Nat}
    {h : ∀ p ∈ places, p < cells.size} : (gatherCells cells places h).length = places.length := by
  induction places with
  | nil => rfl
  | cons p places ih => simp [gatherCells, ih]

@[simp] theorem length_gather {p : Pairing} {register : List α}
    {h : register.length = p.length} : (p.gather register h).length = p.length := by
  simp [gather, length]

def text (p : Pairing) : String :=
  "[" ++ ",".intercalate (p.partners.map Nat.repr) ++ "]"

end Pairing

end Bitonic
