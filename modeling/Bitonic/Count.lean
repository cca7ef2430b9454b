import Bitonic.Fault
/-!
# Counts

Widths, lanes, lengths and register numbers are counts below `2 ^ 64`.  The operations here are the
ones of the naturals as long as the result is a count, and a fault otherwise.
-/

namespace Bitonic.Count

/-- Counts are below this number, `2 ^ 64`. -/
def limit : Nat := 0x10000000000000000

/-- Passes a count on and refuses a larger number. -/
def ofNat (n : Nat) : Checked Nat :=
  if n < limit then .ok n else .error .overflow

def add (a b : Nat) : Checked Nat := ofNat (a + b)

def mul (a b : Nat) : Checked Nat := ofNat (a * b)

def sub (a b : Nat) : Checked Nat :=
  if b ≤ a then .ok (a - b) else .error .overflow

/-- The values of `f` at `count` numbers from `first` on, behind those already made, which stand in
reverse.  None is looked at after a failure. -/
@[specialize] def mapFromOnto {m : Type → Type} [Monad m] {α : Type} (f : Nat → m α)
    (made : List α) (first : Nat) : Nat → m (List α)
  | 0 => return made.reverse
  | count + 1 => do
    let a ← f first
    mapFromOnto f (a :: made) (first + 1) count

@[inline] def mapFrom {m : Type → Type} [Monad m] {α : Type} (f : Nat → m α) (first count : Nat) :
    m (List α) :=
  mapFromOnto f [] first count

theorem mapFromOnto_eq_mapM {m : Type → Type} [Monad m] [LawfulMonad m] {α : Type}
    (f : Nat → m α) (made : List α) (first count : Nat) :
    mapFromOnto f made first count =
      (made.reverse ++ ·) <$> (List.range' first count).mapM f := by
  induction count generalizing made first with
  | zero => simp [mapFromOnto]
  | succ count ih => simp [mapFromOnto, List.range'_succ, ih]

theorem mapFrom_eq_mapM {m : Type → Type} [Monad m] [LawfulMonad m] {α : Type} (f : Nat → m α)
    (first count : Nat) : mapFrom f first count = (List.range' first count).mapM f := by
  simp [mapFrom, mapFromOnto_eq_mapM]

theorem ofNat_eq_ok {n : Nat} (h : n < limit) : ofNat n = .ok n := if_pos h

theorem add_eq_ok {a b : Nat} (h : a + b < limit) : add a b = .ok (a + b) := ofNat_eq_ok h

theorem mul_eq_ok {a b : Nat} (h : a * b < limit) : mul a b = .ok (a * b) := ofNat_eq_ok h

theorem sub_eq_ok {a b : Nat} (h : b ≤ a) : sub a b = .ok (a - b) := if_pos h

end Bitonic.Count

namespace Bitonic

/-- Half of `width` rounded up to a power of two, and 0 below 2: a network of `width` vectors splits
into its first `splitPoint width` vectors and the rest.  It is the largest power of two below
`width`. -/
def splitPoint (width : Nat) : Nat :=
  if width < 2 then 0 else Nat.pow 2 (width - 1).log2

/-- The split of a width whose power of two is a count: up to `2 ^ 63` it is. -/
def checkedSplitPoint (width : Nat) : Checked Nat :=
  if width ≤ 0x8000000000000000 then .ok (splitPoint width) else .error .overflow

theorem splitPoint_lt {width : Nat} (h : 2 ≤ width) : splitPoint width < width := by
  have hlog := Nat.log2_self_le (n := width - 1) (by omega)
  rw [splitPoint, if_neg (by omega), Nat.pow_eq]
  omega

theorem splitPoint_pos {width : Nat} (h : 2 ≤ width) : 0 < splitPoint width := by
  rw [splitPoint, if_neg (by omega)]
  exact Nat.two_pow_pos _

@[elab_as_elim]
theorem splitPoint_induction {motive : Nat → Prop} (width : Nat) (zero : motive 0) (one : motive 1)
    (split : ∀ width, motive (splitPoint (width + 2)) →
      motive (width + 2 - splitPoint (width + 2)) → motive (width + 2)) : motive width := by
  induction width using Nat.strongRecOn with
  | ind width ih =>
      match width with
      | 0 => exact zero
      | 1 => exact one
      | width + 2 =>
          have hlt := splitPoint_lt (show 2 ≤ width + 2 by omega)
          have hpos := splitPoint_pos (show 2 ≤ width + 2 by omega)
          exact split width (ih _ hlt) (ih _ (by omega))

end Bitonic
