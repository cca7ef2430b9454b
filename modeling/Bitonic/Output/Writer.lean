import Bitonic.Failure
import Bitonic.Listing
/-!
# Writers

A writer takes bytes piece by piece until it has taken as many as it can, and fails from then on;
its flush may fail too.  How much of an offer it takes at once is up to the writer, as long as it is
something.
-/

namespace Bitonic

structure Writer where
  /-- Bytes that the writer takes in all; none for no limit. -/
  limit : Option Nat := none
  /-- How many bytes the writer would take of an offer, by what it has taken and what is offered. -/
  appetite : Nat → Nat → Nat := fun _ offered => offered
  /-- The failure of a full writer. -/
  refusal : FileError
  /-- The failure of the flush, if it fails. -/
  flushFailure : Option FileError := none

namespace Writer

/-- How many of `offered` bytes the writer takes after `taken`: at least one, if there is room. -/
def accepts (w : Writer) (taken offered : Nat) : Nat :=
  let wanted := min (max (w.appetite taken offered) 1) offered
  match w.limit with
  | some limit => min wanted (limit - taken)
  | none => wanted

/-- Offers all of `bytes` and returns what the writer has taken in the end. -/
def offer (w : Writer) (taken : Array UInt8) (bytes : List UInt8) :
    Array UInt8 × Except FileError Unit :=
  if bytes = [] then (taken, .ok ())
  else
    let n := w.accepts taken.size bytes.length
    if n = 0 then (taken, .error w.refusal)
    else w.offer (taken ++ bytes.take n) (bytes.drop n)
termination_by bytes.length
decreasing_by
  have := List.length_pos_iff.2 ‹_›
  rw [List.length_drop]
  omega

def flush (w : Writer) : Except FileError Unit :=
  match w.flushFailure with
  | some cause => .error cause
  | none => .ok ()

end Writer

namespace Listing

/-- Writes lines until one is a fault or the writer fails, and then flushes. -/
def writeLines (unit : String) (w : Writer) (taken : Array UInt8) :
    List (Checked String) → Array UInt8 × Outcome Unit
  | [] => (taken, w.flush.mapError fun cause => .error (.emission unit cause))
  | .error fault :: _ => (taken, .error (.fault fault))
  | .ok line :: rest =>
    match w.offer taken line.toUTF8.toList with
    | (taken, .ok ()) => writeLines unit w taken rest
    | (taken, .error cause) => (taken, Outcome.fail (.emission unit cause))

end Listing

namespace Plan

def writeListing (plan : Plan) (w : Writer) : Array UInt8 × Outcome Unit :=
  Listing.writeLines plan.title w #[] (Listing.lines plan)

end Plan

end Bitonic
