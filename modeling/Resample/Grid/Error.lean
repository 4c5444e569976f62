/-!
# Refusals and faults of grids

What can go wrong with a grid is of two kinds. A *refusal* is an answer: the geometry does not hold
together, and the caller learns why. A *fault* is a request that has no answer at all. A number that is too
long for what is to hold it is a fault, too.
-/

namespace Resample

/-- Why a plane, a window or a copy is refused. -/
inductive GridError where
  | sizeMismatch (expected actual : Nat)
  | outOfBounds
  | invalidStride
  | invalidChannels (count : Nat)
  | allocation (samples : Nat)
deriving DecidableEq, Repr

/-- The text of a refusal. -/
def GridError.message : GridError → String
  | sizeMismatch expected actual => s!"size mismatch: expected {expected}, got {actual}"
  | outOfBounds => "out of bounds"
  | invalidStride => "invalid stride"
  | invalidChannels count => s!"unsupported channel count {count}, expected 1..=4"
  | allocation samples => s!"failed to allocate {samples} samples"

/-- A request that has no answer: the caller asked for what the object does not have. -/
inductive Fault where
  /-- A row number that is not below the height. -/
  | rowOutOfRange
  /-- Samples that lie behind the end of the window's part of the buffer. -/
  | samplesOutOfRange
  /-- Bands of no samples. -/
  | emptyBand
  /-- A size that no buffer can have, or no word. -/
  | sizeOverflow
deriving DecidableEq, Repr

/-- A fault in words. -/
def Fault.message : Fault → String
  | rowOutOfRange => "no such row"
  | samplesOutOfRange => "no such samples"
  | emptyBand => "bands without samples"
  | sizeOverflow => "size beyond all bounds"

/-- Channel counts of a grid are 1 to 4. -/
def checkChannels (channels : Nat) : Except GridError Unit :=
  if 1 ≤ channels ∧ channels ≤ 4 then .ok () else .error (.invalidChannels channels)

/-- Work goes on with a result that there is. -/
theorem bind_of_eq_ok {α β : Type} {first : Except Fault α} {a : α} (h : first = .ok a) (next : α → Except Fault β) :
    first >>= next = next a := by
  rw [h]
  rfl

namespace Word

/-- A number, if it is at most `limit`. -/
def held (limit n : Nat) : Except Fault Nat := if n ≤ limit then .ok n else .error .sizeOverflow

/-- The difference of two numbers, if the first one is not below the second one. -/
def minus (a b : Nat) : Except Fault Nat := if b ≤ a then .ok (a - b) else .error .sizeOverflow

theorem held_eq_ok {limit n : Nat} (h : n ≤ limit) : held limit n = .ok n := if_pos h

theorem minus_eq_ok {a b : Nat} (h : b ≤ a) : minus a b = .ok (a - b) := if_pos h

end Word

end Resample
