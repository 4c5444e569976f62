import Resample.Grid.Error
import Resample.Size.Output

/-!
# Output sizes that can fault

The sides of an output are computed from products of sides, in signed words of twice the usual width. Here
every number is looked at before it is used: one that no such word holds is a fault.
-/

namespace Resample

/-- A number, if a signed double word holds it. -/
def Word.double (i : Int) : Except Fault Int :=
  if -0x80000000000000000000000000000000 ≤ i ∧ i ≤ 0x7FFFFFFFFFFFFFFFFFFFFFFFFFFFFFFF then .ok i
  else .error .sizeOverflow

namespace Size

/-- `a * b / c` to the nearest integer, halves towards the sign of `c`; zero if `c` is. -/
def guardedRescale (a b c : Int) : Except Fault Int := do
  if c = 0 then return 0
  let product ← Word.double (a * b)
  let half ← Word.double (c.tdiv 2)
  let total ← Word.double (product + half)
  Word.double (total.tdiv c)

/-- The multiple that a negative value asks for. -/
def guardedMultiple (value : Int) : Except Fault Int :=
  if value < -1 then Word.double (-value) else .ok 1

/-- The side that follows the other one, as a multiple. -/
def guardedFollow (multiple other inSide inOther : Int) : Except Fault Int := do
  let divisor ← Word.double (inOther * multiple)
  let quotient ← guardedRescale other inSide divisor
  Word.double (quotient * multiple)

/-- The sides for two values; a negative one is derived from the other. -/
def guardedDerive (width height inWidth inHeight : Int) : Except Fault (Int × Int) := do
  let across ← guardedMultiple width
  let down ← guardedMultiple height
  let (w, h) := if width < 0 ∧ height < 0 then (inWidth, inHeight) else (width, height)
  let w ← if w < 0 then guardedFollow across h inWidth inHeight else .ok w
  let h ← if h < 0 then guardedFollow down w inHeight inWidth else .ok h
  return (w, h)

/-- The output size for two values, with everything looked at before it is used. -/
def guardedResolve (width height inWidth inHeight : Int) :
    Except Fault (Except SizeError (Nat × Nat)) := do
  let (w, h) ← guardedDerive width height inWidth inHeight
  if w ≤ 0 ∨ h ≤ 0 then return .error (.invalid (Word.saturate w) (Word.saturate h))
  let tooLarge : SizeError :=
    .tooLarge (Word.saturate w) (Word.saturate h) (Word.unsigned inWidth) (Word.unsigned inHeight)
  -- the second product is taken only if the first one is within the limit
  if productLimit < (← Word.double (h * inWidth)) then return .error tooLarge
  if productLimit < (← Word.double (w * inHeight)) then return .error tooLarge
  return .ok (Word.unsigned w, Word.unsigned h)

end Size

end Resample
