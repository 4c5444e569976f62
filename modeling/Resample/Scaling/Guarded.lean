import Resample.Scaling.Scaler
import Resample.Size.Guarded

/-!
# Aspect ratios that can fault

The aspect ratio of an output is computed from products of sides in words, and from products of ratios in words
of twice the usual width. Here every number is looked at before it is used: one that no such word holds is a
fault, and so is a word that is not its own signed reading, and a difference below zero.
-/

namespace Resample

/-! ## §1 Numbers -/

namespace Word

/-- The largest double word. -/
def topDouble : Nat := count * count - 1

end Word

/-! ## §2 The search for a close fraction -/

namespace Convergent

/-- The combination `k * c + older` of two convergents, by terms. -/
def guardedExtend (older c : Convergent) (k : Nat) : Except Fault Convergent := do
  let num ← Word.held Word.topDouble (k * c.num)
  let num ← Word.held Word.topDouble (num + older.num)
  let den ← Word.held Word.topDouble (k * c.den)
  let den ← Word.held Word.topDouble (den + older.den)
  return ⟨num, den⟩

/-- The greatest `k` for which the combination is within the bound; `limit` if there is none. -/
def guardedFitting (bound : Nat) (older last : Convergent) (limit : Nat) : Except Fault Nat := do
  let byNum ← if last.num = 0 then .ok limit else (· / last.num) <$> Word.minus bound older.num
  if last.den = 0 then return byNum
  let byDen ← (· / last.den) <$> Word.minus bound older.den
  return min byNum byDen

/-- Walks the continued fraction of `num / den` to the closest fraction within the bound. -/
def guardedClosest (bound num den : Nat) (older last : Convergent) : Except Fault Convergent :=
  if _hden : den = 0 then .ok last
  else do
    let digit := num / den
    let whole ← Word.held Word.topDouble (den * digit)
    let _ ← Word.minus num whole
    let next ← guardedExtend older last digit
    if next.Within bound then guardedClosest bound den (num - den * digit) last next
    else
      let k ← guardedFitting bound older last digit
      let twice ← Word.held Word.topDouble (2 * k)
      let mirrored ← Word.held Word.topDouble (twice * last.den)
      let mirrored ← Word.held Word.topDouble (mirrored + older.den)
      let below ← Word.held Word.topDouble (den * mirrored)
      let above ← Word.held Word.topDouble (num * last.den)
      if above < below then guardedExtend older last k else return last
termination_by den
decreasing_by
  rw [← Nat.mod_def]
  exact Nat.mod_lt _ (Nat.pos_of_ne_zero _hden)

/-- The fraction within the bound that is closest to `num / den`. -/
def guardedApproximate (bound num den : Nat) : Except Fault Convergent :=
  let divisor := num.gcd den
  let reduced : Convergent := ⟨num / divisor, den / divisor⟩
  if reduced.Within bound then .ok reduced
  else guardedClosest bound reduced.num reduced.den ⟨0, 1⟩ ⟨1, 0⟩

end Convergent

/-! ## §3 Ratios -/

namespace Ratio

/-- The closest fraction to `num / den` with bounded terms. -/
def guardedReduce (num den : Int) : Except Fault Ratio := do
  if num = 0 ∨ den = 0 then return unknown
  let found ← Convergent.guardedApproximate bound num.natAbs den.natAbs
  if found.num = 0 then return unknown
  let top ← Word.held Word.greatest.toNat found.num
  let bottom ← Word.held Word.greatest.toNat found.den
  return ⟨if (num < 0) = (den < 0) then top else -top, bottom⟩

/-- The closest fraction with bounded terms to a product. -/
def guardedMul (a b : Ratio) : Except Fault Ratio := do
  let num ← Word.double (a.num * b.num)
  let den ← Word.double (a.den * b.den)
  guardedReduce num den

end Ratio

/-- The sample aspect ratio that keeps the display aspect ratio when the sides change. -/
def Scaler.guardedRescaleAspect (aspect : Ratio) (input output : Nat × Nat) : Except Fault Ratio := do
  if aspect.isUnknown then return .unknown
  let across ← Word.held Word.top (output.2 * input.1)
  let down ← Word.held Word.top (output.1 * input.2)
  -- both are read as signed words
  let across ← Word.held Word.greatest.toNat across
  let down ← Word.held Word.greatest.toNat down
  aspect.guardedMul (← Ratio.guardedReduce across down)

end Resample
