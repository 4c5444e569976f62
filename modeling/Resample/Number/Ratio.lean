import Resample.Number.Word

/-!
# Bounded fractions

Aspect ratios are fractions in lowest terms whose terms are at most `2 ^ 31 - 1`. A fraction that does
not fit is replaced by the closest one that does; the search walks the continued fraction and ends
with a convergent or with a mediant of the last two. The fraction `0/1` means that a ratio is not
known.
-/

namespace Resample

/-- A fraction. Those made by `Ratio.reduce` have a positive denominator and lowest terms. -/
structure Ratio where
  num : Int
  den : Int
deriving DecidableEq, Repr

/-- A fraction of natural numbers, as the search for a close one meets it. -/
structure Convergent where
  num : Nat
  den : Nat
deriving DecidableEq, Repr

namespace Convergent

/-- The combination `k * c + older` of two convergents, by terms. -/
def extend (older c : Convergent) (k : Nat) : Convergent :=
  ⟨k * c.num + older.num, k * c.den + older.den⟩

/-- The same combination, with every product and every sum held by `cap`. -/
def extendCapped (cap : Nat → Nat) (older c : Convergent) (k : Nat) : Convergent :=
  ⟨cap (cap (k * c.num) + older.num), cap (cap (k * c.den) + older.den)⟩

/-- Whether both terms are at most `bound`. -/
def Within (bound : Nat) (c : Convergent) : Prop := c.num ≤ bound ∧ c.den ≤ bound

instance (bound : Nat) (c : Convergent) : Decidable (c.Within bound) :=
  inferInstanceAs (Decidable (_ ∧ _))

/-- The greatest `k` for which `extend older last k` is within the bound; `limit` if there is none. -/
def fitting (bound : Nat) (older last : Convergent) (limit : Nat) : Nat :=
  let byNum := if last.num = 0 then limit else (bound - older.num) / last.num
  if last.den = 0 then byNum else min byNum ((bound - older.den) / last.den)

/-- Walks the continued fraction of `num / den`, of which `older` and `last` are the convergents so
far, to the closest fraction within the bound. What may grow large is held by `cap`. -/
def closest (cap : Nat → Nat) (bound num den : Nat) (older last : Convergent) : Convergent :=
  if _hden : den = 0 then last
  else
    let digit := num / den
    let next := extendCapped cap older last digit
    if next.Within bound then closest cap bound den (num % den) last next
    else
      -- a smaller digit gives a mediant; it is closer than the last convergent if it is past halfway
      let k := fitting bound older last digit
      if cap (num * last.den) < cap (den * (2 * k * last.den + older.den)) then extend older last k
      else last
termination_by den
decreasing_by exact Nat.mod_lt _ (Nat.pos_of_ne_zero _hden)

/-- The fraction within the bound that is closest to `num / den`. -/
def approximate (cap : Nat → Nat) (bound num den : Nat) : Convergent :=
  let divisor := num.gcd den
  let reduced : Convergent := ⟨num / divisor, den / divisor⟩
  if reduced.Within bound then reduced
  else closest cap bound reduced.num reduced.den ⟨0, 1⟩ ⟨1, 0⟩

end Convergent

namespace Ratio

/-- The ratio that is not known. -/
def unknown : Ratio := ⟨0, 1⟩

/-- Largest term of a reduced fraction. -/
def bound : Nat := 0x7FFFFFFF

/-- Whether the ratio is not known. -/
def isUnknown (r : Ratio) : Bool := r.num = 0

/-- The closest fraction to `num / den` with bounded terms. It is unknown if a term is zero or the
fraction is too small. -/
def reduce (num den : Int) : Ratio :=
  if num = 0 ∨ den = 0 then unknown
  else
    let found := Convergent.approximate Word.wide bound num.natAbs den.natAbs
    if found.num = 0 then unknown
    else ⟨if (num < 0) = (den < 0) then found.num else -found.num, found.den⟩

/-- The closest fraction with bounded terms to a product. -/
def mul (a b : Ratio) : Ratio := reduce (a.num * b.num) (a.den * b.den)

/-- The two terms with a colon between them. -/
def text (r : Ratio) : String := s!"{r.num}:{r.den}"

end Ratio

end Resample
