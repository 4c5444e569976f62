import Resample.Number.Word

/-!
# Binary floating-point values

Values of a binary interchange format with exact arithmetic followed by one rounding.

A finite value is a sign and a whole number of *units*, where one unit is the least positive value of
the format. Sums of such values are exact whole numbers of units; products and quotients are exact
fractions of units. Every operation computes that exact result and rounds it once with
`Format.roundRatio`, to the nearest value of the format and, halfway between two of them, to the one
whose last significant bit is zero.

## Contents

- §1 formats, §2 rounding, §3 values, §4 arithmetic, §5 comparison, §6 whole numbers, §7 bit patterns
-/

namespace Resample

/-! ## §1 Formats -/

/-- A binary interchange format, given by the three numbers its arithmetic depends on. -/
structure Binary.Format where
  /-- Number of significant bits. -/
  precision : Nat
  /-- The least positive value is `2 ^ (-unitBits)`. -/
  unitBits : Nat
  /-- Every finite magnitude is below `2 ^ rangeBits`. -/
  rangeBits : Nat
deriving DecidableEq, Repr

namespace Binary.Format

/-- The 32-bit format. -/
def single : Format := ⟨24, 149, 128⟩

/-- The 64-bit format. -/
def double : Format := ⟨53, 1074, 1024⟩

variable (F : Format)

/-- Units in the number one. -/
def one : Nat := 1 <<< F.unitBits

/-- Magnitudes of this many units and more are beyond the finite values. -/
def limit : Nat := 1 <<< (F.rangeBits + F.unitBits)

/-- The exponent field that marks infinities and undefined values. -/
def topField : Nat := F.rangeBits + F.unitBits + 2 - F.precision

/-- Width of the exponent field. -/
def fieldBits : Nat := F.topField.log2 + 1

/-! ## §2 Rounding -/

/-- The whole number nearest to `n / d`; halfway between two, the even one. -/
def nearestEven (n d : Nat) : Nat :=
  let q := n / d
  let r := n % d
  if 2 * r < d ∨ (2 * r = d ∧ q % 2 = 0) then q else q + 1

/-- Distance between neighbouring values of the format around a magnitude of `n / d` units. -/
def step (n d : Nat) : Nat := 1 <<< ((n / d).log2 + 1 - F.precision)

/-- The magnitude of the format, in units, that is nearest to `n / d` units, as if the exponent were
unbounded above. -/
def roundRatio (n d : Nat) : Nat :=
  let s := F.step n d
  s * nearestEven n (d * s)

end Binary.Format

open Binary (Format)

/-! ## §3 Values -/

/-- A value of format `F`. Zeros are signed and so are infinities; there is one undefined value. -/
inductive Binary (F : Format) where
  /-- The undefined value, result of `0 / 0` and the like. -/
  | nan
  | infinite (negative : Bool)
  /-- The value `± units * 2 ^ (-F.unitBits)`. -/
  | finite (negative : Bool) (units : Nat)
deriving DecidableEq, Repr

/-- Values of the 32-bit format. -/
abbrev Single := Binary .single

/-- Values of the 64-bit format. -/
abbrev Double := Binary .double

namespace Binary

variable {F : Format}

instance : Inhabited (Binary F) := ⟨.finite false 0⟩

/-- A magnitude in units with a sign; one beyond the finite values is infinite. -/
def ofUnits (negative : Bool) (units : Nat) : Binary F :=
  if units < F.limit then .finite negative units else .infinite negative

/-- The value nearest to `± n / d` units. -/
def ofRatio (negative : Bool) (n d : Nat) : Binary F :=
  ofUnits negative (F.roundRatio n d)

/-- The value nearest to a natural number. -/
def ofNat (n : Nat) : Binary F := ofRatio false (n * F.one) 1

/-- The value nearest to an integer. -/
def ofInt (i : Int) : Binary F := ofRatio (i < 0) (i.natAbs * F.one) 1

/-- The value nearest to `n / 2`. -/
def ofHalves (n : Nat) : Binary F := ofRatio false (n * F.one) 2

/-- Whether the value is one of the two zeros. -/
def isZero : Binary F → Bool
  | .finite _ 0 => true
  | _ => false

/-! ## §4 Arithmetic -/

/-- Opposite value. -/
def neg : Binary F → Binary F
  | .nan => .nan
  | .infinite s => .infinite !s
  | .finite s u => .finite (!s) u

/-- Units with the sign applied. -/
def signedUnits (negative : Bool) (units : Nat) : Int :=
  if negative then -(units : Int) else units

/-- Sum. Opposite infinities have none. A sum of zero is negative only for two negative zeros. -/
def add : Binary F → Binary F → Binary F
  | .nan, _ | _, .nan => .nan
  | .infinite s, .infinite t => if s = t then .infinite s else .nan
  | .infinite s, .finite _ _ => .infinite s
  | .finite _ _, .infinite t => .infinite t
  | .finite s u, .finite t v =>
    let sum := signedUnits s u + signedUnits t v
    -- the sum is exact in units and is rounded once
    if sum = 0 then .finite (s && t) 0 else ofRatio (sum < 0) sum.natAbs 1

/-- Difference: the sum with the opposite of the second value. -/
def sub (a b : Binary F) : Binary F := add a (neg b)

/-- Product. Zero times an infinity is undefined. -/
def mul : Binary F → Binary F → Binary F
  | .nan, _ | _, .nan => .nan
  | .infinite s, .infinite t => .infinite (s != t)
  | .infinite s, .finite t v => if v = 0 then .nan else .infinite (s != t)
  | .finite s u, .infinite t => if u = 0 then .nan else .infinite (s != t)
  | .finite s u, .finite t v => ofRatio (s != t) (u * v) F.one

/-- Quotient. A non-zero value over zero is infinite; zero over zero is undefined. -/
def div : Binary F → Binary F → Binary F
  | .nan, _ | _, .nan => .nan
  | .infinite _, .infinite _ => .nan
  | .infinite s, .finite t _ => .infinite (s != t)
  | .finite s _, .infinite t => .finite (s != t) 0
  | .finite s u, .finite t v =>
    if v = 0 then
      if u = 0 then .nan else .infinite (s != t)
    else ofRatio (s != t) (u * F.one) v

instance : Neg (Binary F) := ⟨neg⟩
instance : Add (Binary F) := ⟨add⟩
instance : Sub (Binary F) := ⟨sub⟩
instance : Mul (Binary F) := ⟨mul⟩
instance : Div (Binary F) := ⟨div⟩

/-! ## §5 Comparison -/

/-- Strictly less. An undefined value is less than nothing and nothing is less than it. -/
def lt : Binary F → Binary F → Bool
  | .nan, _ | _, .nan => false
  | .infinite s, .infinite t => s && !t
  | .infinite s, .finite _ _ => s
  | .finite _ _, .infinite t => !t
  | .finite s u, .finite t v => signedUnits s u < signedUnits t v

/-- The value, or the bound that it lies beyond. An undefined value stays undefined. -/
def clamp (low high x : Binary F) : Binary F :=
  let raised := if x.lt low then low else x
  if high.lt raised then high else raised

/-! ## §6 Whole numbers -/

/-- Greatest whole value that is not above the given one. -/
def floor : Binary F → Binary F
  | .nan => .nan
  | .infinite s => .infinite s
  | .finite s u =>
    let whole := u / F.one
    -- below zero the greatest whole value that is not above is the one of greater magnitude
    .finite s ((if s && whole * F.one < u then whole + 1 else whole) * F.one)

/-- The integer part, of the finite values only. -/
def truncate? : Binary F → Option Int
  | .finite s u => some (signedUnits s (u / F.one))
  | _ => none

/-- The integer part within the 64-bit range; the undefined value counts as zero. -/
def toInt64 : Binary F → Int
  | .nan => 0
  | .infinite s => if s then Word.least else Word.greatest
  | .finite s u => Word.saturate (signedUnits s (u / F.one))

/-- The natural number nearest to the value, halves upwards, and no more than `top`. The undefined
value and negative values count as zero. -/
def roundWithin (top : Nat) : Binary F → Nat
  | .nan => 0
  | .infinite s => if s then 0 else top
  | .finite s u => if s then 0 else min ((2 * u + F.one) / (2 * F.one)) top

theorem roundWithin_le (top : Nat) (x : Binary F) : x.roundWithin top ≤ top := by
  cases x with
  | nan => exact Nat.zero_le _
  | infinite s => cases s <;> simp [roundWithin]
  | finite s u =>
    simp only [roundWithin]
    split
    · exact Nat.zero_le _
    · exact Nat.min_le_right _ _

/-! ## §7 Bit patterns -/

/-- Bits of a value: sign, exponent field, fraction. The undefined value has the quiet pattern. -/
def toBits : Binary F → Nat
  | .nan => F.topField <<< (F.precision - 1) + (1 <<< (F.precision - 2))
  | .infinite s => sign s + F.topField <<< (F.precision - 1)
  | .finite s u =>
    let shift := u.log2 + 1 - F.precision
    -- the leading bit of a normal value carries into the exponent field
    sign s + shift <<< (F.precision - 1) + u >>> shift
where
  /-- The sign bit. -/
  sign (negative : Bool) : Nat :=
    if negative then 1 <<< (F.precision - 1 + F.fieldBits) else 0

/-- The value that a bit pattern stands for. -/
def ofBits (bits : Nat) : Binary F :=
  let fraction := bits % (1 <<< (F.precision - 1))
  let field := (bits >>> (F.precision - 1)) % (1 <<< F.fieldBits)
  let negative := (bits >>> (F.precision - 1 + F.fieldBits)) % 2 = 1
  if field = F.topField then
    if fraction = 0 then .infinite negative else .nan
  -- without a leading bit: zeros and subnormal values
  else if field = 0 then .finite negative fraction
  else .finite negative ((1 <<< (F.precision - 1) + fraction) <<< (field - 1))

end Binary

end Resample
