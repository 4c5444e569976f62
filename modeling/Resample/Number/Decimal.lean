import Resample.Number.Binary
import Resample.Number.Word

/-!
# Decimal numerals

Readers of numbers written with ASCII digits: natural numbers that fit a word, and numbers with a
decimal point as the nearest binary value.
-/

namespace Resample.Decimal

/-- Value of a digit. -/
def digitValue (c : Char) : Nat := c.toNat - '0'.toNat

/-- The number that a run of digits stands for. -/
def ofDigits (digits : List Char) : Nat :=
  digits.foldl (fun n c => 10 * n + digitValue c) 0

/-- A 64-bit word: one or more digits, after a plus sign or not. -/
def word? (text : List Char) : Option Nat :=
  let digits := match text with
    | '+' :: rest => rest
    | _ => text
  if digits.isEmpty || !digits.all Char.isDigit then none
  else
    let n := ofDigits digits
    if n ≤ Word.top then some n else none

/-- The value nearest to a number written with digits and at most one point, of which at least one is
a digit. -/
def binary? {F : Binary.Format} (text : List Char) : Option (Binary F) :=
  let whole := text.takeWhile Char.isDigit
  let rest := text.dropWhile Char.isDigit
  let fraction? : Option (List Char) := match rest with
    | [] => some []
    | '.' :: digits => if digits.all Char.isDigit then some digits else none
    | _ => none
  match fraction? with
  | none => none
  | some fraction =>
    if whole.isEmpty && fraction.isEmpty then none
    else some (.ofRatio false (ofDigits (whole ++ fraction) * F.one) (Nat.pow 10 fraction.length))

end Resample.Decimal
