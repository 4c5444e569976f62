import Resample.Grid.Error
import Resample.Grid.Sample
import Resample.Number.Word

/-!
# Address modes

What a read finds beyond the edges of a grid. An address mode extends an axis of `len` texels to all
integers: every index is led back to a texel of the axis, or, in border mode, to none.
-/

namespace Resample

/-- Rule for the texels outside of a grid. -/
inductive AddressMode where
  /-- The edge texel goes on. -/
  | clamp
  /-- The grid is reflected at its edges, and the edge texel is repeated (`cba|abc|cba`). -/
  | mirror
  /-- All channels read as one value. -/
  | border (value : Sample .sixteen)
deriving DecidableEq, Repr, Inhabited

namespace AddressMode

/-- Length of the axis that mirroring repeats: twice the grid's, read as a signed word. -/
def mirrorPeriod (len : Nat) : Int := Word.signed (2 * len)

/-- The texel of an axis of `len` texels that index `i` reads, if there is one. -/
def index? (mode : AddressMode) (i : Int) (len : Nat) : Option Nat :=
  if len = 0 then none
  else
    match mode with
    | clamp => some (min i.toNat (len - 1))
    | mirror =>
      let r := (i % mirrorPeriod len).toNat
      some (if r < len then r else 2 * len - 1 - r)
    | border _ => if 0 ≤ i ∧ i < Word.signed len then some i.toNat else none

/-- The texel that index `i` reads. Mirroring needs a period that is a word. -/
def lookup (mode : AddressMode) (i : Int) (len : Nat) : Except Fault (Option Nat) :=
  if mode = mirror ∧ Word.top < 2 * len then .error .sizeOverflow else .ok (mode.index? i len)

/-- What a read without a texel finds in a grid of depth `d`. -/
def missing (mode : AddressMode) (d : Depth) : Nat :=
  match mode with
  | border value => min value.val d.top
  | clamp | mirror => 0

end AddressMode

end Resample
