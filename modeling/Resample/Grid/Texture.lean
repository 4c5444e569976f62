import Resample.Grid.Address
import Resample.Grid.Plane
import Resample.Number.Binary

/-!
# Textures

A texture is a view read in texel coordinates. Texel `i` of an axis covers the coordinates from `i` to
`i + 1` and has its center at `i + 1/2`. A bilinear read mixes the four texels whose centers surround
the coordinate.

The two axes of such a read are independent, so the coordinate of each is turned into a `Tap` first:
the texel on the low side and the weight, in 256ths, of its neighbour. The mix itself is exact
arithmetic on whole numbers with one rounding at the end.
-/

namespace Resample

/-! ## §1 Taps -/

/-- The weight of a whole texel. -/
def tapOne : Nat := 256

/-- One axis of a bilinear read: texel `base` with weight `tapOne - weight` and texel `base + 1` with
weight `weight`. -/
structure Tap where
  base : Int
  weight : Nat
  weight_le : weight ≤ tapOne
deriving DecidableEq

namespace Tap

/-- The tap at a coordinate: the texels are those whose centers surround it, and the weight is the
distance from the center of the first one, to the nearest 256th. -/
def ofCoordinate (u : Single) : Tap :=
  let fromFirst := u - Binary.ofHalves 1
  let first := fromFirst.floor
  let distance := fromFirst - first
  { base := first.toInt64
    weight := (distance * Binary.ofNat tapOne).roundWithin tapOne
    weight_le := Binary.roundWithin_le _ _ }

/-- The mean of two values weighted by a tap, in 256ths. -/
def mix (t : Tap) (first second : Nat) : Nat :=
  (tapOne - t.weight) * first + t.weight * second

end Tap

/-! ## §2 Textures -/

/-- A view with the rule for reads outside of it. -/
structure Texture where
  view : View
  mode : AddressMode

namespace Texture

/-- Refuses reads of a texture with an axis that its mode cannot look up. Where the first axis has no
texel, the second one is not asked. -/
def checkAxes (t : Texture) : Except Fault Unit := do
  if (← t.mode.lookup 0 t.view.window.width).isSome then
    discard (t.mode.lookup 0 t.view.window.height)

/-- The sample of channel `c` of the texel at an index pair, if both axes have that texel. -/
def texel? (t : Texture) (x y : Int) (c : Nat) : Option (Sample t.view.depth) := do
  let i ← t.mode.index? x t.view.window.width
  let j ← t.mode.index? y t.view.window.height
  t.view.window.get? t.view.data i j c

/-- The value of channel `c` at an index pair. -/
def fetch (t : Texture) (x y : Int) (c : Nat) : Nat :=
  match t.texel? x y c with
  | some s => s.val
  | none => t.mode.missing t.view.depth

/-- The value of channel `c` between texels: the mean of four texels weighted by a tap for each axis,
rounded to the nearest whole number, halves upwards. -/
def fetchBetween (t : Texture) (across down : Tap) (c : Nat) : Nat :=
  let upper := across.mix (t.fetch across.base down.base c) (t.fetch (across.base + 1) down.base c)
  let lower := across.mix (t.fetch across.base (down.base + 1) c)
    (t.fetch (across.base + 1) (down.base + 1) c)
  (down.mix upper lower + tapOne * tapOne / 2) / (tapOne * tapOne)

end Texture

end Resample
