import Resample.Grid.Texture

/-!
# The resampling filter

Along each axis the filter approximates the box `{w, 1, w}` over three texels with two bilinear reads.
A read that is `d` texels off the center of a texel weighs that texel by `1 - d` and its neighbour by
`d`; reads at `center - d` and `center + d` therefore add up to the box, up to a factor, when
`d = w / (1/2 + w)`.

The side weight `w` follows the scale: it is zero, so that both reads fall on the center, as long as
the grid does not shrink, and grows to one where it shrinks to a third.
-/

namespace Resample

/-- Side weight of the box for a ratio of source side to destination side. -/
def sideWeight (scale : Single) : Single :=
  Binary.clamp (Binary.ofNat 0) (Binary.ofNat 1) (Binary.ofHalves 1 * (scale - Binary.ofNat 1))

/-- Distance of the two reads from the center for a side weight. -/
def displacement (weight : Single) : Single := weight / (Binary.ofHalves 1 + weight)

/-- The two taps of one destination index. -/
structure TapPair where
  before : Tap
  after : Tap
deriving DecidableEq

/-- The filter along one axis; it is the same for every destination index. -/
structure AxisFilter where
  /-- Source texels per destination pixel. -/
  scale : Single
  /-- Distance of the taps from the center. -/
  offset : Single
deriving DecidableEq

namespace AxisFilter

/-- The filter that brings `source` texels to `dest` pixels. -/
def between (source dest : Nat) : AxisFilter :=
  let scale := Binary.ofNat source / Binary.ofNat dest
  { scale, offset := displacement (sideWeight scale) }

/-- Center of destination pixel `i` in texel coordinates. -/
def center (f : AxisFilter) (i : Nat) : Single :=
  (Binary.ofNat i + Binary.ofHalves 1) * f.scale

/-- The taps of destination pixel `i`. -/
def taps (f : AxisFilter) (i : Nat) : TapPair where
  before := Tap.ofCoordinate (f.center i - f.offset)
  after := Tap.ofCoordinate (f.center i + f.offset)

end AxisFilter

/-- Sum of the four bilinear reads of channel `c` for a pair of taps on each axis. -/
def Texture.sum (t : Texture) (across down : TapPair) (c : Nat) : Nat :=
  t.fetchBetween across.before down.before c + t.fetchBetween across.after down.before c +
    t.fetchBetween across.before down.after c + t.fetchBetween across.after down.after c

end Resample
